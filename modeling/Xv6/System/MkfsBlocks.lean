import Xv6.System.Mkfs

/-!
Blocks of an image that `mkfs` makes.

Blocks are handed out one after the other, so the blocks in use are those below `freeblock`, and each of
them is at one place, an address of an inode or of an indirect block. A file has the blocks that its
bytes reach into and no others. Both hold as long as the inodes stay in the inode blocks.
-/

namespace Xv6.Mkfs

open Dinode Function Inodes List Outcome State

/-! Inodes in their blocks. -/

structure Dinode.Fits (d : Dinode) : Prop where
  type : d.type < 2 ^ 16
  major : d.major < 2 ^ 16
  minor : d.minor < 2 ^ 16
  nlink : d.nlink < 2 ^ 16
  size : d.size < 2 ^ 32
  addrs : ∀ k, d.addrs k < 2 ^ 32

theorem word_lt (block : Block) (j : Nat) : word block j < 2 ^ 32 := by
  have h₀ := (block (4 * j)).toNat_lt
  have h₁ := (block (4 * j + 1)).toNat_lt
  have h₂ := (block (4 * j + 2)).toNat_lt
  have h₃ := (block (4 * j + 3)).toNat_lt
  unfold word
  omega

theorem fits_get (block : Block) (r : Nat) : (Dinode.get block r).Fits where
  type := Nat.mod_lt _ (by decide)
  major := by have := word_lt block (16 * r); simp only [Dinode.get]; omega
  minor := Nat.mod_lt _ (by decide)
  nlink := by have := word_lt block (16 * r + 1); simp only [Dinode.get]; omega
  size := word_lt ..
  addrs _ := word_lt ..

variable {d din din' : Dinode} {bn : Nat} {slot : Inodes.Slot} {m m' : State}

theorem Dinode.Fits.words_lt (fits : d.Fits) (j : Nat) : d.words j < 2 ^ 32 := by
  have := fits.type
  have := fits.major
  have := fits.minor
  have := fits.nlink
  unfold words
  split
  · omega
  · split
    · omega
    · split
      · exact fits.size
      · split
        · exact fits.addrs _
        · decide

theorem word_put (block : Block) (r : Nat) (fits : d.Fits) (j : Nat) :
    word (Dinode.put block r d) j = if j / 16 = r then d.words (j % 16) else word block j := by
  have small := fits.words_lt (j % 16)
  have at' : ∀ k < 4, put block r d (4 * j + k) =
      if j / 16 = r then UInt8.ofNat (d.words (j % 16) / 2 ^ (8 * k)) else block (4 * j + k) := by
    intro k less
    rw [put, show (4 * j + k) / 64 = j / 16 by omega, show (4 * j + k) / 4 % 16 = j % 16 by omega,
      show (4 * j + k) % 4 = k by omega]
  have first := at' 0 (by decide)
  rw [Nat.add_zero] at first
  rw [word, first, at' 1 (by decide), at' 2 (by decide), at' 3 (by decide)]
  split
  · simp only [UInt8.toNat_ofNat']
    omega
  · rfl

theorem get_put_self (block : Block) (r : Nat) (fits : d.Fits) :
    Dinode.get (Dinode.put block r d) r = d := by
  have at' : ∀ j < 16, word (put block r d) (16 * r + j) = d.words j := by
    intro j less
    rw [word_put block r fits, if_pos (by omega), show (16 * r + j) % 16 = j by omega]
  have first : word (put block r d) (16 * r) = d.words 0 := at' 0 (by decide)
  have typeFits := fits.type
  have minorFits := fits.minor
  obtain ⟨type, major, minor, nlink, size, addrs⟩ := d
  simp only [Dinode.get, first, at' 1 (by decide), at' 2 (by decide), Dinode.mk.injEq]
  dsimp only at typeFits minorFits
  refine ⟨?_, ?_, ?_, ?_, rfl, ?_⟩
  · change (type + 2 ^ 16 * major) % 2 ^ 16 = type
    omega
  · change (type + 2 ^ 16 * major) / 2 ^ 16 = major
    omega
  · change (minor + 2 ^ 16 * nlink) % 2 ^ 16 = minor
    omega
  · change (minor + 2 ^ 16 * nlink) / 2 ^ 16 = nlink
    omega
  · funext k
    have less := k.isLt
    have there := at' (3 + k) (by unfold Inodes.NDIRECT at *; omega)
    rw [← Nat.add_assoc] at there
    rw [there, words, if_neg (by omega), if_neg (by omega), if_neg (by omega), dif_pos (by omega)]
    simp only [Nat.add_sub_cancel_left]

theorem get_put_of_ne (block : Block) {r r' : Nat} (other : r' ≠ r) (fits : d.Fits) :
    Dinode.get (Dinode.put block r d) r' = Dinode.get block r' := by
  have at' : ∀ j < 16, word (put block r d) (16 * r' + j) = word block (16 * r' + j) := by
    intro j less
    rw [word_put block r fits, if_neg (by omega)]
  have first : word (put block r d) (16 * r') = word block (16 * r') := at' 0 (by decide)
  simp only [Dinode.get, first, at' 1 (by decide), at' 2 (by decide), Dinode.mk.injEq, true_and]
  funext k
  have there := at' (3 + k) (by have := k.isLt; unfold Inodes.NDIRECT at *; omega)
  rwa [← Nat.add_assoc] at there

/-- The inode as it is in the image. -/
def State.inode (m : State) (i : Nat) : Dinode := Dinode.get (m.sector (i / IPB + inodestart)) (i % IPB)

/-- An inode has been written. -/
structure Wrote (m : State) (inum : Nat) (d : Dinode) (m' : State) : Prop where
  count : m'.count = m.count
  freeinode : m'.freeinode = m.freeinode
  freeblock : m'.freeblock = m.freeblock
  outside : ∀ b, b < inodestart ∨ bmapstart ≤ b → m'.sector b = m.sector b
  inode : ∀ i, i < NINODES → m'.inode i = if i = inum then d else m.inode i

section Inodes

variable {m : State} {inum : Nat}

theorem inode_sector (small : inum < NINODES) :
    inodestart ≤ inum / IPB + inodestart ∧ inum / IPB + inodestart < bmapstart := by
  have : inum / 8 < 26 := by unfold NINODES at small; omega
  change 32 ≤ inum / 8 + 32 ∧ inum / 8 + 32 < 58
  omega

theorem rinode_eq (whole : m.count = FSSIZE) (small : inum < NINODES) :
    m.rinode inum = .ok (m.inode inum) := by
  have inside : inum / IPB + inodestart < m.count := by
    rw [whole]
    exact Nat.lt_trans (inode_sector small).2 (by decide)
  simp only [rinode, rsect, if_pos inside]
  rfl

theorem winode_wrote (whole : m.count = FSSIZE) (small : inum < NINODES) {d : Dinode} (fits : d.Fits) :
    ∃ m', m.winode inum d = .ok m' ∧ Wrote m inum d m' := by
  have bounds := inode_sector small
  have inside : inum / IPB + inodestart < m.count := by
    rw [whole]
    exact Nat.lt_trans bounds.2 (by decide)
  refine ⟨m.wsect (inum / IPB + inodestart) (put (m.sector (inum / IPB + inodestart)) (inum % IPB) d),
    ?_, Nat.max_eq_left inside, rfl, rfl, ?_, ?_⟩
  · simp only [winode, rsect, if_pos inside]
    rfl
  · intro b outside
    refine update_of_ne ?_ ..
    omega
  · intro i smallI
    change Dinode.get (update m.sector (inum / IPB + inodestart)
      (put _ (inum % IPB) d) (i / IPB + inodestart)) (i % IPB) = _
    by_cases sameBlock : i / 8 = inum / 8
    · have sector : i / IPB + inodestart = inum / IPB + inodestart := congrArg (· + inodestart) sameBlock
      rw [sector, update_self]
      by_cases same : i = inum
      · rw [if_pos same, same, get_put_self _ _ fits]
      · have other : i % IPB ≠ inum % IPB := by
          change i % 8 ≠ inum % 8
          omega
        rw [if_neg same, get_put_of_ne _ other fits, State.inode, sector]
    · have sector : i / IPB + inodestart ≠ inum / IPB + inodestart := by
        change i / 8 + 32 ≠ inum / 8 + 32
        omega
      rw [update_of_ne sector, if_neg (by rintro rfl; exact sameBlock rfl)]
      rfl

end Inodes

/-! Blocks and the bytes in them. -/

/-- Where the bytes start that need the address. -/
def reach : Inodes.Slot → Nat
  | .addr k => k * BSIZE
  | .ind j => (Inodes.NDIRECT + j) * BSIZE

theorem reach_slotAt (at' : slotAt bn = some slot) :
    reach slot = bn * BSIZE ∧ slot ≠ .addr indirect := by
  unfold slotAt at at'
  split at at'
  · rename_i direct
    cases at'
    refine ⟨rfl, fun same => ?_⟩
    have := congrArg Fin.val (Inodes.Slot.addr.inj same)
    exact absurd this (Nat.ne_of_lt direct)
  · split at at'
    · rename_i high _
      cases at'
      refine ⟨?_, fun same => by cases same⟩
      simp only [reach, Nat.add_sub_cancel' (Nat.le_of_not_lt high)]
    · cases at'

/-- The blocks below `freeblock` are in use, at the places in `held`, and the bytes of `c` are in them. -/
structure Filled (table : Nat → DInode) (m : State) (c : Nat → List UInt8) (held : Nat × Inodes.Slot → Prop) :
    Prop where
  count : m.count = FSSIZE
  volume : Volume sb table (fun b => decide (b < m.freeblock)) m.sector
  fresh : ∀ b, m.freeblock ≤ b → m.sector b = fun _ => 0
  exact' : ∀ i, i < NINODES → ∀ slot, entry m.sector (table i) slot ≠ 0 ↔ held (i, slot)
  free : ∀ i, i < NINODES → (table i).type = .FREE → ∀ slot, ¬ held (i, slot)
  bytes : ∀ i, i < NINODES → ∀ p v, (c i)[p]? = some v → ∃ slot, slotAt (p / BSIZE) = some slot ∧
    entry m.sector (table i) slot ≠ 0 ∧ m.sector (entry m.sector (table i) slot) (p % BSIZE) = v

section Filled

variable {table : Nat → DInode} {m : State} {c : Nat → List UInt8} {held : Nat × Inodes.Slot → Prop}

section

variable (filled : Filled table m c held)

include filled

theorem Filled.nmeta_le : nmeta ≤ m.freeblock :=
  of_decide_eq_true (filled.volume.metadata (nmeta - 1) (by decide))

variable {i : Nat} {data : Nat → Block} {table' : Nat → DInode} {m' : State} {slot : Inodes.Slot}

theorem Filled.place (small : i < NINODES) (slot : Inodes.Slot)
    (some' : entry m.sector (table i) slot ≠ 0) :
    placed NINODES table m.sector (i, slot) = some (entry m.sector (table i) slot) :=
  placed_eq_some.mpr ⟨small, fun free => filled.free i small free slot ((filled.exact' i small slot).mp some'),
    rfl, some'⟩

theorem Filled.once {i' : Nat} (slot slot' : Inodes.Slot) (small : i < NINODES)
    (small' : i' < NINODES) (some' : entry m.sector (table i) slot ≠ 0)
    (same : entry m.sector (table i') slot' = entry m.sector (table i) slot) :
    (i', slot') = (i, slot) := by
  have there := filled.place small' slot' (same ▸ some')
  rw [same] at there
  exact filled.volume.owned.once _ _ _ there (filled.place small slot some')

theorem Filled.below (small : i < NINODES) (slot : Inodes.Slot)
    (some' : entry m.sector (table i) slot ≠ 0) :
    nmeta ≤ entry m.sector (table i) slot ∧ entry m.sector (table i) slot < m.freeblock :=
  ⟨(filled.volume.owned.inside _ _ (filled.place small slot some')).1,
    of_decide_eq_true (filled.volume.owned.isMarked (filled.place small slot some'))⟩

theorem Filled.block (bn : Nat) (small : i < NINODES) (below : bn * BSIZE < (c i).length) :
    ∃ slot, slotAt bn = some slot ∧ entry m.sector (table i) slot ≠ 0 := by
  obtain ⟨slot, at', some', -⟩ := filled.bytes i small _ _ (getElem?_eq_getElem below)
  rw [Nat.mul_div_cancel _ (by decide)] at at'
  exact ⟨slot, at', some'⟩

theorem Filled.length_le (small : i < NINODES) :
    (c i).length ≤ MAXFILE * BSIZE := by
  by_contra long
  obtain ⟨slot, at', -⟩ := filled.block MAXFILE small (Nat.lt_of_not_le long)
  cases at'

theorem Filled.entry_same (sectors : ∀ b, nmeta ≤ b → data b = m.sector b) (small : i < NINODES)
    {n : DInode} (addrs : n.addrs = (table i).addrs) (slot : Inodes.Slot) :
    entry data n slot = entry m.sector (table i) slot := by
  have samePlaces : entry data n slot = entry data (table i) slot := by
    cases slot with
    | addr k => exact congrFun addrs k
    | ind j => simp only [entry, addrs]
  rw [samePlaces]
  exact entry_congr slot fun some' => sectors _ (filled.below small (.addr indirect) some').1

theorem Filled.placed_same (sectors : ∀ b, nmeta ≤ b → data b = m.sector b)
    (types : ∀ i, i < NINODES → (table' i).type = .FREE → (table i).type = .FREE)
    (addrs : ∀ i, i < NINODES → (table' i).addrs = (table i).addrs) :
    placed NINODES table' data = placed NINODES table m.sector := by
  have kept : ∀ i, i < NINODES → ∀ slot, entry data (table' i) slot = entry m.sector (table i) slot :=
    fun i small => filled.entry_same sectors small (addrs i small)
  funext ⟨i, slot⟩
  unfold placed
  by_cases here : i < NINODES ∧ entry m.sector (table i) slot ≠ 0
  · have allocated : (table i).type ≠ .FREE := fun free =>
      filled.free i here.1 free slot ((filled.exact' i here.1 slot).mp here.2)
    rw [if_pos ⟨here.1, fun free => allocated (types i here.1 free), by rw [kept i here.1]; exact here.2⟩,
      if_pos ⟨here.1, allocated, here.2⟩, kept i here.1]
  · rw [if_neg fun h => here ⟨h.1, by rw [← kept i h.1]; exact h.2.2⟩, if_neg fun h => here ⟨h.1, h.2.2⟩]

theorem Filled.congr (count : m'.count = m.count) (freeblock : m'.freeblock = m.freeblock)
    (sectors : ∀ b, nmeta ≤ b → m'.sector b = m.sector b)
    (types : ∀ i, i < NINODES → (table' i).type = .FREE → (table i).type = .FREE)
    (addrs : ∀ i, i < NINODES → (table' i).addrs = (table i).addrs)
    (sizes : ∀ i, i < NINODES → (table' i).size ≤ (c i).length) : Filled table' m' c held := by
  have kept : ∀ i, i < NINODES → ∀ slot, entry m'.sector (table' i) slot = entry m.sector (table i) slot :=
    fun i small => filled.entry_same sectors small (addrs i small)
  refine ⟨count.trans filled.count, ⟨?_, ?_, fun i small _ _ bn below => ?_⟩, ?_, ?_, ?_, ?_⟩
  · rw [freeblock]
    exact filled.placed_same sectors types addrs ▸ filled.volume.owned
  · rw [freeblock]
    exact filled.volume.metadata
  · obtain ⟨slot, at', some'⟩ := filled.block _ small (Nat.lt_of_lt_of_le below (sizes i small))
    exact ⟨slot, at', by rwa [kept i small]⟩
  · intro b above
    rw [freeblock] at above
    rw [sectors b (Nat.le_trans filled.nmeta_le above), filled.fresh b above]
  · intro i small slot
    rw [kept i small]
    exact filled.exact' i small slot
  · intro i small free slot
    exact filled.free i small (types i small free) slot
  · intro i small p v byte
    obtain ⟨slot, at', some', value⟩ := filled.bytes i small p v byte
    refine ⟨slot, at', by rwa [kept i small], ?_⟩
    rw [kept i small, sectors _ (filled.below small slot some').1]
    exact value

/-- A new block comes into an empty place. -/
theorem Filled.grow (small : i < NINODES) (allocated : (table i).type ≠ .FREE)
    (vacant : ¬ held (i, slot)) (room : m.freeblock < FSSIZE) (count : m'.count = m.count)
    (freeblock : m'.freeblock = m.freeblock + 1)
    (shape : ∀ i, (table' i).type = (table i).type ∧ (table' i).size = (table i).size)
    (entries : ∀ i', i' < NINODES → ∀ slot', entry m'.sector (table' i') slot' =
      if (i', slot') = (i, slot) then m.freeblock else entry m.sector (table i') slot')
    (blocks : ∀ b, (∀ i', i' < NINODES → (table i').addrs indirect = b → b = 0) → m'.sector b = m.sector b) :
    Filled table' m' c fun p => held p ∨ p = (i, slot) := by
  have empty : entry m.sector (table i) slot = 0 := by
    by_contra some'
    exact vacant ((filled.exact' i small slot).mp some')
  have pos : m.freeblock ≠ 0 := fun zero => absurd filled.nmeta_le (by rw [zero]; decide)
  have bits : update (fun b => decide (b < m.freeblock)) m.freeblock true =
      fun b => decide (b < m'.freeblock) := by
    funext b
    rw [freeblock, update_apply]
    split
    · rename_i here
      simp [here]
    · simp only [decide_eq_decide]
      omega
  have grown : placed NINODES table' m'.sector =
      update (placed NINODES table m.sector) (i, slot) (some m.freeblock) := by
    funext place
    obtain ⟨i', slot'⟩ := place
    by_cases here : (i', slot') = (i, slot)
    · cases here
      rw [update_self]
      refine placed_eq_some.mpr ⟨small, by rwa [(shape i).1], ?_, pos⟩
      rw [entries i small, if_pos rfl]
    · rw [update_of_ne here]
      refine placed_congr (by rw [(shape i').1]) fun small' _ => ?_
      rw [entries i' small', if_neg here]
  have vacantPlace : placed NINODES table m.sector (i, slot) = none := if_neg fun h => h.2.2 empty
  refine ⟨count.trans filled.count, ?_, ?_, ?_, ?_, ?_⟩
  · rw [← bits]
    exact filled.volume.grow (i, slot) room (decide_eq_false (Nat.lt_irrefl _)) vacantPlace shape grown
  · intro b above
    rw [blocks b, filled.fresh b (by omega)]
    intro i' small' here
    by_contra some'
    have := (filled.below small' (.addr indirect) (by rwa [entry, here])).2
    rw [entry, here] at this
    omega
  · intro i' small' slot'
    rw [entries i' small']
    split
    · rename_i here
      exact iff_of_true pos (.inr here)
    · rename_i other
      rw [filled.exact' i' small' slot']
      simp only [other, or_false]
  · intro i' small' free slot' holds
    rw [(shape i').1] at free
    obtain holds | here := holds
    · exact filled.free i' small' free slot' holds
    · cases here
      exact allocated free
  · intro i' small' p v byte
    obtain ⟨slot', at', some', value⟩ := filled.bytes i' small' p v byte
    have other : (i', slot') ≠ (i, slot) := fun here => by
      cases here
      exact some' empty
    refine ⟨slot', at', ?_, ?_⟩
    · rwa [entries i' small', if_neg other]
    · rw [entries i' small', if_neg other, blocks, value]
      intro i'' small'' here
      have same := filled.once slot' (.addr indirect) small' small'' some' here
      cases same
      exact absurd rfl (reach_slotAt at').2

theorem Filled.sector_update :
    (update m.sector m.freeblock fun _ => 0) = m.sector := by
  rw [← filled.fresh m.freeblock (Nat.le_refl _), update_eq_self]

theorem Filled.freeblock_ne : m.freeblock ≠ 0 :=
  fun zero => absurd filled.nmeta_le (by rw [zero]; decide)

/-- A new block becomes an address of the inode. -/
theorem Filled.setAddr {k : Fin (Inodes.NDIRECT + 1)} (small : i < NINODES)
    (allocated : (table i).type ≠ .FREE) (vacant : (table i).addrs k = 0)
    (room : m.freeblock < FSSIZE) :
    Filled (update table i { table i with addrs := update (table i).addrs k m.freeblock })
      { m with freeblock := m.freeblock + 1 } c fun p => held p ∨ p = (i, .addr k) := by
  refine filled.grow small allocated ?_ room rfl rfl (fun i' => ?_) (fun i' small' slot' => ?_) fun _ _ => rfl
  · rw [← filled.exact' i small]
    exact fun some' => some' vacant
  · by_cases here : i' = i
    · simp [here]
    · simp [here]
  · by_cases here : i' = i
    · subst here
      rw [update_self]
      by_cases isK : slot' = .addr k
      · rw [isK, if_pos rfl]
        simp [entry]
      · have apart : (table i').addrs indirect ≠ m.freeblock := fun same => by
          have := (filled.below small (.addr indirect) (by rw [entry, same]; exact filled.freeblock_ne)).2
          rw [entry, same] at this
          exact Nat.lt_irrefl _ this
        have kept : entry (update m.sector m.freeblock fun _ => 0) _ slot' = _ :=
          entry_setAddr vacant filled.freeblock_ne apart isK
        rw [filled.sector_update] at kept
        rw [if_neg (by simpa using isK)]
        exact kept
    · rw [update_of_ne here, if_neg (by simp [here])]

/-- A new block becomes an entry of the indirect block. -/
theorem Filled.setEntry {j : Fin NINDIRECT} (small : i < NINODES)
    (there : (table i).addrs indirect ≠ 0)
    (vacant : word (m.sector ((table i).addrs indirect)) j = 0) (room : m.freeblock < FSSIZE) :
    Filled table
      ({ m with freeblock := m.freeblock + 1 }.wsect ((table i).addrs indirect)
        (setWord (m.sector ((table i).addrs indirect)) j m.freeblock))
      c fun p => held p ∨ p = (i, .ind j) := by
  have bounds := filled.below small (.addr indirect) there
  have allocated : (table i).type ≠ .FREE := fun free =>
    filled.free i small free _ ((filled.exact' i small (.addr indirect)).mp there)
  have inside : (table i).addrs indirect < m.count := by
    rw [filled.count]
    exact Nat.lt_trans bounds.2 room
  refine filled.grow small allocated ?_ room (Nat.max_eq_left inside) rfl (fun _ => ⟨rfl, rfl⟩)
    (fun i' small' slot' => ?_) fun b outside => ?_
  · rw [← filled.exact' i small, entry, if_neg there]
    exact fun some' => some' vacant
  · change entry (update m.sector _ _) _ _ = _
    by_cases here : i' = i
    · subst here
      by_cases isJ : slot' = .ind j
      · rw [isJ, if_pos rfl, entry, if_neg there, update_self]
        exact word_setWord_self _ _ (Nat.lt_trans room (by decide))
      · have kept : entry (update (update m.sector m.freeblock fun _ => 0) _ _) _ slot' = _ :=
          entry_setEntry there isJ
        rw [filled.sector_update] at kept
        rw [if_neg (by simpa using isJ)]
        exact kept
    · rw [if_neg (by simp [here])]
      refine entry_congr slot' fun some' => update_of_ne (fun same => here ?_) ..
      exact congrArg Prod.fst (filled.once (.addr indirect) (.addr indirect) small small' there same)
  · refine update_of_ne (fun here => ?_) ..
    exact there (here ▸ outside i small here.symm)

/-- Bytes are appended within one block. -/
theorem Filled.write {n : Nat} {p : List UInt8} (small : i < NINODES)
    (at' : slotAt ((c i).length / BSIZE) = some slot) (there : entry m.sector (table i) slot ≠ 0)
    (enough : n ≤ p.length) (fits : (c i).length % BSIZE + n ≤ BSIZE)
    (room : m.freeblock ≤ FSSIZE) :
    Filled table
      (m.wsect (entry m.sector (table i) slot)
        (patch (m.sector (entry m.sector (table i) slot)) ((c i).length % BSIZE) n fun j => p.getD j 0))
      (update c i (c i ++ p.take n)) held := by
  have bounds := filled.below small slot there
  have inside : entry m.sector (table i) slot < m.count := by
    rw [filled.count]
    exact Nat.lt_of_lt_of_le bounds.2 room
  generalize isX : entry m.sector (table i) slot = x at *
  generalize isBlock : patch (m.sector x) ((c i).length % BSIZE) n (fun j => p.getD j 0) = block
  have kept : ∀ i', i' < NINODES → ∀ slot',
      entry (update m.sector x block) (table i') slot' = entry m.sector (table i') slot' := by
    intro i' small' slot'
    refine entry_congr slot' fun _ => update_of_ne (fun same => ?_) ..
    have one := filled.once slot (.addr indirect) small small' (isX ▸ there) (isX ▸ same)
    cases one
    exact (reach_slotAt at').2 rfl
  have allocated : (table i).type ≠ .FREE := fun free =>
    filled.free i small free _ ((filled.exact' i small slot).mp (isX ▸ there))
  refine ⟨(Nat.max_eq_left inside).trans filled.count,
    filled.volume.setData small allocated isX there (reach_slotAt at').2 block, fun b above => ?_,
    fun i' small' slot' => ?_, filled.free, fun i' small' q v byte => ?_⟩
  · have other : b ≠ x := fun same => absurd bounds.2 (Nat.not_lt.mpr (same ▸ above))
    exact (update_of_ne other ..).trans (filled.fresh b above)
  · exact (kept i' small' slot').symm ▸ filled.exact' i' small' slot'
  · change ∃ slot', _ ∧ entry (update m.sector x block) _ _ ≠ 0 ∧
      update m.sector x block (entry (update m.sector x block) _ _) _ = _
    by_cases old : (c i')[q]? = some v
    · -- the byte was there before; only bytes from the end of the file on are written
      obtain ⟨slot', at'', some', value⟩ := filled.bytes i' small' q v old
      refine ⟨slot', at'', by rwa [kept i' small'], ?_⟩
      rw [kept i' small', update_apply]
      split
      · rename_i same
        have one := filled.once slot slot' small small' (isX ▸ there) (same.trans isX.symm)
        cases one
        have block : q / BSIZE = (c i).length / BSIZE := by
          have := (reach_slotAt at').1.symm.trans (reach_slotAt at'').1
          unfold BSIZE at *
          omega
        have less := (List.getElem?_eq_some_iff.mp old).1
        rw [← isBlock, patch, if_neg, ← value, same]
        unfold BSIZE at *
        omega
      · exact value
    · have here : i' = i := by
        by_contra other
        rw [update_of_ne other] at byte
        exact old byte
      subst here
      rw [update_self] at byte
      have new : (c i').length ≤ q := by
        by_contra less
        rw [getElem?_append_left (by omega)] at byte
        exact old byte
      rw [getElem?_append_right new] at byte
      obtain ⟨less, value⟩ := List.getElem?_eq_some_iff.mp byte
      rw [length_take] at less
      have block' : q / BSIZE = (c i').length / BSIZE ∧
          (c i').length % BSIZE ≤ q % BSIZE ∧ q % BSIZE < (c i').length % BSIZE + n ∧
          q % BSIZE - (c i').length % BSIZE = q - (c i').length := by
        unfold BSIZE at *
        omega
      refine ⟨slot, by rw [block'.1, at'], by rwa [kept i' small', isX], ?_⟩
      rw [kept i' small', isX, update_self, ← isBlock, patch, if_pos ⟨block'.2.1, block'.2.2.1⟩,
        block'.2.2.2, ← value, getElem_take, List.getD,
        getElem?_eq_getElem (by omega), Option.getD_some]

end

end Filled

/-! Appending to a file. -/

/-- The places of the blocks that hold bytes. -/
def upTo (c : Nat → List UInt8) (p : Nat × Inodes.Slot) : Prop := reach p.2 < (c p.1).length

/-- What filling blocks leaves. -/
structure Kept (m : State) (din : Dinode) (m' : State) (din' : Dinode) : Prop where
  freeinode : m'.freeinode = m.freeinode
  sectors : ∀ b, b < nmeta → m'.sector b = m.sector b
  fields : din' = { din with addrs := din'.addrs }

theorem Kept.rfl' : Kept m din m din := ⟨rfl, fun _ _ => rfl, rfl⟩

theorem Kept.trans {m'' : State} {din'' : Dinode} (first : Kept m din m' din')
    (second : Kept m' din' m'' din'') : Kept m din m'' din'' where
  freeinode := second.freeinode.trans first.freeinode
  sectors b below := (second.sectors b below).trans (first.sectors b below)
  fields := by rw [second.fields, first.fields]

theorem Kept.type (kept : Kept m din m' din') :
    din'.inode.type = din.inode.type := by
  have same : din'.type = din.type := by rw [kept.fields]
  simp only [Dinode.inode, same]

/-- After `locate` the file has the block of the byte at its end. -/
structure Located (table : Nat → DInode) (c : Nat → List UInt8) (i : Nat) (m : State) (din : Dinode)
    (m' : State) (din' : Dinode) (x : Nat) : Prop where
  filled : Filled (Function.update table i din'.inode) m' c fun p =>
    upTo c p ∨ p.1 = i ∧ reach p.2 = (c i).length
  at' : ∃ slot, slotAt ((c i).length / BSIZE) = some slot ∧ entry m'.sector din'.inode slot = x
  some' : x ≠ 0
  kept : Kept m din m' din'
  room : m'.freeblock ≤ FSSIZE
  more : m'.freeblock ≤ m.freeblock + 2

theorem reach_mul (slot : Inodes.Slot) : reach slot = reach slot / BSIZE * BSIZE := by
  cases slot with
  | addr k => exact (Nat.div_mul_cancel (Nat.dvd_mul_left ..)).symm
  | ind j => exact (Nat.div_mul_cancel (Nat.dvd_mul_left ..)).symm

theorem reach_direct (direct : bn < Inodes.NDIRECT) (same : reach slot = bn * BSIZE) :
    slot = .addr ⟨bn, Nat.lt_succ_of_lt direct⟩ := by
  cases slot with
  | addr k =>
    refine congrArg Inodes.Slot.addr (Fin.ext ?_)
    simp only [reach] at same
    unfold BSIZE at same
    dsimp only
    omega
  | ind j =>
    simp only [reach] at same
    unfold BSIZE at same
    omega

theorem reach_indirect (high : Inodes.NDIRECT ≤ bn) (less : bn - Inodes.NDIRECT < NINDIRECT)
    (same : reach slot = bn * BSIZE) :
    slot = .addr indirect ∨ slot = .ind ⟨bn - Inodes.NDIRECT, less⟩ := by
  cases slot with
  | addr k =>
    refine .inl (congrArg Inodes.Slot.addr (Fin.ext ?_))
    have last := k.isLt
    simp only [reach] at same
    unfold BSIZE at same
    unfold Inodes.NDIRECT at high last
    change k.val = 12
    omega
  | ind j =>
    refine .inr (congrArg Inodes.Slot.ind (Fin.ext ?_))
    simp only [reach] at same
    unfold BSIZE at same
    dsimp only
    omega

section Append

variable {table : Nat → DInode} {m : State} {c : Nat → List UInt8} {held : Nat × Inodes.Slot → Prop}
  {i : Nat} {din : Dinode} {off : Nat} {p : List UInt8}

theorem allocAddr_filled (filled : Filled table m c held) (small : i < NINODES)
    (here : table i = din.inode) (allocated : (table i).type ≠ .FREE) (k : Fin (Inodes.NDIRECT + 1))
    (room : din.addrs k = 0 → m.freeblock < FSSIZE) :
    Filled (update table i (m.allocAddr din k).2.inode) (m.allocAddr din k).1 c
      fun p => held p ∨ p = (i, .addr k) := by
  unfold allocAddr
  split
  · rename_i vacant
    have next := filled.setAddr small allocated (show (table i).addrs k = 0 by rw [here]; exact vacant)
      (room vacant)
    rw [here] at next
    exact next
  · rename_i occupied
    have same : (fun p => held p ∨ p = (i, .addr k)) = held := by
      funext p
      refine propext ⟨fun holds => ?_, .inl⟩
      obtain holds | at' := holds
      · exact holds
      · subst at'
        exact (filled.exact' i small (.addr k)).mp (by rw [here]; exact occupied)
    rw [same, ← here, update_eq_self]
    exact filled

theorem allocAddr_kept (m : State) (din : Dinode) (k : Fin (Inodes.NDIRECT + 1)) :
    Kept m din (m.allocAddr din k).1 (m.allocAddr din k).2 ∧
      (m.allocAddr din k).1.freeblock ≤ m.freeblock + 1 ∧
      (m.allocAddr din k).1.sector = m.sector ∧ (m.allocAddr din k).1.count = m.count := by
  unfold allocAddr
  split
  · exact ⟨⟨rfl, fun _ _ => rfl, rfl⟩, Nat.le_refl _, rfl, rfl⟩
  · exact ⟨Kept.rfl', Nat.le_succ _, rfl, rfl⟩

theorem allocAddr_addr (m : State) (din : Dinode) (k : Fin (Inodes.NDIRECT + 1)) :
    (m.allocAddr din k).2.addrs k = if din.addrs k = 0 then m.freeblock else din.addrs k := by
  unfold allocAddr
  split
  · exact update_self ..
  · rfl

theorem allocAddr_below (filled : Filled table m c held) (small : i < NINODES)
    (here : table i = din.inode) (k : Fin (Inodes.NDIRECT + 1)) (room : m.freeblock ≤ FSSIZE)
    (high : FSSIZE ≤ (m.allocAddr din k).2.addrs k) : FSSIZE ≤ m.freeblock := by
  rw [allocAddr_addr] at high
  split at high
  · exact high
  · rename_i occupied
    have inside := (filled.below small (.addr k) (by rw [here]; exact occupied)).2
    rw [here] at inside
    exact absurd (Nat.lt_of_le_of_lt high inside) (Nat.not_lt.mpr room)

theorem allocAddr_room (room : m.freeblock ≤ FSSIZE) (din : Dinode) (k : Fin (Inodes.NDIRECT + 1))
    (low : (m.allocAddr din k).2.addrs k < FSSIZE) : (m.allocAddr din k).1.freeblock ≤ FSSIZE := by
  rw [allocAddr_addr] at low
  unfold allocAddr
  split
  · rename_i vacant
    rwa [if_pos vacant] at low
  · exact room

theorem allocAddr_some (filled : Filled table m c held) (k : Fin (Inodes.NDIRECT + 1)) :
    (m.allocAddr din k).2.addrs k ≠ 0 := by
  rw [allocAddr_addr]
  split
  · exact filled.freeblock_ne
  · assumption

theorem locate_direct (m : State) (din : Dinode) {fbn : Nat} (direct : fbn < Inodes.NDIRECT) :
    m.locate din fbn = .ok ((m.allocAddr din ⟨fbn, Nat.lt_succ_of_lt direct⟩).1,
      (m.allocAddr din ⟨fbn, Nat.lt_succ_of_lt direct⟩).2,
      (m.allocAddr din ⟨fbn, Nat.lt_succ_of_lt direct⟩).2.addrs ⟨fbn, Nat.lt_succ_of_lt direct⟩) := by
  rw [locate, dif_pos direct]

/-- The block that has been found, if there was room for it. -/
def AtEnd (table : Nat → DInode) (c : Nat → List UInt8) (i : Nat) (m : State) (din : Dinode)
    (r : State × Dinode × Nat) : Prop :=
  r.1.count = FSSIZE ∧ (FSSIZE ≤ r.2.2 → FSSIZE < m.freeblock + 2) ∧
    (r.2.2 < FSSIZE → Located table c i m din r.1 r.2.1 r.2.2)

/-- The block of the byte at the end of a file that has direct blocks only. -/
theorem locate_direct_sat (filled : Filled table m c (upTo c)) (small : i < NINODES)
    (here : table i = din.inode) (allocated : (table i).type ≠ .FREE)
    (direct : (c i).length / BSIZE < Inodes.NDIRECT) (room : m.freeblock ≤ FSSIZE) :
    Sat (fun _ => FSSIZE < m.freeblock + 2) (AtEnd table c i m din) (m.locate din ((c i).length / BSIZE)) := by
  rw [locate_direct m din direct]
  generalize isK : (⟨(c i).length / BSIZE, Nat.lt_succ_of_lt direct⟩ : Fin (Inodes.NDIRECT + 1)) = k
  have starts : reach (.addr k) = (c i).length / BSIZE * BSIZE := by rw [← isK]; rfl
  have below : (c i).length / BSIZE * BSIZE ≤ (c i).length := Nat.div_mul_le_self ..
  have isAddr := allocAddr_addr m din k
  obtain ⟨kept, more, -, count⟩ := allocAddr_kept m din k
  refine .ok ⟨count.trans filled.count, fun high => ?_, fun low =>
    ⟨?_, ⟨.addr k, ?_, rfl⟩, allocAddr_some filled k, kept, allocAddr_room room din k low,
      Nat.le_succ_of_le more⟩⟩
  · exact Nat.lt_of_le_of_lt (allocAddr_below filled small here k room high)
      (Nat.lt_add_of_pos_right (by decide))
  · have next := allocAddr_filled filled small here allocated k fun vacant => by
      rwa [isAddr, if_pos vacant] at low
    have same : (fun p => upTo c p ∨ p = (i, .addr k)) =
        fun p => upTo c p ∨ p.1 = i ∧ reach p.2 = (c i).length := by
      funext ⟨i', slot⟩
      refine propext (or_congr_right' fun beyond => ⟨fun at' => ?_, fun at' => ?_⟩)
      · cases at'
        refine ⟨rfl, Nat.le_antisymm ?_ (Nat.le_of_not_lt beyond)⟩
        exact starts ▸ below
      · obtain ⟨rfl, ends⟩ := at'
        have ends : reach slot = (c i').length := ends
        have isSlot : slot = .addr k := isK ▸ reach_direct direct (ends ▸ reach_mul slot)
        rw [isSlot]
    rwa [same] at next
  · rw [slotAt, dif_pos direct, isK]

/-- The places that a block beyond the direct ones may come into. -/
theorem upTo_indirect (high : ¬ (c i).length / BSIZE < Inodes.NDIRECT)
    (less : (c i).length / BSIZE - Inodes.NDIRECT < NINDIRECT) :
    (fun p => (upTo c p ∨ p = (i, .addr indirect)) ∨
        p = (i, .ind ⟨(c i).length / BSIZE - Inodes.NDIRECT, less⟩)) =
      fun p => upTo c p ∨ p.1 = i ∧ reach p.2 = (c i).length := by
  have below : (c i).length / BSIZE * BSIZE ≤ (c i).length := Nat.div_mul_le_self ..
  funext ⟨i', slot⟩
  rw [or_assoc]
  refine propext (or_congr_right' fun beyond => ⟨fun at' => ?_, fun at' => ?_⟩)
  · obtain at' | at' := at'
    · cases at'
      refine ⟨rfl, Nat.le_antisymm ?_ (Nat.le_of_not_lt beyond)⟩
      exact Nat.le_trans (Nat.mul_le_mul_right BSIZE (Nat.le_of_not_lt high)) below
    · cases at'
      refine ⟨rfl, Nat.le_antisymm ?_ (Nat.le_of_not_lt beyond)⟩
      simp only [reach]
      rwa [Nat.add_sub_cancel' (Nat.le_of_not_lt high)]
  · obtain ⟨rfl, ends⟩ := at'
    have ends : reach slot = (c i').length := ends
    have starts : reach slot = (c i').length / BSIZE * BSIZE := by rw [← ends, ← reach_mul]
    obtain isSlot | isSlot := reach_indirect (Nat.le_of_not_lt high) less starts
    · exact .inl (by rw [isSlot])
    · exact .inr (by rw [isSlot])

/-- The block of the byte at the end of a file that goes beyond the direct blocks. -/
theorem locate_indirect_sat (filled : Filled table m c (upTo c)) (small : i < NINODES)
    (here : table i = din.inode) (allocated : (table i).type ≠ .FREE)
    (high : ¬ (c i).length / BSIZE < Inodes.NDIRECT)
    (less : (c i).length / BSIZE - Inodes.NDIRECT < NINDIRECT) (room : m.freeblock ≤ FSSIZE) :
    Sat (fun _ => FSSIZE < m.freeblock + 2) (AtEnd table c i m din) (m.locate din ((c i).length / BSIZE)) := by
  rw [locate, dif_neg high]
  have below : (c i).length / BSIZE * BSIZE ≤ (c i).length := Nat.div_mul_le_self ..
  have outside := allocAddr_below filled small here indirect room
  have some' : (m.allocAddr din indirect).2.addrs indirect ≠ 0 := allocAddr_some filled indirect
  obtain ⟨kept, more, sectors, count⟩ := allocAddr_kept m din indirect
  have next := fun h => allocAddr_filled filled small here allocated indirect h
  have isAddr := allocAddr_addr m din indirect
  have still := fun low => allocAddr_room room din indirect low
  generalize m.allocAddr din indirect = alloc at *
  obtain ⟨m₁, din₁⟩ := alloc
  dsimp only at *
  have whole : m₁.count = FSSIZE := count.trans filled.count
  by_cases inside : din₁.addrs indirect < m₁.count
  · rw [rsect, if_pos inside]
    rw [whole] at inside
    have next := next fun vacant => by rwa [isAddr, if_pos vacant] at inside
    have isInode : update table i din₁.inode i = din₁.inode := update_self ..
    have there : (update table i din₁.inode i).addrs indirect ≠ 0 := by rwa [isInode]
    have isSlot : slotAt ((c i).length / BSIZE) = some (.ind ⟨_, less⟩) := by
      rw [slotAt, dif_neg high, dif_pos less]
    change Sat _ _ (if word (m₁.sector (din₁.addrs indirect)) _ = 0 then Except.ok (_, din₁, word (setWord _ _ _) _)
      else Except.ok (m₁, din₁, word (m₁.sector (din₁.addrs indirect)) _))
    split
    · rename_i vacant
      have isX : word (setWord (m₁.sector (din₁.addrs indirect)) ((c i).length / BSIZE - Inodes.NDIRECT)
          m₁.freeblock) ((c i).length / BSIZE - Inodes.NDIRECT) = m₁.freeblock :=
        word_setWord_self _ _ (Nat.lt_of_le_of_lt more (Nat.lt_of_le_of_lt (Nat.succ_le_succ room) (by decide)))
      rw [isX]
      refine .ok ⟨(Nat.max_eq_left (whole.symm ▸ inside)).trans whole, fun high => ?_, fun low =>
        ⟨?_, ⟨.ind ⟨_, less⟩, isSlot, ?_⟩, next.freeblock_ne, ?_, low, ?_⟩⟩
      · exact Nat.lt_succ_of_le (Nat.le_trans high more)
      · have last := next.setEntry small (j := ⟨_, less⟩) there (by rw [isInode]; exact vacant) low
        rw [isInode, upTo_indirect high less] at last
        exact last
      · rw [entry]
        refine (if_neg some').trans ?_
        refine Eq.trans ?_ isX
        exact congrArg (word · _) (update_self ..)
      · refine kept.trans ⟨rfl, fun b low => update_of_ne (fun same => ?_) .., rfl⟩
        have above := (next.below small (.addr indirect) there).1
        rw [isInode] at above
        have above : nmeta ≤ din₁.addrs indirect := above
        exact absurd low (Nat.not_lt.mpr (same ▸ above))
      · exact Nat.succ_le_succ more
    · rename_i occupied
      have isX : entry m₁.sector (update table i din₁.inode i) (.ind ⟨_, less⟩) =
          word (m₁.sector (din₁.addrs indirect)) ((c i).length / BSIZE - Inodes.NDIRECT) := by
        rw [isInode]
        exact if_neg some'
      have bounds := next.below small (.ind ⟨_, less⟩) (by rw [isX]; exact occupied)
      rw [isX] at bounds
      refine .ok ⟨whole, fun high => ?_, fun low =>
        ⟨?_, ⟨.ind ⟨_, less⟩, isSlot, isInode ▸ isX⟩, occupied, kept, still inside,
          Nat.le_succ_of_le more⟩⟩
      · exact Nat.lt_of_le_of_lt high (Nat.lt_succ_of_lt (Nat.lt_of_lt_of_le bounds.2 more))
      · have holds := (next.exact' i small (.ind ⟨_, less⟩)).mp (by rw [isX]; exact occupied)
        have same : (fun p => upTo c p ∨ p = (i, .addr indirect)) =
            fun p => upTo c p ∨ p.1 = i ∧ reach p.2 = (c i).length := by
          rw [← upTo_indirect high less]
          funext p
          refine propext ⟨.inl, fun either => ?_⟩
          obtain either | rfl := either
          · exact either
          · exact holds
        rwa [same] at next
  · rw [rsect, if_neg inside]
    rw [whole] at inside
    exact .error (Nat.lt_of_le_of_lt (outside (Nat.le_of_not_lt inside)) (Nat.lt_add_of_pos_right (by decide)))

theorem locate_sat (filled : Filled table m c (upTo c)) (small : i < NINODES)
    (here : table i = din.inode) (allocated : (table i).type ≠ .FREE)
    (less : (c i).length / BSIZE < MAXFILE) (room : m.freeblock ≤ FSSIZE) :
    Sat (fun _ => FSSIZE < m.freeblock + 2) (AtEnd table c i m din) (m.locate din ((c i).length / BSIZE)) := by
  by_cases direct : (c i).length / BSIZE < Inodes.NDIRECT
  · exact locate_direct_sat filled small here allocated direct room
  · have less : (c i).length / BSIZE < Inodes.NDIRECT + NINDIRECT := less
    exact locate_indirect_sat filled small here allocated direct
      (Nat.sub_lt_left_of_lt_add (Nat.le_of_not_lt direct) less) room

/-- The blocks that appending may take. -/
def need (off n : Nat) : Nat := if n = 0 then 0 else 2 * ((off % BSIZE + n + (BSIZE - 1)) / BSIZE)

theorem need_whole {n : Nat} (pos : 0 < n) (fits : off % BSIZE + n ≤ BSIZE) : need off n = 2 := by
  rw [need, if_neg (by omega)]
  unfold BSIZE at *
  omega

theorem need_part {n k : Nat} (pos : 0 < k) (ends : off % BSIZE + k = BSIZE) (less : k ≤ n) :
    need off n = 2 + need (off + k) (n - k) := by
  rw [need, need, if_neg (by omega)]
  unfold BSIZE at *
  split
  · omega
  · omega

/-- Appending in the blocks of a file that is open as `din`. -/
structure Appended (table : Nat → DInode) (c : Nat → List UInt8) (i : Nat) (p : List UInt8) (m : State)
    (din : Dinode) (m' : State) (din' : Dinode) (off : Nat) : Prop where
  filled : Filled (Function.update table i din'.inode) m' (Function.update c i (c i ++ p))
    (upTo (Function.update c i (c i ++ p)))
  off : off = (c i).length + p.length
  kept : Kept m din m' din'
  room : m'.freeblock ≤ FSSIZE
  more : m'.freeblock ≤ m.freeblock + need (c i).length p.length

/-- The places after one chunk of the block. -/
theorem upTo_chunk (some' : p ≠ []) (fits : (c i).length % BSIZE + p.length ≤ BSIZE) :
    (fun q => upTo c q ∨ q.1 = i ∧ reach q.2 = (c i).length) = upTo (update c i (c i ++ p)) := by
  funext ⟨i', slot⟩
  have pos : 0 < p.length := length_pos_iff.mpr some'
  have isMul := reach_mul slot
  simp only [upTo]
  by_cases here : i' = i
  · subst here
    simp only [update_self, length_append, true_and, eq_iff_iff]
    unfold BSIZE at *
    omega
  · simp only [here, update_of_ne here, false_and, or_false]

theorem appendLoop_cons (m : State) (din : Dinode) (some' : p ≠ []) (off : Nat) :
    m.appendLoop din p off =
      if off / BSIZE < MAXFILE then
        m.locate din (off / BSIZE) >>= fun r => r.1.rsect r.2.2 >>= fun buf =>
          (r.1.wsect r.2.2 (patch buf (off - off / BSIZE * BSIZE)
              (min p.length ((off / BSIZE + 1) * BSIZE - off)) fun i => p.getD i 0)).appendLoop r.2.1
            (p.drop (min p.length ((off / BSIZE + 1) * BSIZE - off)))
            (off + min p.length ((off / BSIZE + 1) * BSIZE - off))
      else .error .aborted := by
  cases p with
  | nil => exact absurd rfl some'
  | cons v p => rw [appendLoop]

theorem appendLoop_sat (p : List UInt8) {table : Nat → DInode} {m : State} {c : Nat → List UInt8}
    {din : Dinode} (filled : Filled table m c (upTo c)) (small : i < NINODES) (here : table i = din.inode)
    (allocated : (table i).type ≠ .FREE) (room : m.freeblock ≤ FSSIZE) :
    Sat (fun _ => FSSIZE < m.freeblock + need (c i).length p.length ∨
        MAXFILE * BSIZE < (c i).length + p.length)
      (fun r => Appended table c i p m din r.1 r.2.1 r.2.2) (m.appendLoop din p (c i).length) := by
  induction size : p.length using Nat.strong_induction_on generalizing p table m c din with
  | _ n ih =>
    subst size
    by_cases isNil : p = []
    · subst isNil
      rw [appendLoop]
      refine .ok ⟨?_, rfl, Kept.rfl', room, Nat.le_add_right ..⟩
      rw [append_nil, update_eq_self, ← here, update_eq_self]
      exact filled
    · have pos : 0 < p.length := length_pos_iff.mpr isNil
      rw [appendLoop_cons _ _ isNil]
      split
      · rename_i less
        generalize isN : min p.length (((c i).length / BSIZE + 1) * BSIZE - (c i).length) = n₁
        have isAt : (c i).length - (c i).length / BSIZE * BSIZE = (c i).length % BSIZE := by
          unfold BSIZE
          omega
        have chunk : 0 < n₁ ∧ n₁ ≤ p.length ∧ (c i).length % BSIZE + n₁ ≤ BSIZE ∧
            (n₁ = p.length ∨ (c i).length % BSIZE + n₁ = BSIZE) := by
          unfold BSIZE at *
          omega
        have needs : 2 ≤ need (c i).length p.length := by
          obtain all | part := chunk.2.2.2
          · exact Nat.le_of_eq (need_whole pos (all ▸ chunk.2.2.1)).symm
          · rw [need_part chunk.1 part chunk.2.1]
            exact Nat.le_add_right ..
        rw [isAt]
        refine Sat.bind ((locate_sat filled small here allocated less room).mono
          (fun _ tight => .inl ?_) fun _ found => found) fun r found => ?_
        · omega
        · obtain ⟨m', din', x⟩ := r
          obtain ⟨count, tight, located⟩ := found
          dsimp only at *
          by_cases inside : x < FSSIZE
          · have located := located inside
            obtain ⟨slot, isSlot, isX⟩ := located.at'
            have isInode : update table i din'.inode i = din'.inode := update_self ..
            have isX : entry m'.sector (update table i din'.inode i) slot = x := by rwa [isInode]
            rw [rsect, if_pos (by rwa [count])]
            change Sat _ _ (appendLoop _ din' _ _)
            have chunkLength : (p.take n₁).length = n₁ := length_take_of_le chunk.2.1
            have next := located.filled.write (p := p) small isSlot (isX ▸ located.some') chunk.2.1 chunk.2.2.1
              located.room
            rw [isX, upTo_chunk (p := p.take n₁) (ne_nil_of_length_pos (by omega)) (by omega)] at next
            have isLength : (update c i (c i ++ p.take n₁) i).length = (c i).length + n₁ := by
              rw [update_self, length_append, chunkLength]
            have rest := ih (p.drop n₁).length (by rw [length_drop]; omega) (p.drop n₁) next
              isInode (by rwa [isInode, located.kept.type, ← here]) located.room rfl
            have spent : need (c i).length p.length = 2 + need ((c i).length + n₁) (p.drop n₁).length := by
              rw [length_drop]
              obtain all | part := chunk.2.2.2
              · rw [need_whole pos (all ▸ chunk.2.2.1), all, Nat.sub_self, need, if_pos rfl]
              · exact need_part chunk.1 part chunk.2.1
            have more := located.more
            rw [isLength] at rest
            refine rest.mono (fun _ tight => ?_) fun r appended => ?_
            · rw [length_drop] at tight spent
              change FSSIZE < m'.freeblock + _ ∨ _ at tight
              omega
            · obtain ⟨m'', din'', off⟩ := r
              obtain ⟨filled, isOff, kept, room, more'⟩ := appended
              dsimp only at *
              rw [isLength] at isOff more'
              rw [update_self, append_assoc, take_append_drop, update_idem, update_idem] at filled
              refine ⟨filled, ?_, located.kept.trans ⟨kept.freeinode, fun b low => ?_, kept.fields⟩, room, ?_⟩
              · rw [isOff, length_drop]
                omega
              · refine (kept.sectors b low).trans (update_of_ne (fun same => ?_) ..)
                have above := (located.filled.below small slot (isX ▸ located.some')).1
                rw [isX] at above
                exact absurd low (Nat.not_lt.mpr (same ▸ above))
              · change _ ≤ m'.freeblock + _ at more'
                omega
          · rw [rsect, if_neg (by rwa [count])]
            have := tight (Nat.le_of_not_lt inside)
            exact .error (.inl (by omega))
      · refine .error (.inr ?_)
        unfold BSIZE at *
        omega

end Append

end Xv6.Mkfs
