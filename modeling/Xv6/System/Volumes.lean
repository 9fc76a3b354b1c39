import Xv6.Library.Ledger
import Xv6.System.Inodes

/-!
Who owns the blocks of a disk.

Every address of an allocated inode is a place that may hold a block. A volume is sound
if no block is in two places, the bitmap marks the data blocks that are in some place, and the
blocks of a file reach as far as its size. The rules are what allocation, truncation and
writing do to the inodes, the bitmap and the data blocks.
-/

namespace Xv6.Inodes

open Function

theorem word_setWord_self (block : Block) (j : Nat) {v : Nat} (small : v < 2 ^ 32) :
    word (setWord block j v) j = v := by
  have at' : ∀ k < 4, setWord block j v (4 * j + k) = UInt8.ofNat (v / 2 ^ (8 * k)) := by
    intro k less
    have quotient : (4 * j + k) / 4 = j := by omega
    have rest : (4 * j + k) % 4 = k := by omega
    rw [setWord, if_pos quotient, rest]
  have first : setWord block j v (4 * j) = UInt8.ofNat (v / 2 ^ (8 * 0)) := at' 0 (by decide)
  rw [word, first, at' 1 (by decide), at' 2 (by decide), at' 3 (by decide)]
  simp only [UInt8.toNat_ofNat']
  omega

theorem word_setWord_of_ne (block : Block) {j k : Nat} (other : k ≠ j) (v : Nat) :
    word (setWord block j v) k = word block k := by
  have at' : ∀ i, i < 4 → setWord block j v (4 * k + i) = block (4 * k + i) := by
    intro i less
    rw [setWord, if_neg (by omega)]
  have first : setWord block j v (4 * k) = block (4 * k) := at' 0 (by decide)
  rw [word, first, at' 1 (by decide), at' 2 (by decide), at' 3 (by decide)]
  rfl

theorem word_zero (j : Nat) : word (fun _ => 0) j = 0 := rfl

/-- The block that an address of an allocated inode holds. -/
def placed (ninodes : Nat) (table : Nat → DInode) (data : Nat → Block) (place : Nat × Slot) :
    Option Nat :=
  if place.1 < ninodes ∧ (table place.1).type ≠ .FREE ∧ entry data (table place.1) place.2 ≠ 0 then
    some (entry data (table place.1) place.2)
  else none

/-- The place of a file's block with number `bn`. -/
def slotAt (bn : Nat) : Option Slot :=
  if h : bn < NDIRECT then some (.addr ⟨bn, Nat.lt_succ_of_lt h⟩)
  else if h : bn - NDIRECT < NINDIRECT then some (.ind ⟨bn - NDIRECT, h⟩)
  else none

/-- The byte at a position of a file; there are zeros where a block is missing. -/
def contents (data : Nat → Block) (n : DInode) (x : Nat) : UInt8 :=
  match slotAt (x / BSIZE) with
  | some slot => if entry data n slot = 0 then 0 else data (entry data n slot) (x % BSIZE)
  | none => 0

/-- The blocks of a file below its size are there. -/
def Whole (data : Nat → Block) (n : DInode) : Prop :=
  n.type ≠ .FREE → n.type ≠ .T_DEV → ∀ bn, bn * BSIZE < n.size →
    ∃ slot, slotAt bn = some slot ∧ entry data n slot ≠ 0

structure Volume (sb : Superblock) (table : Nat → DInode) (bit : Nat → Bool) (data : Nat → Block) :
    Prop where
  owned : Ledger.Marked (fun b => sb.size - sb.nblocks ≤ b ∧ b < sb.size) bit
    (placed sb.ninodes table data)
  metadata : ∀ b, b < sb.size - sb.nblocks → bit b = true
  whole : ∀ i, i < sb.ninodes → Whole data (table i)

variable {ninodes b : Nat} {table : Nat → DInode} {data data' : Nat → Block} {place : Nat × Slot}
  {n : DInode} {slot : Slot}

theorem placed_eq_some :
    placed ninodes table data place = some b ↔ place.1 < ninodes ∧ (table place.1).type ≠ .FREE ∧
      entry data (table place.1) place.2 = b ∧ b ≠ 0 := by
  unfold placed
  constructor
  · intro held
    split at held
    · rename_i there
      cases held
      exact ⟨there.1, there.2.1, rfl, there.2.2⟩
    · cases held
  · rintro ⟨small, allocated, rfl, some⟩
    rw [if_pos ⟨small, allocated, some⟩]

variable {table' : Nat → DInode}

theorem placed_congr (type : (table' place.1).type = .FREE ↔ (table place.1).type = .FREE)
    (same : place.1 < ninodes → (table place.1).type ≠ .FREE →
      entry data' (table' place.1) place.2 = entry data (table place.1) place.2) :
    placed ninodes table' data' place = placed ninodes table data place := by
  unfold placed
  by_cases there : place.1 < ninodes ∧ (table place.1).type ≠ .FREE
  · rw [same there.1 there.2]
    simp only [ne_eq, type]
  · rw [if_neg fun held => there ⟨held.1, fun free => held.2.1 (type.mpr free)⟩,
      if_neg fun held => there ⟨held.1, held.2.1⟩]

/-- An indirect block that is not written keeps its entries. -/
theorem entry_congr (slot : Slot)
    (same : n.addrs indirect ≠ 0 → data' (n.addrs indirect) = data (n.addrs indirect)) :
    entry data' n slot = entry data n slot := by
  cases slot with
  | addr k => rfl
  | ind j =>
    simp only [entry]
    split
    · rfl
    · rename_i some
      rw [same some]

variable {k : Fin (NDIRECT + 1)}

/-- A new address leaves the others. -/
theorem entry_setAddr (vacant : n.addrs k = 0) (pos : b ≠ 0)
    (apart : n.addrs indirect ≠ b) (other : slot ≠ .addr k) :
    entry (update data b fun _ => 0) { n with addrs := update n.addrs k b } slot =
      entry data n slot := by
  cases slot with
  | addr k' =>
    have other : k' ≠ k := fun same => other (same ▸ rfl)
    simp [entry, other]
  | ind j =>
    by_cases isIndirect : indirect = k
    · simp [entry, isIndirect, vacant, pos, word_zero]
    · simp [entry, isIndirect, apart]

variable {j : Fin NINDIRECT}

/-- A new entry of the indirect block leaves the others. -/
theorem entry_setEntry (there : n.addrs indirect ≠ 0) (other : slot ≠ .ind j) :
    entry (update (update data b fun _ => 0) (n.addrs indirect)
      (setWord (data (n.addrs indirect)) j b)) n slot = entry data n slot := by
  cases slot with
  | addr k => rfl
  | ind j' =>
    have other : j'.val ≠ j.val := fun same => other (congrArg Slot.ind (Fin.ext same))
    simp only [entry, there, if_false, update_self]
    exact word_setWord_of_ne _ other b

/-- The slot of a block of the file is not the indirect block's. -/
theorem slotAt_ne_indirect {bn : Nat} (at' : slotAt bn = some slot) :
    slot ≠ .addr indirect := by
  unfold slotAt at at'
  split at at'
  · rename_i less
    cases at'
    intro same
    have : bn = NDIRECT := congrArg Fin.val (Slot.addr.inj same)
    omega
  · split at at'
    · cases at'
      simp
    · cases at'

theorem slotAt_inj {bn bn' : Nat} (at' : slotAt bn = some slot) (at'' : slotAt bn' = some slot) :
    bn = bn' := by
  unfold slotAt at at' at''
  grind

/-- A new block of zeros in an empty slot leaves the contents. -/
theorem contents_grow (slot : Slot) {n' : DInode} (vacant : entry data n slot = 0)
    (blank : data' (entry data' n' slot) = fun _ => 0)
    (others : ∀ slot', slot' ≠ slot → entry data' n' slot' = entry data n slot')
    (kept : ∀ slot', slot' ≠ .addr indirect → entry data n slot' ≠ 0 →
      data' (entry data n slot') = data (entry data n slot')) :
    contents data' n' = contents data n := by
  funext x
  unfold contents
  cases at' : slotAt (x / BSIZE) with
  | none => rfl
  | some slot' =>
    by_cases here : slot' = slot
    · simp [here, vacant, blank]
    · simp only [others slot' here]
      split
      · rfl
      · rename_i full
        rw [kept slot' (slotAt_ne_indirect at') full]

section Rules

variable {sb : Superblock} {table : Nat → DInode} {bit : Nat → Bool} {data : Nat → Block}
  {ninodes : Nat} {slot : Slot}

variable {n : DInode}

section

variable (v : Volume sb table bit data)

include v

variable {i b : Nat} {slot : Slot}

theorem Volume.isData (small : i < sb.ninodes) (allocated : (table i).type ≠ .FREE)
    (some : entry data (table i) slot ≠ 0) :
    sb.size - sb.nblocks ≤ entry data (table i) slot ∧ entry data (table i) slot < sb.size :=
  v.owned.inside (i, slot) _ (placed_eq_some.mpr ⟨small, allocated, rfl, some⟩)

/-- A block with a clear bit is in no place. -/
theorem Volume.fresh (small : b < sb.size) (free : bit b = false) :
    sb.size - sb.nblocks ≤ b ∧ b ≠ 0 ∧ ∀ i slot, i < sb.ninodes → (table i).type ≠ .FREE →
      entry data (table i) slot ≠ b := by
  have above : sb.size - sb.nblocks ≤ b := by
    by_contra below
    simp [v.metadata b (by omega)] at free
  have apart := sb.apart
  have pos : b ≠ 0 := by omega
  refine ⟨above, pos, fun i slot inside allocated here => ?_⟩
  exact v.owned.fresh ⟨above, small⟩ free (i, slot)
    (placed_eq_some.mpr ⟨inside, allocated, here, pos⟩)

theorem Volume.indirect_ne (small : i < sb.ninodes) (allocated : (table i).type ≠ .FREE)
    (here : entry data (table i) slot = b) (some : b ≠ 0) (other : slot ≠ .addr indirect) {i' : Nat}
    (small' : i' < sb.ninodes) (allocated' : (table i').type ≠ .FREE) :
    (table i').addrs indirect ≠ b := by
  intro there
  have same := v.owned.once (i, slot) (i', .addr indirect) b
    (placed_eq_some.mpr ⟨small, allocated, here, some⟩)
    (placed_eq_some.mpr ⟨small', allocated', there, some⟩)
  cases same
  exact other rfl

/-- The contents of a data block change. -/
theorem Volume.setData (small : i < sb.ninodes) (allocated : (table i).type ≠ .FREE)
    (here : entry data (table i) slot = b) (some : b ≠ 0) (other : slot ≠ .addr indirect)
    (block : Block) :
    Volume sb table bit (update data b block) := by
  have same : ∀ i', i' < sb.ninodes → (table i').type ≠ .FREE → ∀ slot',
      entry (update data b block) (table i') slot' = entry data (table i') slot' := by
    intro i' small' allocated' slot'
    refine entry_congr slot' fun _ => update_of_ne ?_ ..
    exact v.indirect_ne small allocated here some other small' allocated'
  refine ⟨?_, v.metadata, fun i' small' allocated' notDev bn below => ?_⟩
  · have places : placed sb.ninodes table (update data b block) = placed sb.ninodes table data :=
      funext fun place => placed_congr Iff.rfl fun small' allocated' => same _ small' allocated' _
    rw [places]
    exact v.owned
  · obtain ⟨slot', at', there⟩ := v.whole i' small' allocated' notDev bn below
    exact ⟨slot', at', by rwa [same i' small' allocated']⟩

/-- A free block comes into an empty place. -/
theorem Volume.grow {data' : Nat → Block} (place : Nat × Slot)
    (inside : b < sb.size) (free : bit b = false) (vacant : placed sb.ninodes table data place = none)
    (shape : ∀ i, (table' i).type = (table i).type ∧ (table' i).size = (table i).size)
    (grown : placed sb.ninodes table' data' = update (placed sb.ninodes table data) place (some b)) :
    Volume sb table' (update bit b true) data' := by
  obtain ⟨above, -, -⟩ := v.fresh inside free
  refine ⟨?_, fun b' below => ?_, fun i small allocated notDev bn below => ?_⟩
  · rw [grown]
    exact v.owned.acquire ⟨above, inside⟩ free vacant
  · rw [update_of_ne (by omega)]
    exact v.metadata b' below
  · rw [(shape i).1] at allocated notDev
    rw [(shape i).2] at below
    obtain ⟨slot, at', there⟩ := v.whole i small allocated notDev bn below
    have held : placed sb.ninodes table data (i, slot) = some (entry data (table i) slot) :=
      placed_eq_some.mpr ⟨small, allocated, rfl, there⟩
    have other : (i, slot) ≠ place := fun same => by simp [same, vacant] at held
    have held' : placed sb.ninodes table' data' (i, slot) = some (entry data (table i) slot) := by
      rw [grown, update_of_ne other, held]
    obtain ⟨-, -, same, -⟩ := placed_eq_some.mp held'
    exact ⟨slot, at', same ▸ there⟩

/-- A free block becomes an address of the inode. -/
theorem Volume.setAddr (small : i < sb.ninodes)
    (allocated : (table i).type ≠ .FREE) (vacant : (table i).addrs k = 0) (inside : b < sb.size)
    (free : bit b = false) : Volume sb
      (update table i { table i with addrs := update (table i).addrs k b })
      (update bit b true) (update data b fun _ => 0) := by
  obtain ⟨-, pos, fresh⟩ := v.fresh inside free
  refine v.grow (i, .addr k) inside free ?_ (fun i' => ?_) (funext fun place => ?_)
  · simp [placed, entry, vacant]
  · by_cases here : i' = i
    · simp [here]
    · simp [here]
  · obtain ⟨i', slot⟩ := place
    have kept : i' < sb.ninodes → (table i').type ≠ .FREE →
        entry (update data b fun _ => 0) (table i') slot = entry data (table i') slot :=
      fun small' allocated' => entry_congr slot fun _ =>
        update_of_ne (fresh i' (.addr indirect) small' allocated') ..
    by_cases here : i' = i
    · subst here
      have apart := fresh i' (.addr indirect) small allocated
      by_cases isK : slot = .addr k
      · rw [isK, update_self]
        refine placed_eq_some.mpr ⟨small, by simpa using allocated, ?_, pos⟩
        simp [entry]
      · rw [update_of_ne (by simpa using isK)]
        refine placed_congr (by simp) fun _ _ => ?_
        rw [update_self]
        exact entry_setAddr vacant pos apart isK
    · rw [update_of_ne (by simp [here])]
      exact placed_congr (by simp [here]) fun small' allocated' => by
        simpa [here] using kept small' allocated'

/-- A free block becomes an entry of the indirect block. -/
theorem Volume.setEntry (small : i < sb.ninodes)
    (allocated : (table i).type ≠ .FREE) (there : (table i).addrs indirect ≠ 0)
    (vacant : word (data ((table i).addrs indirect)) j = 0) (inside : b < sb.size)
    (free : bit b = false) : Volume sb table (update bit b true)
      (update (update data b fun _ => 0) ((table i).addrs indirect)
        (setWord (data ((table i).addrs indirect)) j b)) := by
  obtain ⟨-, pos, fresh⟩ := v.fresh inside free
  have atIndirect : placed sb.ninodes table data (i, .addr indirect) =
      some ((table i).addrs indirect) := placed_eq_some.mpr ⟨small, allocated, rfl, there⟩
  refine v.grow (i, .ind j) inside free ?_ (fun _ => ⟨rfl, rfl⟩) (funext fun place => ?_)
  · simp [placed, entry, vacant]
  · obtain ⟨i', slot⟩ := place
    by_cases here : i' = i
    · subst here
      by_cases isJ : slot = .ind j
      · rw [isJ, update_self]
        refine placed_eq_some.mpr ⟨small, allocated, ?_, pos⟩
        rw [entry, if_neg there, update_self]
        exact word_setWord_self _ _ (Nat.lt_trans inside sb.fits)
      · rw [update_of_ne (by simpa using isJ)]
        exact placed_congr Iff.rfl fun _ _ => entry_setEntry there isJ
    · rw [update_of_ne (by simp [here])]
      refine placed_congr Iff.rfl fun small' allocated' => entry_congr slot fun there' => ?_
      have other : (table i').addrs indirect ≠ (table i).addrs indirect := fun same => by
        have one := v.owned.once (i', .addr indirect) (i, .addr indirect) _
          (placed_eq_some.mpr ⟨small', allocated', same, there⟩) atIndirect
        exact here (congrArg Prod.fst one)
      exact (update_of_ne other ..).trans
        (update_of_ne (fresh i' (.addr indirect) small' allocated') ..)

/-- The fields of an inode change and leave what its addresses hold. -/
theorem Volume.setInode (same : ∀ slot, placed sb.ninodes (update table i n) data (i, slot) =
      placed sb.ninodes table data (i, slot))
    (whole : Whole data n) : Volume sb (update table i n) bit data := by
  have places : placed sb.ninodes (update table i n) data = placed sb.ninodes table data := by
    funext ⟨i', slot⟩
    by_cases here : i' = i
    · exact here ▸ same slot
    · exact placed_congr (by simp [here]) fun _ _ => by simp [here]
  refine ⟨places ▸ v.owned, v.metadata, fun i' small => ?_⟩
  by_cases here : i' = i
  · rwa [here, update_self]
  · rw [update_of_ne here]
    exact v.whole i' small

end

/-- Nothing is below the size of an empty file. -/
theorem whole_empty (empty : n.size = 0) (data : Nat → Block) : Whole data n :=
  fun _ _ bn below => by simp [empty] at below

theorem placed_free {i : Nat} (free : (table i).type = .FREE) :
    placed ninodes table data (i, slot) = none :=
  if_neg fun held => held.2.1 free

theorem placed_empty {i : Nat} (empty : ∀ k, (table i).addrs k = 0) :
    placed ninodes table data (i, slot) = none := by
  refine if_neg fun held => held.2.2 ?_
  cases slot with
  | addr k => exact empty k
  | ind j => simp [entry, empty]

end Rules

end Xv6.Inodes
