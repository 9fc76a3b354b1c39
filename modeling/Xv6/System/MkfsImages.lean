import Xv6.System.MkfsBlocks

/-!
Images that `mkfs` makes.

The calls of `main` build the image file by file, as long as there are inodes for the files. At the end
the size of the root directory goes up to the end of a block, which is beyond its last block if the
entries fill that one.
-/

namespace Xv6.Mkfs

open Function Inodes List Outcome State

/-! The calls of `main`. -/

/-- The image while files are added; `c` are the bytes of the files so far. -/
structure Building (m : State) (c : Nat → List UInt8) : Prop where
  filled : Filled (fun i => (m.inode i).inode) m c (upTo c)
  room : m.freeblock ≤ FSSIZE
  sector : m.sector 1 = State.start.sector 1
  sizes : ∀ i, i < NINODES → (m.inode i).size = (c i).length
  types : ∀ i, i < NINODES → (m.inode i).type =
    if i = 0 ∨ m.freeinode ≤ i then 0 else if i = ROOTINO then State.T_DIR else State.T_FILE

variable {m : State} {files : List File} {f : File}

theorem inode_congr {m' : State} (same : ∀ b, b < nmeta → m'.sector b = m.sector b) {i : Nat}
    (small : i < NINODES) : m'.inode i = m.inode i := by
  unfold State.inode
  rw [same _ (Nat.lt_trans (inode_sector small).2 (by decide))]

section Calls

variable {m : State} {c : Nat → List UInt8} {i : Nat} {m' : State}

theorem Kept.fits {din din' : Dinode} (kept : Kept m din m' din') (fits : din.Fits)
    (addrs : ∀ k, din'.addrs k < 2 ^ 32) {size : Nat} (small : size < 2 ^ 32) :
    { din' with size := size }.Fits := by
  rw [kept.fields]
  exact ⟨fits.type, fits.major, fits.minor, fits.nlink, small, addrs⟩

/-- The inode in hand is written to its block. -/
theorem Filled.wrote {table : Nat → DInode} {d : Dinode} (filled : Filled table m c (upTo c))
    (wrote : Wrote m i d m') (type : d.inode.type = .FREE → (table i).type = .FREE)
    (addrs : (table i).addrs = d.addrs) (size : d.size = (c i).length)
    (others : ∀ i', i' < NINODES → i' ≠ i →
      table i' = (m.inode i').inode ∧ (m.inode i').size = (c i').length) :
    Filled (fun i => (m'.inode i).inode) m' c (upTo c) ∧
      ∀ i', i' < NINODES → (m'.inode i').size = (c i').length := by
  have sizes : ∀ i', i' < NINODES → (m'.inode i').size = (c i').length := by
    intro i' small
    rw [wrote.inode i' small]
    split
    · rename_i here
      rw [here]
      exact size
    · rename_i other
      exact (others i' small other).2
  refine ⟨filled.congr wrote.count wrote.freeblock
    (fun b above => wrote.outside b (.inr (Nat.le_trans (by decide) above))) ?_ ?_
    fun i' small => Nat.le_of_eq (sizes i' small), sizes⟩
  · intro i' small free
    rw [wrote.inode i' small] at free
    split at free
    · rename_i here
      rw [here]
      exact type free
    · rename_i other
      rwa [(others i' small other).1]
  · intro i' small
    rw [wrote.inode i' small]
    split
    · rename_i here
      rw [here]
      exact addrs.symm
    · rename_i other
      rw [(others i' small other).1]

theorem iappend_sat (building : Building m c) (small : i < NINODES) (used : 0 < i ∧ i < m.freeinode)
    (p : List UInt8) :
    Sat (fun _ => FSSIZE < m.freeblock + need (c i).length p.length ∨
        MAXFILE * BSIZE < (c i).length + p.length)
      (fun m' => Building m' (update c i (c i ++ p)) ∧ m'.freeinode = m.freeinode ∧
        m'.freeblock ≤ m.freeblock + need (c i).length p.length)
      (m.iappend i p) := by
  have allocated : (m.inode i).inode.type ≠ .FREE := by
    simp only [Dinode.inode, building.types i small]
    rw [if_neg (by omega)]
    split
    · decide
    · decide
  rw [iappend, rinode_eq building.filled.count small]
  change Sat _ _ (m.appendLoop (m.inode i) p (m.inode i).size >>= _)
  rw [building.sizes i small]
  refine (appendLoop_sat p building.filled small rfl allocated building.room).bind fun r appended => ?_
  obtain ⟨m₁, din, off⟩ := r
  obtain ⟨filled, isOff, kept, room, more⟩ := appended
  dsimp only at *
  have isInode : update (fun i => (m.inode i).inode) i din.inode i = din.inode :=
    update_self ..
  have isLength : off = (update c i (c i ++ p) i).length := by
    rw [update_self, length_append, isOff]
  have addrs : ∀ k, din.addrs k < 2 ^ 32 := by
    intro k
    by_cases zero : din.addrs k = 0
    · rw [zero]
      decide
    · have below := (filled.below small (.addr k) (by rw [isInode]; exact zero)).2
      rw [isInode] at below
      exact Nat.lt_trans (Nat.lt_of_lt_of_le below room) (by decide)
  have short : off < 2 ^ 32 := isLength ▸ Nat.lt_of_le_of_lt (filled.length_le small) (by decide)
  obtain ⟨m', run, wrote⟩ := winode_wrote filled.count small (kept.fits (fits_get ..) addrs short)
  obtain ⟨filled', sizes⟩ := filled.wrote wrote (by rw [isInode]; exact id) (by rw [isInode]; rfl) isLength
    fun i' small' other => by
      rw [update_of_ne other, update_of_ne other, inode_congr kept.sectors small']
      exact ⟨rfl, building.sizes i' small'⟩
  change Sat _ _ (m₁.winode i { din with size := off })
  rw [run]
  refine .ok ⟨⟨filled', ?_, ?_, sizes, ?_⟩, wrote.freeinode.trans kept.freeinode, wrote.freeblock ▸ more⟩
  · rw [wrote.freeblock]
    exact room
  · rw [wrote.outside 1 (.inl (by decide)), kept.sectors 1 (by decide), building.sector]
  · intro i' small'
    have isType : (m'.inode i').type = (m.inode i').type := by
      rw [wrote.inode i' small', inode_congr kept.sectors small']
      split
      · rename_i here
        rw [here, kept.fields]
      · rfl
    rw [isType, wrote.freeinode, kept.freeinode]
    exact building.types i' small'

theorem ialloc_ok (building : Building m c) (small : m.freeinode < NINODES) (pos : 0 < m.freeinode) :
    ∃ m', m.ialloc (if m.freeinode = ROOTINO then State.T_DIR else State.T_FILE) = .ok (m.freeinode, m') ∧
      Building m' c ∧ m'.freeinode = m.freeinode + 1 ∧ m'.freeblock = m.freeblock := by
  generalize isType : (if m.freeinode = ROOTINO then State.T_DIR else State.T_FILE) = type
  have fits : { Dinode.zeroed with type := type, nlink := 1 }.Fits := by
    have zero : 0 < 2 ^ 16 := by decide
    have zero' : 0 < 2 ^ 32 := by decide
    refine ⟨?_, zero, zero, Nat.one_lt_two_pow (by decide), zero', fun _ => zero'⟩
    rw [← isType]
    dsimp only
    split
    · decide
    · decide
  have unused : (m.inode m.freeinode).inode.type = .FREE := by
    simp only [Dinode.inode, building.types _ small]
    rw [if_pos (.inr (Nat.le_refl _))]
    rfl
  have vacant : ∀ slot, entry m.sector (m.inode m.freeinode).inode slot = 0 := by
    intro slot
    by_contra some'
    exact building.filled.free _ small unused slot ((building.filled.exact' _ small slot).mp some')
  have isNil : (c m.freeinode).length = 0 := by
    have none' := building.filled.free _ small unused (.addr 0)
    exact Nat.eq_zero_of_not_pos none'
  obtain ⟨m', run, wrote⟩ := winode_wrote (m := { m with freeinode := m.freeinode + 1 }) building.filled.count
    small fits
  obtain ⟨filled, sizes⟩ := Filled.wrote (m := { m with freeinode := m.freeinode + 1 })
    (building.filled.congr rfl rfl (fun _ _ => rfl) (fun _ _ => id) (fun _ _ => rfl)
      fun i small' => Nat.le_of_eq (building.sizes i small'))
    wrote (fun _ => unused) (funext fun k => vacant (.addr k)) isNil.symm
    fun i small' _ => ⟨rfl, building.sizes i small'⟩
  refine ⟨m', ?_, ⟨filled, wrote.freeblock ▸ building.room, ?_, sizes, fun i small' => ?_⟩, wrote.freeinode,
    wrote.freeblock⟩
  · rw [State.ialloc]
    rw [run]
    rfl
  · exact (wrote.outside 1 (.inl (by decide))).trans building.sector
  · rw [wrote.inode i small', wrote.freeinode]
    split
    · rename_i here
      subst here
      rw [if_neg (by dsimp only; omega), isType]
    · rename_i other
      refine (building.types i small').trans ?_
      dsimp only
      congr 1
      exact propext (or_congr_right ⟨fun above => by omega, fun above => by omega⟩)

theorem copy_sat (contents : List UInt8) {m : State} {c : Nat → List UInt8} (building : Building m c)
    (small : i < NINODES) (used : 0 < i ∧ i < m.freeinode) :
    Sat (fun _ => contents ≠ [])
      (fun m' => Building m' (update c i (c i ++ contents)) ∧ m'.freeinode = m.freeinode ∧
        (contents = [] → m' = m))
      (m.copy i contents) := by
  induction size : contents.length using Nat.strong_induction_on generalizing contents m c with
  | _ n ih =>
    subst size
    cases contents with
    | nil =>
      rw [copy]
      refine .ok ⟨?_, rfl, fun _ => rfl⟩
      rwa [append_nil, update_eq_self]
    | cons v vs =>
      have some' : ¬ v :: vs = [] := cons_ne_nil v vs
      rw [copy]
      refine ((iappend_sat building small used _).mono (fun _ _ => some') fun _ => id).bind fun m₁ appended => ?_
      obtain ⟨building₁, freeinode, -⟩ := appended
      have shorter : ((v :: vs).drop BSIZE).length < (v :: vs).length := by
        unfold BSIZE
        simp only [length_drop, length_cons]
        omega
      refine (ih _ shorter _ building₁ (freeinode ▸ used) rfl).mono (fun _ _ => some') fun m' done => ?_
      obtain ⟨building', freeinode', -⟩ := done
      rw [update_self, append_assoc, take_append_drop, update_idem] at building'
      exact ⟨building', freeinode'.trans freeinode, fun isNil => absurd isNil some'⟩

end Calls

/-- The entries of the root directory. -/
def rootEntries (files : List File) : List UInt8 :=
  dirent ROOTINO [46] ++ dirent ROOTINO [46, 46] ++
    files.zipIdx.flatMap fun f => dirent (f.2 + 2) f.1.stored

theorem length_dirent (inum : Nat) (name : List UInt8) : (dirent inum name).length = 16 := by
  simp only [dirent, length_cons, length_map, length_range]

theorem length_rootEntries (files : List File) : (rootEntries files).length = 16 * (files.length + 2) := by
  simp only [rootEntries, length_append, length_dirent, length_flatMap, map_const',
    length_zipIdx, sum_replicate_nat]
  omega

/-- The bytes of the files by their inode numbers. -/
def contents (files : List File) (i : Nat) : List UInt8 :=
  if i = ROOTINO then rootEntries files
  else if i < 2 then []
  else (files[i - 2]?.map File.contents).getD []

theorem contents_root (files : List File) : contents files ROOTINO = rootEntries files := rfl

theorem contents_file (files : List File) (k : Nat) :
    contents files (k + 2) = (files[k]?.map File.contents).getD [] := by
  rw [contents, if_neg (by unfold ROOTINO; omega), if_neg (by omega), Nat.add_sub_cancel]

theorem contents_snoc (files : List File) (f : File) :
    contents (files ++ [f]) =
      update (update (contents files) ROOTINO
          (contents files ROOTINO ++ dirent (files.length + 2) f.stored))
        (files.length + 2) (contents files (files.length + 2) ++ f.contents) := by
  funext i
  by_cases root : i = ROOTINO
  · subst root
    have other : ROOTINO ≠ files.length + 2 := by unfold ROOTINO; omega
    rw [update_of_ne other, update_self]
    simp [contents, rootEntries, zipIdx_append]
  · by_cases new : i = files.length + 2
    · subst new
      rw [update_self, contents_file, contents_file]
      simp
    · rw [update_of_ne new, update_of_ne root, contents, contents, if_neg root, if_neg root]
      split
      · rfl
      · by_cases less : i - 2 < files.length
        · rw [getElem?_append_left less]
        · rw [getElem?_eq_none (by simp; omega), getElem?_eq_none (by omega)]

/-- The image with some files in it. -/
structure Built (files : List File) (m : State) : Prop where
  building : Building m (contents files)
  freeinode : m.freeinode = files.length + 2

theorem add_sat (built : Built files m) (few : files.length + 2 < NINODES) :
    Sat (fun _ => f.contents ≠ [] ∨ 47 ∈ f.name ∨ FSSIZE < m.freeblock + 2)
      (fun m' => Built (files ++ [f]) m' ∧ (f.contents = [] → m'.freeblock ≤ m.freeblock + 2))
      (m.add ROOTINO f) := by
  unfold add
  split
  · rename_i slash
    exact .error (.inr (.inl (by simpa using slash)))
  · have number := built.freeinode
    have notRoot : m.freeinode ≠ ROOTINO := by unfold ROOTINO; omega
    obtain ⟨m₁, run, building₁, freeinode₁, freeblock₁⟩ := ialloc_ok built.building (number ▸ few) (by omega)
    rw [if_neg notRoot] at run
    rw [run]
    change Sat _ _ (m₁.iappend ROOTINO (dirent m.freeinode f.stored) >>= fun m' =>
      m'.copy m.freeinode f.contents)
    have isLength := length_rootEntries files
    have needs : need (contents files ROOTINO).length (dirent m.freeinode f.stored).length = 2 := by
      refine need_whole (by rw [length_dirent]; decide) ?_
      rw [contents_root, isLength, length_dirent]
      unfold BSIZE
      omega
    have appended := iappend_sat (i := ROOTINO) building₁ (by decide)
      ⟨by decide, by rw [freeinode₁, number]; unfold ROOTINO; omega⟩ (dirent m.freeinode f.stored)
    rw [needs, freeblock₁, contents_root, isLength, length_dirent] at appended
    refine Sat.bind (appended.mono (fun _ tight => ?_) fun _ => id) fun m₂ appended => ?_
    · refine .inr (.inr (tight.resolve_right ?_))
      unfold NINODES at few
      unfold MAXFILE BSIZE
      omega
    · obtain ⟨building₂, freeinode₂, more⟩ := appended
      have used : 0 < m.freeinode ∧ m.freeinode < m₂.freeinode := by
        rw [freeinode₂, freeinode₁]
        omega
      refine (copy_sat f.contents building₂ (number ▸ few) used).mono (fun _ => .inl) fun m₃ done => ?_
      obtain ⟨building₃, freeinode₃, same⟩ := done
      refine ⟨⟨?_, ?_⟩, fun isNil => ?_⟩
      · rw [number, update_of_ne (by rw [← number]; exact notRoot)] at building₃
        rw [contents_snoc]
        exact building₃
      · rw [freeinode₃, freeinode₂, freeinode₁, number, length_append]
        rfl
      · rw [same isNil]
        exact more

theorem adds_sat (files : List File) {done : List File} (built : Built done m)
    (few : done.length + files.length + 2 ≤ NINODES) :
    Sat (fun _ => ¬ ((∀ f ∈ files, f.contents = [] ∧ 47 ∉ f.name) ∧ m.freeblock + 2 * files.length ≤ FSSIZE))
      (Built (done ++ files)) (files.foldlM (State.add ROOTINO) m) := by
  induction files generalizing done m with
  | nil => exact .ok (by rwa [append_nil])
  | cons f files ih =>
    rw [length_cons] at few
    rw [foldlM_cons]
    refine Sat.bind ((add_sat (f := f) built (by omega)).mono (fun _ reason easy => ?_) fun _ => id)
      fun m' added => ?_
    · obtain ⟨empty, plain⟩ := easy.1 f (mem_cons_self ..)
      have room := easy.2
      rw [length_cons] at room
      obtain some' | slash | tight := reason
      · exact some' empty
      · exact plain slash
      · omega
    · rw [append_cons]
      refine (ih added.1 (by simp only [length_append, length_singleton]; omega)).mono
        (fun _ reason easy => reason ⟨fun f inside => easy.1 f (mem_cons_of_mem _ inside), ?_⟩) fun _ => ?_
      · have more := added.2 (easy.1 f (mem_cons_self ..)).1
        have room := easy.2
        rw [length_cons] at room
        omega
      · exact id

theorem start_blank :
    State.start.sector = update (fun _ _ => 0) 1
        (fun i => UInt8.ofNat (superblock.getD (i / 4) 0 / 2 ^ (8 * (i % 4)))) ∧
      State.start.count = FSSIZE ∧ State.start.freeinode = 1 ∧ State.start.freeblock = nmeta := by
  have cleared : ∀ n, (List.range n).foldl (fun m i => State.wsect m i fun _ => 0)
      { sector := fun _ _ => 0, count := 0, freeinode := 1, freeblock := nmeta } =
      { sector := fun _ _ => 0, count := n, freeinode := 1, freeblock := nmeta } := by
    intro n
    induction n with
    | zero => rfl
    | succ n ih =>
      rw [range_succ, foldl_append, ih]
      have same : update (fun _ _ => 0) n (fun _ => 0) = fun (_ _ : Nat) => (0 : UInt8) :=
        update_eq_self n fun _ _ => 0
      simp only [foldl_cons, foldl_nil, State.wsect, same]
      congr 1
      omega
  unfold start
  dsimp only
  rw [cleared FSSIZE]
  exact ⟨rfl, rfl, rfl, rfl⟩

theorem start_building : Building State.start fun _ => [] := by
  obtain ⟨sectors, count, freeinode, freeblock⟩ := start_blank
  have blank : ∀ b, b ≠ 1 → start.sector b = fun _ => 0 := fun b other => by
    rw [sectors, update_of_ne other]
  have inodes : ∀ i, start.inode i = Dinode.zeroed := fun i => by
    have other : i / IPB + inodestart ≠ 1 := Nat.ne_of_gt (Nat.lt_of_lt_of_le (by decide) (Nat.le_add_left ..))
    rw [State.inode, blank _ other]
    simp only [Dinode.get, word_zero, Dinode.zeroed, Nat.zero_mod, Nat.zero_div]
  have none' : ∀ i slot, entry start.sector (start.inode i).inode slot = 0 := by
    intro i slot
    rw [inodes]
    cases slot with
    | addr k => rfl
    | ind j => rfl
  have places : ∀ place, placed sb.ninodes (fun i => (start.inode i).inode) start.sector place = none :=
    fun place => if_neg fun held => held.2.2 (none' _ _)
  refine ⟨⟨count, ⟨⟨?_, ?_, ?_⟩, ?_, ?_⟩, ?_, ?_, ?_, ?_⟩, by rw [freeblock]; decide, rfl, ?_, ?_⟩
  · intro place place' b held
    rw [places] at held
    cases held
  · intro b inside
    have low : ¬ b < start.freeblock := by rw [freeblock]; exact Nat.not_lt.mpr inside.1
    simp only [low, places, decide_false, Bool.false_eq_true, reduceCtorEq, exists_false]
  · intro place b held
    rw [places] at held
    cases held
  · intro b below
    rw [freeblock]
    exact decide_eq_true below
  · intro i _
    refine whole_empty ?_ _
    rw [inodes]
    rfl
  · intro b above
    rw [freeblock] at above
    exact blank b (Nat.ne_of_gt (Nat.lt_of_lt_of_le (by decide) above))
  · intro i _ slot
    exact iff_of_false (fun some' => some' (none' i slot)) (Nat.not_lt_zero _)
  · intro i _ _ slot
    exact Nat.not_lt_zero _
  · intro i _ p v byte
    cases byte
  · intro i _
    rw [inodes]
    rfl
  · intro i _
    rw [inodes, freeinode, if_pos (by omega)]
    rfl

/-! The finished image. -/

theorem bitmap_testBit (used b : Nat) : (State.bitmap used (b / 8)).toNat.testBit (b % 8) = decide (b < used) := by
  have one : ∀ k : Fin 8, ∀ j : Fin 8,
      ((1 : UInt8) <<< UInt8.ofNat k.val).toNat.testBit j.val = decide (j.val = k.val) := by decide
  induction used with
  | zero => simp [bitmap]
  | succ n ih =>
    have next : bitmap (n + 1) = update (bitmap n) (n / 8)
        (bitmap n (n / 8) ||| 1 <<< UInt8.ofNat (n % 8)) := by
      simp only [bitmap, range_succ, foldl_append, foldl_cons, foldl_nil]
    rw [next, update_apply]
    split
    · rename_i here
      have bit : ((1 : UInt8) <<< UInt8.ofNat (n % 8)).toNat.testBit (b % 8) = decide (b % 8 = n % 8) :=
        one ⟨n % 8, Nat.mod_lt _ (by decide)⟩ ⟨b % 8, Nat.mod_lt _ (by decide)⟩
      rw [UInt8.toNat_or, Nat.testBit_or, ← here, ih, bit, ← Bool.decide_or, decide_eq_decide]
      omega
    · rename_i other
      rw [ih, decide_eq_decide]
      omega

/-- The image at the end of `main`, after `m₀` with all the files in it. -/
structure Finished (files : List File) (m₀ m : State) : Prop where
  built : Built files m₀
  freeinode : m.freeinode = m₀.freeinode
  sectors : ∀ b, b = 1 ∨ nmeta ≤ b → m.sector b = m₀.sector b
  inode : ∀ i, i < NINODES → m.inode i =
    if i = ROOTINO then
      { m₀.inode ROOTINO with size := ((rootEntries files).length / BSIZE + 1) * BSIZE }
    else m₀.inode i
  bit : ∀ b, b < FSSIZE → m.disk.bit b = decide (b < m₀.freeblock)

theorem Built.finished {m₀ m₁ : State} (built : Built files m₀) (wrote : Wrote m₀ ROOTINO
      { m₀.inode ROOTINO with size := ((rootEntries files).length / BSIZE + 1) * BSIZE } m₁) :
    Finished files m₀ (m₁.wsect bmapstart (State.bitmap m₁.freeblock)) := by
  have sectors : ∀ b, b ≠ bmapstart →
      (m₁.wsect bmapstart (bitmap m₁.freeblock)).sector b = m₁.sector b :=
    fun b other => update_of_ne other ..
  refine ⟨built, wrote.freeinode, fun b outside => ?_, fun i small => ?_, fun b inside => ?_⟩
  · obtain rfl | above := outside
    · exact (sectors 1 (by decide)).trans (wrote.outside 1 (.inl (by decide)))
    · have high : bmapstart < b := Nat.lt_of_lt_of_le (by decide) above
      exact (sectors b (Nat.ne_of_gt high)).trans (wrote.outside b (.inr (Nat.le_of_lt high)))
  · rw [State.inode, sectors _ (Nat.ne_of_lt (inode_sector small).2)]
    exact wrote.inode i small
  · have block : b / (BSIZE * 8) = 0 := Nat.div_eq_of_lt (Nat.lt_trans inside (by decide))
    have place : b % (BSIZE * 8) = b := Nat.mod_eq_of_lt (Nat.lt_trans inside (by decide))
    simp only [State.disk, block, place, Nat.zero_add, State.wsect, update_self]
    rw [bitmap_testBit, wrote.freeblock]

theorem main_sat (files : List File) (few : files.length + 2 ≤ NINODES) :
    Sat (fun _ => ¬ ((∀ f ∈ files, f.contents = [] ∧ 47 ∉ f.name) ∧ nmeta + 2 * (files.length + 2) ≤ FSSIZE))
      (fun m => ∃ m₀, Finished files m₀ m) (main files) := by
  obtain ⟨-, -, freeinode, freeblock⟩ := start_blank
  have isRoot : start.freeinode = ROOTINO := freeinode
  obtain ⟨m₁, run, building₁, freeinode₁, freeblock₁⟩ := ialloc_ok start_building (by rw [freeinode]; decide)
    (by rw [freeinode]; decide)
  rw [if_pos isRoot, isRoot] at run
  rw [freeinode] at freeinode₁
  have used : ∀ {m : State}, m.freeinode = 1 + 1 → 0 < ROOTINO ∧ ROOTINO < m.freeinode := fun two => by
    rw [two]
    decide
  have small : ROOTINO < NINODES := by decide
  rw [main, run]
  change Sat _ _ (m₁.iappend ROOTINO (dirent ROOTINO [46]) >>= _)
  have first := iappend_sat building₁ small (used freeinode₁) (dirent ROOTINO [46])
  rw [need_whole (by rw [length_dirent]; decide) (by rw [length_dirent]; decide), freeblock₁, freeblock,
    length_dirent] at first
  refine Sat.bind (first.mono (fun _ reason => absurd reason (by decide)) fun _ => id) fun m₂ appended => ?_
  obtain ⟨building₂, freeinode₂, more₂⟩ := appended
  have second := iappend_sat building₂ small (used (freeinode₂.trans freeinode₁)) (dirent ROOTINO [46, 46])
  rw [update_self, update_idem, nil_append, length_dirent, length_dirent,
    need_whole (by decide) (by decide)] at second
  refine Sat.bind (second.mono (fun _ reason => absurd reason ?_) fun _ => id) fun m₃ appended => ?_
  · have low : ¬ FSSIZE < nmeta + 2 + 2 := by decide
    have short : ¬ MAXFILE * BSIZE < 16 + 16 := by decide
    omega
  obtain ⟨building₃, freeinode₃, more₃⟩ := appended
  have built : Built [] m₃ := by
    refine ⟨?_, freeinode₃.trans (freeinode₂.trans freeinode₁)⟩
    have same : contents [] = update (fun _ => []) ROOTINO
        (dirent ROOTINO [46] ++ dirent ROOTINO [46, 46]) := by
      funext i
      by_cases root : i = ROOTINO
      · rw [root, update_self, contents_root, rootEntries]
        rfl
      · rw [update_of_ne root, contents, if_neg root]
        simp
    rwa [same]
  refine Sat.bind ((adds_sat files built (by simpa using few)).mono
    (fun _ reason easy => reason ⟨easy.1, by have := easy.2; omega⟩) fun _ => id) fun m₄ built => ?_
  rw [nil_append] at built
  have size : (m₄.inode ROOTINO).size = (rootEntries files).length := built.building.sizes ROOTINO small
  have fits : { m₄.inode ROOTINO with size := ((rootEntries files).length / BSIZE + 1) * BSIZE }.Fits := by
    have fits : (m₄.inode ROOTINO).Fits := fits_get ..
    refine ⟨fits.type, fits.major, fits.minor, fits.nlink, ?_, fits.addrs⟩
    rw [length_rootEntries]
    unfold NINODES at few
    unfold BSIZE
    dsimp only
    omega
  obtain ⟨m₅, run, wrote⟩ := winode_wrote built.building.filled.count small fits
  have fixed : m₄.fixRoot ROOTINO = .ok m₅ := by
    rw [fixRoot, rinode_eq built.building.filled.count small, ← run, ← size]
    rfl
  have low : m₅.freeblock < BSIZE * 8 := by
    rw [wrote.freeblock]
    exact Nat.lt_of_le_of_lt built.building.room (by decide)
  rw [fixed]
  change Sat _ _ (m₅.balloc m₅.freeblock)
  rw [State.balloc, if_pos low]
  exact .ok ⟨m₄, built.finished wrote⟩

section Finished

variable {files : List File} {m₀ m : State}

section

variable (finished : Finished files m₀ m)

include finished

variable {i : Nat}

theorem Finished.fields (small : i < NINODES) :
    (m.inode i).type = (m₀.inode i).type ∧ (m.inode i).addrs = (m₀.inode i).addrs := by
  rw [finished.inode i small]
  split
  · rename_i root
    rw [root]
    exact ⟨rfl, rfl⟩
  · exact ⟨rfl, rfl⟩

theorem Finished.entry_eq (small : i < NINODES) (slot : Inodes.Slot) :
    entry m.disk.data (m.disk.dinode i) slot = entry m₀.sector (m₀.inode i).inode slot :=
  finished.built.building.filled.entry_same (fun b above => finished.sectors b (.inr above)) small
    (finished.fields small).2 slot

theorem Finished.owned :
    Ledger.Marked (fun b => sb.size - sb.nblocks ≤ b ∧ b < sb.size) m.disk.bit
      (placed sb.ninodes m.disk.dinode m.disk.data) := by
  have filled := finished.built.building.filled
  have places : placed sb.ninodes m.disk.dinode m.disk.data =
      placed sb.ninodes (fun i => (m₀.inode i).inode) m₀.sector := by
    refine filled.placed_same (fun b above => finished.sectors b (.inr above)) (fun i small free => ?_)
      fun i small => (finished.fields small).2
    exact (congrArg fileType (finished.fields small).1).symm.trans free
  rw [places]
  refine ⟨filled.volume.owned.once, fun b inside => ?_, filled.volume.owned.inside⟩
  rw [finished.bit b inside.2]
  exact filled.volume.owned.marked b inside

theorem Finished.size_file (small : i < NINODES) (other : i ≠ ROOTINO) :
    (m.disk.dinode i).size = (contents files i).length := by
  change (m.inode i).size = _
  rw [finished.inode i small, if_neg other]
  exact finished.built.building.sizes i small

theorem Finished.size_root :
    (m.disk.dinode ROOTINO).size = ((files.length + 2) / 32 + 1) * BSIZE := by
  change (m.inode ROOTINO).size = _
  rw [finished.inode ROOTINO (by decide), if_pos rfl, length_rootEntries]
  unfold BSIZE
  dsimp only
  omega

theorem Finished.isDir : (m.disk.dinode ROOTINO).type = .T_DIR := by
  have small : ROOTINO < NINODES := by decide
  change fileType (m.inode ROOTINO).type = _
  rw [(finished.fields small).1, finished.built.building.types ROOTINO small, if_neg ?_, if_pos rfl]
  · rfl
  · rw [finished.built.freeinode]
    unfold ROOTINO
    omega

/-- The last block of the root directory is there unless the entries end with the block before it. -/
theorem Finished.whole_iff :
    (∀ i, i < NINODES → Whole m.disk.data (m.disk.dinode i)) ↔ (files.length + 2) % 32 ≠ 0 := by
  have filled := finished.built.building.filled
  have isLength : (contents files ROOTINO).length = 16 * (files.length + 2) := length_rootEntries files
  have small : ROOTINO < NINODES := by decide
  constructor
  · intro whole full
    have isType := finished.isDir
    obtain ⟨slot, at', some'⟩ := whole ROOTINO small (by rw [isType]; decide) (by rw [isType]; decide)
      ((files.length + 2) / 32) (by rw [finished.size_root]; unfold BSIZE; omega)
    rw [finished.entry_eq small] at some'
    have below : reach slot < (contents files ROOTINO).length := (filled.exact' ROOTINO small slot).mp some'
    rw [(reach_slotAt at').1, isLength] at below
    unfold BSIZE at below
    omega
  · intro rest i inside _ _ bn below
    have short : bn * BSIZE < (contents files i).length := by
      by_cases root : i = ROOTINO
      · subst root
        rw [finished.size_root] at below
        rw [isLength]
        unfold BSIZE at *
        omega
      · rwa [finished.size_file inside root] at below
    obtain ⟨slot, at', some'⟩ := filled.block _ inside short
    exact ⟨slot, at', by rwa [finished.entry_eq inside]⟩

theorem Finished.enough (small : i < NINODES) : (contents files i).length ≤ (m.disk.dinode i).size := by
  by_cases root : i = ROOTINO
  · subst root
    rw [finished.size_root, contents_root, length_rootEntries]
    unfold BSIZE
    omega
  · exact Nat.le_of_eq (finished.size_file small root).symm

theorem Finished.byte (small : i < NINODES) {p : Nat} (less : p < (contents files i).length) :
    ∃ slot, slotAt (p / BSIZE) = some slot ∧ entry m.disk.data (m.disk.dinode i) slot ≠ 0 ∧
      m.disk.data (entry m.disk.data (m.disk.dinode i) slot) (p % BSIZE) = (contents files i)[p] := by
  obtain ⟨slot, at', some', value⟩ :=
    finished.built.building.filled.bytes i small p _ (getElem?_eq_getElem less)
  refine ⟨slot, at', ?_⟩
  rw [finished.entry_eq small]
  exact ⟨some', (congrFun (finished.sectors _
    (.inr (finished.built.building.filled.below small slot some').1)) _).trans value⟩

/-- Reading gives back the bytes that have been written. -/
theorem Finished.read (small : i < NINODES) :
    (readBytes m.disk i).take (contents files i).length = contents files i := by
  have enough := finished.enough small
  refine ext_getElem? fun p => ?_
  by_cases less : p < (contents files i).length
  · obtain ⟨slot, at', -, value⟩ := finished.byte small less
    rw [getElem?_take_of_lt less, readBytes, getElem?_map, getElem?_range (by omega),
      Option.map_some, at', getElem?_eq_getElem less, ← value]
  · rw [getElem?_eq_none (by rw [length_take]; omega), getElem?_eq_none (by omega)]

theorem Finished.notDev (small : i < NINODES) : (m.disk.dinode i).type ≠ .T_DEV := by
  change fileType (m.inode i).type ≠ _
  rw [(finished.fields small).1, finished.built.building.types i small]
  split <;> [skip; split] <;> decide

theorem Finished.blocks (rest : (files.length + 2) % 32 ≠ 0) : m.disk.Consistent sb := by
  refine consistent_iff.mpr ⟨finished.owned, fun b below => ?_, finished.whole_iff.mpr rest⟩
  rw [finished.bit b (Nat.lt_trans below (by decide))]
  exact decide_eq_true (Nat.lt_of_lt_of_le below finished.built.building.filled.nmeta_le)

end

end Finished

/-! Inode numbers are counted whether or not there is room for them. -/

theorem winode_freeinode (m : State) (inum : Nat) (d : Dinode) :
    Sat (fun _ => True) (fun m' => m'.freeinode = m.freeinode) (m.winode inum d) :=
  (sat_true (m.rsect _)).bind fun _ _ => .ok rfl

theorem allocAddr_freeinode (m : State) (din : Dinode) (k : Fin (Inodes.NDIRECT + 1)) :
    (m.allocAddr din k).1.freeinode = m.freeinode :=
  (allocAddr_kept m din k).1.freeinode

theorem locate_freeinode (m : State) (din : Dinode) (fbn : Nat) :
    Sat (fun _ => True) (fun r => r.1.freeinode = m.freeinode) (m.locate din fbn) := by
  unfold locate
  split
  · exact .ok (allocAddr_freeinode ..)
  · refine (sat_true (rsect _ _)).bind fun entries _ => ?_
    split
    · exact .ok (allocAddr_freeinode ..)
    · exact .ok (allocAddr_freeinode ..)

theorem appendLoop_freeinode (p : List UInt8) (m : State) (din : Dinode) (off : Nat) :
    Sat (fun _ => True) (fun r => r.1.freeinode = m.freeinode) (m.appendLoop din p off) := by
  induction size : p.length using Nat.strong_induction_on generalizing p m din off with
  | _ n ih =>
    subst size
    by_cases isNil : p = []
    · subst isNil
      rw [appendLoop]
      exact .ok rfl
    · have pos : 0 < p.length := length_pos_iff.mpr isNil
      rw [appendLoop_cons _ _ isNil]
      split
      · refine (locate_freeinode m din _).bind fun r same => (sat_true (rsect _ _)).bind fun buf _ => ?_
        refine (ih _ ?_ _ _ _ _ rfl).weaken fun _ same' => same'.trans same
        rw [length_drop]
        unfold BSIZE
        omega
      · exact .error trivial

theorem iappend_freeinode (m : State) (inum : Nat) (p : List UInt8) :
    Sat (fun _ => True) (fun m' => m'.freeinode = m.freeinode) (m.iappend inum p) := by
  refine (sat_true (m.rinode inum)).bind fun din _ => (appendLoop_freeinode p m din din.size).bind fun r same => ?_
  exact (winode_freeinode ..).weaken fun _ same' => same'.trans same

theorem copy_freeinode (bytes : List UInt8) (m : State) (inum : Nat) :
    Sat (fun _ => True) (fun m' => m'.freeinode = m.freeinode) (m.copy inum bytes) := by
  induction m, bytes using copy.induct with
  | case1 m =>
    rw [copy]
    exact .ok rfl
  | case2 m v vs ih =>
    rw [copy]
    exact (iappend_freeinode ..).bind fun m' same => (ih m').weaken fun _ same' => same'.trans same

theorem ialloc_freeinode (m : State) (type : Nat) :
    Sat (fun _ => True) (fun r => r.2.freeinode = m.freeinode + 1) (m.ialloc type) :=
  (winode_freeinode ..).bind fun _ same => .ok same

theorem add_freeinode (m : State) (file : File) :
    Sat (fun _ => True) (fun m' => m'.freeinode = m.freeinode + 1) (m.add ROOTINO file) := by
  unfold add
  split
  · exact .error trivial
  · refine (ialloc_freeinode m _).bind fun r same => (iappend_freeinode ..).bind fun m₁ same₁ => ?_
    exact (copy_freeinode ..).weaken fun _ same₂ => same₂.trans (same₁.trans same)

theorem adds_freeinode (files : List File) (m : State) :
    Sat (fun _ => True) (fun m' => m'.freeinode = m.freeinode + files.length)
      (files.foldlM (State.add ROOTINO) m) := by
  induction files generalizing m with
  | nil => exact .ok rfl
  | cons f files ih =>
    rw [foldlM_cons]
    refine (add_freeinode m f).bind fun m₁ same => (ih m₁).weaken fun m₂ same₁ => ?_
    rw [same₁, same, length_cons]
    omega

theorem fixRoot_freeinode (m : State) :
    Sat (fun _ => True) (fun m' => m'.freeinode = m.freeinode) (m.fixRoot ROOTINO) :=
  (sat_true (m.rinode ROOTINO)).bind fun _ _ => winode_freeinode ..

theorem balloc_freeinode (m : State) (used : Nat) :
    Sat (fun _ => True) (fun m' => m'.freeinode = m.freeinode) (m.balloc used) := by
  unfold State.balloc
  split
  · exact .ok rfl
  · exact .error trivial

theorem main_freeinode (files : List File) :
    Sat (fun _ => True) (fun m => m.freeinode = files.length + 2) (main files) := by
  refine (ialloc_freeinode _ _).bind fun ⟨rootino, m₀⟩ same => ?_
  dsimp only at same ⊢
  split
  · rename_i root
    rw [root]
    refine (iappend_freeinode ..).bind fun m₁ same₁ => (iappend_freeinode ..).bind fun m₂ same₂ =>
      (adds_freeinode files m₂).bind fun m₃ same₃ => (fixRoot_freeinode m₃).bind fun m₄ same₄ => ?_
    refine (balloc_freeinode ..).weaken fun m₅ same₅ => ?_
    rw [same₅, same₄, same₃, same₂, same₁, same, start_blank.2.2.1]
    omega
  · exact .error trivial

/-! The image as a whole. -/

theorem dirents_at (files : List File) (base : Nat) {k : Nat} (file : files[k]? = some f) :
    (((files.zipIdx base).flatMap fun f => dirent (f.2 + 2) f.1.stored).drop (16 * k)).take 16 =
      dirent (base + k + 2) f.stored := by
  induction files generalizing base k with
  | nil => cases file
  | cons g files ih =>
    rw [zipIdx_cons, flatMap_cons]
    cases k with
    | zero =>
      cases file
      exact take_left' (length_dirent ..)
    | succ k =>
      have beyond : 16 * (k + 1) = (dirent (base + 2) g.stored).length + 16 * k := by
        rw [length_dirent]
        omega
      rw [beyond, drop_length_add_append, ih (base + 1) file]
      congr 1
      omega

theorem rootEntries_at {k : Nat} (file : files[k]? = some f) :
    ((rootEntries files).drop (16 * (k + 2))).take 16 = dirent (k + 2) f.stored := by
  have beyond : 16 * (k + 2) = (dirent ROOTINO [46] ++ dirent ROOTINO [46, 46]).length + 16 * k := by
    rw [length_append, length_dirent, length_dirent]
    omega
  rw [rootEntries, beyond, drop_length_add_append, dirents_at files 0 file, Nat.zero_add]

/-- The image is as the kernel expects it, with the files in it. Inode numbers up to `freeinode` are in
use, and the entries of the root directory have 16 bytes. -/
structure Consistent (files : List File) (m : State) : Prop where
  numbers : ∀ i, ROOTINO ≤ i → i < m.freeinode → i < sb.ninodes
  superblock : ∀ k, k < superblock.length → word (m.sector 1) k = superblock.getD k 0
  blocks : m.disk.Consistent sb
  root : ∀ k f, files[k]? = some f →
    ((readBytes m.disk ROOTINO).drop (16 * (k + 2))).take 16 = dirent (k + 2) f.stored
  read : ∀ k f, files[k]? = some f → readBytes m.disk (k + 2) = f.contents

/-- Empty files can be added as long as there are blocks for their entries. -/
theorem main_empty (files : List File) (few : files.length + 2 ≤ NINODES)
    (empty : ∀ f ∈ files, f.contents = [] ∧ 47 ∉ f.name) (room : nmeta + 2 * (files.length + 2) ≤ FSSIZE) :
    ∃ m, main files = .ok m := by
  cases run : main files with
  | ok m => exact ⟨m, rfl⟩
  | error e => exact absurd ⟨empty, room⟩ ((main_sat files few).of_error run)

theorem image_consistent_iff {files : List File} {m : State} (done : main files = .ok m) :
    Consistent files m ↔ files.length + 2 ≤ NINODES ∧ (files.length + 2) % 32 ≠ 0 := by
  have used := (main_freeinode files).of_ok done
  constructor
  · intro consistent
    have few : files.length + 2 ≤ NINODES := by
      have last := consistent.numbers (files.length + 1) (Nat.le_add_left ..) (by rw [used]; omega)
      exact last
    obtain ⟨m₀, finished⟩ := (main_sat files few).of_ok done
    exact ⟨few, finished.whole_iff.mp consistent.blocks.whole⟩
  · rintro ⟨few, rest⟩
    obtain ⟨m₀, finished⟩ := (main_sat files few).of_ok done
    refine ⟨fun i _ below => ?_, fun k less => ?_, ?_, fun k f file => ?_, fun k f file => ?_⟩
    · rw [used] at below
      exact Nat.lt_of_lt_of_le below few
    · rw [finished.sectors 1 (.inl rfl), finished.built.building.sector, start_blank.1, update_self]
      have fields : ∀ k : Fin superblock.length,
          word (fun i => UInt8.ofNat (superblock.getD (i / 4) 0 / 2 ^ (8 * (i % 4)))) k.val =
            superblock.getD k.val 0 := by decide
      exact fields ⟨k, less⟩
    · refine consistent_iff.mpr ⟨finished.owned, fun b below => ?_, finished.whole_iff.mpr rest⟩
      rw [finished.bit b (Nat.lt_trans below (by decide))]
      exact decide_eq_true (Nat.lt_of_lt_of_le below finished.built.building.filled.nmeta_le)
    · have inside := (List.getElem?_eq_some_iff.mp file).1
      rw [← rootEntries_at file, ← contents_root, ← finished.read (i := ROOTINO) (by decide), List.drop_take,
        List.take_take, contents_root, length_rootEntries, Nat.min_eq_left (by omega)]
    · have inside := (List.getElem?_eq_some_iff.mp file).1
      have small : k + 2 < NINODES := by omega
      have isContents : contents files (k + 2) = f.contents := by rw [contents_file, file]; rfl
      have whole := finished.read small
      rwa [List.take_of_length_le, isContents] at whole
      rw [readBytes, List.length_map, List.length_range, finished.size_file small (by unfold ROOTINO; omega)]

theorem image_consistent_one_file :
    ∃ m, main [⟨[97], []⟩] = .ok m ∧ Consistent [⟨[97], []⟩] m := by
  obtain ⟨m, done⟩ := main_empty [⟨[97], []⟩] (by decide) (by decide) (by decide)
  exact ⟨m, done, (image_consistent_iff done).mpr (by decide)⟩

/-- Empty files with names of one letter. -/
def thirtyFiles : List File := (List.range 30).map fun k => ⟨[UInt8.ofNat (97 + k)], []⟩

/-- With thirty files the root directory fills one block and its size says two. -/
theorem image_inconsistent : ∃ m, main thirtyFiles = .ok m ∧ ¬ Consistent thirtyFiles m := by
  have few : thirtyFiles.length + 2 ≤ NINODES := by decide
  obtain ⟨m, done⟩ := main_empty thirtyFiles few (by decide) (by decide)
  obtain ⟨m₀, finished⟩ := (main_sat thirtyFiles few).of_ok done
  refine ⟨m, done, fun consistent => ?_⟩
  exact absurd (finished.whole_iff.mp consistent.blocks.whole) (by decide)

/-- As long as the disk has not been written, whoever holds the lock of an inode reads the bytes that
`mkfs` was given for it. -/
theorem kernel_reads_image {files : List File} {m : State} (done : main files = .ok m)
    (few : files.length + 2 ≤ NINODES) (rest : (files.length + 2) % 32 ≠ 0)
    {console : Nat → Option (List UInt8)} {calls : List (Inodes.Pid × Call)} {s : Inodes.State}
    (run : Lts.Run Inodes.State.Step (.booted sb (fun _ => m.disk) console) calls s) {me : Inodes.Pid}
    {ip : Fin NINODE} (holds : (s.icache ip).lock = some me) (unwritten : s.disk (s.icache ip).dev = m.disk)
    {i : Nat} (isInode : (s.icache ip).inum = i) (small : i < NINODES) {off n : UInt32}
    (inside : off.toNat + n.toNat ≤ (contents files i).length) :
    s.readi me ip off n = .ok (some (((contents files i).drop off.toNat).take n.toNat), s) := by
  obtain ⟨m₀, finished⟩ := (main_sat files few).of_ok done
  have sound := run_sound (fun _ => finished.blocks rest) run
  have live := sound.locked ip (by simp [holds])
  have copy := sound.synced ip live nofun
  rw [unwritten, isInode] at copy
  have enough := finished.enough small
  have short := finished.built.building.filled.length_le small
  have word : MAXFILE * BSIZE < 2 ^ 32 := by decide
  rw [readi_reads sound me live (by rw [copy]; exact finished.notDev small), Inodes.State.file, copy, unwritten,
    Inodes.readBytes, if_pos ⟨by dsimp only; omega, by omega⟩]
  refine congrArg (fun bytes => Except.ok (some bytes, s)) (ext_getElem? fun p => ?_)
  dsimp only
  by_cases less : p < n.toNat
  · have below : off.toNat + p < (contents files i).length := by omega
    obtain ⟨slot, at', some', value⟩ := finished.byte small below
    rw [getElem?_take_of_lt less, getElem?_drop, getElem?_map, getElem?_range (by omega),
      Option.map_some, getElem?_eq_getElem below, ← value, Inodes.contents, at']
    exact congrArg some (if_neg some')
  · rw [getElem?_eq_none (by rw [length_map, length_range]; omega),
      getElem?_eq_none (by rw [length_take]; omega)]

/-- The first entry of the root directory. -/
theorem kernel_reads_image_root :
    ∃ m s, main [⟨[97], []⟩] = .ok m ∧ Inodes.State.readi s 1 0 0 16 = .ok (some (dirent ROOTINO [46]), s) := by
  obtain ⟨m, done⟩ := main_empty [⟨[97], []⟩] (by decide) (by decide) (by decide)
  obtain ⟨m₀, finished⟩ := (main_sat [⟨[97], []⟩] (by decide)).of_ok done
  have notFree : (m.disk.dinode ROOTINO).type ≠ .FREE := by
    rw [finished.isDir]
    decide
  have found : Lts.Run Inodes.State.Step (.booted sb (fun _ => m.disk) fun _ => none)
      [(1, .iget ROOTDEV ROOTINO)] _ := (Lts.Run.nil _).snoc rfl
  have run := found.snoc (show Inodes.State.call _ (1, .ilock 0) = .ok _ from if_neg notFree)
  exact ⟨m, _, done, kernel_reads_image (i := ROOTINO) done (by decide) (by decide) run rfl rfl rfl
    (by decide) (by decide)⟩

end Xv6.Mkfs
