import Xv6.Memory.QuietSteps

/-!
States written down in full.

The allocator is determined by the list of references it has given out and a range
of free frames, so that its counts balance with the ledger by construction. A
directory with a single page table covers the images used here.
-/

namespace Xv6

open Ledger LinkChain List

/-- The references in `held` are given out, one frame after the other from `a` on
is free. -/
def Kmem.layout (held : List (Cell × Nat)) (a n : Nat) : Kmem where
  freelist := if n = 0 then none else some a
  runArr f :=
    ⟨if a ≤ f ∧ f + 1 < a + n then some (f + 1) else none, held.countP (fun h => h.2 = f)⟩
  occupiedPages := (held.map Prod.snd).toFinset.card

theorem layout_ref (held : List (Cell × Nat)) (a n f : Nat) :
    (Kmem.layout held a n).ref f = held.countP (fun h => h.2 = f) := rfl

variable {held : List (Cell × Nat)} {a n : Nat} {cfg : Config}

theorem layout_ref_eq_zero {f : Nat} :
    (Kmem.layout held a n).ref f = 0 ↔ f ∉ held.map Prod.snd := by
  rw [layout_ref]
  simp only [Nat.cast_eq_zero, countP_eq_zero, decide_eq_true_eq, mem_map, not_exists, not_and]

theorem kmemOk_layout (apart : ∀ h ∈ held, h.2 < a ∨ a + n ≤ h.2)
    (heldGood : ∀ h ∈ held, ¬ BadFrame cfg h.2)
    (freeGood : ∀ f, a ≤ f → f < a + n → ¬ BadFrame cfg f) :
    KmemOk cfg (.layout held a n) (held.map Prod.snd ++ List.range' a n).toFinset
      (List.range' a n) where
  chain := by
    refine chain_range' n (fun x lower upper => if_pos ⟨lower, upper⟩) (fun pos => if_neg ?_)
    omega
  nodup := nodup_range'
  mem_free f := by
    rw [layout_ref_eq_zero, mem_toFinset, mem_append, mem_range'_1]
    constructor
    · intro inside
      refine ⟨Or.inr inside, fun used => ?_⟩
      obtain ⟨h, isHeld, rfl⟩ := mem_map.mp used
      have := apart h isHeld
      omega
    · rintro ⟨used | inside, notUsed⟩
      · exact absurd used notUsed
      · exact inside
  nonneg f := by
    rw [layout_ref]
    omega
  outside f out := by
    rw [layout_ref_eq_zero]
    intro used
    exact out (mem_toFinset.mpr (mem_append_left _ used))
  inside f given := by
    rcases mem_append.mp (mem_toFinset.mp given) with used | free
    · obtain ⟨h, isHeld, rfl⟩ := mem_map.mp used
      exact heldGood h isHeld
    · rw [mem_range'_1] at free
      exact freeGood f free.1 free.2
  occupied := by
    refine congrArg (fun s : Finset Nat => (s.card : Int)) ?_
    ext f
    rw [Finset.mem_filter, Ne, layout_ref_eq_zero, not_not, mem_toFinset, mem_toFinset, mem_append]
    exact ⟨fun used => ⟨Or.inl used, used⟩, fun used => used.2⟩

/-- A kernel that ends at `0x80115000` leaves the pages from 277 on. -/
theorem not_badFrame (kernelEnd : cfg.kernelEnd = 0x80115000) {f : Nat} (above : 277 ≤ f)
    (below : f < 57344) : ¬ BadFrame cfg f := by
  unfold BadFrame KERNBASE MAXPAGES PHYSTOP PGSIZE
  omega

/-- The frames below 2000 are held, and those from 2000 on are free. -/
theorem kmemOk_low (kernelEnd : cfg.kernelEnd = 0x80115000) (room : n ≤ 50000)
    (bounds : ∀ h ∈ held, 1000 ≤ h.2 ∧ h.2 < 2000) :
    ∃ given, KmemOk cfg (.layout held 2000 n) given (List.range' 2000 n) := by
  refine ⟨_, kmemOk_layout (fun h isHeld => .inl (bounds h isHeld).2) (fun h isHeld => ?_)
    fun f lower upper => not_badFrame kernelEnd (by omega) (by omega)⟩
  have := bounds h isHeld
  exact not_badFrame kernelEnd (by omega) (by omega)

/-- A kernel that ends there. -/
def layoutConfig (sel : Selection) : Config where
  sel := sel
  kernelEnd := 0x80115000
  kernelData := 0x80108000

/-- The allocator of a layout balances with the cells its list was read off from. -/
theorem owns_layout {dirs : Nat → PageDir} {L X : Finset Nat}
    (listed : Listed (cells dirs L X) held) (nodup : held.Nodup)
    (alone : ∀ h ∈ held, h.1.Exclusive → held.countP (fun g => g.2 = h.2) = 1)
    (apart : ∀ h ∈ held, h.2 < a ∨ a + n ≤ h.2) (heldGood : ∀ h ∈ held, ¬ BadFrame cfg h.2)
    (freeGood : ∀ f, a ≤ f → f < a + n → ¬ BadFrame cfg f) :
    Owns cfg (.layout held a n) ∅ (cells dirs L X) :=
  ⟨⟨_, _, kmemOk_layout apart heldGood freeGood⟩, listed.balanced nodup (layout_ref held a n) alone⟩

/-- A directory whose first entry is the page table in frame `table`. -/
def PageDir.single (table : Nat) (ptes : Nat → Pte) : PageDir :=
  fun j => if j = 0 then some ⟨table, ptes⟩ else none

theorem pteAt_single (table : Nat) (ptes : Nat → Pte) (page : Nat) :
    pteAt (.single table ptes) page = if page < 1024 then ptes page else .zero := by
  unfold pteAt PageDir.single
  by_cases low : page < 1024
  · rw [if_pos low, if_pos (by omega)]
    simp only
    rw [Nat.mod_eq_of_lt low]
  · rw [if_neg low, if_neg (by omega)]

theorem tableAt_single (table : Nat) (ptes : Nat → Pte) (j : Nat) :
    tableAt (.single table ptes) j = if j = 0 then some table else none := by
  unfold tableAt PageDir.single
  split <;> rfl

/-- Zeroed entries of the process table. -/
def Proc.zeroed : Proc where
  sz := 0
  pgdir := 0
  kstack := 0
  state := .UNUSED
  pid := 0
  parent := none
  killed := false
  swapFile := none
  paging := .zeroed
  pagefaults := 0
  pagedout := 0

/-- The kernel's data as it is loaded. -/
def Kernel.zeroed : Kernel where
  kmem := .zeroed
  mem _ := .zeroed
  dirs _ := .zeroed
  proc _ := .zeroed
  nextpid := 1
  initproc := 0
  buffer := .zeroed
  swapBuffer := .zeroed
  forkBuffer := .zeroed
  trace := []

namespace Kernel

/-- What two processes that share one page hold. -/
def sharersHeld : List (Cell × Nat) :=
  [(.dir 1000, 1000), (.dir 1001, 1001), (.tab 1000 0, 1002), (.tab 1001 0, 1003),
    (.one 1004, 1004), (.one 1005, 1005), (.user 1000 0, 1006), (.user 1001 0, 1006)]

def sharedEntries (page : Nat) : Pte :=
  if page = 0 then { p := true, u := true, cow := true, frame := 1006 } else .zero

/-- `initproc` and its child after a `fork`, with `n` free frames. -/
def sharers (n : Nat) : Kernel :=
  { Kernel.zeroed with
    kmem := .layout sharersHeld 2000 n
    dirs := fun d =>
      if d = 1000 then .single 1002 sharedEntries
      else if d = 1001 then .single 1003 sharedEntries else .zeroed
    proc := fun s =>
      if s = 0 then
        { Proc.zeroed with sz := PGSIZE, pgdir := 1000, kstack := 1004, state := .RUNNABLE, pid := 1 }
      else if s = 1 then
        { Proc.zeroed with
          sz := PGSIZE, pgdir := 1001, kstack := 1005, state := .RUNNABLE, pid := 2
          parent := some 0 }
      else .zeroed
    nextpid := 3 }

/-- The SCFIFO build, in runs that never lack memory. -/
def ampleConfig : Config := { layoutConfig .SCFIFO with excluded i := i = .outOfMemory }

/-- What `initproc` and a process without user pages hold. -/
def loneHeld : List (Cell × Nat) :=
  [(.dir 1000, 1000), (.dir 1001, 1001), (.tab 1000 0, 1002), (.tab 1001 0, 1003),
    (.one 1004, 1004), (.one 1005, 1005)]

/-- `initproc` and a process of pid 3 with paging metadata as `exec` resets them, an empty swap file
and no user pages, with `n` free frames. -/
def lone (n : Nat) : Kernel :=
  { Kernel.zeroed with
    kmem := .layout loneHeld 2000 n
    dirs := fun d =>
      if d = 1000 then .single 1002 fun _ => .zero
      else if d = 1001 then .single 1003 fun _ => .zero else .zeroed
    proc := fun s =>
      if s = 0 then
        { Proc.zeroed with pgdir := 1000, kstack := 1004, state := .SLEEPING, pid := 1 }
      else if s = 1 then
        { Proc.zeroed with
          pgdir := 1001, kstack := 1005, state := .RUNNING, pid := 3, parent := some 0
          swapFile := some .empty, paging := Paging.zeroed.reset }
      else .zeroed
    nextpid := 4 }

/-- The process grows by `n` pages and reads the first byte of those in `used`. -/
def loneUser (sel : Selection) (n : Nat) (used : List Nat) : Res Kernel := do
  let (_, k) ← (lone (n + 6)).growproc (layoutConfig sel) 1 (n * PGSIZE)
  used.foldlM (fun k page => match k.load 1 (page * PGSIZE) with
    | some (_, k) => .ok k
    | none => .error .nullDeref) k

/-- Entries of which only the first is in use. -/
def firstPage (pte : Pte) (page : Nat) : Pte := if page = 0 then pte else .zero

/-- A page two processes share after a `fork`. -/
def sharedPte : Pte := { p := true, u := true, cow := true, frame := 1006 }

/-- What two processes with at most one page each hold. -/
def pairHeld (first second : Pte) : List (Cell × Nat) :=
  [(.dir 1000, 1000), (.dir 1001, 1001), (.tab 1000 0, 1002), (.tab 1001 0, 1003),
    (.one 1004, 1004), (.one 1005, 1005)] ++
    (first.mapped.toList.map fun f => (.user 1000 0, f)) ++
    second.mapped.toList.map fun f => (.user 1001 0, f)

/-- The two processes at the first positions have a directory with one page table each. -/
structure Pair (first second : Pte) (k : Kernel) : Prop where
  live : ∀ s, (k.proc s).Live ↔ s = 0 ∨ s = 1
  firstProc : (k.proc 0).pgdir = 1000 ∧ (k.proc 0).kstack = 1004 ∧ (k.proc 0).sz ≤ KERNBASE
  secondProc : (k.proc 1).pgdir = 1001 ∧ (k.proc 1).kstack = 1005 ∧ (k.proc 1).sz ≤ KERNBASE
  firstDir : k.dirs 1000 = .single 1002 (firstPage first)
  secondDir : k.dirs 1001 = .single 1003 (firstPage second)

section Pairs

variable {first second : Pte} {k : Kernel}

theorem pteAt_firstPage (table : Nat) (pte : Pte) (page : Nat) :
    pteAt (.single table (firstPage pte)) page = firstPage pte page := by
  rw [pteAt_single]
  split
  · rfl
  · rw [firstPage, if_neg (by omega)]

section

variable (pair : Pair first second k)
include pair

theorem Pair.liveDirs (d : Nat) :
    d ∈ k.liveDirs ↔ d = 1000 ∨ d = 1001 := by
  simp only [mem_liveDirs_iff, pair.live, or_and_right, exists_or, exists_eq_left, pair.firstProc.1,
    pair.secondProc.1, eq_comm]

theorem Pair.liveStacks (f : Nat) :
    f ∈ k.liveStacks ↔ f = 1004 ∨ f = 1005 := by
  simp only [mem_liveStacks_iff, pair.live, or_and_right, exists_or, exists_eq_left,
    pair.firstProc.2.1, pair.secondProc.2.1, eq_comm]

theorem Pair.entry {d : Nat} (inUse : d = 1000 ∨ d = 1001) (page : Nat) :
    pteAt (k.dirs d) page = firstPage (if d = 1000 then first else second) page := by
  rcases inUse with rfl | rfl
  · rw [pair.firstDir, pteAt_firstPage, if_pos rfl]
  · rw [pair.secondDir, pteAt_firstPage, if_neg (by decide)]

theorem Pair.table {d : Nat} (inUse : d = 1000 ∨ d = 1001) (j : Nat) :
    tableAt (k.dirs d) j = if j = 0 then some (d + 2) else none := by
  rcases inUse with rfl | rfl
  · rw [pair.firstDir, tableAt_single]
  · rw [pair.secondDir, tableAt_single]

theorem Pair.listed :
    Listed (cells k.dirs k.liveDirs k.liveStacks) (pairHeld first second) := by
  intro c f
  cases c with
  | user d page =>
    have low : 0 < USERPAGES := by decide
    simp only [cells, pair.liveDirs, pairHeld]
    by_cases h : d = 1000 ∨ d = 1001
    · rw [pair.entry h]
      by_cases isFirst : page = 0
      · subst isFirst
        rcases h with rfl | rfl <;> simp [low, firstPage, eq_comm]
      · simp [firstPage, isFirst, Ne.symm isFirst, Pte.mapped, Pte.zero]
    · simp [h]
      omega
  | tab d j =>
    simp only [cells, pair.liveDirs, pairHeld]
    by_cases h : d = 1000 ∨ d = 1001
    · rw [pair.table h]
      by_cases isFirst : j = 0
      · subst isFirst
        rcases h with rfl | rfl <;> simp [eq_comm]
      · simp [isFirst]
    · simp [h]
      omega
  | dir d =>
    simp only [cells, pair.liveDirs, pairHeld]
    by_cases h : d = 1000 ∨ d = 1001
    · rcases h with rfl | rfl <;> simp [eq_comm]
    · simp [h]
      omega
  | one g =>
    simp only [cells, pair.liveStacks, pairHeld]
    by_cases h : g = 1004 ∨ g = 1005
    · rcases h with rfl | rfl <;> simp [eq_comm]
    · simp [h]
      omega

end

/-- The pages are in frames above the directories, tables and stacks. -/
def PairFrames (first second : Pte) : Prop :=
  ∀ f, first.mapped = some f ∨ second.mapped = some f → 1006 ≤ f ∧ f < 2000

theorem PairFrames.bounds (frames : PairFrames first second) {h : Cell × Nat}
    (isHeld : h ∈ pairHeld first second) : 1000 ≤ h.2 ∧ h.2 < 2000 := by
  simp only [pairHeld, mem_append, mem_map, Option.mem_toList] at isHeld
  rcases isHeld with (fixed | ⟨f, mapped, rfl⟩) | ⟨f, mapped, rfl⟩
  · revert h
    decide
  · have := frames f (.inl mapped)
    simp only
    omega
  · have := frames f (.inr mapped)
    simp only
    omega

/-- Both processes run out of the frames from 2000 on. -/
theorem Pair.books {cfg : Config} (kernelEnd : cfg.kernelEnd = 0x80115000) {n : Nat} (room : n ≤ 50000)
    (pair : Pair first second k) (kmem : k.kmem = .layout (pairHeld first second) 2000 n)
    (frames : PairFrames first second) : Books cfg ∅ k where
  owns := by
    rw [kmem]
    refine owns_layout pair.listed ?_ ?_ ?_ ?_ ?_
    · cases h₁ : first.mapped <;> cases h₂ : second.mapped <;> simp [pairHeld, h₁, h₂]
    · -- A page's frame is none of those the directories, tables and stacks lie in.
      have apart : ∀ f, first.mapped = some f ∨ second.mapped = some f →
          f ≠ 1000 ∧ f ≠ 1001 ∧ f ≠ 1002 ∧ f ≠ 1003 ∧ f ≠ 1004 ∧ f ≠ 1005 := by
        intro f mapped
        have := frames f mapped
        omega
      cases h₁ : first.mapped <;> cases h₂ : second.mapped <;> simp_all [pairHeld, Cell.Exclusive]
    · intro h isHeld
      exact Or.inl (frames.bounds isHeld).2
    · intro h isHeld
      have := frames.bounds isHeld
      exact not_badFrame kernelEnd (by omega) (by omega)
    · intro f lower upper
      exact not_badFrame kernelEnd (by omega) (by omega)
  ownDir := by
    intro s s' live live' same
    rcases (pair.live s).mp live with rfl | rfl <;> rcases (pair.live s').mp live' with rfl | rfl
    all_goals first
      | rfl
      | (simp [pair.firstProc.1, pair.secondProc.1] at same)
  ownStack := by
    intro s s' live live' same
    rcases (pair.live s).mp live with rfl | rfl <;> rcases (pair.live s').mp live' with rfl | rfl
    all_goals first
      | rfl
      | (simp [pair.firstProc.2.1, pair.secondProc.2.1] at same)
  small := by
    intro s live
    rcases (pair.live s).mp live with rfl | rfl
    · exact pair.firstProc.2.2
    · exact pair.secondProc.2.2

end Pairs

variable {n : Nat} {s : ProcNo}

theorem sharers_live :
    ((sharers n).proc s).Live ↔ s = 0 ∨ s = 1 := by
  by_cases first : s = 0
  · subst first
    simp [sharers, Proc.Live]
  · by_cases second : s = 1
    · subst second
      simp [sharers, Proc.Live]
    · simp [sharers, Proc.Live, Proc.zeroed, first, second]

theorem PGSIZE_le_KERNBASE : PGSIZE ≤ KERNBASE := by decide

theorem sharers_pair (n : Nat) : Pair sharedPte sharedPte (sharers n) where
  live _ := sharers_live
  firstProc := ⟨rfl, rfl, PGSIZE_le_KERNBASE⟩
  secondProc := ⟨rfl, rfl, PGSIZE_le_KERNBASE⟩
  firstDir := rfl
  secondDir := rfl

theorem sharers_books {cfg : Config} (kernelEnd : cfg.kernelEnd = 0x80115000) (room : n ≤ 1000) :
    Books cfg ∅ (sharers n) := by
  refine (sharers_pair n).books kernelEnd (by omega) rfl ?_
  intro f mapped
  simp [sharedPte, Pte.mapped] at mapped
  omega

theorem sharers_entry (live : ((sharers n).proc s).Live) (page : Nat) :
    pteAt ((sharers n).dirs ((sharers n).proc s).pgdir) page = sharedEntries page := by
  rcases sharers_live.mp live with rfl | rfl
  · exact (sharers_pair n).entry (.inl rfl) page
  · exact (sharers_pair n).entry (.inr rfl) page

theorem sharers_plain (n : Nat) : Plain (sharers n) := by
  intro s live page low
  rw [sharers_entry live, sharedEntries]
  split
  · exact ⟨rfl, fun _ => rfl, fun _ => Or.inr rfl⟩
  · exact Pte.plain_zero

end Kernel

end Xv6
