import Xv6.Memory.QuietSteps
import Xv6.Memory.Layout

/-!
Reference counts when memory runs out.

A run is a sequence of steps of active processes in which nothing is paged out and
`kalloc` fails exactly where the free list is empty. Counts stay equal to the number
of entries that map a frame except across one kind of step: a copy-on-write fault
that finds no memory gives up the reference of the process but not its entry.
-/

namespace Xv6

open Finset Ledger

namespace Kernel

/-- The present user entries of live page tables that map the frame. The product is
not meant to be computed. -/
@[irreducible] def mappers (k : Kernel) (f : Nat) : Finset (ProcNo × Nat) :=
  (Finset.univ ×ˢ Finset.range USERPAGES).filter fun e =>
    (k.proc e.1).Live ∧ (pteAt (k.dirs (k.proc e.1).pgdir) e.2).mapped = some f

def userEntries (k : Kernel) (f : Nat) : Nat := (mappers k f).card

/-- A frame that holds a directory, a page table or a kernel stack in use. -/
def KernelFrame (k : Kernel) (f : Nat) : Prop :=
  ∃ s, (k.proc s).Live ∧ (f = (k.proc s).pgdir ∨ f = (k.proc s).kstack ∨
    ∃ j, j < NPDENTRIES ∧ tableAt (k.dirs (k.proc s).pgdir) j = some f)

/-- Counts of user frames are the numbers of their entries, and a frame without
references is mapped nowhere. Frames in `reserved` belong to the rest of the kernel. -/
structure CountsExact (reserved : Set Nat) (k : Kernel) : Prop where
  user : ∀ f, f ∉ reserved → ¬ KernelFrame k f → k.kmem.ref f = userEntries k f
  free : ∀ f, k.kmem.ref f = 0 → userEntries k f = 0

/-- A state in which no operation is in progress. -/
structure Settled (cfg : Config) (reserved : Set Nat) (k : Kernel) : Prop where
  books : Books cfg reserved k
  plain : Plain k

def Step (cfg : Config) (k k' : Kernel) : Prop :=
  ∃ me op, (k.proc me).Active ∧ Covered k me op ∧ k.step cfg me op = .ok k'

section

variable {cfg : Config} {k k' : Kernel} {reserved : Set Nat} {me : ProcNo} {f page : Nat}
  {e : ProcNo × Nat}

theorem mem_mappers :
    e ∈ mappers k f ↔ e.2 < USERPAGES ∧ (k.proc e.1).Live ∧
      (pteAt (k.dirs (k.proc e.1).pgdir) e.2).mapped = some f := by
  unfold mappers
  rw [mem_filter, mem_product, mem_range]
  simp

theorem userEntries_congr (dirs : k'.dirs = k.dirs) (proc : k'.proc = k.proc) (f : Nat) :
    userEntries k' f = userEntries k f := by
  unfold userEntries mappers
  rw [dirs, proc]

/-- The place of an entry in the ledger. -/
def entryCell (k : Kernel) (e : ProcNo × Nat) : Cell := .user (k.proc e.1).pgdir e.2

theorem cells_of_mapper (mapper : e ∈ mappers k f) :
    cells k.dirs k.liveDirs k.liveStacks (entryCell k e) = some f := by
  obtain ⟨low, live, mapped⟩ := mem_mappers.mp mapper
  simp [entryCell, cells, mem_liveDirs live, low, mapped]

theorem mapper_of_cells {d : Nat}
    (held : cells k.dirs k.liveDirs k.liveStacks (.user d page) = some f) :
    ∃ e ∈ mappers k f, entryCell k e = .user d page := by
  obtain ⟨live, low, present, frame⟩ := cells_user.mp held
  obtain ⟨s, isLive, rfl⟩ := mem_liveDirs_iff.mp live
  have mapped : (pteAt (k.dirs (k.proc s).pgdir) page).mapped = some f := by
    simp [Pte.mapped, present, frame]
  exact ⟨(s, page), mem_mappers.mpr ⟨low, isLive, mapped⟩, rfl⟩

theorem Books.entryCell_injOn (books : Books cfg reserved k) (f : Nat) :
    Set.InjOn (entryCell k) (mappers k f) := by
  intro e mapper e' mapper' same
  have live := (mem_mappers.mp (mem_coe.mp mapper)).2.1
  have live' := (mem_mappers.mp (mem_coe.mp mapper')).2.1
  simp only [entryCell, Cell.user.injEq] at same
  exact Prod.ext (books.ownDir e.1 e'.1 live live' same.1) same.2

/-- A frame the kernel does not use itself is held by user entries only. -/
theorem holders_eq_image (isUser : ¬ KernelFrame k f) :
    holders (cells k.dirs k.liveDirs k.liveStacks) f = entryCell k '' mappers k f := by
  ext c
  constructor
  · intro held
    change cells k.dirs k.liveDirs k.liveStacks c = some f at held
    cases c with
    | user d page =>
      obtain ⟨e, mapper, same⟩ := mapper_of_cells held
      exact ⟨e, mem_coe.mpr mapper, same⟩
    | tab d j =>
      simp only [cells, Option.ite_none_right_eq_some] at held
      obtain ⟨⟨live, inside⟩, table⟩ := held
      obtain ⟨s, isLive, rfl⟩ := mem_liveDirs_iff.mp live
      exact absurd ⟨s, isLive, Or.inr (Or.inr ⟨j, inside, table⟩)⟩ isUser
    | dir d =>
      simp only [cells, Option.ite_none_right_eq_some, Option.some.injEq] at held
      obtain ⟨live, rfl⟩ := held
      obtain ⟨s, isLive, same⟩ := mem_liveDirs_iff.mp live
      exact absurd ⟨s, isLive, Or.inl same.symm⟩ isUser
    | one g =>
      simp only [cells, Option.ite_none_right_eq_some, Option.some.injEq] at held
      obtain ⟨live, rfl⟩ := held
      obtain ⟨s, isLive, same⟩ := mem_liveStacks_iff.mp live
      exact absurd ⟨s, isLive, Or.inr (Or.inl same.symm)⟩ isUser
  · rintro ⟨e, mapper, rfl⟩
    exact cells_of_mapper (mem_coe.mp mapper)

theorem Books.countsExact (books : Books cfg reserved k) : CountsExact reserved k where
  user f out isUser := by
    rw [books.owns.balanced.counted f out, count, holders_eq_image isUser,
      (books.entryCell_injOn f).ncard_image, Set.ncard_coe_finset, userEntries]
  free f zero := by
    refine card_eq_zero.mpr (eq_empty_of_forall_notMem fun e mapper => ?_)
    exact books.owns.balanced.free zero _ (cells_of_mapper mapper)

/-- A frame that a user entry maps is not used by the kernel. -/
theorem Books.userFrame (books : Books cfg reserved k) (mapper : e ∈ mappers k f) :
    f ∉ reserved ∧ ¬ KernelFrame k f := by
  have held := cells_of_mapper mapper
  have balanced := books.owns.balanced
  -- An exclusive holder would be the only one, but a user entry is another.
  have apart : ∀ c : Cell, c.Exclusive →
      cells k.dirs k.liveDirs k.liveStacks c = some f → False := by
    intro c exclusive holds
    have := balanced.sole (balanced.alone c f exclusive holds) holds held
    subst this
    exact exclusive
  refine ⟨balanced.not_reserved held, ?_⟩
  rintro ⟨s, live, rfl | rfl | ⟨j, inside, table⟩⟩
  · exact apart (.dir _) trivial (cells_dir (mem_liveDirs live))
  · exact apart (.one _) trivial (cells_one (mem_liveStacks live))
  · exact apart (.tab (k.proc s).pgdir j) trivial
      (by simp only [cells]; rw [if_pos ⟨mem_liveDirs live, inside⟩, table])

/-- The count the failed fault has lowered is one too low. -/
theorem not_countsExact_of_failed {k₁ k₂ : Kernel} (books : Books cfg reserved k₁)
    (live : (k₁.proc me).Live) (low : page < USERPAGES)
    (present : (pteAt (k₁.dirs (k₁.proc me).pgdir) page).p = true)
    (failed : CowFailed cfg me (k₁.proc me).pgdir page k₁ k₂) (exited : Exited me k₂ k') :
    ¬ CountsExact reserved k' := by
  obtain ⟨shared, _, _, rfl⟩ := failed
  -- The state the exit would leave with the counts of before the fault.
  obtain ⟨⟨proc, rfl⟩, notInit, zombie, state, same, others⟩ := exited.of_kill
  have exited : Exited me k₁ { k₁ with proc := proc } :=
    ⟨⟨proc, rfl⟩, notInit, zombie, state, same, others⟩
  have books' := exited.books live books
  have mapper : (me, page) ∈ mappers { k₁ with proc := proc }
      (pteAt (k₁.dirs (k₁.proc me).pgdir) page).frame := by
    refine mem_mappers.mpr ⟨low, ((exited.sameOwners live).live me).mpr live, ?_⟩
    change (pteAt (k₁.dirs (proc me).pgdir) page).mapped = _
    rw [(exited.same me).2.1, Pte.mapped, if_pos present]
  obtain ⟨out, isUser⟩ := books'.userFrame mapper
  have before := books'.countsExact.user _ out isUser
  intro exact'
  have after := exact'.user _ out isUser
  have lowered : ((k₁.kmem.decRef (pteAt (k₁.dirs (k₁.proc me).pgdir) page).frame).2).ref
      (pteAt (k₁.dirs (k₁.proc me).pgdir) page).frame =
        k₁.kmem.ref (pteAt (k₁.dirs (k₁.proc me).pgdir) page).frame - 1 := by
    simp only [Kmem.decRef]
    rw [if_pos shared]
    simp
  change k₁.kmem.ref _ = _ at before
  change ((k₁.kmem.decRef (pteAt (k₁.dirs (k₁.proc me).pgdir) page).frame).2).ref _ = _ at after
  rw [lowered, before] at after
  have same : userEntries { k₁ with
      kmem := (k₁.kmem.decRef (pteAt (k₁.dirs (k₁.proc me).pgdir) page).frame).2, proc := proc }
        (pteAt (k₁.dirs (k₁.proc me).pgdir) page).frame =
      userEntries { k₁ with proc := proc } (pteAt (k₁.dirs (k₁.proc me).pgdir) page).frame :=
    userEntries_congr (by rfl) (by rfl) _
  rw [same] at after
  omega

/-- A step from a settled state keeps the counts exact if and only if it is covered,
and then it ends in a settled state. -/
theorem Settled.step {op : MemOp} (settled : Settled cfg reserved k) (ok : cfg.Ok)
    (quiet : cfg.excluded .eviction = true) (active : (k.proc me).Active)
    (run : k.step cfg me op = .ok k') :
    (CountsExact reserved k' ↔ Covered k me op) ∧ (Covered k me op → Settled cfg reserved k') := by
  obtain ⟨books, plain⟩ := settled
  have live := active.live
  rcases step_quiet ok quiet books plain active run with ⟨books', plain', covered⟩ |
    ⟨va, k₁, k₂, trap, low, touched, isCow, failed, exited⟩
  · exact ⟨⟨fun _ => covered, fun _ => books'.countsExact⟩, fun _ => ⟨books', plain'⟩⟩
  · have uncovered : ¬ Covered k me op := by
      intro covered
      obtain ⟨shared, empty, _⟩ := failed
      obtain ⟨a, entry⟩ := touched.entries (pageOf va)
      rw [touched.kmem, entry] at shared
      rw [touched.kmem] at empty
      exact covered va trap low isCow shared empty
    have live₁ := (touched.frame.sameOwners.live me).mpr live
    have present : (pteAt (k₁.dirs (k.proc me).pgdir) (pageOf va)).p = true := by
      obtain ⟨a, entry⟩ := touched.entries (pageOf va)
      rw [entry]
      exact (plain me live (pageOf va) (pageOf_low low)).2.1 isCow
    rw [← touched.frame.mine.pgdir] at failed present
    have unequal := not_countsExact_of_failed (books.touched touched) live₁ (pageOf_low low)
      present failed exited
    exact ⟨⟨fun exact' => absurd exact' unequal, fun covered => absurd covered uncovered⟩,
      fun covered => absurd covered uncovered⟩

end

/-- A build without a policy, in runs that exclude eviction. -/
def quietConfig : Config where
  sel := .NONE
  kernelEnd := 0x80115000
  kernelData := 0x80108000
  excluded i := i = .eviction

theorem quietConfig_ok : quietConfig.Ok := ⟨by decide, by decide⟩

theorem sharers_settled (n : Nat) (room : n ≤ 1000) : Settled quietConfig ∅ (sharers n) :=
  ⟨sharers_books rfl room, sharers_plain n⟩

/-- In every run of covered steps the counts are exact in each state reached, and a
next step keeps them exact if and only if it is covered too. -/
theorem counts_exact_iff_covered (cfg : Config) {reserved : Set Nat} {k₀ k : Kernel} (ok : cfg.Ok)
    (quiet : cfg.excluded .eviction = true) (settled : Settled cfg reserved k₀)
    (run : Relation.ReflTransGen (Step cfg) k₀ k) :
    CountsExact reserved k ∧
      ∀ me op k', (k.proc me).Active → k.step cfg me op = .ok k' →
        (CountsExact reserved k' ↔ Covered k me op) := by
  have reached : Settled cfg reserved k := by
    induction run with
    | refl => exact settled
    | tail _ step ih =>
      obtain ⟨me, op, active, covered, done⟩ := step
      exact (ih.step ok quiet active done).2 covered
  exact ⟨reached.books.countsExact,
    fun me op k' active done => (reached.step ok quiet active done).1⟩

/-- With one free frame the child gets its copy and all counts stay exact. -/
theorem counts_exact_sharers :
    ∃ k, Step quietConfig (sharers 1) k ∧ CountsExact ∅ k := by
  have settled := sharers_settled 1 (by decide)
  obtain ⟨k, run⟩ : ∃ k, (sharers 1).step quietConfig 1 (.store 0 7) = .ok k := ⟨_, rfl⟩
  have step : Step quietConfig (sharers 1) k := by
    refine ⟨1, .store 0 7, Or.inl rfl, ?_, run⟩
    intro va _ _ _ _ empty
    cases empty
  exact ⟨k, step, (counts_exact_iff_covered quietConfig quietConfig_ok rfl settled (.single step)).1⟩

/-- The child of two sharers stores with the free list empty: its count is given up,
its entry is not. -/
theorem counts_inexact_of_exhaustion :
    ∃ k', Settled quietConfig ∅ (sharers 0) ∧ ((sharers 0).proc 1).Active ∧
      (sharers 0).step quietConfig 1 (.store 0 7) = .ok k' ∧ ¬ CountsExact ∅ k' := by
  have settled := sharers_settled 0 (by decide)
  have active : ((sharers 0).proc 1).Active := Or.inl rfl
  obtain ⟨k', run⟩ : ∃ k', (sharers 0).step quietConfig 1 (.store 0 7) = .ok k' := ⟨_, rfl⟩
  refine ⟨k', settled, active, run, fun exact' => ?_⟩
  have covered := (settled.step quietConfig_ok rfl active run).1.mp exact'
  exact covered 0 rfl (by decide) rfl (by decide) rfl

end Kernel

end Xv6
