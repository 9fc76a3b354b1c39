import Xv6.Library.Ledger
import Xv6.Memory.Kernel

/-!
Frames and their owners.

A ledger names every place that may hold a reference to a frame: the user entries,
the page tables and the frame of each page directory in use, and the kernel
stacks. `Owns` says that the allocator's counts balance with such a ledger. The
lemmas here are the effect of the primitive operations on it; everything about
counts in larger operations is derived from them.
-/

namespace Xv6

open Function Ledger

/-- A place that may hold a frame. -/
inductive Cell where
  /-- The entry of a user page in a directory. -/
  | user (d page : Nat)
  /-- A page table of a directory. -/
  | tab (d j : Nat)
  /-- The directory itself. -/
  | dir (d : Nat)
  /-- A frame the kernel holds through a pointer of its own. -/
  | one (f : Nat)
  deriving DecidableEq

/-- Only user entries share frames. -/
def Cell.Exclusive : Cell → Prop
  | .user _ _ => False
  | _ => True

instance (c : Cell) : Decidable c.Exclusive :=
  match c with
  | .user _ _ => inferInstanceAs (Decidable False)
  | .tab _ _ | .dir _ | .one _ => inferInstanceAs (Decidable True)

/-- What the directories in `L` and the pointers in `X` hold. -/
def cells (dirs : Nat → PageDir) (L X : Finset Nat) : Cell → Option Nat
  | .user d page => if d ∈ L ∧ page < USERPAGES then (pteAt (dirs d) page).mapped else none
  | .tab d j => if d ∈ L ∧ j < NPDENTRIES then tableAt (dirs d) j else none
  | .dir d => if d ∈ L then some d else none
  | .one f => if f ∈ X then some f else none

/-- The allocator is intact and its counts balance with the ledger; `reserved`
frames are held elsewhere. -/
structure Owns (cfg : Config) (km : Kmem) (reserved : Set Nat) (t : Cell → Option Nat) :
    Prop where
  kmem : ∃ given free, KmemOk cfg km given free
  balanced : Balanced km.ref reserved Cell.Exclusive t

section Kmem

variable {cfg : Config} {km km' : Kmem} {reserved : Set Nat} {t : Cell → Option Nat} {f : Nat}
  {c c' : Cell}

section

variable (owns : Owns cfg km reserved t)
include owns

theorem Owns.pop (popped : km.pop = some (f, km')) :
    km.ref f = 0 ∧ (∀ g, km'.ref g = if g = f then 1 else km.ref g) ∧
      ∀ c, t c = none → Owns cfg km' reserved (update t c (some f)) := by
  obtain ⟨given, free, ok⟩ := owns.kmem
  cases free with
  | nil =>
    rw [ok.pop_nil] at popped
    cases popped
  | cons r rest =>
    obtain ⟨km₁, popped₁, ok₁, refs⟩ := ok.pop_cons
    rw [popped₁] at popped
    obtain ⟨rfl, rfl⟩ : r = f ∧ km₁ = km' := by simpa using popped
    have zero : km.ref r = 0 := ((ok.mem_free r).mp (List.mem_cons_self ..)).2
    exact ⟨zero, refs, fun c vacant =>
      ⟨⟨given, rest, ok₁⟩, owns.balanced.acquire zero vacant refs⟩⟩

theorem Owns.freeFrame (held : t c = some f) (freed : km.freeFrame cfg f = .ok km') :
    km.ref f = 1 ∧ (∀ g, km'.ref g = if g = f then 0 else km.ref g) ∧
      Owns cfg km' reserved (update t c none) := by
  obtain ⟨given, free, ok⟩ := owns.kmem
  have last : km.ref f = 1 := by
    unfold Kmem.freeFrame Kmem.release at freed
    split at freed
    · cases freed
    · split at freed
      · cases freed
      · rename_i one
        exact not_not.mp one
  obtain ⟨km₁, freed₁, ok₁, refs⟩ := ok.freeFrame last
  cases freed.symm.trans freed₁
  refine ⟨last, refs, ⟨given, f :: free, ok₁⟩, owns.balanced.release held fun g => ?_⟩
  rw [refs g]
  split
  · omega
  · rfl

theorem Owns.incRef (held : t c' = some f) (shared : ¬ c'.Exclusive)
    (vacant : t c = none) (isOpen : ¬ c.Exclusive) (bound : km.ref f < 2 ^ 31 - 1) :
    Owns cfg (km.incRef f) reserved (update t c (some f)) := by
  obtain ⟨given, free, ok⟩ := owns.kmem
  obtain ⟨ok', refs⟩ := ok.incRef (owns.balanced.ref_pos held) bound
  exact ⟨⟨given, free, ok'⟩, owns.balanced.share held shared vacant isOpen refs⟩

/-- Lowering a count that is not the last reference. -/
theorem Owns.decRef (held : t c = some f) (many : 1 < km.ref f) :
    Owns cfg (km.decRef f).2 reserved (update t c none) := by
  obtain ⟨given, free, ok⟩ := owns.kmem
  obtain ⟨ok', refs⟩ := ok.decRef f
  refine ⟨⟨given, free, ok'⟩, owns.balanced.release held fun g => ?_⟩
  rw [refs g]
  by_cases same : g = f
  · subst same
    simp [many]
  · simp [same]

theorem Owns.move (held : t c = some f) (vacant : t c' = none) (isOpen : ¬ c'.Exclusive) :
    Owns cfg km reserved (update (update t c none) c' (some f)) :=
  ⟨owns.kmem, owns.balanced.move held vacant (fun h => absurd h isOpen)⟩

theorem Owns.update_same {v : Option Nat} (same : t c = v) :
    Owns cfg km reserved (update t c v) := by
  subst same
  rw [update_eq_self]
  exact owns

end

end Kmem

section Cells

variable (dirs : Nat → PageDir) (L X : Finset Nat)

theorem cells_one_insert (f : Nat) :
    cells dirs L (insert f X) = update (cells dirs L X) (.one f) (some f) := by
  funext c
  cases c with
  | one g =>
    by_cases h : g = f
    · simp [cells, h]
    · simp [cells, h]
  | _ => simp [cells]

theorem cells_one_erase (f : Nat) :
    cells dirs L (X.erase f) = update (cells dirs L X) (.one f) none := by
  funext c
  cases c with
  | one g =>
    by_cases h : g = f
    · simp [cells, h]
    · simp [cells, h]
  | _ => simp [cells]

variable {d va f : Nat} {pte old : Pte}

theorem cells_setPte (live : d ∈ L) (low : pageOf va < USERPAGES)
    (walk : walkpgdir (dirs d) va = some old) :
    cells (update dirs d (setPte (dirs d) va pte)) L X =
      update (cells dirs L X) (.user d (pageOf va)) pte.mapped := by
  funext c
  cases c with
  | user e page =>
    by_cases sameDir : e = d
    · subst sameDir
      by_cases samePage : page = pageOf va
      · subst samePage
        simp [cells, live, low, pteAt_setPte walk]
      · simp [cells, samePage, pteAt_setPte walk]
    · simp [cells, sameDir]
  | tab e j =>
    by_cases sameDir : e = d
    · subst sameDir
      simp [cells]
    · simp [cells, sameDir]
  | _ => simp [cells]

theorem cells_setPte_high (high : USERPAGES ≤ pageOf va) (walk : walkpgdir (dirs d) va = some old) :
    cells (update dirs d (setPte (dirs d) va pte)) L X = cells dirs L X := by
  funext c
  cases c with
  | user e page =>
    by_cases sameDir : e = d
    · subst sameDir
      by_cases low : page < USERPAGES
      · simp [cells, pteAt_setPte walk, show page ≠ pageOf va by omega]
      · simp [cells, low]
    · simp [cells, sameDir]
  | tab e j =>
    by_cases sameDir : e = d
    · subst sameDir
      simp [cells]
    · simp [cells, sameDir]
  | _ => simp [cells]

theorem PDX_lt (va : Nat) : PDX va < NPDENTRIES := by
  unfold PDX NPDENTRIES
  omega

theorem cells_addTable (live : d ∈ L) (absent : dirs d (PDX va) = none) :
    cells (update dirs d (addTable (dirs d) va f)) L X =
      update (cells dirs L X) (.tab d (PDX va)) (some f) := by
  funext c
  cases c with
  | user e page =>
    by_cases sameDir : e = d
    · subst sameDir
      simp [cells, pteAt_addTable absent]
    · simp [cells, sameDir]
  | tab e j =>
    by_cases sameDir : e = d
    · subst sameDir
      by_cases sameTable : j = PDX va
      · subst sameTable
        simp [cells, live, tableAt_addTable, PDX_lt]
      · simp [cells, sameTable, tableAt_addTable]
    · simp [cells, sameDir]
  | _ => simp [cells]

/-- A new directory holds nothing but itself. -/
theorem cells_newDir (fresh : d ∉ L) :
    cells (update dirs d .zeroed) (insert d L) X =
      update (cells dirs L X) (.dir d) (some d) := by
  funext c
  cases c with
  | user e page =>
    by_cases same : e = d
    · subst same
      simp [cells, fresh]
    · simp [cells, same]
  | tab e j =>
    by_cases same : e = d
    · subst same
      simp [cells, fresh]
    · simp [cells, same]
  | dir e =>
    by_cases same : e = d
    · simp [cells, same]
    · simp [cells, same]
  | one g => simp [cells]

variable {dirs L X}

theorem cells_user {page : Nat} :
    cells dirs L X (.user d page) = some f ↔
      d ∈ L ∧ page < USERPAGES ∧ (pteAt (dirs d) page).p ∧ (pteAt (dirs d) page).frame = f := by
  simp only [cells, Pte.mapped]
  by_cases inside : d ∈ L ∧ page < USERPAGES
  · simp [inside]
  · rw [if_neg inside]
    simp only [reduceCtorEq, false_iff]
    exact fun h => inside ⟨h.1, h.2.1⟩

theorem cells_dir (live : d ∈ L) : cells dirs L X (.dir d) = some d := by
  simp [cells, live]

theorem cells_one (held : f ∈ X) : cells dirs L X (.one f) = some f := by
  simp [cells, held]

/-- A frame without references is neither a directory in use nor held. -/
theorem Owns.fresh {cfg : Config} {km : Kmem} {reserved : Set Nat}
    (owns : Owns cfg km reserved (cells dirs L X)) (zero : km.ref f = 0) :
    f ∉ L ∧ f ∉ X :=
  ⟨fun h => owns.balanced.free zero _ (cells_dir h),
    fun h => owns.balanced.free zero _ (cells_one h)⟩

/-- A frame taken from the free list is held. -/
theorem Owns.popOne {cfg : Config} {km km' : Kmem} {reserved : Set Nat}
    (owns : Owns cfg km reserved (cells dirs L X)) (popped : km.pop = some (f, km')) :
    km.ref f = 0 ∧ (∀ g, km'.ref g = if g = f then 1 else km.ref g) ∧ f ∉ X ∧
      Owns cfg km' reserved (cells dirs L (insert f X)) := by
  obtain ⟨zero, refs, acquire⟩ := owns.pop popped
  have fresh := (owns.fresh zero).2
  have owns := acquire (.one f) (by simp [cells, fresh])
  rw [← cells_one_insert] at owns
  exact ⟨zero, refs, fresh, owns⟩

theorem pageOf_low {va : Nat} (low : va < KERNBASE) : pageOf va < USERPAGES := by
  unfold pageOf USERPAGES KERNBASE PGSIZE at *
  omega

end Cells

end Xv6
