import Xv6.Memory.Params

/-!
Page directories and page tables.

A directory is the two-level structure the hardware walks, with the entries as
records instead of words: the permission bits the kernel uses and the page number
of the frame. A directory entry is either absent or a page table together with
the frame that holds it. `walkpgdir` with `alloc = 0` is here; the allocating form
needs the page allocator.
-/

namespace Xv6

/-- A page table entry: `PTE_P`, `PTE_W`, `PTE_U`, `PTE_A`, `PTE_PG`, `PTE_COW` and
`PTE_ADDR / PGSIZE`. -/
structure Pte where
  p : Bool := false
  w : Bool := false
  u : Bool := false
  a : Bool := false
  pg : Bool := false
  cow : Bool := false
  frame : Nat := 0
  deriving DecidableEq, Repr

/-- A zero word. -/
def Pte.zero : Pte := {}

/-- The frame a present entry maps. -/
def Pte.mapped (pte : Pte) : Option Nat := if pte.p then some pte.frame else none

structure PageTable where
  frame : Nat
  pte : Nat → Pte

/-- A page table page just after `memset(pgtab, 0, PGSIZE)`. -/
def PageTable.zeroed (frame : Nat) : PageTable := ⟨frame, fun _ => .zero⟩

abbrev PageDir := Nat → Option PageTable

/-- A directory page just after `memset(pgdir, 0, PGSIZE)`. -/
def PageDir.zeroed : PageDir := fun _ => none

/-- The entry of a page number, zero where no page table exists. -/
def pteAt (dir : PageDir) (page : Nat) : Pte :=
  match dir (page / 1024) with
  | none => .zero
  | some table => table.pte (page % 1024)

/-- The frame of the page table for directory index `j`. -/
def tableAt (dir : PageDir) (j : Nat) : Option Nat := (dir j).map PageTable.frame

/-- `walkpgdir(pgdir, va, 0)`: the entry behind the returned pointer. -/
def walkpgdir (dir : PageDir) (va : Nat) : Option Pte :=
  (dir (PDX va)).map (fun table => table.pte (PTX va))

/-- Store through the pointer that `walkpgdir` returns. -/
def setPte (dir : PageDir) (va : Nat) (pte : Pte) : PageDir :=
  Function.update dir (PDX va) ((dir (PDX va)).map (fun table =>
    { table with pte := Function.update table.pte (PTX va) pte }))

/-- Install an empty page table. -/
def addTable (dir : PageDir) (va frame : Nat) : PageDir :=
  Function.update dir (PDX va) (some (.zeroed frame))

/-- User pages have numbers below `KERNBASE / PGSIZE`. -/
abbrev USERPAGES : Nat := KERNBASE / PGSIZE

/-- The page number of an address. -/
def pageOf (va : Nat) : Nat := va / PGSIZE % 2 ^ 20

theorem pageOf_div (va : Nat) : pageOf va / 1024 = PDX va := by
  unfold pageOf PDX PGSIZE
  omega

theorem pageOf_mod (va : Nat) : pageOf va % 1024 = PTX va := by
  unfold pageOf PTX PGSIZE
  omega

variable {dir : PageDir} {va : Nat} {pte old : Pte}

theorem walkpgdir_eq_some (h : walkpgdir dir va = some pte) :
    pteAt dir (pageOf va) = pte := by
  unfold walkpgdir at h
  unfold pteAt
  rw [pageOf_div, pageOf_mod]
  cases table : dir (PDX va) with
  | none => simp [table] at h
  | some t => simpa [table] using h

theorem walkpgdir_eq_none (h : walkpgdir dir va = none) :
    pteAt dir (pageOf va) = .zero := by
  unfold walkpgdir at h
  unfold pteAt
  rw [pageOf_div]
  cases table : dir (PDX va) with
  | none => rfl
  | some t => simp [table] at h

/-- A page with a nonzero entry has a page table. -/
theorem walkpgdir_of_pteAt (h : pteAt dir (pageOf va) ≠ .zero) :
    walkpgdir dir va = some (pteAt dir (pageOf va)) := by
  cases walk : walkpgdir dir va with
  | none => exact absurd (walkpgdir_eq_none walk) h
  | some pte => rw [walkpgdir_eq_some walk]

theorem pteAt_setPte (walk : walkpgdir dir va = some old) (page : Nat) :
    pteAt (setPte dir va pte) page = if page = pageOf va then pte else pteAt dir page := by
  unfold walkpgdir at walk
  unfold pteAt setPte
  cases table : dir (PDX va) with
  | none => simp [table] at walk
  | some t =>
    by_cases same : page = pageOf va
    · subst same
      simp [pageOf_div, pageOf_mod]
    · rw [if_neg same]
      by_cases dirIndex : page / 1024 = PDX va
      · have tabIndex : page % 1024 ≠ PTX va := by
          intro eq
          apply same
          rw [← pageOf_div] at dirIndex
          rw [← pageOf_mod] at eq
          omega
        simp [dirIndex, table, tabIndex]
      · simp [dirIndex]

@[simp] theorem tableAt_setPte (dir : PageDir) (va : Nat) (pte : Pte) (j : Nat) :
    tableAt (setPte dir va pte) j = tableAt dir j := by
  unfold tableAt setPte
  by_cases h : j = PDX va
  · subst h
    cases dir (PDX va) <;> simp
  · simp [h]

theorem pteAt_addTable (absent : dir (PDX va) = none) (frame page : Nat) :
    pteAt (addTable dir va frame) page = pteAt dir page := by
  unfold pteAt addTable
  by_cases h : page / 1024 = PDX va
  · simp [h, absent, PageTable.zeroed]
  · simp [h]

theorem tableAt_addTable (dir : PageDir) (va frame j : Nat) :
    tableAt (addTable dir va frame) j =
      if j = PDX va then some frame else tableAt dir j := by
  unfold tableAt addTable
  by_cases h : j = PDX va
  · simp [h, PageTable.zeroed]
  · simp [h]

theorem walkpgdir_addTable (dir : PageDir) (va frame : Nat) :
    walkpgdir (addTable dir va frame) va = some .zero := by
  simp [walkpgdir, addTable, PageTable.zeroed]

theorem walkpgdir_setPte (walk : walkpgdir dir va = some old) :
    walkpgdir (setPte dir va pte) va = some pte := by
  unfold walkpgdir at *
  unfold setPte
  cases table : dir (PDX va) with
  | none => simp [table] at walk
  | some t => simp

/-- A store leaves the entries of other pages alone. -/
theorem walkpgdir_setPte_other {va' : Nat} (other : pageOf va' ≠ pageOf va) :
    walkpgdir (setPte dir va pte) va' = walkpgdir dir va' := by
  unfold walkpgdir setPte
  by_cases table : PDX va' = PDX va
  · have entry : PTX va' ≠ PTX va := by
      intro same
      rw [← pageOf_div, ← pageOf_div] at table
      rw [← pageOf_mod, ← pageOf_mod] at same
      omega
    rw [table, Function.update_self, Option.map_map]
    congr 1
    funext t
    exact Function.update_of_ne entry ..
  · rw [Function.update_of_ne table]

@[simp] theorem pteAt_zeroed (page : Nat) : pteAt .zeroed page = .zero := rfl

@[simp] theorem tableAt_zeroed (j : Nat) : tableAt .zeroed j = none := rfl

@[simp] theorem mapped_zero : Pte.zero.mapped = none := rfl

end Xv6
