import Xv6.Memory.Kalloc
import Xv6.Memory.Paging
import Xv6.Memory.PageTable
import Xv6.Memory.SwapFile

/-!
The state of the memory manager and its primitive operations.

Frames hold bytes in `mem` when they are user pages and page directories in
`dirs` when they are used as such; a frame has one of these roles at a time, and
the contents of page tables live in their directory. Operations are atomic: the
locks of the source are not represented. `trace` records what a result may want
to say about the past and influences nothing.
-/

namespace Xv6

open Function

inductive ProcState where
  | UNUSED | EMBRYO | SLEEPING | RUNNABLE | RUNNING | ZOMBIE
  deriving DecidableEq, Repr

/-- A position in `ptable.proc`. -/
abbrev ProcNo := Fin NPROC

/-- The fields of `struct proc` the memory manager uses. `pgdir` and `kstack` are
page numbers, 0 for the null pointer; `swapFile` is absent before `createSwapFile`
and after `removeSwapFile`. -/
structure Proc where
  sz : Nat
  pgdir : Nat
  kstack : Nat
  state : ProcState
  pid : Int
  parent : Option ProcNo
  killed : Bool
  swapFile : Option File
  paging : Paging
  pagefaults : Int
  pagedout : Int

inductive Event where
  /-- The accessed bit of the page was tested by a sampling. -/
  | sampled (s : ProcNo) (va : Nat) (bit : Bool)
  /-- The page in `victim` leaves memory; `before` is the metadata it was chosen in. -/
  | evicted (s : ProcNo) (before : Paging) (victim : Slot)
  /-- `writeToSwapFile` was called at `off` on a file of this size. -/
  | swapWrite (s : ProcNo) (off size : Nat)
  /-- The page was made resident; `after` is the metadata with it. -/
  | loaded (s : ProcNo) (va : Nat) (after : Paging)

structure Kernel where
  kmem : Kmem
  mem : Nat → Page
  dirs : Nat → PageDir
  proc : ProcNo → Proc
  nextpid : Int
  initproc : ProcNo
  /-- `buffer` and `swapBuffer` of `vm.c`, and `buffer` of `proc.c`. -/
  buffer : Page
  swapBuffer : Page
  forkBuffer : Page
  trace : List Event

namespace Kernel

def setProc (k : Kernel) (s : ProcNo) (p : Proc) : Kernel :=
  { k with proc := Function.update k.proc s p }

def setPaging (k : Kernel) (s : ProcNo) (m : Paging) : Kernel :=
  k.setProc s { k.proc s with paging := m }

/-- Store into the page table entry of `va` in the directory `pgdir`. -/
def setPte (k : Kernel) (pgdir va : Nat) (pte : Pte) : Kernel :=
  { k with dirs := Function.update k.dirs pgdir (Xv6.setPte (k.dirs pgdir) va pte) }

def fill (k : Kernel) (f : Nat) (page : Page) : Kernel :=
  { k with mem := Function.update k.mem f page }

def record (k : Kernel) (e : Event) : Kernel := { k with trace := e :: k.trace }

def kalloc (cfg : Config) (k : Kernel) : Res (Option Nat × Kernel) :=
  match k.kmem.pop with
  | none => do
    cfg.meet .outOfMemory
    .ok (none, k)
  | some (f, km) => .ok (some f, { k with kmem := km })

def kfree (cfg : Config) (k : Kernel) (f : Nat) : Res Kernel := do
  let km ← k.kmem.freeFrame cfg f
  .ok { k with kmem := km, mem := Function.update k.mem f .junk }

/-- `if (decrementReferencesAndGetPrevVal(v) == 1) kfree(v)`. -/
def dropFrame (cfg : Config) (k : Kernel) (f : Nat) : Res Kernel :=
  let dec := k.kmem.decRef f
  if dec.1 = 1 then { k with kmem := dec.2 }.kfree cfg f else .ok { k with kmem := dec.2 }

/-- `walkpgdir(pgdir, va, 1)`: make sure the page table exists; false is the null
pointer. -/
def walkpgdirAlloc (cfg : Config) (k : Kernel) (pgdir va : Nat) : Res (Bool × Kernel) :=
  match k.dirs pgdir (PDX va) with
  | some _ => .ok (true, k)
  | none => do
    match ← k.kalloc cfg with
    | (none, k) => .ok (false, k)
    | (some f, k) =>
      .ok (true, { k with
        dirs := Function.update k.dirs pgdir (addTable (k.dirs pgdir) va f) })

/-- The loop of `mappages` for `n` pages; `perm` gives the bits, `pa` the page
number of the first frame. False is the result -1. -/
def mappagesLoop (cfg : Config) (pgdir : Nat) (perm : Pte) :
    Nat → Kernel → Nat → Nat → Res (Bool × Kernel)
  | 0, k, _, _ => .ok (true, k)
  | n + 1, k, a, pa => do
    match ← k.walkpgdirAlloc cfg pgdir a with
    | (false, k) => .ok (false, k)
    | (true, k) =>
      match walkpgdir (k.dirs pgdir) a with
      | none => .error .nullDeref
      | some pte =>
        if pte.p then .error .remap
        else
          let k := k.setPte pgdir a { perm with p := true, frame := pa }
          mappagesLoop cfg pgdir perm n k ((a + PGSIZE) % 2 ^ 32) (pa + 1)

def mappages (cfg : Config) (k : Kernel) (pgdir va size pa : Nat) (perm : Pte) :
    Res (Bool × Kernel) :=
  let a := PGROUNDDOWN va
  let last := PGROUNDDOWN ((va + size + 2 ^ 32 - 1) % 2 ^ 32)
  mappagesLoop cfg pgdir perm ((last + 2 ^ 32 - a) % 2 ^ 32 / PGSIZE + 1) k a pa

section Projections

variable (k : Kernel) (s : ProcNo) (p : Proc) (m : Paging) (d va f : Nat) (pte : Pte) (page : Page)
  (e : Event)

@[simp] theorem setProc_kmem : (k.setProc s p).kmem = k.kmem := rfl
@[simp] theorem setProc_mem : (k.setProc s p).mem = k.mem := rfl
@[simp] theorem setProc_dirs : (k.setProc s p).dirs = k.dirs := rfl
@[simp] theorem setProc_initproc : (k.setProc s p).initproc = k.initproc := rfl
@[simp] theorem setProc_self : (k.setProc s p).proc s = p := update_self ..

theorem setProc_proc : (k.setProc s p).proc = update k.proc s p := rfl

theorem setProc_other {s s' : ProcNo} (h : s' ≠ s) : (k.setProc s p).proc s' = k.proc s' :=
  update_of_ne h ..

@[simp] theorem setPaging_kmem : (k.setPaging s m).kmem = k.kmem := rfl
@[simp] theorem setPaging_mem : (k.setPaging s m).mem = k.mem := rfl
@[simp] theorem setPaging_dirs : (k.setPaging s m).dirs = k.dirs := rfl
@[simp] theorem setPaging_trace : (k.setPaging s m).trace = k.trace := rfl
@[simp] theorem setPaging_self : (k.setPaging s m).proc s = { k.proc s with paging := m } :=
  update_self ..

theorem setPaging_other {s s' : ProcNo} (h : s' ≠ s) : (k.setPaging s m).proc s' = k.proc s' :=
  update_of_ne h ..

@[simp] theorem setPte_kmem : (k.setPte d va pte).kmem = k.kmem := rfl
@[simp] theorem setPte_mem : (k.setPte d va pte).mem = k.mem := rfl
@[simp] theorem setPte_proc : (k.setPte d va pte).proc = k.proc := rfl
@[simp] theorem setPte_dirs_self :
    (k.setPte d va pte).dirs d = Xv6.setPte (k.dirs d) va pte := update_self ..

theorem setPte_dirs :
    (k.setPte d va pte).dirs = update k.dirs d (Xv6.setPte (k.dirs d) va pte) := rfl

theorem setPte_dirs_other {d d' : Nat} (h : d' ≠ d) : (k.setPte d va pte).dirs d' = k.dirs d' :=
  update_of_ne h ..

@[simp] theorem fill_kmem : (k.fill f page).kmem = k.kmem := rfl
@[simp] theorem fill_dirs : (k.fill f page).dirs = k.dirs := rfl
@[simp] theorem fill_proc : (k.fill f page).proc = k.proc := rfl
@[simp] theorem fill_mem_self : (k.fill f page).mem f = page := update_self ..

theorem fill_mem_other {f g : Nat} (h : g ≠ f) : (k.fill f page).mem g = k.mem g :=
  update_of_ne h ..

@[simp] theorem record_mem : (k.record e).mem = k.mem := rfl
@[simp] theorem record_dirs : (k.record e).dirs = k.dirs := rfl
@[simp] theorem record_proc : (k.record e).proc = k.proc := rfl
@[simp] theorem record_trace : (k.record e).trace = e :: k.trace := rfl

end Projections

theorem kalloc_cases {cfg : Config} {k k' : Kernel} {r : Option Nat}
    (run : k.kalloc cfg = .ok (r, k')) :
    k'.dirs = k.dirs ∧ k'.proc = k.proc ∧ (r = none ↔ k.kmem.freelist = none) ∧
      (r = none → k'.kmem = k.kmem) := by
  unfold kalloc Kmem.pop at run
  cases first : k.kmem.freelist with
  | none =>
    simp only [first, Res.bind_ok] at run
    obtain ⟨-, -, run⟩ := run
    cases run
    exact ⟨rfl, rfl, by simp, fun _ => rfl⟩
  | some f =>
    simp only [first] at run
    cases run
    exact ⟨rfl, rfl, by simp, nofun⟩

end Kernel

/-- The permissions of pages mapped for the user: `PTE_W | PTE_U`. -/
def Pte.user : Pte := { w := true, u := true }

end Xv6
