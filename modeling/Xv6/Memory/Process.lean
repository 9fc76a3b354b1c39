import Xv6.Memory.Vm

/-!
Processes: `allocproc`, `growproc`, `fork`, `exit` and `wait` of `proc.c`, the page
fault case of `trap`, and the loads and stores of user code.

Only what concerns memory is represented. Scheduling is not: a process may act
when it is `RUNNABLE` or `RUNNING`, and a `wait` that would sleep returns `none`
without effect and can be tried again. Files other than the swap file, names and
trap frames are left out.
-/

namespace Xv6

/-- A process that may take a step. -/
def Proc.Active (p : Proc) : Prop := p.state = .RUNNABLE ∨ p.state = .RUNNING

instance (p : Proc) : Decidable p.Active := inferInstanceAs (Decidable (_ ∨ _))

theorem Proc.Active.inUse {p : Proc} (active : p.Active) : p.state ≠ .UNUSED ∧ p.state ≠ .ZOMBIE := by
  rcases active with state | state <;> rw [state] <;> decide

/-- A process whose page directory and kernel stack are in use. -/
def Proc.Live (p : Proc) : Prop := p.state ≠ .UNUSED ∧ p.state ≠ .EMBRYO

instance (p : Proc) : Decidable p.Live := inferInstanceAs (Decidable (_ ∧ _))

namespace Kernel

/-- The metadata part of `allocproc`. The size of the queue keeps its old value. -/
def freshPaging (m : Paging) : Paging :=
  { m.initArrays with pagesInMemory := 0, pagesInSwapfile := 0 }

def allocproc (cfg : Config) (k : Kernel) : Res (Option ProcNo × Kernel) :=
  match (List.finRange NPROC).find? (fun s => (k.proc s).state = .UNUSED) with
  | none => .ok (none, k)
  | some s => do
    let pid := k.nextpid
    let k := { k with nextpid := wrapInt (pid + 1) }
    match ← k.kalloc cfg with
    | (none, k) => .ok (none, k.setProc s { k.proc s with pid := pid, kstack := 0 })
    | (some f, k) =>
      .ok (some s, k.setProc s { k.proc s with
        state := .EMBRYO
        pid := pid
        kstack := f
        paging := freshPaging (k.proc s).paging
        swapFile := if 2 < pid then some .empty else (k.proc s).swapFile })

/-- `sz + n` in unsigned arithmetic. -/
def target (sz : Nat) (n : Int) : Nat := ((sz + n) % 2 ^ 32).toNat

/-- The change of the address space in `growproc`, with the new size. -/
def resize (cfg : Config) (k : Kernel) (me : ProcNo) (n : Int) : Res (Nat × Kernel) :=
  let p := k.proc me
  if 0 < n then k.allocuvm cfg me p.pgdir p.sz (target p.sz n)
  else if n < 0 then k.deallocuvm cfg me p.pgdir p.sz (target p.sz n)
  else .ok (p.sz, k)

def growproc (cfg : Config) (k : Kernel) (me : ProcNo) (n : Int) : Res (Int × Kernel) := do
  let (sz, k) ← k.resize cfg me n
  if n ≠ 0 ∧ sz = 0 then .ok (-1, k)
  else .ok (0, k.setProc me { k.proc me with sz := sz })

/-- The copy of one swap slot in `fork`. -/
def copySlot (k : Kernel) (me np : ProcNo) (i : Slot) : Res Kernel :=
  let pmd := (k.proc me).paging.swapPmd i
  if pmd.occupied ∧ 2 < (k.proc me).pid then do
    let page ← k.readSwap me k.forkBuffer pmd.offset
    { k with forkBuffer := page }.writeSwap np page pmd.offset
  else .ok k

def fork (cfg : Config) (k : Kernel) (me : ProcNo) : Res (Int × Kernel) := do
  match ← k.allocproc cfg with
  | (none, k) => .ok (-1, k)
  | (some np, k) =>
    match ← k.cowuvm cfg me (k.proc me).pgdir (k.proc me).sz with
    | (none, k) => do
      let k ← k.kfree cfg (k.proc np).kstack
      .ok (-1, k.setProc np { k.proc np with pgdir := 0, kstack := 0, state := .UNUSED })
    | (some d, k) => do
      let k ← (List.finRange MAX_PSYC_PAGES).foldlM (fun k i => k.copySlot me np i) k
      let parent := k.proc me
      .ok ((k.proc np).pid, k.setProc np { k.proc np with
        pgdir := d
        pagedout := 0
        pagefaults := 0
        paging := parent.paging.forkCopy (k.proc np).paging (2 < parent.pid)
        sz := parent.sz
        parent := some me
        state := .RUNNABLE })

/-- Abandoned children are passed to `initproc`. -/
def reparent (k : Kernel) (me : ProcNo) : Kernel :=
  { k with proc := fun s =>
      if (k.proc s).parent = some me then { k.proc s with parent := some k.initproc }
      else k.proc s }

def exit (k : Kernel) (me : ProcNo) : Res Kernel :=
  if me = k.initproc then .error .initExiting
  else
    let p := k.proc me
    if 2 < p.pid ∧ p.swapFile.isNone then .error .exitSwapFile
    else
      let file := if 2 < p.pid then none else p.swapFile
      let k := (k.setProc me { p with swapFile := file }).reparent me
      .ok (k.setProc me { k.proc me with state := .ZOMBIE })

/-- The fields of a zombie child that `wait` resets. `pagesInSwapfile`, `sz` and
`pgdir` are not among them. -/
def unused (p : Proc) : Proc :=
  { p with
    kstack := 0
    pid := 0
    parent := none
    killed := false
    state := .UNUSED
    paging := { p.paging.initArrays with
      pagesInMemory := 0
      queue := { p.paging.initArrays.queue with size := 0 } } }

/-- Release a zombie child. -/
def reap (cfg : Config) (k : Kernel) (me child : ProcNo) : Res (Int × Kernel) := do
  let p := k.proc child
  let k ← k.dropFrame cfg p.kstack
  let k ← k.freevm cfg me p.pgdir
  .ok (p.pid, k.setProc child (unused (k.proc child)))

/-- One scan of `wait`; `none` means that the process goes to sleep. -/
def wait (cfg : Config) (k : Kernel) (me : ProcNo) : Res (Option Int × Kernel) :=
  match (List.finRange NPROC).find?
      (fun s => (k.proc s).parent = some me ∧ (k.proc s).state = .ZOMBIE) with
  | some child => do
    let (pid, k) ← k.reap cfg me child
    .ok (some pid, k)
  | none =>
    if (∀ s, (k.proc s).parent ≠ some me) ∨ (k.proc me).killed then .ok (some (-1), k)
    else .ok (none, k)

/-- `T_PGFLT` in `trap`. -/
def pageFault (cfg : Config) (k : Kernel) (me : ProcNo) (va : Nat) : Res Kernel := do
  let k ← k.onPageFault cfg me va
  if (k.proc me).killed then k.exit me else .ok k

/-- The entry a user access to `va` goes through, if the hardware permits it. -/
def access (k : Kernel) (me : ProcNo) (va : Nat) (write : Bool) : Option Pte :=
  match walkpgdir (k.dirs (k.proc me).pgdir) va with
  | none => none
  | some pte => if pte.p ∧ pte.u ∧ (write → pte.w) then some pte else none

/-- The hardware sets the accessed bit. -/
def touch (k : Kernel) (me : ProcNo) (va : Nat) (pte : Pte) : Kernel :=
  k.setPte (k.proc me).pgdir va { pte with a := true }

/-- A load by user code that does not fault. -/
def load (k : Kernel) (me : ProcNo) (va : Nat) : Option (UInt8 × Kernel) :=
  match k.access me va false with
  | none => none
  | some pte => some (byteAt (k.mem pte.frame) (va % PGSIZE), k.touch me va pte)

/-- A page with one byte replaced. -/
def setByte (page : Page) (i : Nat) (b : UInt8) : Page :=
  fun j => if j.val = i then b else page j

/-- A store by user code that does not fault. -/
def store (k : Kernel) (me : ProcNo) (va : Nat) (b : UInt8) : Option Kernel :=
  match k.access me va true with
  | none => none
  | some pte =>
    some ((k.fill pte.frame (setByte (k.mem pte.frame) (va % PGSIZE) b)).touch me va pte)

end Kernel

end Xv6
