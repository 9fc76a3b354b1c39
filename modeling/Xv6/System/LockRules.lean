import Mathlib

/-!
The spinlock rules of `spinlock.c` and `proc.c`, and the four calls that touch user
memory inside a critical section: `wait2`, `pipewrite`, `piperead` and `consoleread`.

A call is the list of lock operations its CPU makes. What the other CPUs, the disk and
the allocator decide are inputs: how often a wait loop sleeps, which buffers are cached,
whether `kalloc` finds a frame, whether another process has set `killed`. Everything the
fault handler does to locks has one shape, a critical section that may sleep on its own
lock and may call `wakeup`, so one lemma says which critical sections a lock holder can
pass through.
-/

namespace Xv6.Locks

open List

/-- The spinlocks involved; `sleeplock` is the inner lock of any buffer or inode lock. -/
inductive Lock where
  | ptable
  | pipe
  | cons
  | kmem
  | bcache
  | ide
  | log
  | sleeplock
  deriving DecidableEq

inductive LockPanic where
  | acquire
  | release
  | schedPtableLock
  | schedLocks
  /-- `page not found in swapFile`, of `onPageFaultPG` and `swapPages`. -/
  | pageNotFound
  deriving DecidableEq

/-- The locks a CPU holds and the depth of its `pushcli` nesting. -/
structure Cpu where
  held : List Lock
  ncli : Nat
  deriving DecidableEq

namespace Cpu

def idle : Cpu := ⟨[], 0⟩

/-- Inside a critical section of one lock. -/
def inside (l : Lock) : Cpu := ⟨[l], 1⟩

def acquire (c : Cpu) (l : Lock) : Except LockPanic Cpu :=
  if l ∈ c.held then .error .acquire else .ok ⟨l :: c.held, c.ncli + 1⟩

def release (c : Cpu) (l : Lock) : Except LockPanic Cpu :=
  if l ∈ c.held then .ok ⟨c.held.erase l, c.ncli - 1⟩ else .error .release

/-- `sched`, up to the return from `swtch` with the same locks. -/
def sched (c : Cpu) : Except LockPanic Cpu :=
  if .ptable ∉ c.held then .error .schedPtableLock
  else if c.ncli ≠ 1 then .error .schedLocks
  else .ok c

def sleep (c : Cpu) (l : Lock) : Except LockPanic Cpu :=
  if l = .ptable then c.sched
  else do
    let c ← c.acquire .ptable
    let c ← c.release l
    let c ← c.sched
    let c ← c.release .ptable
    c.acquire l

end Cpu

inductive LockOp where
  | acquire (l : Lock)
  | release (l : Lock)
  | sleep (l : Lock)
  | sched
  | panic (e : LockPanic)
  deriving DecidableEq

def LockOp.run (c : Cpu) : LockOp → Except LockPanic Cpu
  | .acquire l => c.acquire l
  | .release l => c.release l
  | .sleep l => c.sleep l
  | .sched => c.sched
  | .panic e => .error e

def Cpu.runs (c : Cpu) (ops : List LockOp) : Except LockPanic Cpu :=
  ops.foldlM LockOp.run c

/-- Neither the `acquire` panic nor the `sched locks` panic is reached. -/
def KeepsLockRules (ops : List LockOp) : Prop :=
  Cpu.idle.runs ops ≠ .error .acquire ∧ Cpu.idle.runs ops ≠ .error .schedLocks

/-- A critical section that sleeps on its own lock and may call `wakeup`. -/
structure Section where
  lock : Lock
  sleeps : Nat
  wakes : Bool

def wakeup : List LockOp := [.acquire .ptable, .release .ptable]

def Section.ops (s : Section) : List LockOp :=
  .acquire s.lock :: List.replicate s.sleeps (.sleep s.lock) ++
    ((if s.wakes then wakeup else []) ++ [.release s.lock])

/-! The file system below `fileread` and `filewrite`. -/

def acquiresleep (sleeps : Nat) : List Section := [⟨.sleeplock, sleeps, false⟩]

def releasesleep : List Section := [⟨.sleeplock, 0, true⟩]

def holdingsleep : List Section := [⟨.sleeplock, 0, false⟩]

def bget (sleeps : Nat) : List Section := ⟨.bcache, 0, false⟩ :: acquiresleep sleeps

/-- The request is queued under `idelock`, which `ideintr` needs to complete it, so that
the loop sleeps at least once. -/
def iderw (more : Nat) : List Section := holdingsleep ++ [⟨.ide, more + 1, false⟩]

def bwrite (more : Nat) : List Section := holdingsleep ++ iderw more

def brelse : List Section := holdingsleep ++ releasesleep ++ [⟨.bcache, 0, false⟩]

/-- What one buffer goes through from `bread` to `brelse`. -/
structure BufUse where
  lockSleeps : Nat
  /-- `B_VALID` is set. -/
  cached : Bool
  diskSleeps : Nat
  /-- `log_write` is called. -/
  logged : Bool
  /-- `bwrite` is called. -/
  written : Option Nat

def BufUse.sections (u : BufUse) : List Section :=
  bget u.lockSleeps ++ (if u.cached then [] else iderw u.diskSleeps) ++
    (if u.logged then [⟨.log, 0, false⟩] else []) ++ u.written.elim [] bwrite ++ brelse

/-- The buffers a locked inode's read or write uses; `inode` is empty when the inode was
read before, `data` has the blocks of `bmap`, `balloc`, `readi` or `writei` and `iupdate`. -/
structure FileUse where
  lockSleeps : Nat
  inode : Option BufUse
  data : List BufUse

def ilock (u : FileUse) : List Section :=
  acquiresleep u.lockSleeps ++ u.inode.elim [] BufUse.sections

def iunlock : List Section := holdingsleep ++ releasesleep

def fileread (u : FileUse) : List Section :=
  ilock u ++ u.data.flatMap BufUse.sections ++ iunlock

/-- One operation of `filewrite`; `commits` has the buffers of the commit if its `end_op`
is the last one. -/
structure Chunk where
  admission : Nat
  file : FileUse
  commits : Option (List BufUse)

def beginOp (sleeps : Nat) : List Section := [⟨.log, sleeps, false⟩]

def endOp : Option (List BufUse) → List Section
  | none => [⟨.log, 0, true⟩]
  | some blocks => ⟨.log, 0, false⟩ :: (blocks.flatMap BufUse.sections ++ [⟨.log, 0, true⟩])

def Chunk.sections (c : Chunk) : List Section :=
  beginOp c.admission ++ fileread c.file ++ endOp c.commits

/-- `filewrite` makes at least one operation for a page. -/
structure PageWrite where
  first : Chunk
  rest : List Chunk

def filewrite (w : PageWrite) : List Section := (w.first :: w.rest).flatMap Chunk.sections

/-! The fault handler. -/

/-- A critical section of the allocator. -/
def kmemSection : Section := ⟨.kmem, 0, false⟩

def cprintf : Section := ⟨.cons, 0, false⟩

/-- `freed` when the frame's count was 1. -/
def pageToSwapFile (w : PageWrite) (freed : Bool) : List Section :=
  filewrite w ++ kmemSection :: if freed then [kmemSection] else []

/-- What `onPageFaultPG` does: a load, after an eviction when the memory side is full, or
`swapPages`. -/
inductive SwapIn where
  | load (evict : Option PageWrite) (freed memory : Bool) (read : FileUse)
  | exchange (read : FileUse) (evict : PageWrite) (freed memory : Bool)

namespace SwapIn

def sections : SwapIn → List Section
  | load evict freed memory read =>
    evict.elim [] (pageToSwapFile · freed) ++
      kmemSection :: if memory then fileread read else [cprintf]
  | exchange read evict freed memory =>
    fileread read ++ pageToSwapFile evict freed ++
      kmemSection :: if memory then [] else [cprintf]

/-- `kalloc` finds a frame. -/
def memory : SwapIn → Bool
  | load _ _ memory _ | exchange _ _ _ memory => memory

end SwapIn

/-- The branch of `onPageFault`: a copy-on-write fault on a frame that is shared or not, for
which `kalloc` finds memory or not, or a swap-in. -/
inductive Branch where
  | cow (shared memory : Bool)
  | pg (swap : SwapIn)

/-- One page fault. `killed` is what `kill` of another process left in `myproc()->killed`,
and `closing` what `exit` would do before it takes `ptable.lock`. -/
structure Fault where
  branch : Branch
  killed : Bool
  closing : List Section

namespace Fault

def sections (f : Fault) : List Section :=
  match f.branch with
  | .cow shared memory =>
    kmemSection :: if shared then kmemSection :: if memory then [] else [cprintf] else []
  | .pg swap => swap.sections

/-- `myproc()->killed` when `onPageFault` returns. -/
def killedAfter (f : Fault) : Bool :=
  match f.branch with
  | .cow shared memory => f.killed || (shared && !memory)
  | .pg _ => f.killed

/-- No frame was mapped, so the access faults again and the second lookup panics. -/
def lost (f : Fault) : Bool :=
  match f.branch with
  | .cow _ _ => false
  | .pg swap => !swap.memory

/-- The `T_PGFLT` case of `trap`. -/
def ops (f : Fault) : List LockOp :=
  f.sections.flatMap Section.ops ++
    ((if f.killedAfter then f.closing.flatMap Section.ops ++ [.acquire .ptable, .sched] else []) ++
    if f.lost then [.panic .pageNotFound] else [])

end Fault

/-- How an access finds a user page. The handler tests `PTE_COW` first, so that a page that is
both copy-on-write and swapped out is copied if its former frame is shared and otherwise
faults once more. -/
inductive Residency where
  | present
  | copyOnWrite (shared memory : Bool) (killed : Bool) (closing : List Section)
  | swappedOut (swap : SwapIn) (killed : Bool) (closing : List Section)
  | swappedCow (shared memory : Bool) (killed : Bool) (swap : SwapIn) (killed' : Bool)
      (closing : List Section)

/-- The faults an access raises; a load of a present copy-on-write page raises none. -/
def Residency.faults (store : Bool) : Residency → List Fault
  | present => []
  | copyOnWrite shared memory killed closing =>
    if store then [⟨.cow shared memory, killed, closing⟩] else []
  | swappedOut swap killed closing => [⟨.pg swap, killed, closing⟩]
  | swappedCow shared memory killed swap killed' closing =>
    ⟨.cow shared memory, killed, closing⟩ ::
      if shared then [] else [⟨.pg swap, killed', closing⟩]

/-! The four calls. -/

/-- What a call does inside its critical section. -/
inductive Move where
  /-- `sleep` on the lock of the critical section. -/
  | wait
  | wakeup
  | kmem
  | access (store : Bool) (page : Residency)

namespace Move

def faults : Move → List Fault
  | access store page => page.faults store
  | _ => []

def ops (l : Lock) : Move → List LockOp
  | wait => [.sleep l]
  | wakeup => Locks.wakeup
  | kmem => kmemSection.ops
  | access store page => (page.faults store).flatMap Fault.ops

end Move

/-- A call of one of the four functions. -/
inductive Call where
  /-- After some rounds of waiting a zombie is found, with the pages of the four results and the
  number of allocator calls before and after the stores, or the caller gives up. -/
  | wait2 (waits : Nat) (reaped : Option (Nat × (Fin 4 → Residency) × Nat))
  /-- The bytes written, each after some rounds of waiting for room, and the rounds before
  the writer gives up if it does. -/
  | pipewrite (bytes : List (Nat × Residency)) (fails : Option Nat)
  /-- The rounds of waiting, and the bytes read unless the reader was killed. -/
  | piperead (waits : Nat) (bytes : Option (List Residency))
  /-- The bytes read, each after some rounds of waiting for input, and the rounds after
  the last of them. -/
  | consoleread (bytes : List (Nat × Residency)) (waits : Nat)

namespace Call

def lock : Call → Lock
  | wait2 _ _ => .ptable
  | pipewrite _ _ | piperead _ _ => .pipe
  | consoleread _ _ => .cons

def moves : Call → List Move
  | wait2 waits none => List.replicate waits .wait
  | wait2 waits (some (before, pages, after)) =>
    List.replicate waits .wait ++ List.replicate before .kmem ++
      (List.ofFn pages).map (.access true) ++ List.replicate after .kmem
  | pipewrite bytes fails =>
    bytes.flatMap (fun b =>
      (List.replicate b.1 [.wakeup, .wait]).flatten ++ [.access false b.2]) ++
    match fails with
    | none => [.wakeup]
    | some waits => (List.replicate waits [.wakeup, .wait]).flatten
  | piperead waits none => List.replicate waits .wait
  | piperead waits (some bytes) =>
    List.replicate waits .wait ++ bytes.map (.access true) ++ [.wakeup]
  | consoleread bytes waits =>
    bytes.flatMap (fun b => List.replicate b.1 .wait ++ [.access true b.2]) ++
      List.replicate waits .wait

def ops (call : Call) : List LockOp :=
  .acquire call.lock :: (call.moves.flatMap (Move.ops call.lock) ++ [.release call.lock])

/-- The faults the user accesses of the call raise, in order. -/
def faults (call : Call) : List Fault := call.moves.flatMap Move.faults

end Call

/-! When a lock holder can go on. -/

/-- The buffer is free and cached, and is not written through. -/
def BufUse.Quiet (u : BufUse) : Prop :=
  u.lockSleeps = 0 ∧ u.cached = true ∧ u.written = none

/-- The inode is free, and so are the buffers. -/
def FileUse.Quiet (u : FileUse) : Prop :=
  u.lockSleeps = 0 ∧ (∀ b ∈ u.inode, b.Quiet) ∧ ∀ b ∈ u.data, b.Quiet

/-- The log admits the operation at once, and its end commits no block. -/
def Chunk.Quiet (c : Chunk) : Prop :=
  c.admission = 0 ∧ c.file.Quiet ∧ ∀ blocks ∈ c.commits, ∀ b ∈ blocks, b.Quiet

def PageWrite.Quiet (w : PageWrite) : Prop := w.first.Quiet ∧ ∀ c ∈ w.rest, c.Quiet

/-- The swap-in neither sleeps nor uses the swap file below `ptable.lock`, and below
`cons.lock` it finds a frame. -/
def SwapIn.Safe (l : Lock) : SwapIn → Prop
  | load evict _ memory read =>
    (l = .ptable → evict = none ∧ memory = false) ∧ (l = .cons → memory = true) ∧
      (∀ w ∈ evict, w.Quiet) ∧ (memory = true → read.Quiet)
  | exchange read evict _ memory =>
    l ≠ .ptable ∧ (l = .cons → memory = true) ∧ read.Quiet ∧ evict.Quiet

/-- The process survives the fault, and a swap-in is safe. -/
def Fault.Safe (l : Lock) (f : Fault) : Prop :=
  f.killed = false ∧
    match f.branch with
    | .cow shared memory => shared = true → memory = true
    | .pg swap => swap.Safe l

/-- Every fault is safe, up to one whose page cannot be found any more. -/
def FaultsSafe (l : Lock) : List Fault → Prop
  | [] => True
  | f :: rest => f.Safe l ∧ (f.lost = true ∨ FaultsSafe l rest)

theorem Cpu.runs_cons (c : Cpu) (op : LockOp) (ops : List LockOp) :
    c.runs (op :: ops) = op.run c >>= fun c => c.runs ops :=
  foldlM_cons

theorem Cpu.runs_append (c : Cpu) (ops ops' : List LockOp) :
    c.runs (ops ++ ops') = c.runs ops >>= fun c => c.runs ops' :=
  foldlM_append

/-- The operations end where they began. -/
def Passes (c : Cpu) (ops : List LockOp) : Prop := c.runs ops = .ok c

/-- The operations end in one of the two panics. -/
def Breaks (c : Cpu) (ops : List LockOp) : Prop :=
  c.runs ops = .error .acquire ∨ c.runs ops = .error .schedLocks

variable {c : Cpu} {ops ops' : List LockOp} {l : Lock} {s : Section} {sections : List Section}

theorem Passes.runs_append (h : Passes c ops) (ops' : List LockOp) :
    c.runs (ops ++ ops') = c.runs ops' := by
  rw [Cpu.runs_append, show c.runs ops = .ok c from h]
  rfl

theorem Passes.append (h : Passes c ops) (h' : Passes c ops') : Passes c (ops ++ ops') :=
  (h.runs_append ops').trans h'

theorem Passes.breaks_append (h : Passes c ops) (h' : Breaks c ops') : Breaks c (ops ++ ops') := by
  unfold Breaks
  rw [h.runs_append]
  exact h'

theorem Breaks.append (h : Breaks c ops) (ops' : List LockOp) : Breaks c (ops ++ ops') := by
  unfold Breaks
  rw [Cpu.runs_append]
  cases h with
  | inl h => rw [h]; exact .inl rfl
  | inr h => rw [h]; exact .inr rfl

variable {α : Type} {f : α → List LockOp} {xs : List α}

theorem passes_flatMap (h : ∀ x ∈ xs, Passes c (f x)) : Passes c (xs.flatMap f) := by
  induction xs with
  | nil => rfl
  | cons x xs ih =>
    rw [flatMap_cons]
    exact (h x mem_cons_self).append (ih fun y hy => h y (mem_cons_of_mem x hy))

/-- A critical section that the holder of one lock passes through. -/
def Section.Safe (l : Lock) (s : Section) : Prop :=
  s.lock ≠ l ∧ s.sleeps = 0 ∧ (s.wakes = true → l ≠ .ptable ∧ s.lock ≠ .ptable)

instance (l : Lock) (s : Section) : Decidable (s.Safe l) := by
  unfold Section.Safe
  infer_instance

theorem Section.passes (safe : s.Safe l) :
    Passes (Cpu.inside l) s.ops := by
  obtain ⟨lock, sleeps, wakes⟩ := s
  obtain ⟨other, quiet, waking⟩ := safe
  simp only at other quiet waking
  subst quiet
  cases wakes with
  | false =>
    simp [Passes, Section.ops, LockOp.run, Cpu.acquire, Cpu.release, Cpu.inside, other, Cpu.runs,
      bind, Except.bind, pure, Except.pure]
  | true =>
    obtain ⟨free, plain⟩ := waking rfl
    simp [Passes, Section.ops, wakeup, LockOp.run, Cpu.acquire, Cpu.release, Cpu.inside, other,
      free.symm, plain.symm, Cpu.runs, bind, Except.bind, pure, Except.pure]

/-- With one more lock held, a sleeper either needs the process table's lock twice or
reaches `sched` inside two critical sections. -/
theorem sleep_breaks {m : Lock} (other : m ≠ l) :
    (⟨[m, l], 2⟩ : Cpu).sleep m = .error .acquire ∨
      (⟨[m, l], 2⟩ : Cpu).sleep m = .error .schedLocks := by
  by_cases table : m = .ptable
  · subst table
    exact .inr (by simp [Cpu.sleep, Cpu.sched])
  · by_cases holds : l = .ptable
    · subst holds
      exact .inl (by simp [Cpu.sleep, Cpu.acquire, table, bind, Except.bind])
    · refine .inr ?_
      have absent : Lock.ptable ∉ [m, l] := by simp [Ne.symm table, Ne.symm holds]
      simp [Cpu.sleep, Cpu.acquire, Cpu.release, Cpu.sched, table, absent, bind, Except.bind,
        Ne.symm table]

theorem Section.breaks (broken : ¬ s.Safe l) :
    Breaks (Cpu.inside l) s.ops := by
  obtain ⟨lock, sleeps, wakes⟩ := s
  by_cases other : lock = l
  · subst other
    exact .inl (by simp [Section.ops, Cpu.runs_cons, LockOp.run, Cpu.acquire, Cpu.inside, bind,
      Except.bind])
  · have taken : (LockOp.acquire lock).run (Cpu.inside l) = .ok ⟨[lock, l], 2⟩ := by
      simp [LockOp.run, Cpu.acquire, Cpu.inside, other]
    unfold Breaks
    simp only [Section.ops, cons_append, Cpu.runs_cons, taken]
    cases sleeps with
    | succ n =>
      simp only [replicate_succ, cons_append, bind, Except.bind, Cpu.runs_cons, LockOp.run]
      cases sleep_breaks other with
      | inl h => rw [h]; exact .inl rfl
      | inr h => rw [h]; exact .inr rfl
    | zero =>
      have waking : wakes = true ∧ (l = .ptable ∨ lock = .ptable) := by
        simp only [Section.Safe, ne_eq, other, not_false_eq_true, true_and, Classical.not_imp]
          at broken
        exact ⟨broken.1, by tauto⟩
      obtain ⟨rfl, holds⟩ := waking
      have present : Lock.ptable ∈ [lock, l] := by
        cases holds with
        | inl h => simp [h]
        | inr h => simp [h]
      exact .inl (by simp [wakeup, Cpu.runs_cons, LockOp.run, Cpu.acquire, present, bind,
        Except.bind])

theorem sections_pass (safe : ∀ s ∈ sections, s.Safe l) :
    Passes (Cpu.inside l) (sections.flatMap Section.ops) :=
  passes_flatMap fun s hs => Section.passes (safe s hs)

/-- The critical sections are passed up to the first unsafe one. -/
theorem sections_break (broken : ¬ ∀ s ∈ sections, s.Safe l) :
    Breaks (Cpu.inside l) (sections.flatMap Section.ops) := by
  induction sections with
  | nil => exact absurd (fun _ h => absurd h not_mem_nil) broken
  | cons s rest ih =>
    rw [flatMap_cons]
    by_cases first : s.Safe l
    · refine (Section.passes first).breaks_append (ih fun safe => broken ?_)
      exact forall_mem_cons.mpr ⟨first, safe⟩
    · exact (Section.breaks first).append _

/-- `exit` inside a critical section. -/
theorem exit_breaks (l : Lock) (closing : List Section) :
    Breaks (Cpu.inside l) (closing.flatMap Section.ops ++ [.acquire .ptable, .sched]) := by
  by_cases safe : ∀ s ∈ closing, s.Safe l
  · refine (sections_pass safe).breaks_append ?_
    by_cases holds : l = .ptable
    · subst holds
      exact .inl rfl
    · exact .inr (by simp [Cpu.runs_cons, LockOp.run, Cpu.acquire, Cpu.sched, Cpu.inside,
        Ne.symm holds, bind, Except.bind])
  · exact (sections_break safe).append _

/-! Which faults are safe, by the holder's lock. -/

variable {m : Move}

section Holder

variable {l : Lock} {ops : List LockOp}

/-- The lock of one of the four calls. -/
def IsHolder (l : Lock) : Prop := l = .ptable ∨ l = .pipe ∨ l = .cons

theorem kmemSection_safe (holder : IsHolder l) : kmemSection.Safe l := by
  obtain rfl | rfl | rfl := holder <;> decide

theorem cprintf_safe_iff : cprintf.Safe l ↔ l ≠ .cons := by
  simp [Section.Safe, cprintf, eq_comm]

section

variable (holder : IsHolder l)
include holder

theorem bufUse_safe_iff (u : BufUse) :
    (∀ s ∈ u.sections, s.Safe l) ↔ l ≠ .ptable ∧ u.Quiet := by
  obtain ⟨lockSleeps, cached, diskSleeps, logged, written⟩ := u
  obtain rfl | rfl | rfl := holder <;> cases cached <;> cases logged <;> cases written <;>
    simp [BufUse.sections, BufUse.Quiet, Section.Safe, bget, acquiresleep, brelse, holdingsleep,
      releasesleep, iderw, bwrite]

theorem bufUses_safe_iff (free : l ≠ .ptable) (us : List BufUse) :
    (∀ s ∈ us.flatMap BufUse.sections, s.Safe l) ↔ ∀ u ∈ us, u.Quiet := by
  simp only [mem_flatMap, forall_exists_index, and_imp]
  constructor
  · intro h u hu
    exact ((bufUse_safe_iff holder u).mp fun s hs => h s u hu hs).2
  · intro h s u hu hs
    exact (bufUse_safe_iff holder u).mpr ⟨free, h u hu⟩ s hs

/-- Reading a file releases its inode, which takes `ptable.lock`. -/
theorem fileread_safe_iff (u : FileUse) :
    (∀ s ∈ fileread u, s.Safe l) ↔ l ≠ .ptable ∧ u.Quiet := by
  by_cases free : l = .ptable
  · subst free
    simp only [ne_eq, not_true_eq_false, false_and, iff_false]
    intro h
    have last := h ⟨.sleeplock, 0, true⟩ (by simp [fileread, iunlock, releasesleep])
    exact (last.2.2 rfl).1 rfl
  · have locks : ∀ n, (⟨.sleeplock, n, false⟩ : Section).Safe l ↔ n = 0 := by
      obtain rfl | rfl | rfl := holder <;> simp [Section.Safe]
    have released : (⟨.sleeplock, 0, true⟩ : Section).Safe l := by
      obtain rfl | rfl | rfl := holder <;> simp [Section.Safe] at free ⊢
    have inode : (∀ s ∈ u.inode.elim [] BufUse.sections, s.Safe l) ↔ ∀ b ∈ u.inode, b.Quiet := by
      cases u.inode with
      | none => simp
      | some b => simpa [free] using bufUse_safe_iff holder b
    simp only [fileread, ilock, iunlock, acquiresleep, holdingsleep, releasesleep,
      forall_mem_append, forall_mem_singleton, locks, released, inode,
      bufUses_safe_iff holder free, FileUse.Quiet, and_true, and_assoc]
    simp [free]

theorem chunk_safe_iff (c : Chunk) :
    (∀ s ∈ c.sections, s.Safe l) ↔ l ≠ .ptable ∧ c.Quiet := by
  have logs : ∀ n, (⟨.log, n, false⟩ : Section).Safe l ↔ n = 0 := by
    obtain rfl | rfl | rfl := holder <;> simp [Section.Safe]
  by_cases free : l = .ptable
  · simp only [free, ne_eq, not_true_eq_false, false_and, iff_false]
    intro h
    have file := (fileread_safe_iff (.inl rfl) c.file).mp fun s hs =>
      h s (by simp [Chunk.sections, hs])
    exact file.1 rfl
  · have woken : (⟨.log, 0, true⟩ : Section).Safe l := by
      obtain rfl | rfl | rfl := holder <;> simp [Section.Safe] at free ⊢
    have ended : (∀ s ∈ endOp c.commits, s.Safe l) ↔
        ∀ blocks ∈ c.commits, ∀ b ∈ blocks, b.Quiet := by
      cases c.commits with
      | none => simpa [endOp] using woken
      | some blocks =>
        simp only [endOp, forall_mem_cons, forall_mem_append, not_mem_nil,
          false_implies, implies_true, logs, woken, bufUses_safe_iff holder free, and_true,
          true_and, Option.mem_def, Option.some.injEq, forall_eq']
    simp only [Chunk.sections, beginOp, forall_mem_append, forall_mem_singleton, logs,
      fileread_safe_iff holder, ended, Chunk.Quiet, and_assoc]
    simp [free]

theorem filewrite_safe_iff (w : PageWrite) :
    (∀ s ∈ filewrite w, s.Safe l) ↔ l ≠ .ptable ∧ w.Quiet := by
  have each : (∀ s ∈ filewrite w, s.Safe l) ↔
      ∀ c ∈ w.first :: w.rest, ∀ s ∈ c.sections, s.Safe l := by
    simp only [filewrite, mem_flatMap, forall_exists_index, and_imp]
    exact ⟨fun h c hc s hs => h s c hc hs, fun h s c hc hs => h c hc s hs⟩
  simp only [each, forall_mem_cons, chunk_safe_iff holder, PageWrite.Quiet]
  constructor
  · rintro ⟨⟨free, first⟩, rest⟩
    exact ⟨free, first, fun c hc => (rest c hc).2⟩
  · rintro ⟨free, first, rest⟩
    exact ⟨⟨free, first⟩, fun c hc => ⟨free, rest c hc⟩⟩

theorem pageToSwapFile_safe_iff (w : PageWrite) (freed : Bool) :
    (∀ s ∈ pageToSwapFile w freed, s.Safe l) ↔ l ≠ .ptable ∧ w.Quiet := by
  have frees : ∀ s ∈ (if freed then [kmemSection] else []), s.Safe l := by
    cases freed <;> simp [kmemSection_safe holder]
  simp only [pageToSwapFile, forall_mem_append, forall_mem_cons,
    kmemSection_safe holder, filewrite_safe_iff holder, true_and]
  exact and_iff_left frees

theorem SwapIn.safe_iff (swap : SwapIn) :
    (∀ s ∈ swap.sections, s.Safe l) ↔ swap.Safe l := by
  cases swap with
  | load evict freed memory read =>
    have evicted : (∀ s ∈ evict.elim [] (pageToSwapFile · freed), s.Safe l) ↔
        ∀ w ∈ evict, l ≠ .ptable ∧ w.Quiet := by
      cases evict with
      | none => simp
      | some w => simpa using pageToSwapFile_safe_iff holder w freed
    simp only [SwapIn.sections, SwapIn.Safe, forall_mem_append, forall_mem_cons,
      kmemSection_safe holder, evicted, true_and]
    cases memory with
    | true =>
      simp only [if_true, fileread_safe_iff holder]
      cases evict with
      | none => simp
      | some w => simp; tauto
    | false =>
      simp only [Bool.false_eq_true, if_false, forall_mem_singleton, cprintf_safe_iff]
      cases evict with
      | none => simp
      | some w => simp; tauto
  | exchange read evict freed memory =>
    simp only [SwapIn.sections, SwapIn.Safe, forall_mem_append, forall_mem_cons,
      kmemSection_safe holder, fileread_safe_iff holder, pageToSwapFile_safe_iff holder, true_and]
    cases memory <;> simp [cprintf_safe_iff] <;> tauto

theorem Fault.safe_iff (f : Fault) :
    f.Safe l ↔ (∀ s ∈ f.sections, s.Safe l) ∧ f.killedAfter = false := by
  obtain ⟨branch, killed, closing⟩ := f
  cases branch with
  | cow shared memory =>
    cases shared <;> cases memory <;>
      simp [Fault.Safe, Fault.sections, Fault.killedAfter, kmemSection_safe holder]
  | pg swap =>
    simp only [Fault.Safe, Fault.sections, Fault.killedAfter, SwapIn.safe_iff holder]
    exact and_comm

end

/-- What operations that raise these faults come to inside the critical section. -/
structure Outcome (l : Lock) (ops : List LockOp) (faults : List Fault) : Prop where
  passes : FaultsSafe l faults → (∀ f ∈ faults, f.lost = false) → Passes (Cpu.inside l) ops
  lost : FaultsSafe l faults → (∃ f ∈ faults, f.lost = true) →
    (Cpu.inside l).runs ops = .error .pageNotFound
  breaks : ¬ FaultsSafe l faults → Breaks (Cpu.inside l) ops

theorem Passes.outcome (h : Passes (Cpu.inside l) ops) : Outcome l ops [] where
  passes _ _ := h
  lost _ found := by simp at found
  breaks broken := absurd trivial broken

theorem Fault.outcome (holder : IsHolder l) (f : Fault) : Outcome l f.ops [f] := by
  have safe : FaultsSafe l [f] ↔ f.Safe l := by simp [FaultsSafe]
  refine ⟨fun h lost => ?_, fun h lost => ?_, fun h => ?_⟩
  · have ⟨sections, alive⟩ := (Fault.safe_iff holder f).mp (safe.mp h)
    have found := lost f mem_cons_self
    simp only [Fault.ops, alive, found, Bool.false_eq_true, if_false, append_nil]
    exact sections_pass sections
  · have ⟨sections, alive⟩ := (Fault.safe_iff holder f).mp (safe.mp h)
    have found : f.lost = true := by simpa using lost
    simp only [Fault.ops, alive, found, Bool.false_eq_true, if_false, if_true, nil_append]
    rw [(sections_pass sections).runs_append]
    rfl
  · rw [safe, Fault.safe_iff holder, not_and_or] at h
    unfold Fault.ops
    by_cases sections : ∀ s ∈ f.sections, s.Safe l
    · have dead : f.killedAfter = true := by
        simpa [Bool.not_eq_false] using h.resolve_left (not_not_intro sections)
      simp only [dead, if_true]
      exact (sections_pass sections).breaks_append ((exit_breaks l f.closing).append _)
    · exact (sections_break sections).append _

theorem faultsSafe_append (fs gs : List Fault) :
    FaultsSafe l (fs ++ gs) ↔
      FaultsSafe l fs ∧ ((∃ f ∈ fs, f.lost = true) ∨ FaultsSafe l gs) := by
  induction fs with
  | nil => simp [FaultsSafe]
  | cons f fs ih =>
    simp only [cons_append, FaultsSafe, ih, exists_mem_cons_iff]
    cases f.lost with
    | true => simp
    | false => simp [and_assoc]

theorem Outcome.append {ops' : List LockOp} {fs gs : List Fault} (h : Outcome l ops fs)
    (h' : Outcome l ops' gs) : Outcome l (ops ++ ops') (fs ++ gs) := by
  refine ⟨fun safe found => ?_, fun safe found => ?_, fun broken => ?_⟩
  · have ⟨first, second⟩ := (faultsSafe_append fs gs).mp safe
    have ⟨here, there⟩ := forall_mem_append.mp found
    have rest := second.resolve_left fun ⟨f, hf, lost⟩ => by simp [here f hf] at lost
    exact (h.passes first here).append (h'.passes rest there)
  · have ⟨first, second⟩ := (faultsSafe_append fs gs).mp safe
    by_cases here : ∃ f ∈ fs, f.lost = true
    · rw [Cpu.runs_append, h.lost first here]
      rfl
    · have kept : ∀ f ∈ fs, f.lost = false := by
        intro f hf
        simpa using fun lost => here ⟨f, hf, lost⟩
      rw [(h.passes first kept).runs_append]
      refine h'.lost (second.resolve_left here) ?_
      obtain ⟨f, hf, lost⟩ := found
      exact ⟨f, (mem_append.mp hf).resolve_left fun hf => here ⟨f, hf, lost⟩, lost⟩
  · rw [faultsSafe_append, not_and_or, not_or] at broken
    by_cases first : FaultsSafe l fs
    · have ⟨here, rest⟩ := broken.resolve_left (not_not_intro first)
      have kept : ∀ f ∈ fs, f.lost = false := by
        intro f hf
        simpa using fun lost => here ⟨f, hf, lost⟩
      exact (h.passes first kept).breaks_append (h'.breaks rest)
    · exact (h.breaks first).append _

theorem outcome_flatMap {g : α → List Fault}
    (h : ∀ x ∈ xs, Outcome l (f x) (g x)) : Outcome l (xs.flatMap f) (xs.flatMap g) := by
  induction xs with
  | nil => exact Passes.outcome rfl
  | cons x xs ih =>
    rw [flatMap_cons, flatMap_cons]
    exact (h x mem_cons_self).append (ih fun y hy => h y (mem_cons_of_mem x hy))

theorem Move.outcome (holder : IsHolder l) (table : l = .ptable → m ≠ .wakeup) :
    Outcome l (m.ops l) m.faults := by
  cases m with
  | wait => exact Passes.outcome (by obtain rfl | rfl | rfl := holder <;> rfl)
  | wakeup =>
    refine Passes.outcome ?_
    obtain rfl | rfl | rfl := holder
    · exact absurd rfl (table rfl)
    · rfl
    · rfl
  | kmem => exact Passes.outcome (Section.passes (kmemSection_safe holder))
  | access store page =>
    have each := outcome_flatMap (fun f (_ : f ∈ page.faults store) => Fault.outcome holder f)
    rwa [flatMap_singleton'] at each

end Holder

theorem Call.holder (call : Call) : IsHolder call.lock := by
  cases call with
  | wait2 _ _ => exact .inl rfl
  | pipewrite _ _ | piperead _ _ => exact .inr (.inl rfl)
  | consoleread _ _ => exact .inr (.inr rfl)

/-- `wait2` holds `ptable.lock` and calls no `wakeup`. -/
theorem Call.table {call : Call} (table : call.lock = .ptable) (hm : m ∈ call.moves) : m ≠ .wakeup := by
  rintro rfl
  cases call with
  | wait2 waits reaped => cases reaped <;> simp [Call.moves] at hm
  | pipewrite _ _ | piperead _ _ | consoleread _ _ => cases table

/-- A call that touches user memory inside its critical section keeps the lock rules exactly if
the process survives every fault it takes there and no swap-in sleeps, needs the swap file while
`ptable.lock` is held or prints while `cons.lock` is held. -/
theorem user_access_keeps_lock_rules_iff (call : Call) :
    KeepsLockRules call.ops ↔ FaultsSafe call.lock call.faults := by
  have body : Outcome call.lock (call.moves.flatMap (Move.ops call.lock)) call.faults :=
    outcome_flatMap fun m hm => Move.outcome call.holder fun table => call.table table hm
  have entered : Cpu.idle.runs call.ops =
      (Cpu.inside call.lock).runs
        (call.moves.flatMap (Move.ops call.lock) ++ [.release call.lock]) := rfl
  unfold KeepsLockRules
  rw [entered]
  constructor
  · intro ⟨noAcquire, noSched⟩
    by_contra broken
    exact ((body.breaks broken).append [.release call.lock]).elim noAcquire noSched
  · intro safe
    by_cases lost : ∃ f ∈ call.faults, f.lost = true
    · rw [Cpu.runs_append, body.lost safe lost]
      exact ⟨nofun, nofun⟩
    · have kept : ∀ f ∈ call.faults, f.lost = false := by
        intro f hf
        simpa using fun h => lost ⟨f, hf, h⟩
      rw [(body.passes safe kept).runs_append]
      have left : (Cpu.inside call.lock).runs [.release call.lock] = .ok Cpu.idle := by
        simp [Cpu.runs, LockOp.run, Cpu.release, Cpu.inside, Cpu.idle]
      rw [left]
      exact ⟨nofun, nofun⟩

/-- A parent whose first result lies on a page that is swapped out reaps a child: even with the
swap file's blocks cached, releasing a buffer takes `ptable.lock` again. A reader of a pipe whose
buffer is swapped out and not cached waits for the disk inside the pipe's critical section. -/
theorem wait2_reacquires_ptable_lock :
    Cpu.idle.runs (Call.ops (.wait2 0 (some (1, fun i =>
      if i = 0 then
        .swappedOut (.load none false true
          ⟨0, none, List.replicate 8 ⟨0, true, 0, false, none⟩⟩) false []
      else .present, 1)))) = .error .acquire ∧
    Cpu.idle.runs (Call.ops (.piperead 0 (some
      [.swappedOut (.load none false true
        ⟨0, none, List.replicate 8 ⟨0, false, 0, false, none⟩⟩) false []]))) =
      .error .schedLocks := by
  decide +kernel

end Xv6.Locks
