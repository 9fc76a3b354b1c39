import Xv6.Library.RecordLayout
import Xv6.Memory.Kernel

/-!
The process table as bytes, and the block copies of `exec`.

`ptable.proc` is an array of `struct proc`, whose fields are words or arrays of
words and leave no gaps. `exec` saves part of the structure of the calling process
in arrays on its kernel stack before it resets it, and copies them back at the label
`bad`. The stack is a page taken from the allocator, hence above the table; where on
it the compiler puts the arrays is left open, and so is what the kernel writes to the
rest of memory between the two.
-/

namespace Xv6

open RecordLayout

abbrev NOFILE : Nat := 16
abbrev SIZEOF_PAGING_META_DATA : Nat := 20
abbrev SIZEOF_HEAP_P : Nat := 8

/-- The fields of `struct proc`. -/
inductive ProcField where
  | sz | pgdir | kstack | state | pid | parent | tf | context | chan | killed | ofile | cwd
  | name | swapFile | pagesInMemory | pagesInSwapfile | swapPmd | ramPmd | pagefaults
  | pagedout | prioArr | prioSize
  deriving DecidableEq, Repr

def ProcField.size : ProcField → Nat
  | .ofile => NOFILE * 4
  | .name => 16
  | .swapPmd | .ramPmd => MAX_PSYC_PAGES * SIZEOF_PAGING_META_DATA
  | .prioArr => MAX_PRIO_ARR * SIZEOF_HEAP_P
  | _ => 4

/-- In the order of the declaration. -/
def procFields : List ProcField := [
  .sz, .pgdir, .kstack, .state, .pid, .parent, .tf, .context, .chan, .killed, .ofile, .cwd,
  .name, .swapFile, .pagesInMemory, .pagesInSwapfile, .swapPmd, .ramPmd, .pagefaults,
  .pagedout, .prioArr, .prioSize]

abbrev SIZEOF_PROC : Nat := 1052

theorem total_procFields : total ProcField.size procFields = SIZEOF_PROC := by decide

theorem mem_procFields (f : ProcField) : f ∈ procFields := by
  cases f <;> decide

/-- The address of an element of `ptable.proc`. -/
def procAddr (ptable : Nat) (s : ProcNo) : Nat := ptable + s.val * SIZEOF_PROC

def fieldAddr (ptable : Nat) (s : ProcNo) (f : ProcField) : Nat :=
  procAddr ptable s + offset ProcField.size procFields f

/-- Memory by address. -/
abbrev Bytes := Nat → UInt8

/-- `memmove(dst, src, n)`; an assignment of an `int` is the case `n = 4`. `room` is the
size of the object at `dst` and has no effect. -/
structure BlockCopy where
  dst : Nat
  src : Nat
  n : Nat
  room : Nat

def memmove (m : Bytes) (c : BlockCopy) : Bytes :=
  fun a => if c.dst ≤ a ∧ a < c.dst + c.n then m (c.src + (a - c.dst)) else m a

def memmoves (m : Bytes) (copies : List BlockCopy) : Bytes := copies.foldl memmove m

/-- Where the compiler puts the backups among the local variables of `exec`. -/
structure ExecLocals where
  bkRam : Nat
  bkSwapFile : Nat
  bkPrioArr : Nat
  bkRamSize : Nat
  bkSwapSize : Nat
  bkPrioSize : Nat

/-- The kernel stack lies behind the process table. -/
structure ExecLocals.Above (l : ExecLocals) (ptable : Nat) : Prop where
  bkRam : ptable + NPROC * SIZEOF_PROC ≤ l.bkRam
  bkSwapFile : ptable + NPROC * SIZEOF_PROC ≤ l.bkSwapFile
  bkPrioArr : ptable + NPROC * SIZEOF_PROC ≤ l.bkPrioArr
  bkRamSize : ptable + NPROC * SIZEOF_PROC ≤ l.bkRamSize
  bkSwapSize : ptable + NPROC * SIZEOF_PROC ≤ l.bkSwapSize
  bkPrioSize : ptable + NPROC * SIZEOF_PROC ≤ l.bkPrioSize

/-- The backup, once `namei` has found the file. -/
def execBackup (ptable : Nat) (p : ProcNo) (l : ExecLocals) (found : Bool) : List BlockCopy :=
  if found then [
    ⟨l.bkRam, fieldAddr ptable p .ramPmd, MAX_PSYC_PAGES * SIZEOF_PAGING_META_DATA,
      MAX_PSYC_PAGES * SIZEOF_PAGING_META_DATA⟩,
    ⟨l.bkSwapFile, fieldAddr ptable p .swapPmd, MAX_PSYC_PAGES * SIZEOF_PAGING_META_DATA,
      MAX_PSYC_PAGES * SIZEOF_PAGING_META_DATA⟩,
    ⟨l.bkPrioArr, fieldAddr ptable p .prioArr, MAX_PRIO_ARR * SIZEOF_PAGING_META_DATA,
      MAX_PRIO_ARR * SIZEOF_HEAP_P⟩,
    ⟨l.bkRamSize, fieldAddr ptable p .pagesInMemory, 4, 4⟩,
    ⟨l.bkSwapSize, fieldAddr ptable p .pagesInSwapfile, 4, 4⟩,
    ⟨l.bkPrioSize, fieldAddr ptable p .prioSize, 4, 4⟩]
  else []

/-- The restoration at the label `bad`, which a call that found no file does not reach. -/
def execRestore (ptable : Nat) (p : ProcNo) (l : ExecLocals) (found : Bool) : List BlockCopy :=
  if found then [
    ⟨fieldAddr ptable p .ramPmd, l.bkRam, MAX_PSYC_PAGES * SIZEOF_PAGING_META_DATA,
      ProcField.ramPmd.size⟩,
    ⟨fieldAddr ptable p .swapPmd, l.bkSwapFile, MAX_PSYC_PAGES * SIZEOF_PAGING_META_DATA,
      ProcField.swapPmd.size⟩,
    ⟨fieldAddr ptable p .prioArr, l.bkPrioArr, MAX_PRIO_ARR * SIZEOF_PAGING_META_DATA,
      ProcField.prioArr.size⟩,
    ⟨fieldAddr ptable p .pagesInMemory, l.bkRamSize, 4, 4⟩,
    ⟨fieldAddr ptable p .pagesInSwapfile, l.bkSwapSize, 4, 4⟩,
    ⟨fieldAddr ptable p .prioSize, l.bkPrioSize, 4, 4⟩]
  else []

/-- Every field of the structure of `q` is the same in both memories. -/
def SameProc (ptable : Nat) (q : ProcNo) (m m' : Bytes) : Prop :=
  ∀ f j, j < ProcField.size f → m' (fieldAddr ptable q f + j) = m (fieldAddr ptable q f + j)

/-- A failing `exec` of `p` leaves `q` as it is both when it saves, in the memory `m₀`, and
when it restores, in the memory `m`. -/
def ExecLeavesAlone (ptable : Nat) (p q : ProcNo) (l : ExecLocals) (found : Bool)
    (m₀ m : Bytes) : Prop :=
  SameProc ptable q m₀ (memmoves m₀ (execBackup ptable p l found)) ∧
    SameProc ptable q m (memmoves m (execRestore ptable p l found))

/-- Every backup stays inside the array it is made in. -/
def ExecBackupInside (ptable : Nat) (p : ProcNo) (l : ExecLocals) (found : Bool) : Prop :=
  ∀ c ∈ execBackup ptable p l found, c.n ≤ c.room

/-- The bytes of the next structure that a copy of `MAX_PRIO_ARR` entries of the wrong
type reaches from `prioArr`. -/
abbrev OVERRUN : Nat := 392

section Copies

variable {m m' : Bytes} {c : BlockCopy} {a ptable : Nat} {p q : ProcNo} {l : ExecLocals}

theorem memmove_outside (miss : a < c.dst ∨ c.dst + c.n ≤ a) : memmove m c a = m a := by
  unfold memmove
  rw [if_neg (by omega)]

theorem memmove_inside (lower : c.dst ≤ a) (upper : a < c.dst + c.n) :
    memmove m c a = m (c.src + (a - c.dst)) := by
  unfold memmove
  rw [if_pos ⟨lower, upper⟩]

theorem memmoves_outside (copies : List BlockCopy)
    (miss : ∀ c ∈ copies, a < c.dst ∨ c.dst + c.n ≤ a) : memmoves m copies a = m a := by
  induction copies generalizing m with
  | nil => rfl
  | cons c copies ih =>
    change memmoves (memmove m c) copies a = m a
    rw [ih (fun c' mem => miss c' (List.mem_cons_of_mem c mem)),
      memmove_outside (miss c List.mem_cons_self)]

/-- Two structures are the same if their bytes are. -/
theorem sameProc_iff : SameProc ptable q m m' ↔
    ∀ i < SIZEOF_PROC, m' (procAddr ptable q + i) = m (procAddr ptable q + i) := by
  constructor
  · intro same i inside
    have distinct : procFields.Nodup := by decide
    obtain ⟨f, _, lower, upper⟩ := exists_field ProcField.size distinct
      (by rw [total_procFields]; exact inside)
    have here : fieldAddr ptable q f + (i - offset ProcField.size procFields f) =
        procAddr ptable q + i := by
      unfold fieldAddr
      omega
    rw [← here]
    exact same f _ (by omega)
  · intro same f j inside
    have bound := offset_add_size_le ProcField.size (mem_procFields f)
    rw [total_procFields] at bound
    unfold fieldAddr
    rw [Nat.add_assoc]
    exact same _ (by omega)

/-- Structures of different processes do not meet. -/
theorem procAddr_apart (ptable : Nat) (other : q ≠ p) :
    procAddr ptable q + SIZEOF_PROC ≤ procAddr ptable p ∨
      (q.val = p.val + 1 ∧ procAddr ptable q = procAddr ptable p + SIZEOF_PROC) ∨
      procAddr ptable p + 2 * SIZEOF_PROC ≤ procAddr ptable q := by
  have differ : q.val ≠ p.val := fun same => other (Fin.ext same)
  unfold procAddr SIZEOF_PROC
  omega

theorem procAddr_next (ptable : Nat) (next : q.val = p.val + 1) :
    procAddr ptable q = procAddr ptable p + SIZEOF_PROC := by
  unfold procAddr
  rw [next, Nat.add_mul, Nat.one_mul, Nat.add_assoc]

theorem procAddr_bound (ptable : Nat) (s : ProcNo) :
    procAddr ptable s + SIZEOF_PROC ≤ ptable + NPROC * SIZEOF_PROC := by
  have := s.isLt
  unfold procAddr SIZEOF_PROC
  omega

/-- Saving writes to the stack only. -/
theorem execBackup_sameProc (above : l.Above ptable) (found : Bool) (q : ProcNo) :
    SameProc ptable q m (memmoves m (execBackup ptable p l found)) := by
  have bound := procAddr_bound ptable q
  rw [sameProc_iff]
  intro i inside
  apply memmoves_outside
  intro c mem
  left
  unfold execBackup at mem
  split at mem
  · have := above.bkRam
    have := above.bkSwapFile
    have := above.bkPrioArr
    have := above.bkRamSize
    have := above.bkSwapSize
    have := above.bkPrioSize
    simp only [List.mem_cons, List.not_mem_nil, or_false] at mem
    obtain rfl | rfl | rfl | rfl | rfl | rfl := mem <;> simp only <;> omega
  · cases mem

theorem fieldAddr_ramPmd : fieldAddr ptable p .ramPmd = procAddr ptable p + 456 := rfl

theorem fieldAddr_swapPmd : fieldAddr ptable p .swapPmd = procAddr ptable p + 136 := rfl

theorem fieldAddr_prioArr : fieldAddr ptable p .prioArr = procAddr ptable p + 784 := rfl

theorem fieldAddr_pagesInMemory : fieldAddr ptable p .pagesInMemory = procAddr ptable p + 128 := rfl

theorem fieldAddr_pagesInSwapfile :
    fieldAddr ptable p .pagesInSwapfile = procAddr ptable p + 132 := rfl

theorem fieldAddr_prioSize : fieldAddr ptable p .prioSize = procAddr ptable p + 1048 := rfl

/-- Restoring reaches another process only through the copy of `prioArr`, and only the
process behind `p`. -/
theorem execRestore_byte (above : l.Above ptable) (other : q ≠ p) {i : Nat}
    (inside : i < SIZEOF_PROC) :
    memmoves m (execRestore ptable p l true) (procAddr ptable q + i) =
      if q.val = p.val + 1 ∧ i < OVERRUN then m (l.bkPrioArr + 268 + i)
      else m (procAddr ptable q + i) := by
  have apart := procAddr_apart ptable other
  have stack := above.bkPrioArr
  have bound := procAddr_bound ptable p
  have proc : SIZEOF_PROC = 1052 := rfl
  have overrun : OVERRUN = 392 := rfl
  have pmds : MAX_PSYC_PAGES * SIZEOF_PAGING_META_DATA = 320 := rfl
  have prio : MAX_PRIO_ARR * SIZEOF_PAGING_META_DATA = 660 := rfl
  simp only [execRestore, if_true, memmoves, List.foldl_cons, List.foldl_nil, fieldAddr_ramPmd,
    fieldAddr_swapPmd, fieldAddr_prioArr, fieldAddr_pagesInMemory, fieldAddr_pagesInSwapfile,
    fieldAddr_prioSize]
  -- The words of `p` written last are no bytes of `q`.
  rw [memmove_outside (by simp only; omega), memmove_outside (by simp only; omega),
    memmove_outside (by simp only; omega)]
  split
  case isTrue reached =>
    obtain ⟨next, low⟩ := reached
    have here := procAddr_next ptable next
    rw [memmove_inside (by simp only; omega) (by simp only; omega)]
    simp only
    rw [memmove_outside (by simp only; omega), memmove_outside (by simp only; omega)]
    exact congrArg m (by omega)
  case isFalse missed =>
    rw [memmove_outside (by simp only; omega), memmove_outside (by simp only; omega),
      memmove_outside (by simp only; omega)]

/-- What a restoration does to the process behind `p` depends on the stack beyond the
array. -/
theorem execRestore_sameProc_iff (above : l.Above ptable) (other : q ≠ p) :
    SameProc ptable q m (memmoves m (execRestore ptable p l true)) ↔
      (q.val = p.val + 1 →
        ∀ j < OVERRUN, m (l.bkPrioArr + 268 + j) = m (procAddr ptable q + j)) := by
  rw [sameProc_iff]
  constructor
  · intro same next j low
    have inside : j < SIZEOF_PROC := Nat.lt_trans low (by decide)
    have byte := same j inside
    rwa [execRestore_byte above other inside, if_pos ⟨next, low⟩] at byte
  · intro equal i inside
    rw [execRestore_byte above other inside]
    split
    · rename_i reached
      exact equal reached.1 i reached.2
    · rfl

theorem execBackupInside_iff (found : Bool) :
    ExecBackupInside ptable p l found ↔ found = false := by
  cases found with
  | false => simp [ExecBackupInside, execBackup]
  | true =>
    simp only [Bool.true_eq_false, iff_false]
    intro inside
    have copy : MAX_PRIO_ARR * SIZEOF_PAGING_META_DATA ≤ MAX_PRIO_ARR * SIZEOF_HEAP_P :=
      inside ⟨l.bkPrioArr, fieldAddr ptable p .prioArr,
        MAX_PRIO_ARR * SIZEOF_PAGING_META_DATA, MAX_PRIO_ARR * SIZEOF_HEAP_P⟩
        (by simp [execBackup])
    exact absurd copy (by decide)

/-- `exec` keeps to the calling process and to its own arrays exactly if it fails before
the backup. After a backup, what happens to the process behind `p` is decided by the
bytes beyond `bkPrioArr` at the time of the restoration. -/
theorem exec_backup_contained_iff (ptable : Nat) (p q : ProcNo) (l : ExecLocals)
    (above : l.Above ptable) (other : q ≠ p) (found : Bool) (m₀ m : Bytes) :
    ((ExecLeavesAlone ptable p q l found m₀ m ∧ ExecBackupInside ptable p l found) ↔
      found = false) ∧
    (ExecLeavesAlone ptable p q l true m₀ m ↔ (q.val = p.val + 1 →
      ∀ j < OVERRUN, m (l.bkPrioArr + 268 + j) = m (procAddr ptable q + j))) := by
  constructor
  · rw [execBackupInside_iff]
    constructor
    · exact fun h => h.2
    · rintro rfl
      exact ⟨⟨execBackup_sameProc above false q, fun _ _ _ => rfl⟩, rfl⟩
  · constructor
    · intro alone
      exact (execRestore_sameProc_iff above other).mp alone.2
    · intro equal
      exact ⟨execBackup_sameProc above true q, (execRestore_sameProc_iff above other).mpr equal⟩

end Copies

/-- A table at the start of memory and a stack frame with the arrays far apart. -/
def sampleLocals : ExecLocals := ⟨100000, 101000, 102000, 103000, 103004, 103008⟩

theorem sampleLocals_above : sampleLocals.Above 0 := by
  constructor <;> decide

theorem exec_backup_contained_sample :
    ((ExecLeavesAlone 0 3 4 sampleLocals true (fun _ => 0) (fun _ => 0) ∧
        ExecBackupInside 0 3 sampleLocals true) ↔ true = false) ∧
    (ExecLeavesAlone 0 3 4 sampleLocals true (fun _ => 0) (fun _ => 0) ↔
      ((4 : ProcNo).val = (3 : ProcNo).val + 1 → ∀ j < OVERRUN, (0 : UInt8) = 0)) :=
  exec_backup_contained_iff 0 3 4 sampleLocals sampleLocals_above (by decide) true _ _

/-- Process 4 becomes a zombie while process 3, the one before it in the table, is between
the backup and the restoration of an `exec`. -/
def zombieMeanwhile : Bytes :=
  Function.update (memmoves (fun _ => 0) (execBackup 0 3 sampleLocals true))
    (fieldAddr 0 4 .state) 5

theorem exec_restores_neighbour :
    zombieMeanwhile (fieldAddr 0 4 .state) = 5 ∧
      memmoves zombieMeanwhile (execRestore 0 3 sampleLocals true) (fieldAddr 0 4 .state) = 0 ∧
      ¬ ExecLeavesAlone 0 3 4 sampleLocals true (fun _ => 0) zombieMeanwhile ∧
      ¬ ExecBackupInside 0 3 sampleLocals true := by
  have zombie : zombieMeanwhile (fieldAddr 0 4 .state) = 5 := by simp [zombieMeanwhile]
  have unused : memmoves zombieMeanwhile (execRestore 0 3 sampleLocals true)
      (fieldAddr 0 4 .state) = 0 := by decide
  refine ⟨zombie, unused, ?_, by simp [execBackupInside_iff]⟩
  intro alone
  have same := alone.2 .state 0 (by decide)
  rw [Nat.add_zero, zombie, unused] at same
  exact absurd same (by decide)

end Xv6
