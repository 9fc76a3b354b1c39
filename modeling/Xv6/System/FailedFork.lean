import Xv6.Memory.Books
import Xv6.Memory.Layout
import Xv6.System.InodeBalance

/-!
`fork` over memory and files together. `allocproc` takes the kernel stack and, for the pids after the
first two, creates the swap file and opens it; only then is the page table copied. On the way out of a
failed copy the stack is given back and the slot released. The swap file stays, and so does the entry
of the open-file table that `createSwapFile` took for it.
-/

namespace Xv6

open Inodes (Sys Stop Returns NFILE)
open LinkChain Outcome

namespace Inodes

variable {s : Sys}

theorem onFs_ftable {α : Type} (x : Except Stop (α × State)) :
    Returns (fun r => r.2.ftable = s.ftable) (s.onFs x) :=
  (sat_true x).bind fun _ _ => .ok rfl

/-- An entry of the open-file table that was free is in use. -/
def Opened (s s' : Sys) : Prop := ∃ f, (s.ftable f).ref = 0 ∧ (s'.ftable f).ref = 1

theorem createSwapFile_opened (me : Pid) (cwd : Fin NINODE) (np : Fin NPROC) :
    Returns (fun r => Opened s r.2) (s.createSwapFile me cwd np) := by
  unfold Sys.createSwapFile
  refine (onFs_ftable _).bind fun ⟨made, s₁⟩ same => ?_
  cases made with
  | none => exact .error trivial
  | some ip =>
    refine (doFs_ftable _).bind fun s₂ same₂ => ?_
    dsimp only at same same₂
    rw [same] at same₂
    cases found : s₂.filealloc with
    | none => exact .error trivial
    | some r =>
      obtain ⟨f, free, eq⟩ := Option.map_eq_some_iff.mp found
      have unused := List.find?_some free
      rw [beq_iff_eq, same₂] at unused
      cases eq
      exact .ok ⟨f, unused, by simp [Sys.setFile, Sys.setProc]⟩

/-- A `fork` that fails behind `allocproc` has opened a file. -/
theorem fork_failed_opened (p c : Fin NPROC) (places : List UInt32) (pid : 2 < s.nextpid) :
    Returns (fun r => Opened s r.2) (s.fork p c false places) := by
  unfold Sys.fork
  refine (sat_true _).bind fun cwd _ => ?_
  have made : Returns (Opened s) (s.allocproc p c cwd) := by
    unfold Sys.allocproc
    split
    · exact .error trivial
    · dsimp only
      rw [if_pos pid]
      exact Returns.snd ((createSwapFile_opened _ cwd c).weaken fun _ opened => opened)
  exact made.bind fun s₁ opened => .ok opened

end Inodes

namespace Kernel

variable {cfg : Config} {k k' : Kernel}

theorem allocproc_none (run : k.allocproc cfg = .ok (none, k')) :
    k'.kmem = k.kmem ∧ ((∀ s, (k.proc s).state ≠ .UNUSED) ∨ k.kmem.freelist = none) := by
  unfold allocproc at run
  split at run
  · rename_i full
    cases run
    refine ⟨rfl, .inl fun s unused => ?_⟩
    simpa [unused] using List.find?_eq_none.mp full s (List.mem_finRange s)
  · obtain ⟨⟨r, k₁⟩, taken, run⟩ := Res.bind_ok.mp run
    obtain ⟨-, -, empty, same⟩ := kalloc_cases taken
    cases r with
    | none =>
      cases run
      exact ⟨same rfl, .inr (empty.mp rfl)⟩
    | some f => cases run

theorem allocproc_some {np : ProcNo} (run : k.allocproc cfg = .ok (some np, k')) :
    (k.proc np).state = .UNUSED ∧ k.kmem.freelist ≠ none := by
  rcases allocproc_cases run with ⟨none, -⟩ | ⟨none, -⟩ | ⟨_, f, km, same, unused, popped, -⟩
  · cases none
  · cases none
  · cases same
    refine ⟨unused, fun empty => ?_⟩
    simp [Kmem.pop, empty] at popped

theorem fork_of_allocproc_none {me : ProcNo} (run : k.allocproc cfg = .ok (none, k')) :
    k.fork cfg me = .ok (-1, k') := by
  unfold fork
  rw [run]
  rfl

end Kernel

/-- The memory and the files of one machine. They have one process table between them. -/
structure Machine where
  memory : Kernel
  files : Sys

namespace Machine

/-- A stop of either side. -/
inductive Halt where
  | memory (e : Panic)
  | files (e : Stop)

/-- `fork` of the process `me`. The two sides touch nothing of each other: the files learn the next
pid, the slot that `allocproc` found and whether `cowuvm` succeeded, and `places` are the pages of the
swap file copied after that. -/
def fork (cfg : Config) (m : Machine) (me : ProcNo) (places : List UInt32) :
    Except Halt (Int × Machine) := do
  let (found, _) ← (m.memory.allocproc cfg).mapError .memory
  let (r, memory) ← (m.memory.fork cfg me).mapError .memory
  match found with
  | none => return (r, ⟨memory, m.files⟩)
  | some np =>
    let files := { m.files with nextpid := m.memory.nextpid.toNat }
    let (_, files) ← (files.fork me np (r ≠ -1) places).mapError .files
    return (r, ⟨memory, files⟩)

/-- The frames on the free list. -/
def freeFrames (m : Machine) : Set Nat :=
  { f | ∃ free, Chain (fun g => (m.memory.kmem.runArr g).next) m.memory.kmem.freelist free ∧ f ∈ free }

/-- Files, directories and frames are as they were. -/
structure NoTrace (m m' : Machine) : Prop where
  ftable : m'.files.ftable = m.files.ftable
  inodes : ∀ ip, (m'.files.fs.icache ip).ref = (m.files.fs.icache ip).ref
  tree : m'.files.fs.disk = m.files.fs.disk
  free : m'.freeFrames = m.freeFrames
  refs : m'.memory.kmem.ref = m.memory.kmem.ref

variable {cfg : Config} {m m' : Machine} {me : ProcNo} {places : List UInt32}

theorem NoTrace.of_same (kmem : m'.memory.kmem = m.memory.kmem) (files : m'.files = m.files) :
    NoTrace m m' where
  ftable := by rw [files]
  inodes _ := by rw [files]
  tree := by rw [files]
  free := by unfold freeFrames; rw [kmem]
  refs := by rw [kmem]

/-- On a disk with room for swap files, the first process starts a second one, which exits, and then a
third. -/
def thirdProcess : Except Stop Sys := do
  let (_, s) ← (Sys.booted ⟨8, 5, 4, by decide, by decide⟩ Inodes.bootedEmpty.fs.disk
    fun _ => none).fork 0 1 true []
  let (_, s) ← s.exit 1
  let (_, s) ← s.wait 1
  let (_, s) ← s.fork 0 1 true []
  return s

theorem not_noTrace_of_opened (opened : Inodes.Opened m.files m'.files) : ¬ NoTrace m m' := by
  intro same
  obtain ⟨f, unused, used⟩ := opened
  rw [same.ftable, unused] at used
  cases used

theorem mapError_bind_ok {ε ε' α β : Type} {x : Except ε α} {g : ε → ε'} {f : α → Except ε' β} {b : β} :
    x.mapError g >>= f = .ok b ↔ ∃ a, x = .ok a ∧ f a = .ok b := by
  cases x with
  | error e => simp [Except.mapError, bind, Except.bind]
  | ok a => simp [Except.mapError, bind, Except.bind]

/-- A `fork` that returns -1 leaves no trace when it finds no slot or no frame for the kernel stack,
and for a child with a swap file only then. -/
theorem failed_fork_leaves_no_trace_iff (run : m.fork cfg me places = .ok (-1, m')) :
    ((∀ s, (m.memory.proc s).state ≠ .UNUSED) ∨ m.memory.kmem.freelist = none → NoTrace m m') ∧
      (2 < m.memory.nextpid →
        (NoTrace m m' ↔
          (∀ s, (m.memory.proc s).state ≠ .UNUSED) ∨ m.memory.kmem.freelist = none)) := by
  obtain ⟨⟨found, k₁⟩, allocated, run⟩ := mapError_bind_ok.mp run
  obtain ⟨⟨r, k'⟩, forked, run⟩ := mapError_bind_ok.mp run
  cases found with
  | none =>
    obtain ⟨kmem, early⟩ := Kernel.allocproc_none allocated
    rw [Kernel.fork_of_allocproc_none allocated] at forked
    cases forked
    cases run
    have noTrace : NoTrace m ⟨k₁, m.files⟩ := .of_same kmem rfl
    exact ⟨fun _ => noTrace, fun _ => ⟨fun _ => early, fun _ => noTrace⟩⟩
  | some np =>
    obtain ⟨unused, nonempty⟩ := Kernel.allocproc_some allocated
    have late : ¬ ((∀ s, (m.memory.proc s).state ≠ .UNUSED) ∨ m.memory.kmem.freelist = none) :=
      not_or.mpr ⟨fun full => full np unused, nonempty⟩
    refine ⟨fun early => absurd early late, fun pid => iff_of_false ?_ late⟩
    obtain ⟨files, copied, run⟩ := mapError_bind_ok.mp run
    cases run
    have opened := (Inodes.fork_failed_opened me np places (Int.lt_toNat.mpr pid)).of_ok copied
    exact not_noTrace_of_opened opened

/-- Without a free frame the call ends in `allocproc`. -/
theorem failed_fork_leaves_no_trace_no_frame :
    ∃ m m', m.memory.kmem.freelist = none ∧ m.fork (layoutConfig .SCFIFO) 1 [] = .ok (-1, m') ∧
      NoTrace m m' := by
  let m : Machine := ⟨.lone 0, Inodes.bootedEmpty⟩
  obtain ⟨⟨r, m'⟩, run, failed⟩ := exists_ok_of_any (x := m.fork (layoutConfig .SCFIFO) 1 [])
    (p := fun r => decide (r.1 = -1)) (by decide +kernel)
  have failed : r = -1 := of_decide_eq_true failed
  subst failed
  exact ⟨m, m', rfl, run, (failed_fork_leaves_no_trace_iff run).1 (.inr rfl)⟩

/-- The third process forks when one frame is left: it becomes the kernel stack of the child, and there
is none for the page directory. -/
theorem failed_fork_leaves_swap_file :
    ∃ m m', m.fork (layoutConfig .SCFIFO) 1 [] = .ok (-1, m') ∧ ¬ NoTrace m m' := by
  obtain ⟨files, -, later⟩ := exists_ok_of_any (x := thirdProcess)
    (p := fun s => ((Machine.mk (.lone 1) s).fork (layoutConfig .SCFIFO) 1 []).toOption.any
      fun (r : Int × Machine) => decide (r.1 = -1 ∧ ∃ f, (s.ftable f).ref = 0 ∧
        (r.2.files.ftable f).ref = 1))
    (by decide +kernel)
  obtain ⟨⟨r, m'⟩, run, found⟩ := exists_ok_of_any later
  obtain ⟨failed, opened⟩ := of_decide_eq_true found
  subst failed
  exact ⟨_, m', run, not_noTrace_of_opened opened⟩

end Machine

end Xv6
