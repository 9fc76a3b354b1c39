import Xv6.Library.Lts
import Xv6.Library.RingBuffer
import Xv6.Memory.Kernel

/-!
`pipewrite` and `piperead` of `pipe.c`.

A step is what a call does between taking the lock of the pipe, at its start or on waking up
in its loop, and releasing it, at its end or in `sleep`. A sleeping call may go on at any time.
A process in a call keeps its end of the pipe open. Whether a process is killed is read anew in
every step.
-/

namespace Xv6

abbrev PIPESIZE : Nat := 512

structure Pipe extends RingBuffer UInt8 32 PIPESIZE where
  readopen : Bool
  writeopen : Bool

namespace Pipe

/-- How a critical section ends. -/
inductive Pause where
  | returns (r : Int)
  | sleeps
  deriving DecidableEq

/-- The loop of `pipewrite` over the bytes that are left. -/
def writeLoop (n : Int) (killed : Bool) : Pipe → List UInt8 → Pipe × List UInt8 × Pause
  | p, [] => (p, [], .returns n)
  | p, b :: left =>
    if p.nwrite = p.nread + BitVec.ofNat 32 PIPESIZE then
      (p, b :: left, if !p.readopen || killed then .returns (-1) else .sleeps)
    else writeLoop n killed { p with toRingBuffer := p.push b } left

/-- The copying loop of `piperead`. -/
def readLoop : Nat → Pipe → Pipe × List UInt8
  | 0, p => (p, [])
  | n + 1, p =>
    if p.nread = p.nwrite then (p, [])
    else
      let r := readLoop n { p with toRingBuffer := p.pop }
      (r.1, p.front :: r.2)

def read (n : Int) (killed : Bool) (p : Pipe) : Pipe × List UInt8 × Pause :=
  if p.nread = p.nwrite ∧ p.writeopen then
    (p, [], if killed then .returns (-1) else .sleeps)
  else
    let r := readLoop n.toNat p
    (r.1, r.2, .returns r.2.length)

/-- The call a process is in. `addr` are the bytes a writer was given, `left` those it still
has to store. -/
inductive Call where
  | none
  | writing (n : Int) (addr left : List UInt8)
  | reading (n : Int)
  deriving DecidableEq

def Call.writes : Call → Bool
  | .writing .. => true
  | _ => false

def Call.reads : Call → Bool
  | .reading _ => true
  | _ => false

structure State where
  pipe : Pipe
  call : ProcNo → Call

inductive Op where
  | startWrite (p : ProcNo) (n : Int) (addr : List UInt8)
  | write (p : ProcNo) (killed : Bool)
  | startRead (p : ProcNo) (n : Int)
  | read (p : ProcNo) (killed : Bool)
  | close (writable : Bool)
  deriving DecidableEq

inductive Event where
  | quiet
  | stored (p : ProcNo) (bytes : List UInt8) (pause : Pause)
  | taken (p : ProcNo) (bytes : List UInt8) (pause : Pause)
  deriving DecidableEq

namespace State

def setCall (s : State) (p : ProcNo) (c : Call) : State :=
  { s with call := Function.update s.call p c }

def next (s : State) : Op → Option (Event × State)
  | .startWrite p n addr =>
    if s.call p = .none ∧ s.pipe.writeopen ∧ addr.length = n.toNat then
      some (.quiet, s.setCall p (.writing n addr addr))
    else none
  | .write p killed =>
    match s.call p with
    | .writing n addr left =>
      let (pipe, left', pause) := writeLoop n killed s.pipe left
      some (.stored p (left.take (left.length - left'.length)) pause,
        { s with pipe := pipe }.setCall p
          (if pause = Pause.sleeps then .writing n addr left' else .none))
    | _ => none
  | .startRead p n =>
    if s.call p = .none ∧ s.pipe.readopen then some (.quiet, s.setCall p (.reading n)) else none
  | .read p killed =>
    match s.call p with
    | .reading n =>
      let (pipe, bytes, pause) := s.pipe.read n killed
      some (.taken p bytes pause,
        { s with pipe := pipe }.setCall p
          (if pause = Pause.sleeps then .reading n else .none))
    | _ => none
  | .close true =>
    if s.pipe.writeopen ∧ ∀ p, !(s.call p).writes then
      some (.quiet, { s with pipe := { s.pipe with writeopen := false } })
    else none
  | .close false =>
    if s.pipe.readopen ∧ ∀ p, !(s.call p).reads then
      some (.quiet, { s with pipe := { s.pipe with readopen := false } })
    else none

def Step (s : State) (a : Op × Event) (s' : State) : Prop := s.next a.1 = some (a.2, s')

/-- After `pipealloc`; the page of the pipe holds anything. -/
def opened (data : Fin PIPESIZE → UInt8) : State where
  pipe := { data := data, nread := 0, nwrite := 0, readopen := true, writeopen := true }
  call _ := .none

end State

/-! What a trace tells: the bytes stored and taken, and those a writer has stored since its call
began. -/

def Event.storedBytes : Event → List UInt8
  | .stored _ bytes _ => bytes
  | _ => []

def Event.takenBytes : Event → List UInt8
  | .taken _ bytes _ => bytes
  | _ => []

def storedIn (trace : List (Op × Event)) : List UInt8 := trace.flatMap fun a => a.2.storedBytes

def takenIn (trace : List (Op × Event)) : List UInt8 := trace.flatMap fun a => a.2.takenBytes

def sinceStart (p : ProcNo) (trace : List (Op × Event)) : List UInt8 :=
  trace.foldl (fun bytes a =>
    match a with
    | (.startWrite q _ _, _) => if q = p then [] else bytes
    | (_, .stored q new _) => if q = p then bytes ++ new else bytes
    | _ => bytes) []

/-! The loops append to and take from the contents. -/

theorem divides : PIPESIZE ∣ 2 ^ 32 := by decide

theorem fits : PIPESIZE < 2 ^ 32 := by decide

theorem writeLoop_appends (n : Int) (killed : Bool) (left : List UInt8) (p : Pipe)
    (bound : p.size ≤ PIPESIZE) :
    ∃ stored, left = stored ++ (writeLoop n killed p left).2.1 ∧
      (writeLoop n killed p left).1.contents = p.contents ++ stored ∧
      (writeLoop n killed p left).1.size ≤ PIPESIZE ∧
      ((writeLoop n killed p left).2.2 = .returns n ∧ (writeLoop n killed p left).2.1 = [] ∨
        (writeLoop n killed p left).2.2 = .returns (-1) ∨
        (writeLoop n killed p left).2.2 = .sleeps) := by
  induction left generalizing p with
  | nil => exact ⟨[], rfl, by simp [writeLoop], bound, .inl ⟨rfl, rfl⟩⟩
  | cons b left ih =>
    rw [writeLoop]
    split
    case isTrue full =>
      refine ⟨[], rfl, by simp, bound, .inr ?_⟩
      dsimp only
      split
      · exact .inl rfl
      · exact .inr rfl
    case isFalse notFull =>
      have room : p.size < PIPESIZE := by
        refine lt_of_le_of_ne bound fun full => notFull ?_
        exact (p.full_iff fits).mpr full
      have appended := RingBuffer.contents_push b divides fits room
      obtain ⟨stored, split, contents, rest⟩ := ih { p with toRingBuffer := p.push b } (by
        have := RingBuffer.size_push b fits room
        dsimp only
        omega)
      refine ⟨b :: stored, ?_, ?_, rest⟩
      · rw [List.cons_append, ← split]
      · rw [contents, appended, List.append_assoc, List.singleton_append]

theorem readLoop_takes (n : Nat) (p : Pipe) :
    p.contents = (readLoop n p).2 ++ (readLoop n p).1.contents ∧
      (readLoop n p).1.size ≤ p.size ∧ (readLoop n p).2.length ≤ n ∧
      ((readLoop n p).2 = [] → n = 0 ∨ p.nread = p.nwrite) := by
  induction n generalizing p with
  | zero => exact ⟨rfl, le_rfl, le_rfl, fun _ => .inl rfl⟩
  | succ n ih =>
    rw [readLoop]
    split
    case isTrue empty => exact ⟨rfl, le_rfl, Nat.zero_le _, fun _ => .inr empty⟩
    case isFalse some =>
      obtain ⟨contents, size, length, -⟩ := ih { p with toRingBuffer := p.pop }
      have popped := RingBuffer.contents_pop divides some
      have smaller := RingBuffer.size_pop some
      refine ⟨?_, ?_, ?_, nofun⟩
      · rw [popped, contents]
        rfl
      · dsimp only at size ⊢
        omega
      · simpa using length

theorem read_takes (n : Int) (killed : Bool) (p : Pipe) :
    p.contents = (p.read n killed).2.1 ++ (p.read n killed).1.contents ∧
      (p.read n killed).1.size ≤ p.size ∧
      ∀ r, (p.read n killed).2.2 = .returns r →
        (r = -1 ∧ (p.read n killed).2.1 = [] ∨
          r = (p.read n killed).2.1.length ∧ (p.read n killed).2.1.length ≤ n.toNat) ∧
        (r = 0 → p.contents = [] ∧ p.writeopen = false ∨ n ≤ 0) := by
  rw [read]
  split
  case isTrue waits =>
    refine ⟨rfl, le_rfl, fun r => ?_⟩
    dsimp only
    split
    · intro same
      cases same
      exact ⟨.inl ⟨rfl, rfl⟩, nofun⟩
    · nofun
  case isFalse reads =>
    obtain ⟨contents, size, length, stops⟩ := readLoop_takes n.toNat p
    refine ⟨contents, size, fun r same => ?_⟩
    cases same
    refine ⟨.inr ⟨rfl, length⟩, fun none => ?_⟩
    have nothing : (readLoop n.toNat p).2 = [] :=
      List.length_eq_zero_iff.mp (Int.natCast_eq_zero.mp none)
    rcases stops nothing with zero | empty
    · exact .inr (Int.toNat_eq_zero.mp zero)
    · refine .inl ⟨?_, ?_⟩
      · rw [← List.length_eq_zero_iff, RingBuffer.length_contents]
        exact RingBuffer.size_eq_zero.mpr empty
      · simpa [empty] using reads

@[simp] theorem State.pipe_setCall (s : State) (p : ProcNo) (c : Call) :
    (s.setCall p c).pipe = s.pipe := rfl

@[simp] theorem State.call_setCall_self (s : State) (p : ProcNo) (c : Call) :
    (s.setCall p c).call p = c := Function.update_self ..

variable {p : ProcNo} {s s' : State} {killed : Bool} {ev : Event} {trace : List (Op × Event)}

theorem State.call_setCall_of_ne (s : State) {q : ProcNo} (other : q ≠ p) (c : Call) :
    (s.setCall p c).call q = s.call q := Function.update_of_ne other ..

/-- What a reachable state and the trace that leads to it have in common. -/
structure Agrees (trace : List (Op × Event)) (s : State) : Prop where
  bound : s.pipe.size ≤ PIPESIZE
  fifo : storedIn trace = takenIn trace ++ s.pipe.contents
  order : ∀ p n addr left, s.call p = .writing n addr left → sinceStart p trace ++ left = addr

theorem storedIn_snoc (trace : List (Op × Event)) (a : Op × Event) :
    storedIn (trace ++ [a]) = storedIn trace ++ a.2.storedBytes := by
  simp [storedIn]

theorem takenIn_snoc (trace : List (Op × Event)) (a : Op × Event) :
    takenIn (trace ++ [a]) = takenIn trace ++ a.2.takenBytes := by
  simp [takenIn]

theorem step_write (bound : s.pipe.size ≤ PIPESIZE) (step : s.Step (.write p killed, ev) s') :
    ∃ n addr stored left pause pipe, s.call p = .writing n addr (stored ++ left) ∧
      ev = .stored p stored pause ∧
      s' = { s with pipe := pipe }.setCall p
        (if pause = Pause.sleeps then .writing n addr left else .none) ∧
      pipe.contents = s.pipe.contents ++ stored ∧ pipe.size ≤ PIPESIZE ∧
      (pause = .returns n ∧ left = [] ∨ pause = .returns (-1) ∨ pause = .sleeps) := by
  simp only [State.Step, State.next] at step
  split at step
  case h_1 n addr left writing =>
    obtain ⟨stored, split, contents, size, ends⟩ := writeLoop_appends n killed left s.pipe bound
    cases step
    refine ⟨n, addr, stored, _, _, _, writing.trans (by rw [← split]), ?_, rfl, contents, size, ends⟩
    have length := congrArg List.length split
    rw [List.length_append] at length
    congr 1
    rw [length, Nat.add_sub_cancel]
    exact (List.prefix_iff_eq_take.mp ⟨_, split.symm⟩).symm
  case h_2 => cases step

theorem step_read (step : s.Step (.read p killed, ev) s') :
    ∃ n, s.call p = .reading n ∧
      ev = .taken p (s.pipe.read n killed).2.1 (s.pipe.read n killed).2.2 ∧
      s' = { s with pipe := (s.pipe.read n killed).1 }.setCall p
        (if (s.pipe.read n killed).2.2 = Pause.sleeps then .reading n else .none) := by
  simp only [State.Step, State.next] at step
  split at step
  case h_1 n reading =>
    cases step
    exact ⟨n, reading, rfl, rfl⟩
  case h_2 => cases step

theorem Agrees.step {a : Op × Event} (agrees : Agrees trace s) (step : s.Step a s') :
    Agrees (trace ++ [a]) s' := by
  obtain ⟨op, ev⟩ := a
  cases op with
  | startWrite p n addr =>
    obtain ⟨-, same⟩ := Option.ite_none_right_eq_some.mp step
    cases same
    refine ⟨agrees.bound, ?_, fun q m addr' left writing => ?_⟩
    · rw [storedIn_snoc, takenIn_snoc]
      simpa [Event.storedBytes, Event.takenBytes] using agrees.fifo
    · by_cases mine : q = p
      · subst mine
        simp only [State.call_setCall_self, Call.writing.injEq] at writing
        obtain ⟨-, rfl, rfl⟩ := writing
        simp [sinceStart]
      · rw [State.call_setCall_of_ne _ mine] at writing
        have before := agrees.order q m addr' left writing
        simpa [sinceStart, Ne.symm mine] using before
  | startRead p n =>
    obtain ⟨-, same⟩ := Option.ite_none_right_eq_some.mp step
    cases same
    refine ⟨agrees.bound, ?_, fun q m addr' left writing => ?_⟩
    · rw [storedIn_snoc, takenIn_snoc]
      simpa [Event.storedBytes, Event.takenBytes] using agrees.fifo
    · by_cases mine : q = p
      · simp [mine] at writing
      · rw [State.call_setCall_of_ne _ mine] at writing
        simpa [sinceStart] using agrees.order q m addr' left writing
  | write p killed =>
    obtain ⟨n, addr, stored, left, pause, pipe, writing, rfl, rfl, contents, size, -⟩ :=
      step_write agrees.bound step
    refine ⟨size, ?_, fun q m addr' left' writing' => ?_⟩
    · rw [storedIn_snoc, takenIn_snoc, agrees.fifo]
      simp [Event.storedBytes, Event.takenBytes, contents]
    · by_cases mine : q = p
      · subst mine
        rw [State.call_setCall_self] at writing'
        have before := agrees.order q n addr (stored ++ left) writing
        split at writing'
        · cases writing'
          simpa [sinceStart] using before
        · cases writing'
      · rw [State.call_setCall_of_ne _ mine] at writing'
        simpa [sinceStart, Ne.symm mine] using agrees.order q m addr' left' writing'
  | read p killed =>
    obtain ⟨n, reading, rfl, rfl⟩ := step_read step
    obtain ⟨contents, size, -⟩ := read_takes n killed s.pipe
    refine ⟨size.trans agrees.bound, ?_, fun q m addr' left' writing' => ?_⟩
    · rw [storedIn_snoc, takenIn_snoc, agrees.fifo]
      simp [Event.storedBytes, Event.takenBytes, ← contents]
    · by_cases mine : q = p
      · subst mine
        rw [State.call_setCall_self] at writing'
        split at writing' <;> cases writing'
      · rw [State.call_setCall_of_ne _ mine] at writing'
        simpa [sinceStart] using agrees.order q m addr' left' writing'
  | close writable =>
    have closed : ev = .quiet ∧ s'.pipe.toRingBuffer = s.pipe.toRingBuffer ∧
        s'.call = s.call := by
      cases writable <;>
      · obtain ⟨-, same⟩ := Option.ite_none_right_eq_some.mp step
        cases same
        exact ⟨rfl, rfl, rfl⟩
    obtain ⟨rfl, ring, call⟩ := closed
    refine ⟨?_, ?_, fun q m addr' left' writing' => ?_⟩
    · rw [ring]
      exact agrees.bound
    · rw [storedIn_snoc, takenIn_snoc, ring]
      simpa [Event.storedBytes, Event.takenBytes] using agrees.fifo
    · rw [call] at writing'
      simpa [sinceStart] using agrees.order q m addr' left' writing'

theorem agrees_opened (data : Fin PIPESIZE → UInt8) : Agrees [] (State.opened data) := by
  have empty : (State.opened data).pipe.size = 0 := RingBuffer.size_eq_zero.mpr rfl
  refine ⟨by omega, ?_, fun p n addr left writing => ?_⟩
  · simp [storedIn, takenIn, RingBuffer.contents, empty]
  · cases writing

theorem Agrees.of_run {data : Fin PIPESIZE → UInt8}
    (run : Lts.Run State.Step (State.opened data) trace s) : Agrees trace s := by
  induction run with
  | nil => exact agrees_opened data
  | snoc _ last ih => exact ih.step last

/-- A pipe is a bounded queue: what was stored is what was taken followed by the contents, each
writer stores its bytes in order, and a reader gets nothing only from an empty pipe without
writers. -/
theorem pipe_is_fifo {data : Fin PIPESIZE → UInt8} {trace : List (Op × Event)} {s : State}
    (run : Lts.Run State.Step (State.opened data) trace s) :
    (s.pipe.nwrite - s.pipe.nread).toNat ≤ PIPESIZE ∧
    storedIn trace = takenIn trace ++ s.pipe.contents ∧
    (∀ p n addr left, s.call p = .writing n addr left → sinceStart p trace ++ left = addr) ∧
    ∀ op ev s', s.Step (op, ev) s' →
      (∀ p bytes r, ev = .stored p bytes (.returns r) →
        ∃ n addr left, s.call p = .writing n addr left ∧
          (r = n ∧ sinceStart p trace ++ bytes = addr ∨
            r = -1 ∧ sinceStart p trace ++ bytes <+: addr)) ∧
      ∀ p bytes r, ev = .taken p bytes (.returns r) →
        ∃ n, s.call p = .reading n ∧
          (r = -1 ∧ bytes = [] ∨ r = bytes.length ∧ bytes.length ≤ n.toNat) ∧
          (r = 0 → s.pipe.contents = [] ∧ s.pipe.writeopen = false ∨ n ≤ 0) := by
  have agrees := Agrees.of_run run
  refine ⟨agrees.bound, agrees.fifo, agrees.order, fun op ev s' step => ?_⟩
  cases op with
  | write p killed =>
    obtain ⟨n, addr, stored, left, pause, pipe, writing, rfl, -, -, -, ends⟩ :=
      step_write agrees.bound step
    refine ⟨fun q bytes r same => ?_, nofun⟩
    cases same
    have order := agrees.order p n addr (stored ++ left) writing
    refine ⟨n, addr, stored ++ left, writing, ?_⟩
    rcases ends with ⟨done, rfl⟩ | failed | sleeps
    · cases done
      exact .inl ⟨rfl, by simpa using order⟩
    · cases failed
      exact .inr ⟨rfl, left, by simpa using order⟩
    · cases sleeps
  | read p killed =>
    obtain ⟨n, reading, rfl, -⟩ := step_read step
    refine ⟨nofun, fun q bytes r same => ?_⟩
    simp only [Event.taken.injEq] at same
    obtain ⟨rfl, rfl, returns⟩ := same
    exact ⟨n, reading, (read_takes n killed s.pipe).2.2 r returns⟩
  | startWrite p n addr | startRead p n =>
    obtain ⟨-, same⟩ := Option.ite_none_right_eq_some.mp step
    cases same
    exact ⟨nofun, nofun⟩
  | close writable =>
    cases writable <;>
    · obtain ⟨-, same⟩ := Option.ite_none_right_eq_some.mp step
      cases same
      exact ⟨nofun, nofun⟩

def sampleTrace : List (Op × Event) :=
  [(.startWrite 0 2 [7, 8], .quiet), (.startRead 1 5, .quiet), (.read 1 false, .taken 1 [] .sleeps),
    (.write 0 false, .stored 0 [7, 8] (.returns 2)),
    (.read 1 false, .taken 1 [7, 8] (.returns 2))]

theorem pipe_is_fifo_sample :
    ∃ s, Lts.Run State.Step (State.opened fun _ => 0) sampleTrace s ∧
      storedIn sampleTrace = takenIn sampleTrace ++ s.pipe.contents := by
  obtain ⟨s, run⟩ : ∃ s, Lts.Run State.Step (State.opened fun _ => 0) sampleTrace s :=
    ⟨_, .cons rfl <| .cons rfl <| .cons rfl <| .cons rfl <| .cons rfl <| .nil _⟩
  exact ⟨s, run, (pipe_is_fifo run).2.1⟩

end Pipe

end Xv6
