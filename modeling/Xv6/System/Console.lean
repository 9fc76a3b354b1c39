import Xv6.Library.Lts
import Xv6.Library.RingBuffer
import Xv6.Memory.Kernel

/-!
The line discipline of the console: `consoleintr` and `consoleread`.

A step is what one of them does while it holds `cons.lock`: `consoleintr` takes in the characters that
are there, and a reader goes on until it returns or sleeps. A sleeping reader may go on at any time. The
bytes at `dst` are the reader's own; what is shown on the screen is left out.
-/

namespace Xv6.Console

open Function List

abbrev INPUT_BUF : Nat := 128

/-- Control-x. -/
def C (x : Char) : UInt8 := UInt8.ofNat (x.toNat - '@'.toNat)

structure Input where
  buf : Fin INPUT_BUF → UInt8
  r : BitVec 32
  w : BitVec 32
  e : BitVec 32

/-- How a critical section of a reader ends. -/
inductive Pause where
  | returns (r : Int)
  | sleeps
  deriving DecidableEq

namespace Input

def slot (k : BitVec 32) : Fin INPUT_BUF := Fin.ofNat INPUT_BUF k.toNat

/-- The loop of control-U. -/
def killLine (i : Input) : Input :=
  if i.e ≠ i.w ∧ i.buf (slot (i.e - 1)) ≠ 10 then killLine { i with e := i.e - 1 } else i
termination_by (i.e - i.w).toNat
decreasing_by
  rename_i more
  have := more.1
  bv_omega

/-- A character in the loop of `consoleintr`. -/
def intr (i : Input) (c : UInt8) : Input :=
  if c = C 'P' then i
  else if c = C 'U' then i.killLine
  else if c = C 'H' ∨ c = 0x7f then
    if i.e ≠ i.w then { i with e := i.e - 1 } else i
  else if c ≠ 0 ∧ (i.e - i.r).toNat < INPUT_BUF then
    let c := if c = 13 then 10 else c
    let i := { i with buf := Function.update i.buf (slot i.e) c, e := i.e + 1 }
    if c = 10 ∨ c = C 'D' ∨ i.e = i.r + BitVec.ofNat 32 INPUT_BUF then { i with w := i.e } else i
  else i

def consoleintr (i : Input) (cs : List UInt8) : Input := cs.foldl intr i

/-- The loop of `consoleread` with `n` bytes to go: what is read and what is still to go. -/
def readLoop (target : Nat) (killed : Bool) : Nat → Input → Input × List UInt8 × Nat × Pause
  | 0, i => (i, [], 0, .returns target)
  | n + 1, i =>
    if i.r = i.w then (i, [], n + 1, if killed then .returns (-1) else .sleeps)
    else
      let c := i.buf (slot i.r)
      let i := { i with r := i.r + 1 }
      if c = C 'D' then
        let i := if n + 1 < target then { i with r := i.r - 1 } else i
        (i, [], n + 1, .returns (target - (n + 1 : Nat)))
      else if c = 10 then (i, [c], n, .returns (target - n))
      else
        let (i, bytes, left, pause) := readLoop target killed n i
        (i, c :: bytes, left, pause)

/-- The characters from one index up to another. -/
def span (i : Input) (a b : BitVec 32) : List UInt8 := RingBuffer.contents ⟨i.buf, a, b⟩

/-- What is committed and not yet read. -/
def pending (i : Input) : List UInt8 := i.span i.r i.w

/-- The line that is being edited. -/
def line (i : Input) : List UInt8 := i.span i.w i.e

/-- The characters that `w` moves over. -/
def committed (i : Input) : List UInt8 → List UInt8
  | [] => []
  | c :: cs => (i.intr c).span i.w (i.intr c).w ++ (i.intr c).committed cs

end Input

/-- A call of `consoleread`. -/
structure Reader where
  target : Nat
  n : Nat
  dst : List UInt8
  deriving DecidableEq

structure State where
  input : Input
  call : ProcNo → Option Reader

inductive Op where
  | intr (cs : List UInt8)
  | start (p : ProcNo) (n : Nat)
  | read (p : ProcNo) (killed : Bool)
  deriving DecidableEq

inductive Event where
  | typed (bytes : List UInt8)
  | started
  | taken (p : ProcNo) (bytes : List UInt8) (pause : Pause)
  deriving DecidableEq

/-- The reader is not killed. -/
def Op.alive : Op → Bool
  | .read _ killed => !killed
  | _ => true

namespace State

def next (s : State) : Op → Option (Event × State)
  | .intr cs => some (.typed (s.input.committed cs), { s with input := s.input.consoleintr cs })
  | .start p n =>
    if s.call p = none ∧ 0 < n then
      some (.started, { s with call := Function.update s.call p (some ⟨n, n, []⟩) })
    else none
  | .read p killed =>
    match s.call p with
    | some rd =>
      let (input, bytes, left, pause) := Input.readLoop rd.target killed rd.n s.input
      let rd := if pause = Pause.sleeps then some ⟨rd.target, left, rd.dst ++ bytes⟩ else none
      some (.taken p bytes pause, { input := input, call := Function.update s.call p rd })
    | none => none

def Step (s : State) (a : Op × Event) (s' : State) : Prop := a.1.alive ∧ s.next a.1 = some (a.2, s')

def booted (buf : Fin INPUT_BUF → UInt8) : State where
  input := { buf := buf, r := 0, w := 0, e := 0 }
  call _ := none

end State

def committedIn (trace : List (Op × Event)) : List UInt8 :=
  trace.flatMap fun a => match a.2 with
    | .typed bytes => bytes
    | _ => []

def deliveredIn (trace : List (Op × Event)) : List UInt8 :=
  trace.flatMap fun a => match a.2 with
    | .taken _ bytes _ => bytes
    | _ => []

/-! Editing leaves what is committed. -/

structure Input.Ordered (i : Input) : Prop where
  le : (i.w - i.r).toNat ≤ (i.e - i.r).toNat
  bound : (i.e - i.r).toNat ≤ INPUT_BUF

theorem divides : INPUT_BUF ∣ 2 ^ 32 := by decide

theorem fits : INPUT_BUF < 2 ^ 32 := by decide

namespace Input

theorem length_span (i : Input) (a b : BitVec 32) : (i.span a b).length = (b - a).toNat :=
  RingBuffer.length_contents _

variable {a b c : BitVec 32} {i' : Input}

theorem span_split (i : Input) (between : (b - a).toNat ≤ (c - a).toNat) :
    i.span a c = i.span a b ++ i.span b c :=
  RingBuffer.contents_split divides i.buf between

theorem span_take (i : Input) (between : (b - a).toNat ≤ (c - a).toNat) :
    i.span a b = (i.span a c).take (b - a).toNat := by
  rw [i.span_split between, ← i.length_span a b, take_left]

/-- What happens to the input while characters come in. -/
structure Edited (i i' : Input) : Prop where
  r : i'.r = i.r
  ordered : i'.Ordered
  later : (i.w - i.r).toNat ≤ (i'.w - i.r).toNat
  kept : i'.span i.r i.w = i.pending

variable {i : Input}

theorem Edited.pending (edited : Edited i i') :
    i'.pending = i.pending ++ i'.span i.w i'.w := by
  rw [Input.pending, edited.r, i'.span_split edited.later, edited.kept]

/-- Characters at the end of the line have been removed. -/
structure Trimmed (i i' : Input) : Prop where
  buf : i'.buf = i.buf
  r : i'.r = i.r
  w : i'.w = i.w
  low : (i.w - i.r).toNat ≤ (i'.e - i.r).toNat
  high : (i'.e - i.r).toNat ≤ (i.e - i.r).toNat

theorem Trimmed.edited (trimmed : Trimmed i i') (ordered : i.Ordered) :
    Edited i i' where
  r := trimmed.r
  ordered := by
    refine ⟨?_, ?_⟩
    · rw [trimmed.r, trimmed.w]
      exact trimmed.low
    · rw [trimmed.r]
      exact Nat.le_trans trimmed.high ordered.bound
  later := by rw [trimmed.w]
  kept := by rw [Input.pending, span, span, trimmed.buf]

theorem Trimmed.line (trimmed : Trimmed i i') : i'.line <+: i.line := by
  have between : (i'.e - i.w).toNat ≤ (i.e - i.w).toNat := by
    rw [RingBuffer.distance_sub trimmed.low, RingBuffer.distance_sub (Nat.le_trans trimmed.low trimmed.high)]
    exact Nat.sub_le_sub_right trimmed.high _
  have same : i'.line = i.span i.w i'.e := by rw [Input.line, span, span, trimmed.buf, trimmed.w]
  rw [same, Input.line, i.span_split between]
  exact prefix_append ..

theorem trimmed_back (ordered : i.Ordered) (more : i.e ≠ i.w) :
    Trimmed i { i with e := i.e - 1 } := by
  have le := ordered.le
  have less : (i.w - i.r).toNat ≠ (i.e - i.r).toNat := by
    intro same
    refine more (sub_left_inj.mp (BitVec.toNat_inj.mp same)).symm
  refine ⟨rfl, rfl, rfl, ?_, ?_⟩
  all_goals
    dsimp only
    bv_omega

theorem Trimmed.trans {i'' : Input} (first : Trimmed i i') (second : Trimmed i' i'') :
    Trimmed i i'' where
  buf := second.buf.trans first.buf
  r := second.r.trans first.r
  w := second.w.trans first.w
  low := by
    have low := second.low
    rwa [first.r, first.w] at low
  high := by
    have high := second.high
    rw [first.r] at high
    exact Nat.le_trans high first.high

theorem trimmed_killLine (i : Input) (ordered : i.Ordered) : Trimmed i i.killLine := by
  induction i using killLine.induct with
  | case1 i more ih =>
    rw [killLine, if_pos more]
    have back := trimmed_back ordered more.1
    exact back.trans (ih (back.edited ordered).ordered)
  | case2 i done =>
    rw [killLine, if_neg done]
    exact ⟨rfl, rfl, rfl, ordered.le, Nat.le_refl _⟩

section

variable (ordered : i.Ordered)
include ordered

/-- A character at the end of the line, which may be committed with it. -/
theorem edited_push (room : (i.e - i.r).toNat < INPUT_BUF) (c : UInt8)
    {w : BitVec 32} (isW : w = i.w ∨ w = i.e + 1) :
    Edited i { i with buf := Function.update i.buf (slot i.e) c, w := w, e := i.e + 1 } := by
  have size : (i.e + 1 - i.r).toNat = (i.e - i.r).toNat + 1 :=
    RingBuffer.size_push (r := ⟨i.buf, i.r, i.e⟩) c fits room
  have pushed : RingBuffer.contents ⟨update i.buf (slot i.e) c, i.r, i.e + 1⟩ = i.span i.r i.e ++ [c] :=
    RingBuffer.contents_push (r := ⟨i.buf, i.r, i.e⟩) c divides fits room
  have le := ordered.le
  refine ⟨rfl, ⟨?_, ?_⟩, ?_, ?_⟩
  · obtain rfl | rfl := isW
    · dsimp only
      omega
    · exact Nat.le_refl _
  · dsimp only
    omega
  · obtain rfl | rfl := isW
    · exact Nat.le_refl _
    · dsimp only
      omega
  · rw [span_take _ (c := i.e + 1) (by omega), Input.pending, i.span_take le]
    change (RingBuffer.contents _).take _ = _
    rw [pushed, take_append_of_le_length (by rw [length_span]; exact le)]

theorem trimmed_intr {c : UInt8} (edits : c = C 'U' ∨ c = C 'H' ∨ c = 0x7f) :
    Trimmed i (i.intr c) := by
  unfold intr
  obtain rfl | back := edits
  · rw [if_neg (by decide), if_pos rfl]
    exact trimmed_killLine i ordered
  · have other : c ≠ C 'P' ∧ c ≠ C 'U' := by
      obtain rfl | rfl := back
      · decide
      · decide
    rw [if_neg other.1, if_neg other.2, if_pos back]
    split
    · rename_i more
      exact trimmed_back ordered more
    · exact ⟨rfl, rfl, rfl, ordered.le, Nat.le_refl _⟩

theorem Edited.rfl' : Edited i i := ⟨rfl, ordered, Nat.le_refl _, rfl⟩

theorem edited_intr (c : UInt8) : Edited i (i.intr c) := by
  unfold intr
  split
  · exact Edited.rfl' ordered
  split
  · exact (trimmed_killLine i ordered).edited ordered
  split
  · split
    · rename_i more
      exact (trimmed_back ordered more).edited ordered
    · exact Edited.rfl' ordered
  split
  · rename_i typed
    generalize (if c = 13 then 10 else c) = c
    dsimp only
    split
    · exact edited_push ordered typed.2 _ (.inr rfl)
    · exact edited_push ordered typed.2 _ (.inl rfl)
  · exact Edited.rfl' ordered

theorem consoleintr_pending (cs : List UInt8) :
    (i.consoleintr cs).Ordered ∧ (i.consoleintr cs).pending = i.pending ++ i.committed cs := by
  induction cs generalizing i with
  | nil => exact ⟨ordered, by rw [committed, append_nil]; rfl⟩
  | cons c cs ih =>
    have edited := edited_intr ordered c
    obtain ⟨ordered', pending⟩ := ih edited.ordered
    refine ⟨ordered', ?_⟩
    rw [committed, ← append_assoc, ← edited.pending]
    exact pending

end

/-! Reading takes from the front of what is committed. -/

theorem pending_nil (empty : i.r = i.w) : i.pending = [] := by
  rw [← length_eq_zero_iff, pending, length_span, empty, sub_self]
  rfl

theorem pending_cons (some' : i.r ≠ i.w) :
    i.pending = i.buf (slot i.r) :: { i with r := i.r + 1 }.pending :=
  RingBuffer.contents_pop (r := ⟨i.buf, i.r, i.w⟩) divides some'

theorem ordered_next (ordered : i.Ordered) (some' : i.r ≠ i.w) :
    { i with r := i.r + 1 }.Ordered := by
  have le := ordered.le
  have bound := ordered.bound
  have size : (i.w - (i.r + 1)).toNat + 1 = (i.w - i.r).toNat :=
    RingBuffer.size_pop (r := ⟨i.buf, i.r, i.w⟩) some'
  have size' : (i.e - (i.r + 1)).toNat + 1 = (i.e - i.r).toNat := by
    refine RingBuffer.size_pop (r := ⟨i.buf, i.r, i.e⟩) fun same => ?_
    have same : i.r = i.e := same
    rw [same, sub_self] at le
    rw [same] at size
    change _ ≤ 0 at le
    omega
  refine ⟨?_, ?_⟩
  all_goals
    dsimp only
    omega

end Input

/-- What a reader does to the committed characters in one critical section, with `left` bytes to go
after it. -/
inductive Taken (target : Nat) (before after bytes : List UInt8) (left : Nat) : Pause → Prop
  | full (rest : before = bytes ++ after) (ends : left = 0 ∨ bytes.getLast? = some 10) :
      Taken target before after bytes left (.returns (target - left))
  | eof (rest : List UInt8) (met : before = bytes ++ C 'D' :: rest)
      (kept : after = if left < target then C 'D' :: rest else rest) (more : 0 < left) (within : 10 ∉ bytes) :
      Taken target before after bytes left (.returns (target - left))
  | waits (all : before = bytes) (empty : after = []) (more : 0 < left) (within : 10 ∉ bytes) :
      Taken target before after bytes left .sleeps

variable {target left : Nat} {before after bytes : List UInt8} {pause : Pause}
  {trace : List (Op × Event)} {s s' : State}

theorem Taken.cons (taken : Taken target before after bytes left pause) {c : UInt8}
    (other : c ≠ 10) :
    Taken target (c :: before) after (c :: bytes) left pause := by
  have also : 10 ∉ bytes → 10 ∉ c :: bytes := fun within => by
    rw [mem_cons, not_or]
    exact ⟨Ne.symm other, within⟩
  cases taken with
  | full rest ends =>
    refine .full (congrArg (c :: ·) rest) (ends.imp_right fun last => ?_)
    rw [getLast?_cons, last]
    rfl
  | eof rest met kept more within => exact .eof rest (congrArg (c :: ·) met) kept more (also within)
  | waits all empty more within => exact .waits (congrArg (c :: ·) all) empty more (also within)

theorem Taken.filter (taken : Taken target before after bytes left pause) (plain : C 'D' ∉ bytes) :
    before.filter (· ≠ C 'D') = bytes ++ after.filter (· ≠ C 'D') := by
  have all : bytes.filter (· ≠ C 'D') = bytes := by
    refine filter_eq_self.mpr fun b inside => decide_eq_true ?_
    rintro rfl
    exact plain inside
  cases taken with
  | full rest ends => rw [rest, filter_append, all]
  | eof rest met kept more within =>
    rw [met, kept, filter_append, all]
    split
    · rfl
    · simp
  | waits same empty more within =>
    rw [same, empty, all]
    simp

theorem readLoop_taken (target : Nat) {n : Nat} (le : n ≤ target) {i : Input} (ordered : i.Ordered) :
    ∃ i' bytes left pause, i.readLoop target false n = (i', bytes, left, pause) ∧ i'.Ordered ∧
      bytes.length + left = n ∧ C 'D' ∉ bytes ∧ 10 ∉ bytes.dropLast ∧
      Taken target i.pending i'.pending bytes left pause := by
  induction n generalizing i with
  | zero => exact ⟨i, [], 0, _, rfl, ordered, rfl, nofun, nofun, .full rfl (.inl rfl)⟩
  | succ n ih =>
    rw [Input.readLoop]
    by_cases empty : i.r = i.w
    · rw [if_pos empty]
      refine ⟨i, [], n + 1, _, rfl, ordered, Nat.zero_add _, nofun, nofun, ?_⟩
      exact .waits (Input.pending_nil empty) (Input.pending_nil empty) (Nat.succ_pos n) nofun
    · rw [if_neg empty]
      have front := Input.pending_cons empty
      have next := Input.ordered_next ordered empty
      generalize i.buf (Input.slot i.r) = c at *
      by_cases isD : c = C 'D'
      · have back : ({ i with r := i.r + 1 - 1 } : Input) = i := by rw [add_sub_cancel_right]
        simp only [isD, if_true, back]
        refine ⟨_, [], n + 1, _, rfl, ?_, Nat.zero_add _, nofun, nofun, ?_⟩
        · split
          · exact ordered
          · exact next
        · refine .eof _ (isD ▸ front) ?_ (Nat.succ_pos n) nofun
          split
          · exact isD ▸ front
          · rfl
      · simp only [if_neg isD]
        by_cases newline : c = 10
        · subst newline
          refine ⟨_, [10], n, _, rfl, next, Nat.add_comm .., by simpa using Ne.symm isD, nofun, ?_⟩
          exact .full front (.inr rfl)
        · obtain ⟨i', bytes, left, pause, same, ordered', count, noD, within, taken⟩ :=
            ih (Nat.le_of_succ_le le) next
          rw [if_neg newline, same]
          refine ⟨i', c :: bytes, left, pause, rfl, ordered', by rw [length_cons]; omega, ?_, ?_, ?_⟩
          · simp only [mem_cons, not_or]
            exact ⟨Ne.symm isD, noD⟩
          · cases bytes with
            | nil => nofun
            | cons b bytes =>
              rw [dropLast_cons_cons, mem_cons, not_or]
              exact ⟨Ne.symm newline, within⟩
          · rw [front]
            exact taken.cons newline

/-! Runs. -/

/-- What a reachable state and the trace that leads to it have in common. -/
structure Agrees (trace : List (Op × Event)) (s : State) : Prop where
  ordered : s.input.Ordered
  balance : (committedIn trace).filter (· ≠ C 'D') =
    deliveredIn trace ++ s.input.pending.filter (· ≠ C 'D')
  readers : ∀ p rd, s.call p = some rd → rd.dst.length + rd.n = rd.target ∧ 0 < rd.n ∧ 10 ∉ rd.dst

/-- A section of the reader `rd` that takes `bytes`. -/
structure Section (rd : Reader) (s : State) (p : ProcNo) (bytes : List UInt8) (pause : Pause) (s' : State) :
    Prop where
  caller : s.call p = some rd
  plain : C 'D' ∉ bytes
  within : 10 ∉ (rd.dst ++ bytes).dropLast
  taken : ∃ left, bytes.length + left = rd.n ∧
    Taken rd.target s.input.pending s'.input.pending bytes left pause ∧
    s'.call = Function.update s.call p
      (if pause = .sleeps then some ⟨rd.target, left, rd.dst ++ bytes⟩ else none)

theorem Agrees.read (agrees : Agrees trace s) {p : ProcNo} {ev : Event}
    (step : s.next (.read p false) = some (ev, s')) :
    ∃ rd bytes pause, ev = .taken p bytes pause ∧ s'.input.Ordered ∧ Section rd s p bytes pause s' := by
  simp only [State.next] at step
  cases caller : s.call p with
  | none =>
    rw [caller] at step
    cases step
  | some rd =>
    obtain ⟨total, -, none'⟩ := agrees.readers p rd caller
    obtain ⟨i', bytes, left, pause, same, ordered, count, noD, within, taken⟩ :=
      readLoop_taken rd.target (n := rd.n) (by omega) agrees.ordered
    rw [caller] at step
    simp only [same] at step
    cases step
    refine ⟨rd, bytes, pause, rfl, ordered, caller, noD, ?_, left, count, taken, rfl⟩
    cases bytes with
    | nil =>
      rw [append_nil]
      exact fun inside => none' (dropLast_subset _ inside)
    | cons b bytes =>
      rw [dropLast_append_cons, mem_append, not_or]
      exact ⟨none', within⟩

theorem Agrees.step {a : Op × Event} (agrees : Agrees trace s) (step : s.Step a s') :
    Agrees (trace ++ [a]) s' := by
  obtain ⟨op, ev⟩ := a
  obtain ⟨alive, step⟩ := step
  cases op with
  | intr cs =>
    cases step
    obtain ⟨ordered, pending⟩ := Input.consoleintr_pending agrees.ordered cs
    refine ⟨ordered, ?_, agrees.readers⟩
    dsimp only
    rw [pending, filter_append, ← append_assoc]
    simp only [committedIn, deliveredIn, flatMap_append, flatMap_singleton, filter_append,
      append_nil]
    rw [← deliveredIn, ← agrees.balance, committedIn]
  | start p n =>
    obtain ⟨free, same⟩ := Option.ite_none_right_eq_some.mp step
    cases same
    refine ⟨agrees.ordered, ?_, fun q rd reading => ?_⟩
    · simpa [committedIn, deliveredIn] using agrees.balance
    · dsimp only at reading
      by_cases mine : q = p
      · subst mine
        rw [update_self] at reading
        cases reading
        exact ⟨Nat.zero_add n, free.2, nofun⟩
      · rw [update_of_ne mine] at reading
        exact agrees.readers q rd reading
  | read p killed =>
    obtain rfl : killed = false := by simpa [Op.alive] using alive
    obtain ⟨rd, bytes, pause, rfl, ordered, sect⟩ := agrees.read step
    obtain ⟨left, count, taken, call⟩ := sect.taken
    refine ⟨ordered, ?_, fun q rd' reading => ?_⟩
    · have balance := agrees.balance
      rw [taken.filter sect.plain, ← append_assoc] at balance
      simpa [committedIn, deliveredIn] using balance
    · rw [call] at reading
      by_cases mine : q = p
      · subst mine
        rw [update_self] at reading
        cases taken with
        | waits all empty more within =>
          obtain ⟨total, -, none'⟩ := agrees.readers q rd sect.caller
          cases reading
          refine ⟨by rw [length_append]; dsimp only; omega, more, ?_⟩
          rw [mem_append, not_or]
          exact ⟨none', within⟩
        | full | eof => cases reading
      · rw [update_of_ne mine] at reading
        exact agrees.readers q rd' reading

theorem agrees_booted (buf : Fin INPUT_BUF → UInt8) : Agrees [] (State.booted buf) := by
  have zero : ((0 : BitVec 32) - 0).toNat ≤ INPUT_BUF := by decide
  refine ⟨⟨Nat.le_refl _, zero⟩, ?_, nofun⟩
  rw [Input.pending_nil rfl]
  rfl

theorem Agrees.of_run {buf : Fin INPUT_BUF → UInt8}
    (run : Lts.Run State.Step (State.booted buf) trace s) : Agrees trace s := by
  induction run with
  | nil => exact agrees_booted buf
  | snoc _ last ih => exact ih.step last

/-- The line discipline at a state that a run leads to. A read has ended with all the bytes it asked for,
with a newline or at a control-D, and it returns the number of bytes it has stored. -/
structure Disciplined (trace : List (Op × Event)) (s : State) : Prop where
  indices : (s.input.w - s.input.r).toNat ≤ (s.input.e - s.input.r).toNat ∧
    (s.input.e - s.input.r).toNat ≤ INPUT_BUF
  editing : ∀ c, c = C 'U' ∨ c = C 'H' ∨ c = 0x7f → (s.input.intr c).r = s.input.r ∧
    (s.input.intr c).w = s.input.w ∧ (s.input.intr c).pending = s.input.pending ∧
    (s.input.intr c).line <+: s.input.line
  delivered : (committedIn trace).filter (· ≠ C 'D') =
    deliveredIn trace ++ s.input.pending.filter (· ≠ C 'D')
  reads : ∀ p ev s', s.Step (.read p false, ev) s' → ∃ rd bytes pause, ev = .taken p bytes pause ∧
    Section rd s p bytes pause s' ∧ ∀ v, pause = .returns v → v = (rd.dst ++ bytes).length
  kept : ∀ rest, s.input.pending = C 'D' :: rest → ∀ a s', s.Step a s' →
    (∃ rest', s'.input.pending = C 'D' :: rest') ∨
      ∃ p rd, a = (.read p false, .taken p [] (.returns 0)) ∧ s.call p = some rd ∧ rd.dst = []

/-- A letter and a carriage return are typed, and a read gets a line. -/
def oneLine (p : ProcNo) : List (Op × Event) :=
  [(.intr [97, 13], .typed [97, 10]), (.start p 5, .started), (.read p false, .taken p [97, 10] (.returns 2))]

end Xv6.Console
