import Xv6.Library.Lts
import Xv6.Memory.Kernel

/-!
`sleep`, `wakeup` and `kill` of `proc.c` at the level of single lock operations.

Every channel `c` has a condition that is protected by the lock `lk c`, which can be
`ptable.lock`. A process tests a condition holding the lock and then calls `sleep(c, lk)`;
or it changes the condition holding the lock and calls `wakeup(c)`, with the lock or after
releasing it. The changes of a condition are counted. `seen p` is the count at the last test
of `p`, and `announced c` is the last change after which a `wakeup(c)` has completed. Neither
influences a step.
-/

namespace Xv6.Wakeup

open Function Option

abbrev Chan := Nat

inductive Lock where
  | ptable
  | spin (n : Nat)
  deriving DecidableEq

/-- Where a process is. The channel is the one whose condition it deals with. -/
inductive Pc where
  | idle
  | holding (c : Chan)
  /-- The condition does not hold, `sleep` comes next. -/
  | tested (c : Chan)
  /-- In `sleep` with `ptable.lock` and the other lock. -/
  | twoLocks (c : Chan)
  /-- In `sleep` with `ptable.lock` only. -/
  | tableOnly (c : Chan)
  | chanSet (c : Chan)
  | sleeping (c : Chan)
  /-- In `sched`. -/
  | switchedOut (c : Chan)
  | resumed (c : Chan)
  | tidied (c : Chan)
  | relock (c : Chan)
  /-- Has made the change number `v`. -/
  | changed (c : Chan) (v : Nat)
  /-- As before, without the lock. -/
  | calling (c : Chan) (v : Nat)
  /-- In `wakeup1` at slot `i`; whether the lock of the condition is held. -/
  | scanning (c : Chan) (v i : Nat) (held : Bool)
  | killing (q : ProcNo)
  deriving DecidableEq

structure State where
  pc : ProcNo → Pc
  state : ProcNo → ProcState
  chan : ProcNo → Option Chan
  killed : ProcNo → Bool
  holder : Lock → Option ProcNo
  version : Chan → Nat
  seen : ProcNo → Nat
  announced : Chan → Nat

inductive Op where
  | lock (c : Chan)
  | unlock
  /-- Go on with a condition under the same lock. -/
  | turn (d : Chan)
  | test
  | change
  | wakeup (c : Chan)
  | kill (q : ProcNo)
  /-- The next step of the call the process is in. -/
  | advance
  deriving DecidableEq

namespace State

def goto (s : State) (p : ProcNo) (pc : Pc) : State := { s with pc := Function.update s.pc p pc }

def take (s : State) (p : ProcNo) (l : Lock) : State :=
  { s with holder := Function.update s.holder l (some p) }

def drop (s : State) (l : Lock) : State := { s with holder := Function.update s.holder l none }

def setState (s : State) (p : ProcNo) (st : ProcState) : State :=
  { s with state := Function.update s.state p st }

def setChan (s : State) (p : ProcNo) (c : Option Chan) : State :=
  { s with chan := Function.update s.chan p c }

/-- The body of the loop of `wakeup1`. -/
def wake (s : State) (c : Chan) (q : ProcNo) : State :=
  if s.state q = .SLEEPING ∧ s.chan q = some c then s.setState q .RUNNABLE else s

/-- `acquire`, which waits while the lock is held. -/
def acquire (s : State) (p : ProcNo) (l : Lock) : Option State :=
  if s.holder l = none then some (s.take p l) else none

variable (lk : Chan → Lock)

/-- The next step inside of `sleep`, `wakeup` or `kill`. -/
def advance (s : State) (p : ProcNo) : Option State :=
  match s.pc p with
  | .tested c =>
    if lk c = .ptable then some (s.goto p (.tableOnly c))
    else (s.acquire p .ptable).map fun s => s.goto p (.twoLocks c)
  | .twoLocks c => some ((s.drop (lk c)).goto p (.tableOnly c))
  | .tableOnly c => some ((s.setChan p (some c)).goto p (.chanSet c))
  | .chanSet c => some ((s.setState p .SLEEPING).goto p (.sleeping c))
  -- the scheduler goes on with the lock of the table and gives it up
  | .sleeping c => some ((s.drop .ptable).goto p (.switchedOut c))
  -- the scheduler picks the process and hands it the lock
  | .switchedOut c =>
    if s.state p = .RUNNABLE then
      (s.acquire p .ptable).map fun s => (s.setState p .RUNNING).goto p (.resumed c)
    else none
  | .resumed c =>
    some ((s.setChan p none).goto p (if lk c = .ptable then .holding c else .tidied c))
  | .tidied c => some ((s.drop .ptable).goto p (.relock c))
  | .relock c => (s.acquire p (lk c)).map fun s => s.goto p (.holding c)
  | .changed c v =>
    if lk c = .ptable then some (s.goto p (.scanning c v 0 true))
    else (s.acquire p .ptable).map fun s => s.goto p (.scanning c v 0 true)
  | .calling c v => (s.acquire p .ptable).map fun s => s.goto p (.scanning c v 0 false)
  | .scanning c v i held =>
    if inside : i < NPROC then some ((s.wake c ⟨i, inside⟩).goto p (.scanning c v (i + 1) held))
    else
      let s := { s with announced := Function.update s.announced c (max (s.announced c) v) }
      let s := if held ∧ lk c = .ptable then s else s.drop .ptable
      some (s.goto p (if held then .holding c else .idle))
  | .killing q =>
    let s := { s with killed := Function.update s.killed q true }
    let s := if s.state q = .SLEEPING then s.setState q .RUNNABLE else s
    some ((s.drop .ptable).goto p .idle)
  | _ => none

def next (s : State) (p : ProcNo) : Op → Option State
  | .advance => s.advance lk p
  | .lock c =>
    if s.pc p = .idle then (s.acquire p (lk c)).map fun s => s.goto p (.holding c) else none
  | .unlock =>
    match s.pc p with
    | .holding c => some ((s.drop (lk c)).goto p .idle)
    | .changed c v => some ((s.drop (lk c)).goto p (.calling c v))
    | _ => none
  | .turn d =>
    match s.pc p with
    | .holding c | .changed c _ => if lk d = lk c then some (s.goto p (.holding d)) else none
    | _ => none
  | .test =>
    match s.pc p with
    | .holding c =>
      some ({ s with seen := Function.update s.seen p (s.version c) }.goto p (.tested c))
    | _ => none
  | .change =>
    match s.pc p with
    | .holding c | .changed c _ =>
      some ({ s with version := Function.update s.version c (s.version c + 1) }.goto p
        (.changed c (s.version c + 1)))
    | _ => none
  | .wakeup c => if s.pc p = .idle then some (s.goto p (.calling c 0)) else none
  | .kill q =>
    if s.pc p = .idle then (s.acquire p .ptable).map fun s => s.goto p (.killing q) else none

def Step (s : State) (a : ProcNo × Op) (s' : State) : Prop := s.next lk a.1 a.2 = some s'

def init : State where
  pc _ := .idle
  state _ := .RUNNING
  chan _ := none
  killed _ := false
  holder _ := none
  version _ := 0
  seen _ := 0
  announced _ := 0

end State

section

variable (lk : Chan → Lock)

/-- The locks a process holds. -/
def Pc.Holds (l : Lock) : Pc → Prop
  | .holding c | .tested c | .changed c _ => l = lk c
  | .twoLocks c => l = lk c ∨ l = .ptable
  | .tableOnly _ | .chanSet _ | .sleeping _ | .resumed _ | .tidied _ | .killing _ => l = .ptable
  | .scanning c _ _ held => l = .ptable ∨ held ∧ l = lk c
  | .idle | .switchedOut _ | .relock _ | .calling _ _ => False

/-- What a process can rely on. -/
def Pc.Fact (s : State) (p : ProcNo) : Pc → Prop
  | .tested c => s.state p ≠ .SLEEPING ∧ s.seen p = s.version c
  | .twoLocks c => s.state p ≠ .SLEEPING ∧ s.seen p = s.version c ∧ lk c ≠ .ptable
  | .tableOnly c => s.state p ≠ .SLEEPING ∧ s.announced c ≤ s.seen p
  | .chanSet c => s.state p ≠ .SLEEPING ∧ s.chan p = some c ∧ s.announced c ≤ s.seen p
  | .sleeping c => s.chan p = some c ∧ s.announced c ≤ s.seen p
  | .switchedOut c => s.chan p = some c ∧ (s.state p = .SLEEPING → s.announced c ≤ s.seen p)
  | .changed c v | .calling c v => s.state p ≠ .SLEEPING ∧ v ≤ s.version c
  | .scanning c v i _ =>
    s.state p ≠ .SLEEPING ∧ v ≤ s.version c ∧
      ∀ q : ProcNo, q.val < i → s.state q = .SLEEPING → s.chan q ≠ some c
  | _ => s.state p ≠ .SLEEPING

structure Inv (s : State) : Prop where
  bound : ∀ c, s.announced c ≤ s.version c
  locks : ∀ p l, s.holder l = some p ↔ (s.pc p).Holds lk l
  facts : ∀ p, (s.pc p).Fact lk s p

/-- What a step of `p` does to the others: it takes and gives up locks, wakes processes while it
holds `ptable.lock`, changes a condition while it holds its lock and announces a change when
nobody sleeps on the channel. -/
structure Guarantee (p : ProcNo) (s s' : State) : Prop where
  pc : ∀ q, q ≠ p → s'.pc q = s.pc q
  seen : ∀ q, q ≠ p → s'.seen q = s.seen q
  chan : ∀ q, q ≠ p → s'.chan q = s.chan q
  state : ∀ q, q ≠ p → s'.state q = s.state q ∨
    s.state q = .SLEEPING ∧ s'.state q = .RUNNABLE
  locks : ∀ q l, q ≠ p → (s'.holder l = some q ↔ s.holder l = some q)
  version : ∀ c, s'.version c = s.version c ∨
    s.holder (lk c) = some p ∧ s'.version c = s.version c + 1
  announced : ∀ c, s'.announced c = s.announced c ∨
    s.holder .ptable = some p ∧ s'.announced c ≤ s.version c ∧
      ∀ q, s.state q = .SLEEPING → s.chan q ≠ some c
  asleep : s'.state p = .SLEEPING →
    s.holder .ptable = some p ∨ s'.chan p = s.chan p ∧ s.state p = .SLEEPING

end

namespace Guarantee

variable {lk : Chan → Lock} {p q : ProcNo} {s s' : State}

section

variable (guarantee : Guarantee lk p s s')
include guarantee

theorem awake (other : q ≠ p) (before : s.state q ≠ .SLEEPING) :
    s'.state q ≠ .SLEEPING := by
  rcases guarantee.state q other with same | ⟨-, woken⟩
  · rwa [same]
  · simp [woken]

theorem asleep_before (other : q ≠ p)
    (after : s'.state q = .SLEEPING) : s.state q = .SLEEPING := by
  by_contra before
  exact guarantee.awake other before after

theorem version_mono (c : Chan) :
    s.version c ≤ s'.version c := by
  rcases guarantee.version c with same | ⟨-, more⟩ <;> omega

/-- Nobody else changes a condition whose lock one holds. -/
theorem version_held (other : q ≠ p) {c : Chan}
    (mine : s.holder (lk c) = some q) : s'.version c = s.version c := by
  rcases guarantee.version c with same | ⟨his, -⟩
  · exact same
  · exact absurd (Option.some.inj (mine.symm.trans his)) other

theorem announced_held (other : q ≠ p) (c : Chan)
    (mine : s.holder .ptable = some q) : s'.announced c = s.announced c := by
  rcases guarantee.announced c with same | ⟨his, -⟩
  · exact same
  · exact absurd (Option.some.inj (mine.symm.trans his)) other

theorem fact (inv : Inv lk s) (other : q ≠ p) :
    (s'.pc q).Fact lk s' q := by
  have before := inv.facts q
  have holds := inv.locks q
  rw [guarantee.pc q other]
  cases pc : s.pc q with
  | tested c =>
    rw [pc] at before holds
    refine ⟨guarantee.awake other before.1, ?_⟩
    rw [guarantee.seen q other, guarantee.version_held other ((holds _).mpr rfl)]
    exact before.2
  | twoLocks c =>
    rw [pc] at before holds
    refine ⟨guarantee.awake other before.1, ?_, before.2.2⟩
    rw [guarantee.seen q other, guarantee.version_held other ((holds _).mpr (.inl rfl))]
    exact before.2.1
  | tableOnly c =>
    rw [pc] at before holds
    refine ⟨guarantee.awake other before.1, ?_⟩
    rw [guarantee.seen q other, guarantee.announced_held other c ((holds _).mpr rfl)]
    exact before.2
  | chanSet c =>
    rw [pc] at before holds
    refine ⟨guarantee.awake other before.1, (guarantee.chan q other).trans before.2.1, ?_⟩
    rw [guarantee.seen q other, guarantee.announced_held other c ((holds _).mpr rfl)]
    exact before.2.2
  | sleeping c =>
    rw [pc] at before holds
    refine ⟨(guarantee.chan q other).trans before.1, ?_⟩
    rw [guarantee.seen q other, guarantee.announced_held other c ((holds _).mpr rfl)]
    exact before.2
  | switchedOut c =>
    rw [pc] at before
    refine ⟨(guarantee.chan q other).trans before.1, fun after => ?_⟩
    have asleep := guarantee.asleep_before other after
    rw [guarantee.seen q other]
    -- a wakeup that completes has left nobody asleep on the channel
    rcases guarantee.announced c with same | ⟨-, -, nobody⟩
    · exact same ▸ before.2 asleep
    · exact absurd before.1 (nobody q asleep)
  | changed c v | calling c v =>
    rw [pc] at before
    exact ⟨guarantee.awake other before.1, before.2.trans (guarantee.version_mono c)⟩
  | scanning c v i held =>
    rw [pc] at before holds
    refine ⟨guarantee.awake other before.1, before.2.1.trans (guarantee.version_mono c), ?_⟩
    intro r passed after
    by_cases same : r = p
    · subst same
      rcases guarantee.asleep after with his | ⟨chan, asleep⟩
      · exact absurd (Option.some.inj (((holds _).mpr (.inl rfl)).symm.trans his)) other
      · exact chan ▸ before.2.2 r passed asleep
    · rw [guarantee.chan r same]
      exact before.2.2 r passed (guarantee.asleep_before same after)
  | _ =>
    rw [pc] at before
    exact guarantee.awake other before

end

end Guarantee

theorem Inv.step {lk : Chan → Lock} {p : ProcNo} {s s' : State} (inv : Inv lk s)
    (guarantee : Guarantee lk p s s') (locks : ∀ l, s'.holder l = some p ↔ (s'.pc p).Holds lk l)
    (fact : (s'.pc p).Fact lk s' p) : Inv lk s' := by
  refine ⟨fun c => ?_, fun q l => ?_, fun q => ?_⟩
  · have bound := inv.bound c
    have grows := guarantee.version_mono c
    rcases guarantee.announced c with same | ⟨-, known, -⟩ <;> omega
  · by_cases same : q = p
    · exact same ▸ locks l
    · rw [guarantee.locks q l same, guarantee.pc q same]
      exact inv.locks q l
  · by_cases same : q = p
    · exact same ▸ fact
    · exact guarantee.fact inv same

namespace State

variable {lk : Chan → Lock} {p : ProcNo} {s : State} {l : Lock} {s' : State}

@[simp] theorem pc_goto (s : State) (p : ProcNo) (pc : Pc) : (s.goto p pc).pc p = pc := by
  simp [goto]

theorem guarantee_goto (s : State) (p : ProcNo) (pc : Pc) : Guarantee lk p s (s.goto p pc) :=
  ⟨fun _ other => update_of_ne other .., fun _ _ => rfl, fun _ _ => rfl, fun _ _ => .inl rfl,
    fun _ _ _ => .rfl, fun _ => .inl rfl, fun _ => .inl rfl, fun asleep => .inr ⟨rfl, asleep⟩⟩

theorem guarantee_take (free : s.holder l = none) (pc : Pc) :
    Guarantee lk p s ((s.take p l).goto p pc) := by
  refine { guarantee_goto s p pc with locks := fun q l' other => ?_ }
  by_cases same : l' = l
  · subst same
    simp [take, goto, free, other.symm]
  · simp [take, goto, same]

theorem guarantee_drop (mine : s.holder l = some p) (pc : Pc) :
    Guarantee lk p s ((s.drop l).goto p pc) := by
  refine { guarantee_goto s p pc with locks := fun q l' other => ?_ }
  by_cases same : l' = l
  · subst same
    simp [drop, goto, mine, other.symm]
  · simp [drop, goto, same]

theorem acquire_map {s : State} {f : State → State} :
    (s.acquire p l).map f = some s' ↔ s.holder l = none ∧ f (s.take p l) = s' := by
  by_cases free : s.holder l = none <;> simp [acquire, free]

theorem fact_congr {s : State} {q : ProcNo} (state : s'.state = s.state) (chan : s'.chan = s.chan)
    (seen : s'.seen = s.seen) (version : s'.version = s.version)
    (announced : s'.announced = s.announced) (pc : Pc) : pc.Fact lk s' q ↔ pc.Fact lk s q := by
  cases pc <;> simp only [Pc.Fact, state, chan, seen, version, announced]

end State

namespace Inv

variable {lk : Chan → Lock} {p : ProcNo} {s : State} {pc : Pc}

section

variable (inv : Inv lk s)

include inv

theorem goto (holds : ∀ l, pc.Holds lk l ↔ (s.pc p).Holds lk l) (fact : pc.Fact lk s p) :
    Inv lk (s.goto p pc) := by
  refine inv.step (s.guarantee_goto p pc) (fun l => ?_) ?_
  · rw [State.pc_goto, holds]
    exact inv.locks p l
  · rw [State.pc_goto]
    exact (State.fact_congr rfl rfl rfl rfl rfl pc).mpr fact

theorem take {l : Lock} (free : s.holder l = none)
    (holds : ∀ l', pc.Holds lk l' ↔ l' = l ∨ (s.pc p).Holds lk l') (fact : pc.Fact lk s p) :
    Inv lk ((s.take p l).goto p pc) := by
  refine inv.step (State.guarantee_take free pc) (fun l' => ?_) ?_
  · rw [State.pc_goto, holds, ← inv.locks p l']
    by_cases same : l' = l <;> simp [State.goto, State.take, same]
  · rw [State.pc_goto]
    exact (State.fact_congr rfl rfl rfl rfl rfl pc).mpr fact

theorem drop {l : Lock} (mine : (s.pc p).Holds lk l)
    (holds : ∀ l', pc.Holds lk l' ↔ l' ≠ l ∧ (s.pc p).Holds lk l') (fact : pc.Fact lk s p) :
    Inv lk ((s.drop l).goto p pc) := by
  refine inv.step (State.guarantee_drop ((inv.locks p l).mpr mine) pc) (fun l' => ?_) ?_
  · rw [State.pc_goto, holds, ← inv.locks p l']
    by_cases same : l' = l <;> simp [State.goto, State.drop, same]
  · rw [State.pc_goto]
    exact (State.fact_congr rfl rfl rfl rfl rfl pc).mpr fact

theorem setChan (chan : Option Chan) (awake : s.state p ≠ .SLEEPING)
    (holds : ∀ l, pc.Holds lk l ↔ (s.pc p).Holds lk l) (fact : pc.Fact lk (s.setChan p chan) p) :
    Inv lk ((s.setChan p chan).goto p pc) := by
  have guarantee : Guarantee lk p s ((s.setChan p chan).goto p pc) :=
    { s.guarantee_goto p pc with
      chan := fun q other => update_of_ne other ..
      asleep := fun asleep => absurd asleep awake }
  refine inv.step guarantee (fun l => ?_) ?_
  · rw [State.pc_goto, holds]
    exact inv.locks p l
  · rw [State.pc_goto]
    exact (State.fact_congr rfl rfl rfl rfl rfl pc).mpr fact

variable {c : Chan} {q : ProcNo} {held : Bool} {s' : State}

theorem fallAsleep (at' : s.pc p = .chanSet c) :
    Inv lk ((s.setState p .SLEEPING).goto p (.sleeping c)) := by
  have mine : s.holder .ptable = some p := (inv.locks p _).mpr (by simp [at', Pc.Holds])
  have guarantee : Guarantee lk p s ((s.setState p .SLEEPING).goto p (.sleeping c)) :=
    { s.guarantee_goto p (.sleeping c) with
      state := fun q other => .inl (update_of_ne other ..)
      asleep := fun _ => .inl mine }
  have fact := inv.facts p
  rw [at'] at fact
  refine inv.step guarantee (fun l => ?_) ?_
  · rw [State.pc_goto]
    exact (inv.locks p l).trans (by simp [at', Pc.Holds])
  · rw [State.pc_goto]
    exact ⟨fact.2.1, fact.2.2⟩

theorem resume (at' : s.pc p = .switchedOut c) (free : s.holder .ptable = none) :
    Inv lk (((s.take p .ptable).setState p .RUNNING).goto p (.resumed c)) := by
  have running : (((s.take p .ptable).setState p .RUNNING).goto p (.resumed c)).state p =
      .RUNNING := update_self ..
  have guarantee : Guarantee lk p s (((s.take p .ptable).setState p .RUNNING).goto p (.resumed c)) :=
    { State.guarantee_take free (.resumed c) with
      state := fun q other => .inl (update_of_ne other ..)
      asleep := fun asleep => by rw [running] at asleep; cases asleep }
  refine inv.step guarantee (fun l => ?_) ?_
  · have before := inv.locks p l
    rw [at'] at before
    rw [State.pc_goto]
    by_cases same : l = .ptable
    · simp [State.goto, State.setState, State.take, Pc.Holds, same]
    · simpa [State.goto, State.setState, State.take, Pc.Holds, same] using before
  · rw [State.pc_goto]
    exact fun asleep => by rw [running] at asleep; cases asleep

theorem rouse (q : ProcNo) : Inv lk (s.setState q .RUNNABLE) := by
  have less : ∀ r, (s.setState q .RUNNABLE).state r = .SLEEPING → s.state r = .SLEEPING := by
    intro r asleep
    by_cases same : r = q <;> simp_all [State.setState]
  refine ⟨inv.bound, inv.locks, fun r => ?_⟩
  have fact := inv.facts r
  change (s.pc r).Fact lk _ r
  cases at' : s.pc r with
  | sleeping c =>
    rw [at'] at fact
    exact fact
  | switchedOut c =>
    rw [at'] at fact
    exact ⟨fact.1, fun asleep => fact.2 (less r asleep)⟩
  | scanning c v i held =>
    rw [at'] at fact
    exact ⟨fun asleep => fact.1 (less r asleep), fact.2.1,
      fun r' passed asleep => fact.2.2 r' passed (less r' asleep)⟩
  | tested c | twoLocks c | tableOnly c | chanSet c | changed c v | calling c v =>
    rw [at'] at fact
    exact ⟨fun asleep => fact.1 (less r asleep), fact.2⟩
  | _ =>
    rw [at'] at fact
    exact fun asleep => fact (less r asleep)

theorem wake {v : Nat} (at' : s.pc p = .scanning c v q held) :
    Inv lk ((s.wake c q).goto p (.scanning c v (q + 1) held)) := by
  have fact := inv.facts p
  rw [at'] at fact
  unfold State.wake
  split
  case isTrue sleeper =>
    have roused := inv.rouse q
    have same := roused.facts p
    refine roused.goto (fun l => ?_) ?_
    · simp [State.setState, at', Pc.Holds]
    · change (s.pc p).Fact lk _ p at same
      rw [at'] at same
      refine ⟨same.1, same.2.1, fun r passed asleep => ?_⟩
      by_cases isQ : r = q
      · simp [State.setState, isQ] at asleep
      · exact same.2.2 r (by have := Fin.val_ne_of_ne isQ; omega) asleep
  case isFalse other =>
    refine inv.goto (fun l => by simp [at', Pc.Holds]) ⟨fact.1, fact.2.1, fun r passed asleep => ?_⟩
    by_cases isQ : r = q
    · subst isQ
      exact fun chan => other ⟨asleep, chan⟩
    · exact fact.2.2 r (by have := Fin.val_ne_of_ne isQ; omega) asleep

/-- At the end of the scan nobody sleeps on the channel. -/
theorem announce {v i : Nat} (at' : s.pc p = .scanning c v i held) (all : NPROC ≤ i) :
    Inv lk { s with announced := update s.announced c (max (s.announced c) v) } := by
  have fact := inv.facts p
  rw [at'] at fact
  have guarantee : Guarantee lk p s
      { s with announced := update s.announced c (max (s.announced c) v) } := by
    refine ⟨fun _ _ => rfl, fun _ _ => rfl, fun _ _ => rfl, fun _ _ => .inl rfl, fun _ _ _ => .rfl,
      fun _ => .inl rfl, fun d => ?_, fun asleep => .inr ⟨rfl, asleep⟩⟩
    by_cases same : d = c
    · subst same
      refine .inr ⟨(inv.locks p _).mpr (by simp [at', Pc.Holds]), ?_, fun q => ?_⟩
      · simpa using ⟨inv.bound d, fact.2.1⟩
      · exact fact.2.2 q (by omega)
    · exact .inl (update_of_ne same ..)
  refine inv.step guarantee (inv.locks p) ?_
  change (s.pc p).Fact lk _ p
  rw [at']
  exact fact

theorem kill (at' : s.pc p = .killing q) :
    Inv lk (((if s.state q = ProcState.SLEEPING then
        { s with killed := update s.killed q true }.setState q .RUNNABLE
      else { s with killed := update s.killed q true }).drop .ptable).goto p .idle) := by
  have marked : Inv lk { s with killed := update s.killed q true } :=
    ⟨inv.bound, inv.locks, fun r => (State.fact_congr rfl rfl rfl rfl rfl _).mpr (inv.facts r)⟩
  split
  · have roused := marked.rouse q
    have same := roused.facts p
    change (s.pc p).Fact lk _ p at same
    rw [at'] at same
    refine roused.drop (l := .ptable) ?_ (fun l => ?_) same
    · simp [State.setState, at', Pc.Holds]
    · simp [State.setState, at', Pc.Holds]
  · have same := inv.facts p
    rw [at'] at same
    exact marked.drop (by simp [at', Pc.Holds]) (fun l => by simp [at', Pc.Holds]) same

theorem advance (step : s.advance lk p = some s') : Inv lk s' := by
  have fact := inv.facts p
  have locks := inv.locks p
  unfold State.advance at step
  cases at' : s.pc p with
  | idle | holding c => simp [at'] at step
  | tested c =>
    simp only [at'] at step fact locks
    split at step
    case isTrue table =>
      cases step
      refine inv.goto (fun l => ?_) ⟨fact.1, fact.2 ▸ inv.bound c⟩
      simp [at', Pc.Holds, table]
    case isFalse other =>
      obtain ⟨free, rfl⟩ := State.acquire_map.mp step
      refine inv.take free (fun l => ?_) ⟨fact.1, fact.2, other⟩
      simp [at', Pc.Holds, or_comm]
  | twoLocks c =>
    simp only [at'] at step fact locks
    cases step
    refine inv.drop (by simp [at', Pc.Holds]) (fun l => ?_) ⟨fact.1, fact.2.1 ▸ inv.bound c⟩
    have := fact.2.2
    simp [at', Pc.Holds]
    grind
  | tableOnly c =>
    simp only [at'] at step fact locks
    cases step
    refine inv.setChan (some c) fact.1 (fun l => ?_) ⟨fact.1, by simp [State.setChan], fact.2⟩
    simp [at', Pc.Holds]
  | chanSet c =>
    simp only [at'] at step
    cases step
    exact inv.fallAsleep at'
  | sleeping c =>
    simp only [at'] at step fact locks
    cases step
    refine inv.drop (by simp [at', Pc.Holds]) (fun l => ?_) ⟨fact.1, fun _ => fact.2⟩
    simp [at', Pc.Holds]
  | switchedOut c =>
    simp only [at'] at step fact locks
    split at step
    case isTrue woken =>
      obtain ⟨free, rfl⟩ := State.acquire_map.mp step
      exact inv.resume at' free
    case isFalse => cases step
  | resumed c =>
    simp only [at'] at step fact locks
    cases step
    refine inv.setChan none fact (fun l => ?_) ?_
    · split <;> simp_all [Pc.Holds]
    · split <;> exact fact
  | tidied c =>
    simp only [at'] at step fact locks
    cases step
    refine inv.drop (by simp [at', Pc.Holds]) (fun l => ?_) fact
    simp [at', Pc.Holds]
  | relock c =>
    simp only [at'] at step fact locks
    obtain ⟨free, rfl⟩ := State.acquire_map.mp step
    refine inv.take free (fun l => ?_) fact
    simp [at', Pc.Holds]
  | changed c v =>
    simp only [at'] at step fact locks
    split at step
    case isTrue table =>
      cases step
      refine inv.goto (fun l => ?_) ⟨fact.1, fact.2, fun _ none => by simp at none⟩
      simp [at', Pc.Holds, table]
    case isFalse other =>
      obtain ⟨free, rfl⟩ := State.acquire_map.mp step
      refine inv.take free (fun l => ?_) ⟨fact.1, fact.2, fun _ none => by simp at none⟩
      simp [at', Pc.Holds]
  | calling c v =>
    simp only [at'] at step fact locks
    obtain ⟨free, rfl⟩ := State.acquire_map.mp step
    refine inv.take free (fun l => ?_) ⟨fact.1, fact.2, fun _ none => by simp at none⟩
    simp [at', Pc.Holds]
  | scanning c v i held =>
    simp only [at'] at step fact locks
    split at step
    case isTrue inside =>
      cases step
      exact inv.wake (q := ⟨i, inside⟩) at'
    case isFalse outside =>
      have announced := inv.announce at' (Nat.le_of_not_lt outside)
      cases step
      split
      case isTrue table =>
        refine announced.goto (fun l => ?_) ?_
        · simp [at', table, Pc.Holds]
        · simpa [table, Pc.Fact] using fact.1
      case isFalse other =>
        refine announced.drop (by simp [at', Pc.Holds]) (fun l => ?_) ?_
        · cases held
          · simp [at', Pc.Holds]
          · simp [at', Pc.Holds]
            grind
        · cases held <;> exact fact.1
  | killing q =>
    simp only [at'] at step
    cases step
    exact inv.kill at'

theorem test (at' : s.pc p = .holding c) :
    Inv lk ({ s with seen := update s.seen p (s.version c) }.goto p (.tested c)) := by
  have fact := inv.facts p
  rw [at'] at fact
  have guarantee : Guarantee lk p s
      ({ s with seen := update s.seen p (s.version c) }.goto p (.tested c)) :=
    { s.guarantee_goto p (.tested c) with
      seen := fun q other => update_of_ne other .. }
  refine inv.step guarantee (fun l => ?_) ?_
  · rw [State.pc_goto]
    exact (inv.locks p l).trans (by simp [at', Pc.Holds])
  · rw [State.pc_goto]
    exact ⟨fact, update_self ..⟩

theorem change (awake : s.state p ≠ .SLEEPING) (holds : ∀ l, (s.pc p).Holds lk l ↔ l = lk c) :
    Inv lk ({ s with version := update s.version c (s.version c + 1) }.goto p
      (.changed c (s.version c + 1))) := by
  have guarantee : Guarantee lk p s
      ({ s with version := update s.version c (s.version c + 1) }.goto p
        (.changed c (s.version c + 1))) := by
    refine { (s.guarantee_goto p _ : Guarantee lk p s _) with version := fun d => ?_ }
    by_cases same : d = c
    · subst same
      exact .inr ⟨(inv.locks p _).mpr ((holds _).mpr rfl), update_self ..⟩
    · exact .inl (update_of_ne same ..)
  refine inv.step guarantee (fun l => ?_) ?_
  · rw [State.pc_goto]
    exact (inv.locks p l).trans (holds l)
  · rw [State.pc_goto]
    exact ⟨awake, by simp [State.goto]⟩

theorem next {op : Op} (step : s.next lk p op = some s') :
    Inv lk s' := by
  have fact := inv.facts p
  cases op with
  | advance => exact inv.advance step
  | lock c =>
    obtain ⟨at', locking⟩ := ite_none_right_eq_some.mp step
    obtain ⟨free, rfl⟩ := State.acquire_map.mp locking
    rw [at'] at fact
    exact inv.take free (fun l => by simp [at', Pc.Holds]) fact
  | unlock =>
    simp only [State.next] at step
    split at step
    case h_1 c at' =>
      cases step
      rw [at'] at fact
      exact inv.drop (by simp [at', Pc.Holds]) (fun l => by simp [at', Pc.Holds]) fact
    case h_2 c v at' =>
      cases step
      rw [at'] at fact
      exact inv.drop (by simp [at', Pc.Holds]) (fun l => by simp [at', Pc.Holds]) fact
    case h_3 => cases step
  | turn d =>
    simp only [State.next] at step
    split at step
    case h_1 c at' =>
      obtain ⟨same, moved⟩ := ite_none_right_eq_some.mp step
      cases moved
      rw [at'] at fact
      exact inv.goto (fun l => by simp [at', Pc.Holds, same]) fact
    case h_2 c v at' =>
      obtain ⟨same, moved⟩ := ite_none_right_eq_some.mp step
      cases moved
      rw [at'] at fact
      exact inv.goto (fun l => by simp [at', Pc.Holds, same]) fact.1
    case h_3 => cases step
  | test =>
    simp only [State.next] at step
    split at step
    case h_1 c at' =>
      cases step
      exact inv.test at'
    case h_2 => cases step
  | change =>
    simp only [State.next] at step
    split at step
    case h_1 c at' =>
      cases step
      rw [at'] at fact
      exact inv.change fact fun l => by simp [at', Pc.Holds]
    case h_2 c v at' =>
      cases step
      rw [at'] at fact
      exact inv.change fact.1 fun l => by simp [at', Pc.Holds]
    case h_3 => cases step
  | wakeup c =>
    obtain ⟨at', moved⟩ := ite_none_right_eq_some.mp step
    cases moved
    rw [at'] at fact
    exact inv.goto (fun l => by simp [at', Pc.Holds]) ⟨fact, Nat.zero_le _⟩
  | kill q =>
    obtain ⟨at', locking⟩ := ite_none_right_eq_some.mp step
    obtain ⟨free, rfl⟩ := State.acquire_map.mp locking
    rw [at'] at fact
    exact inv.take free (fun l => by simp [at', Pc.Holds]) fact

end

end Inv

theorem inv_init (lk : Chan → Lock) : Inv lk State.init :=
  ⟨fun _ => Nat.le_refl 0, fun p l => by simp [State.init, Pc.Holds],
    fun p => by simp [State.init, Pc.Fact]⟩

/-- A sleeping process has seen every change that a completed `wakeup` stands for. -/
theorem no_lost_wakeup (lk : Chan → Lock) {s : State} {trace : List (ProcNo × Op)}
    (run : Lts.Run (State.Step lk) State.init trace s) (p : ProcNo) (c : Chan)
    (asleep : s.state p = .SLEEPING) (chan : s.chan p = some c) : s.announced c ≤ s.seen p := by
  have inv : Inv lk s := run.invariant (fun _ _ _ inv step => inv.next step) (inv_init lk)
  have fact := inv.facts p
  cases at' : s.pc p with
  | sleeping d =>
    rw [at'] at fact
    cases fact.1.symm.trans chan
    exact fact.2
  | switchedOut d =>
    rw [at'] at fact
    cases fact.1.symm.trans chan
    exact fact.2 asleep
  | tested d | twoLocks d | tableOnly d | chanSet d | changed d v | calling d v
  | scanning d v i held =>
    rw [at'] at fact
    exact absurd asleep fact.1
  | _ =>
    rw [at'] at fact
    exact absurd asleep fact

/-- Another process changes the condition and calls `wakeup` before the sleeper has set its
state. -/
def sampleTrace : List (ProcNo × Op) :=
  [(0, .lock 5), (0, .test), (0, .advance), (0, .advance), (1, .lock 5), (1, .change), (1, .unlock),
    (0, .advance), (0, .advance), (0, .advance), (1, .advance)]

theorem no_lost_wakeup_sample :
    ∃ s, Lts.Run (State.Step fun _ => .spin 0) State.init sampleTrace s ∧
      s.state 0 = .SLEEPING ∧ s.version 5 = 1 ∧ s.announced 5 ≤ s.seen 0 := by
  obtain ⟨s, run, asleep, chan, version⟩ :
      ∃ s, Lts.Run (State.Step fun _ => .spin 0) State.init sampleTrace s ∧
        s.state 0 = .SLEEPING ∧ s.chan 0 = some 5 ∧ s.version 5 = 1 :=
    ⟨_, .cons rfl <| .cons rfl <| .cons rfl <| .cons rfl <| .cons rfl <| .cons rfl <|
      .cons rfl <| .cons rfl <| .cons rfl <| .cons rfl <| .cons rfl <| .nil _, rfl, rfl, rfl⟩
  exact ⟨s, run, asleep, version, no_lost_wakeup _ run 0 5 asleep chan⟩

end Xv6.Wakeup
