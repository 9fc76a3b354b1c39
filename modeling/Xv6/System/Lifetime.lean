import Xv6.Library.Lts
import Xv6.Memory.Kernel

/-!
The life of a process in `ptable`: `fork`, `exit`, `wait`, `wait2` and `kill` of `proc.c`.

A step is a critical section of `ptable.lock`, or a write to the table outside of one. In
`fork` these are the choice of a slot in `allocproc`, the return of the slot if memory runs
out, the assignment of the parent and the last critical section. A system call starts only
if the caller is not marked as killed (`trap.c`); `wait` looks at the mark again on every
pass. `wait2` differs from `wait` only in the counters it copies out. The mark `named`
records whether a mark as killed is meant for the present owner of the slot and influences
nothing.
-/

namespace Xv6.Lifetime

open Function List Option

/-- An `int`. -/
abbrev Pid := BitVec 32

inductive Chan where
  /-- The address of the structure of a process, on which only that process sleeps. -/
  | proc (q : ProcNo)
  | other
  deriving DecidableEq

/-- Where a process is between two steps. -/
inductive Pc where
  | user
  /-- In a system call, past the test of `trap`. -/
  | call
  /-- In `fork`, with the slot from `allocproc`. -/
  | forking (np : ProcNo)
  /-- In `fork`, the child knows its parent. -/
  | linked (np : ProcNo)
  /-- Asleep in `wait`, or woken up there. -/
  | waiting
  deriving DecidableEq

structure Task where
  state : ProcState
  pid : Pid
  parent : Option ProcNo
  killed : Bool
  chan : Option Chan
  pc : Pc
  named : Bool
  deriving DecidableEq

structure Table where
  task : ProcNo → Task
  nextpid : Pid
  initproc : ProcNo

inductive Op where
  | schedule (p : ProcNo)
  | yield (p : ProcNo)
  /-- `sleep` outside of `wait`, and the `wakeup` for it. -/
  | sleep (p : ProcNo)
  | wakeup (p : ProcNo)
  /-- A trap marks the process it comes from. -/
  | fault (p : ProcNo)
  /-- `trap` finds that the caller is not killed. -/
  | enter (p : ProcNo)
  /-- The end of a system call other than these. -/
  | leave (p : ProcNo)
  | allocproc (p : ProcNo)
  | forkFail (p : ProcNo)
  | forkLink (p : ProcNo)
  | forkDone (p : ProcNo)
  | exit (p : ProcNo)
  /-- A pass of the loop of `wait` or `wait2`. -/
  | wait (p : ProcNo)
  | kill (p : ProcNo) (pid : Pid)
  deriving DecidableEq

inductive Event where
  | quiet
  /-- There is no free slot. -/
  | noSlot
  | forkFailed
  | forked (np : ProcNo)
  | exited (p : ProcNo) (pid : Pid)
  | reaped (p child : ProcNo) (pid : Pid)
  /-- `wait` returns -1. -/
  | waitFailed (p : ProcNo)
  /-- `kill` returns 0 or -1. -/
  | killReturns (found : Bool)
  deriving DecidableEq

namespace Table

def set (s : Table) (p : ProcNo) (t : Task) : Table :=
  { s with task := Function.update s.task p t }

def Running (s : Table) (p : ProcNo) : Prop := (s.task p).state = .RUNNING

instance (s : Table) (p : ProcNo) : Decidable (s.Running p) := inferInstanceAs (Decidable (_ = _))

def Calls (s : Table) (p : ProcNo) : Prop := s.Running p ∧ (s.task p).pc = .call

instance (s : Table) (p : ProcNo) : Decidable (s.Calls p) := inferInstanceAs (Decidable (_ ∧ _))

def wakeup1 (s : Table) (chan : Option Chan) : Table :=
  { s with task := fun q =>
      if (s.task q).state = .SLEEPING ∧ (s.task q).chan = chan then
        { s.task q with state := .RUNNABLE }
      else s.task q }

/-- The first critical section of `allocproc`. -/
def allocproc (s : Table) (p : ProcNo) : Event × Table :=
  match (List.finRange NPROC).find? fun q => (s.task q).state = .UNUSED with
  | none => (.noSlot, s)
  | some np =>
    let s := { s.set np { s.task np with
      state := .EMBRYO, pid := s.nextpid, pc := .user, named := false } with
      nextpid := s.nextpid + 1 }
    (.quiet, s.set p { s.task p with pc := .forking np })

/-- `fork` after `kalloc` has failed in `allocproc` or in `cowuvm`. -/
def forkFail (s : Table) (p np : ProcNo) : Table :=
  let s := s.set np { s.task np with state := .UNUSED }
  s.set p { s.task p with pc := .user }

def forkLink (s : Table) (p np : ProcNo) : Table :=
  let s := s.set np { s.task np with parent := some p }
  s.set p { s.task p with pc := .linked np }

def forkDone (s : Table) (p np : ProcNo) : Table :=
  let s := s.set np { s.task np with state := .RUNNABLE }
  s.set p { s.task p with pc := .user }

/-- One turn of the loop of `exit`. -/
def abandon (p : ProcNo) (s : Table) (q : ProcNo) : Table :=
  if (s.task q).parent = some p then
    let zombie := (s.task q).state = .ZOMBIE
    let s := s.set q { s.task q with parent := some s.initproc }
    if zombie then s.wakeup1 (some (.proc s.initproc)) else s
  else s

def exit (s : Table) (p : ProcNo) : Event × Table :=
  let s := s.wakeup1 ((s.task p).parent.map .proc)
  let s := (List.finRange NPROC).foldl (abandon p) s
  (.exited p (s.task p).pid, s.set p { s.task p with state := .ZOMBIE, pc := .user })

/-- A child has been found that has exited. -/
def reap (s : Table) (p c : ProcNo) : Event × Table :=
  let pid := (s.task c).pid
  let s := s.set c { s.task c with pid := 0, parent := none, killed := false, state := .UNUSED }
  (.reaped p c pid, s.set p { s.task p with pc := .user })

def wait (s : Table) (p : ProcNo) : Event × Table :=
  match (List.finRange NPROC).find? fun q =>
      (s.task q).parent = some p ∧ (s.task q).state = .ZOMBIE with
  | some c => s.reap p c
  | none =>
    if (∀ q, (s.task q).parent ≠ some p) ∨ (s.task p).killed then
      (.waitFailed p, s.set p { s.task p with pc := .user })
    else
      (.quiet, s.set p { s.task p with
        chan := some (.proc p), state := .SLEEPING, pc := .waiting })

/-- The slot `kill` stops at. -/
def slotOf (s : Table) (pid : Pid) : Option ProcNo :=
  (List.finRange NPROC).find? fun q => (s.task q).pid = pid

def kill (s : Table) (pid : Pid) : Event × Table :=
  match s.slotOf pid with
  | none => (.killReturns false, s)
  | some q =>
    (.killReturns true, s.set q { s.task q with
      killed := true
      named := (s.task q).named || (s.task q).state != .UNUSED
      state := if (s.task q).state = .SLEEPING then .RUNNABLE else (s.task q).state })

/-- A step; absent if it is not possible. -/
def next (s : Table) : Op → Option (Event × Table)
  | .schedule p =>
    if (s.task p).state = .RUNNABLE then
      some (.quiet, s.set p { s.task p with state := .RUNNING })
    else none
  | .yield p =>
    if s.Running p then some (.quiet, s.set p { s.task p with state := .RUNNABLE }) else none
  | .sleep p =>
    if s.Running p ∧ (s.task p).pc ≠ .waiting then
      some (.quiet, s.set p { s.task p with state := .SLEEPING, chan := some .other })
    else none
  | .wakeup p =>
    if (s.task p).state = .SLEEPING ∧ (s.task p).chan = some .other then
      some (.quiet, s.set p { s.task p with state := .RUNNABLE })
    else none
  | .fault p =>
    if s.Running p then
      some (.quiet, s.set p { s.task p with killed := true, named := true })
    else none
  | .enter p =>
    if s.Running p ∧ (s.task p).pc = .user ∧ (s.task p).killed = false then
      some (.quiet, s.set p { s.task p with pc := .call })
    else none
  | .leave p =>
    if s.Calls p then some (.quiet, s.set p { s.task p with pc := .user }) else none
  | .allocproc p => if s.Calls p then some (s.allocproc p) else none
  | .forkFail p =>
    match (s.task p).pc with
    | .forking np => if s.Running p then some (.forkFailed, s.forkFail p np) else none
    | _ => none
  | .forkLink p =>
    match (s.task p).pc with
    | .forking np => if s.Running p then some (.quiet, s.forkLink p np) else none
    | _ => none
  | .forkDone p =>
    match (s.task p).pc with
    | .linked np => if s.Running p then some (.forked np, s.forkDone p np) else none
    | _ => none
  | .exit p =>
    if s.Running p ∧ ((s.task p).pc = .user ∨ (s.task p).pc = .call) ∧ p ≠ s.initproc then
      some (s.exit p)
    else none
  | .wait p =>
    if s.Calls p ∨ s.Running p ∧ (s.task p).pc = .waiting then some (s.wait p) else none
  | .kill p pid => if s.Calls p then some (s.kill pid) else none

/-- After `userinit`. -/
def boot : Table where
  task p := {
    state := if p = 0 then .RUNNABLE else .UNUSED
    pid := if p = 0 then 1 else 0
    parent := none
    killed := false
    chan := none
    pc := .user
    named := false }
  nextpid := 2
  initproc := 0

/-- A step with what can be seen of it. -/
def Step (s : Table) (a : Op × Event) (s' : Table) : Prop := s.next a.1 = some (a.2, s')

end Table

/-! The family tree by itself: who exists, who is whose child, and which child a process is
making. -/

inductive Role where
  | unused | embryo | alive | zombie
  deriving DecidableEq

@[ext]
structure Kin (P N : Type*) where
  role : P → Role
  pid : P → N
  parent : P → Option P
  /-- The child a process is making, and whether it knows its parent. -/
  child : P → Option (P × Bool)

inductive Act (P N : Type*) where
  | other
  | exits (p : P) (n : N)
  | reaps (p c : P) (n : N)
  deriving DecidableEq

namespace Kin

variable {P N : Type*} [DecidableEq P] {i : P}

inductive Step (i : P) : Kin P N → Act P N → Kin P N → Prop
  | stay {k} : Step i k .other k
  | alloc {k p np n} (alive : k.role p = .alive) (idle : k.child p = none)
      (free : k.role np = .unused) :
      Step i k .other { k with
        role := Function.update k.role np .embryo
        pid := Function.update k.pid np n
        child := Function.update k.child p (some (np, false)) }
  | giveUp {k p np} (forking : k.child p = some (np, false)) :
      Step i k .other { k with
        role := Function.update k.role np .unused
        child := Function.update k.child p none }
  | adopt {k p np} (forking : k.child p = some (np, false)) :
      Step i k .other { k with
        parent := Function.update k.parent np (some p)
        child := Function.update k.child p (some (np, true)) }
  | bear {k p np} (forking : k.child p = some (np, true)) :
      Step i k .other { k with
        role := Function.update k.role np .alive
        child := Function.update k.child p none }
  | exit {k p} (alive : k.role p = .alive) (idle : k.child p = none) (notInit : p ≠ i) :
      Step i k (.exits p (k.pid p)) { k with
        role := Function.update k.role p .zombie
        parent := fun q => if k.parent q = some p then some i else k.parent q }
  | reap {k p c n} (child : k.parent c = some p) (dead : k.role c = .zombie) :
      Step i k (.reaps p c (k.pid c)) { k with
        role := Function.update k.role c .unused
        pid := Function.update k.pid c n
        parent := Function.update k.parent c none }

theorem Step.of_eq {k k' : Kin P N} (same : k' = k) : k.Step i .other k' := same ▸ .stay

/-- Whoever is alive or has exited has a parent that is alive, and each slot in the making
belongs to one process that forks. -/
structure Family (i : P) (k : Kin P N) : Prop where
  init : k.role i = .alive
  orphan : k.parent i = none
  unused : ∀ q, k.role q = .unused → k.parent q = none
  parents : ∀ q, q ≠ i → k.role q = .alive ∨ k.role q = .zombie →
    ∃ r, k.parent q = some r ∧ k.role r = .alive
  embryo : ∀ q, k.role q = .embryo → ∃ r b, k.child r = some (q, b)
  forks : ∀ r q b, k.child r = some (q, b) →
    k.role r = .alive ∧ k.role q = .embryo ∧ k.parent q = if b then some r else none
  once : ∀ r r' q b b', k.child r = some (q, b) → k.child r' = some (q, b') → r = r'

omit [DecidableEq P] in
theorem Family.childless {p : P} {k : Kin P N} (fam : k.Family i) (dead : k.role p ≠ .alive) :
    k.child p = none := by
  cases forking : k.child p with
  | none => rfl
  | some pair => exact absurd (fam.forks p pair.1 pair.2 forking).1 dead

theorem Family.step {k k' : Kin P N} {a : Act P N} (fam : k.Family i) (step : k.Step i a k') :
    k'.Family i := by
  cases step with
  | stay => exact fam
  | @alloc p np n alive idle free =>
    refine ⟨?_, fam.orphan, fun q => ?_, fun q notInit => ?_, fun q => ?_, fun r q b => ?_,
      fun r r' q b b' => ?_⟩ <;> simp only [update_apply]
    · have := fam.init
      grind
    · have := fam.unused q
      grind
    · have := fam.parents q notInit
      grind
    · by_cases same : q = np
      · exact fun _ => ⟨p, false, by simp [same]⟩
      · have := fam.embryo q
        grind
    · have := fam.forks r q b
      have := fam.unused np
      grind
    · have := fam.once r r' q b b'
      have := fam.forks r q b
      have := fam.forks r' q b'
      grind
  | @giveUp p np forking =>
    have forks := fam.forks p np false forking
    refine ⟨?_, fam.orphan, fun q => ?_, fun q notInit => ?_, fun q => ?_, fun r q b => ?_,
      fun r r' q b b' => ?_⟩ <;> simp only [update_apply]
    · have := fam.init
      grind
    · have := fam.unused q
      grind
    · have := fam.parents q notInit
      grind
    · have := fam.embryo q
      grind
    · have := fam.forks r q b
      have := fam.once r p q b false
      grind
    · have := fam.once r r' q b b'
      grind
  | @adopt p np forking =>
    have forks := fam.forks p np false forking
    refine ⟨fam.init, ?_, fun q => ?_, fun q notInit => ?_, fun q => ?_, fun r q b => ?_,
      fun r r' q b b' => ?_⟩ <;> simp only [update_apply]
    · have := fam.init
      have := fam.orphan
      grind
    · have := fam.unused q
      grind
    · have := fam.parents q notInit
      grind
    · by_cases same : q = np
      · exact fun _ => ⟨p, true, by simp [same]⟩
      · have := fam.embryo q
        grind
    · have := fam.forks r q b
      have := fam.once r p q b false
      grind
    · have := fam.once r r' q b b'
      have := fam.once r p q b false
      have := fam.once r' p q b' false
      grind
  | @bear p np forking =>
    have forks := fam.forks p np true forking
    refine ⟨?_, fam.orphan, fun q => ?_, fun q notInit => ?_, fun q => ?_, fun r q b => ?_,
      fun r r' q b b' => ?_⟩ <;> simp only [update_apply]
    · have := fam.init
      grind
    · have := fam.unused q
      grind
    · by_cases same : q = np
      · exact fun _ => ⟨p, by simp [same, forks]⟩
      · have := fam.parents q notInit
        grind
    · have := fam.embryo q
      grind
    · have := fam.forks r q b
      have := fam.once r p q b true
      grind
    · have := fam.once r r' q b b'
      grind
  | @exit p alive idle notInit =>
    refine ⟨?_, ?_, fun q => ?_, fun q notInit => ?_, fun q => ?_, fun r q b => ?_,
      fam.once⟩ <;> simp only [update_apply]
    · have := fam.init
      grind
    · have := fam.orphan
      grind
    · have := fam.unused q
      grind
    · have := fam.parents q notInit
      have := fam.init
      grind
    · have := fam.embryo q
      grind
    · have := fam.forks r q b
      grind
  | @reap p c n child dead =>
    refine ⟨?_, ?_, fun q => ?_, fun q notInit => ?_, fun q => ?_, fun r q b => ?_,
      fam.once⟩ <;> simp only [update_apply]
    · have := fam.init
      grind
    · have := fam.orphan
      grind
    · have := fam.unused q
      grind
    · have := fam.parents q notInit
      grind
    · have := fam.embryo q
      grind
    · have := fam.forks r q b
      grind

/-- Whether the slot holds a process that has exited and has not been waited for. -/
def Unreaped (k : Kin P N) (c : P) (n : N) : Prop := k.role c = .zombie ∧ k.pid c = n

section

variable [DecidableEq N]

instance (k : Kin P N) (c : P) (n : N) : Decidable (k.Unreaped c n) :=
  inferInstanceAs (Decidable (_ ∧ _))

end

end Kin

namespace Act

variable {P N : Type*} [DecidableEq P] [DecidableEq N]

def isExit (c : P) (n : N) : Act P N → Bool
  | .exits p m => p = c ∧ m = n
  | _ => false

def isReap (c : P) (n : N) : Act P N → Bool
  | .reaps _ q m => q = c ∧ m = n
  | _ => false

end Act

namespace Kin

variable {P N : Type*} [DecidableEq P] [DecidableEq N]

theorem Family.unreaped_step {i : P} {k k' : Kin P N} {a : Act P N} (fam : k.Family i)
    (step : k.Step i a k') (c : P) (n : N) :
    (if k'.Unreaped c n then 1 else 0) + (if a.isReap c n then 1 else 0) =
      (if k.Unreaped c n then 1 else 0) + if a.isExit c n then 1 else 0 := by
  unfold Unreaped
  cases step with
  | stay => rfl
  | @alloc p np m alive idle free =>
    simp only [update_apply, Act.isReap, Act.isExit]
    grind
  | @giveUp p np forking =>
    have := fam.forks p np false forking
    simp only [update_apply, Act.isReap, Act.isExit]
    grind
  | @adopt p np forking => rfl
  | @bear p np forking =>
    have := fam.forks p np true forking
    simp only [update_apply, Act.isReap, Act.isExit]
    grind
  | @exit p alive idle notInit =>
    simp only [update_apply, Act.isReap, Act.isExit]
    grind
  | @reap p c' m child dead =>
    simp only [update_apply, Act.isReap, Act.isExit]
    grind

end Kin

/-! The table has such a family tree. -/

def role : ProcState → Role
  | .UNUSED => .unused
  | .EMBRYO => .embryo
  | .SLEEPING | .RUNNABLE | .RUNNING => .alive
  | .ZOMBIE => .zombie

def Pc.child : Pc → Option (ProcNo × Bool)
  | .forking np => some (np, false)
  | .linked np => some (np, true)
  | _ => none

@[simp] theorem Pc.child_user : Pc.user.child = none := rfl

@[simp] theorem Pc.child_call : Pc.call.child = none := rfl

@[simp] theorem Pc.child_waiting : Pc.waiting.child = none := rfl

@[simp] theorem Pc.child_forking (np : ProcNo) : (Pc.forking np).child = some (np, false) := rfl

@[simp] theorem Pc.child_linked (np : ProcNo) : (Pc.linked np).child = some (np, true) := rfl

def Event.act : Event → Act ProcNo Pid
  | .exited p pid => .exits p pid
  | .reaped p c pid => .reaps p c pid
  | _ => .other

/-- The operation that tells an event. -/
def Event.FromOp : Event → Op → Prop
  | .reaped p _ _, op => op = .wait p
  | .waitFailed p, op => op = .wait p
  | .forked _, op => ∃ p, op = .forkDone p
  | _, _ => True

namespace Table

def kin (s : Table) : Kin ProcNo Pid where
  role q := role (s.task q).state
  pid q := (s.task q).pid
  parent q := (s.task q).parent
  child q := (s.task q).pc.child

@[simp] theorem task_set (s : Table) (p q : ProcNo) (t : Task) :
    (s.set p t).task q = if q = p then t else s.task q := update_apply ..

variable {s : Table} {p : ProcNo} {trace : List (Op × Event)} {np : ProcNo} {s' : Table} {op : Op}
  {ev : Event} {pid : Pid}

theorem kin_set {t : Task} (state : role t.state = role (s.task p).state)
    (pid : t.pid = (s.task p).pid) (parent : t.parent = (s.task p).parent)
    (child : t.pc.child = (s.task p).pc.child) : (s.set p t).kin = s.kin := by
  ext1 <;> funext q <;> simp only [kin, task_set] <;> split <;> simp_all

theorem kin_wakeup1 (s : Table) (chan : Option Chan) : (s.wakeup1 chan).kin = s.kin := by
  ext1 <;> funext q <;> simp only [kin, wakeup1] <;> split <;> simp_all [role]

theorem kin_abandon (p : ProcNo) (s : Table) (q : ProcNo) :
    (abandon p s q).kin = { s.kin with
      parent := if (s.task q).parent = some p then
        update s.kin.parent q (some s.initproc) else s.kin.parent } := by
  unfold abandon
  by_cases mine : (s.task q).parent = some p
  · simp only [if_pos mine]
    have moved : (s.set q { s.task q with parent := some s.initproc }).kin = { s.kin with
        parent := update s.kin.parent q (some s.initproc) } := by
      ext1 <;> funext r <;> simp only [kin, task_set, update_apply] <;> split <;> simp_all
    split
    · rw [kin_wakeup1, moved]
    · exact moved
  · simp only [if_neg mine]

@[simp] theorem initproc_set (s : Table) (p : ProcNo) (t : Task) :
    (s.set p t).initproc = s.initproc := rfl

@[simp] theorem initproc_wakeup1 (s : Table) (chan : Option Chan) :
    (s.wakeup1 chan).initproc = s.initproc := rfl

@[simp] theorem initproc_abandon (p : ProcNo) (s : Table) (q : ProcNo) :
    (abandon p s q).initproc = s.initproc := by
  unfold abandon
  dsimp only
  split_ifs <;> rfl

theorem kin_foldl_abandon (p : ProcNo) (qs : List ProcNo) (s : Table) (notInit : p ≠ s.initproc) :
    (qs.foldl (abandon p) s).initproc = s.initproc ∧
    (qs.foldl (abandon p) s).kin = { s.kin with
      parent := fun q => if q ∈ qs ∧ s.kin.parent q = some p then some s.initproc
        else s.kin.parent q } := by
  induction qs generalizing s with
  | nil => exact ⟨rfl, by simp⟩
  | cons q qs ih =>
    obtain ⟨init, kin⟩ := ih (abandon p s q) (by simpa using notInit)
    refine ⟨by simpa using init, ?_⟩
    rw [foldl_cons, kin, kin_abandon]
    ext1 <;> try rfl
    funext r
    simp only [initproc_abandon, mem_cons]
    have : s.kin.parent q = (s.task q).parent := rfl
    by_cases mine : (s.task q).parent = some p
    · simp only [if_pos mine, update_apply]
      by_cases same : r = q
      · simp [same, this, mine]
      · simp [same]
    · simp only [if_neg mine]
      by_cases same : r = q
      · simp [same, this, mine]
      · simp [same]

theorem kin_exit (alive : s.kin.role p = .alive) (idle : s.kin.child p = none)
    (notInit : p ≠ s.initproc) :
    (s.exit p).2.initproc = s.initproc ∧
      s.kin.Step s.initproc (s.exit p).1.act (s.exit p).2.kin := by
  obtain ⟨init, kin⟩ := kin_foldl_abandon p (List.finRange NPROC)
    (s.wakeup1 ((s.task p).parent.map .proc)) notInit
  rw [kin_wakeup1] at kin
  simp only [exit]
  generalize (List.finRange NPROC).foldl (abandon p) (s.wakeup1 ((s.task p).parent.map .proc)) = t
    at init kin
  simp only [mem_finRange, true_and, initproc_wakeup1] at init kin
  refine ⟨init, ?_⟩
  have result : (t.set p { t.task p with state := .ZOMBIE, pc := .user }).kin = { t.kin with
      role := update t.kin.role p .zombie
      child := update t.kin.child p none } := by
    ext1 <;> funext q <;> simp only [Table.kin, task_set, update_apply] <;> split <;>
      simp_all [role]
  have pid : (t.task p).pid = s.kin.pid p := congrFun (congrArg Kin.pid kin) p
  have childless : update s.kin.child p none = s.kin.child := update_eq_self_iff.mpr idle.symm
  rw [result, kin, Event.act, pid]
  dsimp only
  rw [childless]
  exact .exit alive idle notInit

theorem role_of_running (running : s.Running p) :
    s.kin.role p = .alive := by
  rw [Running] at running
  simp only [kin, running, role]

section

variable (fam : s.kin.Family s.initproc)
include fam

theorem kin_allocproc (calls : s.Calls p) :
    (s.allocproc p).2.initproc = s.initproc ∧
      s.kin.Step s.initproc (s.allocproc p).1.act (s.allocproc p).2.kin := by
  unfold allocproc
  split
  case h_1 => exact ⟨rfl, .stay⟩
  case h_2 np found =>
    have unused : (s.task np).state = .UNUSED := by simpa using find?_some found
    have free : s.kin.role np = .unused := by simp [kin, unused, role]
    have alive := role_of_running calls.1
    have idle : s.kin.child p = none := by simp [kin, calls.2]
    have childless : (s.task np).pc.child = none := fam.childless (by simp [free])
    have apart : np ≠ p := by
      rintro rfl
      simp [free] at alive
    refine ⟨rfl, ?_⟩
    change s.kin.Step _ .other _
    convert Kin.Step.alloc (n := s.nextpid) alive idle free using 1
    ext1 <;> funext q <;> simp only [kin, task_set, update_apply] <;>
      by_cases isP : q = p <;> by_cases isNp : q = np <;> simp_all [role]

theorem kin_forkFail (forking : (s.task p).pc = .forking np) :
    s.kin.Step s.initproc .other (s.forkFail p np).kin := by
  have making : s.kin.child p = some (np, false) := by simp [kin, forking]
  obtain ⟨alive, embryo, -⟩ := fam.forks p np false making
  have apart : np ≠ p := by
    rintro rfl
    simp [embryo] at alive
  convert Kin.Step.giveUp making using 1
  ext1 <;> funext q <;> simp only [kin, forkFail, task_set, update_apply] <;>
    by_cases isP : q = p <;> by_cases isNp : q = np <;> simp_all [role]

theorem kin_forkLink (forking : (s.task p).pc = .forking np) :
    s.kin.Step s.initproc .other (s.forkLink p np).kin := by
  have making : s.kin.child p = some (np, false) := by simp [kin, forking]
  obtain ⟨alive, embryo, -⟩ := fam.forks p np false making
  have apart : np ≠ p := by
    rintro rfl
    simp [embryo] at alive
  convert Kin.Step.adopt making using 1
  ext1 <;> funext q <;> simp only [kin, forkLink, task_set, update_apply] <;>
    by_cases isP : q = p <;> by_cases isNp : q = np <;> simp_all [role]

theorem kin_forkDone (linked : (s.task p).pc = .linked np) :
    s.kin.Step s.initproc .other (s.forkDone p np).kin := by
  have making : s.kin.child p = some (np, true) := by simp [kin, linked]
  obtain ⟨alive, embryo, -⟩ := fam.forks p np true making
  have apart : np ≠ p := by
    rintro rfl
    simp [embryo] at alive
  convert Kin.Step.bear making using 1
  ext1 <;> funext q <;> simp only [kin, forkDone, task_set, update_apply] <;>
    by_cases isP : q = p <;> by_cases isNp : q = np <;> simp_all [role]

theorem kin_wait (running : s.Running p) (idle : (s.task p).pc.child = none) :
    (s.wait p).2.initproc = s.initproc ∧
      s.kin.Step s.initproc (s.wait p).1.act (s.wait p).2.kin := by
  have alive := role_of_running running
  unfold wait
  split
  case h_1 c found =>
    obtain ⟨child, dead⟩ : (s.task c).parent = some p ∧ (s.task c).state = .ZOMBIE := by
      simpa using find?_some found
    have zombie : s.kin.role c = .zombie := by simp [kin, dead, role]
    have apart : c ≠ p := by
      rintro rfl
      simp [zombie] at alive
    have childless : (s.task c).pc.child = none := fam.childless (by simp [zombie])
    refine ⟨rfl, ?_⟩
    change s.kin.Step _ (.reaps p c (s.kin.pid c)) _
    convert Kin.Step.reap (n := 0) (k := s.kin) child zombie using 1
    ext1 <;> funext q <;> simp only [reap, kin, task_set, update_apply] <;>
      by_cases isP : q = p <;> by_cases isC : q = c <;> simp_all [role]
  case h_2 =>
    split
    · exact ⟨rfl, .of_eq (kin_set rfl rfl rfl idle.symm)⟩
    · exact ⟨rfl, .of_eq (kin_set alive.symm rfl rfl idle.symm)⟩

end

theorem kin_kill (s : Table) (pid : Pid) :
    (s.kill pid).2.initproc = s.initproc ∧ (s.kill pid).1.act = .other ∧
      (s.kill pid).2.kin = s.kin := by
  unfold kill
  split
  · exact ⟨rfl, rfl, rfl⟩
  · refine ⟨rfl, rfl, kin_set ?_ rfl rfl rfl⟩
    dsimp only
    split
    case isTrue asleep => simp [asleep, role]
    case isFalse => rfl

theorem kin_next (fam : s.kin.Family s.initproc) (step : s.next op = some (ev, s')) :
    s'.initproc = s.initproc ∧ s.kin.Step s.initproc ev.act s'.kin := by
  cases op with
  | schedule p =>
    obtain ⟨waiting, rfl, rfl⟩ := Lts.of_guard step
    exact ⟨rfl, .of_eq (kin_set (by simp [waiting, role]) rfl rfl rfl)⟩
  | yield p =>
    obtain ⟨running, rfl, rfl⟩ := Lts.of_guard step
    exact ⟨rfl, .of_eq (kin_set (role_of_running running).symm rfl rfl rfl)⟩
  | sleep p =>
    obtain ⟨running, rfl, rfl⟩ := Lts.of_guard step
    exact ⟨rfl, .of_eq (kin_set (role_of_running running.1).symm rfl rfl rfl)⟩
  | wakeup p =>
    obtain ⟨waiting, rfl, rfl⟩ := Lts.of_guard step
    exact ⟨rfl, .of_eq (kin_set (by simp [waiting.1, role]) rfl rfl rfl)⟩
  | fault p =>
    obtain ⟨running, rfl, rfl⟩ := Lts.of_guard step
    exact ⟨rfl, .of_eq (kin_set rfl rfl rfl rfl)⟩
  | enter p =>
    obtain ⟨running, rfl, rfl⟩ := Lts.of_guard step
    exact ⟨rfl, .of_eq (kin_set rfl rfl rfl (by simp [running.2.1]))⟩
  | leave p =>
    obtain ⟨running, rfl, rfl⟩ := Lts.of_guard step
    exact ⟨rfl, .of_eq (kin_set rfl rfl rfl (by simp [running.2]))⟩
  | allocproc p =>
    obtain ⟨calls, same⟩ := ite_none_right_eq_some.mp step
    have result := kin_allocproc fam calls
    rwa [Option.some.inj same] at result
  | forkFail p =>
    simp only [next] at step
    split at step
    case h_1 np forking =>
      obtain ⟨running, rfl, rfl⟩ := Lts.of_guard step
      exact ⟨rfl, kin_forkFail fam forking⟩
    case h_2 => cases step
  | forkLink p =>
    simp only [next] at step
    split at step
    case h_1 np forking =>
      obtain ⟨running, rfl, rfl⟩ := Lts.of_guard step
      exact ⟨rfl, kin_forkLink fam forking⟩
    case h_2 => cases step
  | forkDone p =>
    simp only [next] at step
    split at step
    case h_1 np linked =>
      obtain ⟨running, rfl, rfl⟩ := Lts.of_guard step
      exact ⟨rfl, kin_forkDone fam linked⟩
    case h_2 => cases step
  | exit p =>
    obtain ⟨⟨running, idle, notInit⟩, same⟩ := ite_none_right_eq_some.mp step
    have childless : s.kin.child p = none := by
      rcases idle with idle | idle <;> simp [kin, idle]
    have result := kin_exit (role_of_running running) childless notInit
    rwa [Option.some.inj same] at result
  | wait p =>
    obtain ⟨calls, same⟩ := ite_none_right_eq_some.mp step
    have result := kin_wait (p := p) fam (calls.elim And.left And.left)
      (by rcases calls with ⟨-, idle⟩ | ⟨-, idle⟩ <;> simp [idle])
    rwa [Option.some.inj same] at result
  | kill p pid =>
    obtain ⟨calls, same⟩ := ite_none_right_eq_some.mp step
    obtain ⟨init, other, kin⟩ := kin_kill s pid
    rw [Option.some.inj same] at init other kin
    rw [other]
    exact ⟨init, .of_eq kin⟩

/-- No mark reaches a system call but one meant for the caller; in strict runs no slot without
a process has a mark. -/
structure Tidy (strict : Prop) (t : Task) : Prop where
  alive : t.pc ≠ .user → role t.state = .alive
  named : t.pc ≠ .user → t.killed → t.named
  unmarked : strict → t.state = .UNUSED ∨ t.state = .EMBRYO → t.killed = false

/-- `kill` does not stop at a slot without a process. -/
def NamesLive (s : Table) (pid : Pid) : Prop :=
  ∀ q, s.slotOf pid = some q → (s.task q).state ≠ .UNUSED

/-- No `fork` is in progress. -/
def Settled (s : Table) : Prop := ∀ q, (s.task q).state ≠ .EMBRYO

section

variable {strict : Prop}

variable {s : Table} {t : Task} {state : ProcState} {np : ProcNo}

variable {p : ProcNo}

theorem tidy_set (tidy : ∀ q, Tidy strict (s.task q)) (new : Tidy strict t)
    (q : ProcNo) : Tidy strict ((s.set p t).task q) := by
  rw [task_set]
  split
  · exact new
  · exact tidy q

theorem Tidy.move (tidy : Tidy strict t) (chan : Option Chan) (stays : role state = .alive) :
    Tidy strict { t with state := state, chan := chan } :=
  ⟨fun _ => stays, tidy.named, fun _ young => by rcases young with rfl | rfl <;> cases stays⟩

section

variable (tidy : ∀ q, Tidy strict (s.task q))
include tidy

theorem tidy_wakeup1 (chan : Option Chan) (q : ProcNo) :
    Tidy strict ((s.wakeup1 chan).task q) := by
  simp only [wakeup1]
  split
  case isTrue => exact (tidy q).move (s.task q).chan rfl
  case isFalse => exact tidy q

theorem tidy_abandon (p r q : ProcNo) :
    Tidy strict ((abandon p s r).task q) := by
  have moved : ∀ q, Tidy strict ((s.set r { s.task r with parent := some s.initproc }).task q) :=
    tidy_set tidy ⟨(tidy r).alive, (tidy r).named, (tidy r).unmarked⟩
  unfold abandon
  dsimp only
  split
  · split
    · exact tidy_wakeup1 moved _ q
    · exact moved q
  · exact tidy q

theorem tidy_exit (p q : ProcNo) :
    Tidy strict ((s.exit p).2.task q) := by
  simp only [exit]
  have abandoned : ∀ (qs : List ProcNo) (s : Table), (∀ q, Tidy strict (s.task q)) →
      ∀ q, Tidy strict ((qs.foldl (abandon p) s).task q) := by
    intro qs
    induction qs with
    | nil => exact fun _ tidy => tidy
    | cons r qs ih => exact fun s tidy => ih _ fun q => tidy_abandon tidy p r q
  refine tidy_set (abandoned _ _ (tidy_wakeup1 tidy _)) ⟨?_, ?_, ?_⟩ q <;> simp

end

theorem Tidy.calls (tidy : Tidy strict t) (running : t.state = .RUNNING) {pc : Pc}
    (inCall : t.pc ≠ .user) : Tidy strict { t with pc := pc } :=
  ⟨fun _ => by simp [running, role], fun _ => tidy.named inCall, by simp [running]⟩

theorem Tidy.idle (tidy : Tidy strict t) : Tidy strict { t with pc := .user } :=
  ⟨by simp, by simp, tidy.unmarked⟩

theorem tidy_allocproc (tidy : ∀ q, Tidy strict (s.task q)) (calls : s.Calls p)
    (q : ProcNo) : Tidy strict ((s.allocproc p).2.task q) := by
  unfold allocproc
  split
  · exact tidy q
  case h_2 np found =>
    have unused : (s.task np).state = .UNUSED := by simpa using find?_some found
    have apart : p ≠ np := by
      rintro rfl
      simp [show (s.task p).state = .RUNNING from calls.1] at unused
    refine tidy_set (s := { s.set np _ with nextpid := _ }) (tidy_set tidy ⟨?_, ?_, ?_⟩) ?_ q
    · simp
    · simp
    · exact fun strictly _ => (tidy np).unmarked strictly (.inl unused)
    · simp only [task_set, if_neg apart]
      exact (tidy p).calls calls.1 (by simp [calls.2])

theorem embryo_of_fork {b : Bool} (fam : s.kin.Family s.initproc)
    (forking : s.kin.child p = some (np, b)) : (s.task np).state = .EMBRYO := by
  have young := (fam.forks p np b forking).2.1
  simp only [kin] at young
  cases state : (s.task np).state <;> simp_all [role]

section

variable (tidy : ∀ q, Tidy strict (s.task q))
include tidy

/-- The parts of `fork` after `allocproc`. -/
theorem tidy_fork (running : s.Running p)
    (inCall : (s.task p).pc ≠ .user) (embryo : (s.task np).state = .EMBRYO) {parent : Option ProcNo}
    {pc : Pc} (q : ProcNo) : Tidy strict
      (((s.set np { s.task np with state := state, parent := parent }).set p
        { (s.set np { s.task np with state := state, parent := parent }).task p with
          pc := pc }).task q) := by
  have apart : p ≠ np := by
    rintro rfl
    simp [show (s.task p).state = .RUNNING from running] at embryo
  refine tidy_set (tidy_set tidy ?_) ?_ q
  · refine ⟨fun busy => ?_, (tidy np).named, fun strictly _ => ?_⟩
    · have := (tidy np).alive busy
      simp [embryo, role] at this
    · exact (tidy np).unmarked strictly (.inr embryo)
  · simp only [task_set, if_neg apart]
    exact (tidy p).calls running inCall

theorem tidy_wait (inCall : (s.task p).pc ≠ .user) (q : ProcNo) : Tidy strict ((s.wait p).2.task q) := by
  unfold wait
  split
  case h_1 c found =>
    have dead : (s.task c).state = .ZOMBIE := by
      have := find?_some found
      simp_all
    refine tidy_set (tidy_set tidy ⟨?_, by simp, by simp⟩) ?_ q
    · intro pc
      have := (tidy c).alive pc
      simp [dead, role] at this
    · simp only [task_set]
      split
      · exact ⟨by simp, by simp, by simp⟩
      · exact (tidy p).idle
  case h_2 =>
    split
    · exact tidy_set tidy (tidy p).idle q
    · refine tidy_set tidy ?_ q
      exact ⟨fun _ => rfl, fun _ => (tidy p).named inCall, by simp⟩

theorem tidy_kill {pid : Pid} (meets : strict → s.NamesLive pid ∧ s.Settled) (q : ProcNo) :
    Tidy strict ((s.kill pid).2.task q) := by
  unfold kill
  split
  · exact tidy q
  case h_2 c found =>
    refine tidy_set tidy ⟨fun inCall => ?_, fun inCall _ => ?_, fun strictly young => ?_⟩ q
    · dsimp only
      split
      · rfl
      · exact (tidy c).alive inCall
    · have alive := (tidy c).alive inCall
      dsimp only
      cases state : (s.task c).state <;> simp_all [role]
    · have live := (meets strictly).1 c found
      have born := (meets strictly).2 c
      dsimp only at young
      split at young <;> simp_all

theorem tidy_next {s' : Table} {op : Op} {ev : Event}
    (meets : ∀ p pid, op = .kill p pid → strict → s.NamesLive pid ∧ s.Settled)
    (fam : s.kin.Family s.initproc) (step : s.next op = some (ev, s')) (q : ProcNo) :
    Tidy strict (s'.task q) := by
  cases op with
  | schedule p | yield p | sleep p | wakeup p =>
    obtain ⟨-, rfl, rfl⟩ := Lts.of_guard step
    exact tidy_set tidy ((tidy p).move _ rfl) q
  | fault p =>
    obtain ⟨running, rfl, rfl⟩ := Lts.of_guard step
    refine tidy_set tidy ?_ q
    refine ⟨(tidy p).alive, fun _ _ => rfl, fun _ young => ?_⟩
    simp [show (s.task p).state = .RUNNING from running] at young
  | enter p =>
    obtain ⟨⟨running, -, unmarked⟩, rfl, rfl⟩ := Lts.of_guard step
    refine tidy_set tidy ?_ q
    exact ⟨fun _ => role_of_running running, by simp [unmarked], fun _ _ => unmarked⟩
  | leave p =>
    obtain ⟨-, rfl, rfl⟩ := Lts.of_guard step
    exact tidy_set tidy (tidy p).idle q
  | allocproc p =>
    obtain ⟨calls, same⟩ := ite_none_right_eq_some.mp step
    have result := tidy_allocproc tidy calls q
    rwa [Option.some.inj same] at result
  | forkFail p | forkLink p =>
    simp only [next] at step
    split at step
    case h_1 np forking =>
      obtain ⟨running, rfl, rfl⟩ := Lts.of_guard step
      have making : s.kin.child p = some (np, false) := by simp [kin, forking]
      exact tidy_fork tidy running (by simp [forking]) (embryo_of_fork fam making) q
    case h_2 => cases step
  | forkDone p =>
    simp only [next] at step
    split at step
    case h_1 np linked =>
      obtain ⟨running, rfl, rfl⟩ := Lts.of_guard step
      have making : s.kin.child p = some (np, true) := by simp [kin, linked]
      exact tidy_fork tidy running (by simp [linked]) (embryo_of_fork fam making) q
    case h_2 => cases step
  | exit p =>
    obtain ⟨-, same⟩ := ite_none_right_eq_some.mp step
    have result := tidy_exit tidy p q
    rwa [Option.some.inj same] at result
  | wait p =>
    obtain ⟨calls, same⟩ := ite_none_right_eq_some.mp step
    have result := tidy_wait tidy (p := p)
      (by rcases calls with ⟨-, inCall⟩ | ⟨-, inCall⟩ <;> simp [inCall]) q
    rwa [Option.some.inj same] at result
  | kill p pid =>
    obtain ⟨-, same⟩ := ite_none_right_eq_some.mp step
    have result := tidy_kill tidy (meets p pid rfl) q
    rwa [Option.some.inj same] at result

end

end

theorem family_boot : boot.kin.Family boot.initproc := by
  have alone : ∀ q, boot.kin.role q = if q = 0 then .alive else .unused := by
    intro q
    by_cases first : q = 0 <;> simp [kin, boot, first, role]
  refine ⟨rfl, rfl, fun _ _ => rfl, fun q other live => ?_, fun q young => ?_, ?_, ?_⟩
  · rw [alone, if_neg (show q ≠ 0 from other)] at live
    simp at live
  · rw [alone] at young
    split at young <;> cases young
  · intro r q b forking
    simp [kin, boot] at forking
  · intro r r' q b b' forking
    simp [kin, boot] at forking

theorem tidy_boot (strict : Prop) (q : ProcNo) : Tidy strict (boot.task q) :=
  ⟨by simp [boot], by simp [boot], fun _ _ => rfl⟩

/-- A run of the table is one of its family tree. -/
theorem kin_run (run : Lts.Run Step boot trace s) :
    s.initproc = boot.initproc ∧ s.kin.Family boot.initproc ∧
    (∀ q, Tidy False (s.task q)) ∧
    Lts.Run (fun k (a : Op × Event) k' => Kin.Step boot.initproc k a.2.act k') boot.kin trace
      s.kin := by
  induction run with
  | nil => exact ⟨rfl, family_boot, tidy_boot False, .nil _⟩
  | snoc _ last ih =>
    obtain ⟨init, fam, tidy, run⟩ := ih
    rw [← init] at fam
    obtain ⟨same, step⟩ := kin_next fam last
    have kept := fam.step step
    rw [init] at kept step
    refine ⟨same.trans init, kept, fun q => ?_, .snoc run step⟩
    exact tidy_next tidy (fun _ _ _ impossible => impossible.elim) fam last q

theorem isReap_act (ev : Event) (c : ProcNo) (pid : Pid) :
    ev.act.isReap c pid = true ↔ ∃ p, ev = .reaped p c pid := by
  cases ev <;> simp [Event.act, Act.isReap]

theorem isExit_act (ev : Event) (c : ProcNo) (pid : Pid) :
    ev.act.isExit c pid = true ↔ ev = .exited c pid := by
  cases ev <;> simp [Event.act, Act.isExit]

theorem unreaped_kin (s : Table) (c : ProcNo) (pid : Pid) :
    s.kin.Unreaped c pid ↔ (s.task c).state = .ZOMBIE ∧ (s.task c).pid = pid := by
  simp only [Kin.Unreaped, kin]
  cases (s.task c).state <;> simp [role]

/-- What `wait` tells its caller. -/
theorem wait_tells (result : s.wait p = (ev, s')) :
    (∀ p' c pid, ev = .reaped p' c pid → (s.task c).parent = some p ∧
      (s.task c).state = .ZOMBIE ∧ (s.task c).pid = pid) ∧
    ∀ p', ev = .waitFailed p' → (∀ q, (s.task q).parent ≠ some p) ∨ (s.task p).killed := by
  unfold wait at result
  split at result
  case h_1 c found =>
    obtain ⟨child, dead⟩ : (s.task c).parent = some p ∧ (s.task c).state = .ZOMBIE := by
      simpa using find?_some found
    cases result
    refine ⟨fun p' c' pid same => ?_, nofun⟩
    cases same
    exact ⟨child, dead, rfl⟩
  case h_2 =>
    split at result
    case isTrue failed =>
      cases result
      exact ⟨nofun, fun _ _ => failed⟩
    case isFalse =>
      cases result
      exact ⟨nofun, nofun⟩

theorem told_of_guard {c : Prop} [Decidable c] {r x : Event × Table}
    (step : (if c then some r else none) = some x) : r.1 = x.1 :=
  congrArg Prod.fst (Option.some.inj (ite_none_right_eq_some.mp step).2)

theorem next_tells (step : s.next op = some (ev, s')) :
    ev.FromOp op := by
  cases op with
  | allocproc p =>
    have told := told_of_guard step
    unfold allocproc at told
    split at told <;> cases told <;> trivial
  | exit p =>
    have told := told_of_guard step
    unfold exit at told
    cases told
    trivial
  | wait p =>
    have told := told_of_guard step
    unfold wait at told
    split at told
    · cases told
      rfl
    · split at told <;> cases told
      · rfl
      · trivial
  | kill p pid =>
    have told := told_of_guard step
    unfold kill at told
    split at told <;> cases told <;> trivial
  | forkDone p =>
    simp only [next] at step
    split at step
    · obtain ⟨-, rfl, rfl⟩ := Lts.of_guard step
      exact ⟨p, rfl⟩
    · cases step
  | forkFail p | forkLink p =>
    simp only [next] at step
    split at step
    · obtain ⟨-, rfl, rfl⟩ := Lts.of_guard step
      trivial
    · cases step
  | _ =>
    obtain ⟨-, rfl, rfl⟩ := Lts.of_guard step
    trivial

/-- One step: a slot turns into an exited child by its exit only and ends to be one only when
it is reaped. -/
theorem unreaped_next (run : Lts.Run Step boot trace s) (step : s.Step (op, ev) s') (c : ProcNo)
    (pid : Pid) :
    (if (s'.task c).state = .ZOMBIE ∧ (s'.task c).pid = pid then 1 else 0) +
        (if ∃ p, ev = .reaped p c pid then 1 else 0) =
      (if (s.task c).state = .ZOMBIE ∧ (s.task c).pid = pid then 1 else 0) +
        if ev = .exited c pid then 1 else 0 := by
  obtain ⟨init, fam, -, -⟩ := kin_run run
  have moved := (kin_next (init ▸ fam) step).2
  rw [init] at moved
  have one := fam.unreaped_step moved c pid
  simpa only [unreaped_kin, isReap_act, isExit_act] using one

theorem exits_are_reaped (run : Lts.Run Step boot trace s) (c : ProcNo) (pid : Pid) :
    trace.countP (fun a => a.2 = .exited c pid) =
      trace.countP (fun a => ∃ p, a.2 = .reaped p c pid) +
        if (s.task c).state = .ZOMBIE ∧ (s.task c).pid = pid then 1 else 0 := by
  induction run with
  | nil => by_cases first : c = 0 <;> simp [boot, first]
  | @snoc s s' trace a run last ih =>
    have one := unreaped_next run last c pid
    simp only [countP_append, countP_singleton, decide_eq_true_eq, ih]
    omega

theorem parent_alive (run : Lts.Run Step boot trace s) {q : ProcNo} (notInit : q ≠ s.initproc)
    (used : (s.task q).state ≠ .UNUSED) (born : (s.task q).state ≠ .EMBRYO) :
    ∃ r, (s.task q).parent = some r ∧ (s.task r).state ≠ .UNUSED ∧
      (s.task r).state ≠ .ZOMBIE := by
  obtain ⟨init, fam, -, -⟩ := kin_run run
  rw [init] at notInit
  obtain ⟨r, parent, alive⟩ := fam.parents q notInit (by
    simp only [kin]
    cases state : (s.task q).state <;> simp_all [role])
  refine ⟨r, parent, ?_, ?_⟩ <;> intro state <;> simp [kin, state, role] at alive

/-- The parent of a process that has come into being, the children that have been waited for,
and the failures of `wait`. -/
theorem process_lifetime {s : Table} {trace : List (Op × Event)}
    (run : Lts.Run Step boot trace s) :
    (∀ q, q ≠ s.initproc → (s.task q).state ≠ .UNUSED → (s.task q).state ≠ .EMBRYO →
      ∃ r, (s.task q).parent = some r ∧ (s.task r).state ≠ .UNUSED ∧
        (s.task r).state ≠ .ZOMBIE) ∧
    (∀ c pid, trace.countP (fun a => a.2 = .exited c pid) =
      trace.countP (fun a => ∃ p, a.2 = .reaped p c pid) +
        if (s.task c).state = .ZOMBIE ∧ (s.task c).pid = pid then 1 else 0) ∧
    ∀ op ev s', s.Step (op, ev) s' →
      (∀ p c pid, ev = .reaped p c pid → op = .wait p ∧ (s.task c).parent = some p ∧
        (s.task c).state = .ZOMBIE ∧ (s.task c).pid = pid) ∧
      (∀ c, (s.task c).state = .ZOMBIE →
        (s'.task c).state = .ZOMBIE ∧ (s'.task c).pid = (s.task c).pid ∨
          ∃ p, ev = .reaped p c (s.task c).pid) ∧
      ∀ p, ev = .waitFailed p →
        op = .wait p ∧ ((∀ q, (s.task q).parent ≠ some p) ∨ (s.task p).named) := by
  refine ⟨fun q => parent_alive run, exits_are_reaped run, fun op ev s' step => ⟨?_, ?_, ?_⟩⟩
  · intro p c pid told
    subst told
    obtain rfl : op = .wait p := next_tells step
    obtain ⟨-, same⟩ := Option.ite_none_right_eq_some.mp step
    exact ⟨rfl, (wait_tells (Option.some.inj same)).1 p c pid rfl⟩
  · intro c dead
    by_cases reaped : ∃ p, ev = .reaped p c (s.task c).pid
    · exact .inr reaped
    · have one := unreaped_next run step c (s.task c).pid
      have before : (s.task c).state = .ZOMBIE ∧ (s.task c).pid = (s.task c).pid := ⟨dead, rfl⟩
      rw [if_neg reaped, if_pos before] at one
      refine .inl (by_contra fun gone => ?_)
      rw [if_neg gone] at one
      omega
  · intro p told
    subst told
    obtain rfl : op = .wait p := next_tells step
    obtain ⟨calls, same⟩ := Option.ite_none_right_eq_some.mp step
    have failed := (wait_tells (Option.some.inj same)).2 p rfl
    refine ⟨rfl, failed.imp_right fun killed => ?_⟩
    obtain ⟨-, -, tidy, -⟩ := kin_run run
    refine (tidy p).named ?_ killed
    rcases calls with ⟨-, inCall⟩ | ⟨-, inCall⟩ <;> simp [inCall]

/-- A child of init that has exited while init waits. -/
def sampleTrace : List (Op × Event) :=
  [(.schedule 0, .quiet), (.enter 0, .quiet), (.allocproc 0, .quiet), (.forkLink 0, .quiet),
    (.forkDone 0, .forked 1), (.enter 0, .quiet), (.wait 0, .quiet), (.schedule 1, .quiet),
    (.exit 1, .exited 1 2), (.schedule 0, .quiet), (.wait 0, .reaped 0 1 2)]

theorem process_lifetime_sample :
    ∃ s, Lts.Run Step boot sampleTrace s ∧
      sampleTrace.countP (fun a => a.2 = .exited 1 2) =
        sampleTrace.countP (fun a => ∃ p, a.2 = .reaped p 1 2) +
          if (s.task 1).state = .ZOMBIE ∧ (s.task 1).pid = 2 then 1 else 0 := by
  obtain ⟨s, run, -⟩ := Lts.Run.of_follow next sampleTrace (s := boot)
    (fun _ => true) (by decide +kernel)
  exact ⟨s, run, (process_lifetime run).2.1 1 2⟩

/-! `kill`. -/

/-- A step in which `kill`, if it is one, comes between the calls of `fork` and stops at a slot
with a process. -/
def NamingStep (s : Table) (a : Op × Event) (s' : Table) : Prop :=
  s.Step a s' ∧ ∀ p pid, a.1 = .kill p pid → s.NamesLive pid ∧ s.Settled

/-- `kill` tells whether there is such a process and changes that process only. -/
def KillsOnlyNamed (s : Table) (pid : Pid) (ev : Event) (s' : Table) : Prop :=
  (ev = .killReturns true ↔ ∃ q, (s.task q).state ≠ .UNUSED ∧ (s.task q).pid = pid) ∧
    ∀ q, s'.task q ≠ s.task q → (s.task q).state ≠ .UNUSED ∧ (s.task q).pid = pid

theorem tidy_naming (run : Lts.Run NamingStep boot trace s) :
    Lts.Run Step boot trace s ∧ ∀ q, Tidy True (s.task q) := by
  induction run with
  | nil => exact ⟨.nil _, tidy_boot True⟩
  | snoc _ last ih =>
    obtain ⟨run, tidy⟩ := ih
    obtain ⟨init, fam, -, -⟩ := kin_run run
    refine ⟨.snoc run last.1, ?_⟩
    exact tidy_next tidy (fun p pid same _ => last.2 p pid same) (init ▸ fam) last.1

theorem slotOf_none :
    s.slotOf pid = none ↔ ∀ q, (s.task q).pid ≠ pid := by
  simp [slotOf]

theorem killsOnlyNamed_iff (unmarked : ∀ q, (s.task q).state = .UNUSED → (s.task q).killed = false)
    (step : s.kill pid = (ev, s')) : s.KillsOnlyNamed pid ev s' ↔ s.NamesLive pid := by
  unfold kill at step
  split at step
  case h_1 absent =>
    cases step
    have names : s.NamesLive pid := by simp [NamesLive, absent]
    refine iff_of_true ⟨⟨nofun, fun ⟨q, _, same⟩ => ?_⟩, fun q changed => absurd rfl changed⟩ names
    exact absurd same (slotOf_none.mp absent q)
  case h_2 c found =>
    cases step
    have same : (s.task c).pid = pid := by simpa using find?_some found
    refine ⟨fun right q stops => ?_, fun names => ?_⟩
    · cases found.symm.trans stops
      by_contra unused
      refine absurd unused (right.2 c fun unchanged => ?_).1
      have marked := congrArg Task.killed unchanged
      simp [unmarked c unused] at marked
    · have live := names c found
      refine ⟨⟨fun _ => ⟨c, live, same⟩, fun _ => rfl⟩, fun q changed => ?_⟩
      by_cases isC : q = c
      · exact isC ▸ ⟨live, same⟩
      · simp [isC] at changed

theorem forkDone_unmarked (fam : s.kin.Family s.initproc) (tidy : Tidy True (s.task np))
    (step : s.Step (.forkDone p, .forked np) s') :
    (s'.task np).killed = false := by
  simp only [Step, next] at step
  split at step
  case h_1 np' linked =>
    obtain ⟨-, ⟨⟩, rfl⟩ := Lts.of_guard step
    have making : s.kin.child p = some (np, true) := by simp [kin, linked]
    have unmarked := tidy.unmarked trivial (.inr (embryo_of_fork fam making))
    by_cases same : np = p
    · subst same
      simpa [forkDone] using unmarked
    · simpa [forkDone, same] using unmarked
  case h_2 => cases step

theorem kill_affects_named_iff {s : Table} {trace : List (Op × Event)}
    (run : Lts.Run NamingStep boot trace s) :
    (∀ op s' np, s.Step (op, .forked np) s' → (s'.task np).killed = false) ∧
    ∀ p pid ev s', s.Step (.kill p pid, ev) s' →
      (s.KillsOnlyNamed pid ev s' ↔ s.NamesLive pid) := by
  obtain ⟨run, tidy⟩ := tidy_naming run
  obtain ⟨init, fam, -, -⟩ := kin_run run
  refine ⟨fun op s' np step => ?_, fun p pid ev s' step => ?_⟩
  · obtain ⟨p, rfl⟩ := next_tells step
    exact forkDone_unmarked (init ▸ fam) (tidy np) step
  · obtain ⟨-, same⟩ := Option.ite_none_right_eq_some.mp step
    exact killsOnlyNamed_iff (fun q unused => (tidy q).unmarked trivial (.inl unused))
      (Option.some.inj same)

/-- Init calls `kill(0)` and forks. -/
def strayTrace : List (Op × Event) :=
  [(.schedule 0, .quiet), (.enter 0, .quiet), (.kill 0 0, .killReturns true), (.leave 0, .quiet),
    (.enter 0, .quiet), (.allocproc 0, .quiet), (.forkLink 0, .quiet), (.forkDone 0, .forked 1)]

theorem before_kill (test : Table → Bool)
    (ends : ((strayTrace.take 2).foldlM (Lts.follow next) boot).any test = true) :
    ∃ s, Lts.Run NamingStep boot (strayTrace.take 2) s ∧ test s := by
  obtain ⟨s, run, holds⟩ := Lts.Run.of_follow next _ test ends
  refine ⟨s, run.mono fun a inside _ _ step => ⟨step, fun p pid kills => ?_⟩, holds⟩
  simp only [strayTrace, take_succ_cons, take_zero, mem_cons, not_mem_nil, or_false] at inside
  rcases inside with rfl | rfl <;> cases kills

theorem kill_affects_named_init :
    ∃ s, Lts.Run NamingStep boot (strayTrace.take 2) s ∧
      s.Step (.kill 0 1, .killReturns true) (s.kill 1).2 ∧
      s.KillsOnlyNamed 1 (.killReturns true) (s.kill 1).2 := by
  obtain ⟨s, run, holds⟩ := before_kill (fun s => s.Calls 0 ∧ s.slotOf 1 = some 0 ∧
    (s.kill 1).1 = .killReturns true ∧ (s.task 0).state = .RUNNING) (by decide +kernel)
  obtain ⟨calls, slot, found, live⟩ := of_decide_eq_true holds
  have step : s.Step (.kill 0 1, .killReturns true) (s.kill 1).2 := by
    rw [Step, next, if_pos calls, ← found]
  refine ⟨s, run, step, ((kill_affects_named_iff run).2 _ _ _ _ step).mpr fun q stops => ?_⟩
  cases slot.symm.trans stops
  simp [live]

theorem kill_marks_free_slot :
    (∃ s, Lts.Run NamingStep boot (strayTrace.take 2) s ∧
      s.Step (.kill 0 0, .killReturns true) (s.kill 0).2 ∧
      (∀ q, (s.task q).pid = 0 → (s.task q).state = .UNUSED) ∧
      (s.task 1).state = .UNUSED ∧ (s.kill 0).2.task 1 ≠ s.task 1) ∧
    ∃ s, Lts.Run Step boot strayTrace s ∧ (s.task 1).killed = true := by
  refine ⟨?_, ?_⟩
  · obtain ⟨s, run, holds⟩ := before_kill (fun s =>
      s.Calls 0 ∧ (s.kill 0).1 = .killReturns true ∧
      (∀ q, (s.task q).pid = 0 → (s.task q).state = .UNUSED) ∧
      (s.task 1).state = .UNUSED ∧ (s.kill 0).2.task 1 ≠ s.task 1) (by decide +kernel)
    obtain ⟨calls, found, rest⟩ := of_decide_eq_true holds
    refine ⟨s, run, ?_, rest⟩
    rw [Step, next, if_pos calls, ← found]
  · obtain ⟨s, run, marked⟩ := Lts.Run.of_follow next strayTrace (s := boot)
      (fun s => (s.task 1).killed) (by decide +kernel)
    exact ⟨s, run, marked⟩

end Table

end Xv6.Lifetime
