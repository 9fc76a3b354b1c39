import Xv6.Library.Lts
import Xv6.Memory.SwapFile

/-!
The admission of file system operations to the log: `begin_op`, `end_op` and
`log_write` of `log.c`.

Each critical section of `log.lock` is one step, and so is a commit. A process may
have several operations open, since `filewrite` opens its own below `exec`. A process
whose test in `begin_op` fails sleeps on the log until a `wakeup`, and then tests
again. The blocks a page written to a swap file logs follow `filewrite`, `writei`,
`bmap` and `balloc`.
-/

set_option linter.unusedSectionVars false

namespace Xv6

open Function

abbrev MAXOPBLOCKS : Nat := 10
abbrev LOGSIZE : Nat := MAXOPBLOCKS * 3

/-- `struct log`; `block` is `lh.block` up to `lh.n`, and `log.size` is `LOGSIZE`. -/
structure Log where
  outstanding : Nat
  committing : Bool
  block : List Nat
  deriving DecidableEq

inductive LogError where
  | tooBigTransaction
  | outsideOfTrans
  | committing
  /-- The process is not at such a call. -/
  | disabled
  deriving DecidableEq

/-- The test of `begin_op` succeeds. -/
def Log.Admits (log : Log) : Prop :=
  log.committing = false ∧ log.block.length + (log.outstanding + 1) * MAXOPBLOCKS ≤ LOGSIZE

instance (log : Log) : Decidable log.Admits := inferInstanceAs (Decidable (_ ∧ _))

/-- Where a process is. -/
inductive OpPc where
  | running
  /-- It sleeps in `begin_op`. -/
  | asleep
  /-- It was woken up in `begin_op` and will test again. -/
  | woken
  /-- Its `end_op` was the last one and commits. -/
  | commits
  deriving DecidableEq

/-- The log and its users; `held` counts the operations a process has open. -/
structure LogState (P : Type) where
  log : Log
  pc : P → OpPc
  held : P → Nat

inductive LogOp where
  | beginOp
  /-- The loop of `begin_op` after a `wakeup`. -/
  | retry
  | logWrite (blockno : Nat)
  | endOp
  | commit
  deriving DecidableEq

namespace LogState

variable {P : Type} [DecidableEq P]

/-- After `initlog`. -/
def init : LogState P := ⟨⟨0, false, []⟩, fun _ => .running, fun _ => 0⟩

/-- `wakeup(&log)`. -/
def wakeup (s : LogState P) : LogState P :=
  { s with pc := fun p => if s.pc p = .asleep then .woken else s.pc p }

/-- One turn of the loop of `begin_op`. -/
def admission (s : LogState P) (p : P) : LogState P :=
  if s.log.Admits then
    { log := { s.log with outstanding := s.log.outstanding + 1 }
      pc := Function.update s.pc p .running
      held := Function.update s.held p (s.held p + 1) }
  else { s with pc := Function.update s.pc p .asleep }

def logWrite (s : LogState P) (blockno : Nat) : Except LogError (LogState P) :=
  if LOGSIZE ≤ s.log.block.length ∨ LOGSIZE - 1 ≤ s.log.block.length then
    .error .tooBigTransaction
  else if s.log.outstanding < 1 then .error .outsideOfTrans
  else if blockno ∈ s.log.block then .ok s
  else .ok { s with log := { s.log with block := s.log.block ++ [blockno] } }

/-- The first critical section of `end_op`. -/
def endOp (s : LogState P) (p : P) : Except LogError (LogState P) :=
  let s := { s with
    log := { s.log with outstanding := s.log.outstanding - 1 }
    held := Function.update s.held p (s.held p - 1) }
  if s.log.committing then .error .committing
  else if s.log.outstanding = 0 then
    .ok { s with
      log := { s.log with committing := true }
      pc := Function.update s.pc p .commits }
  else .ok s.wakeup

/-- `commit` and the second critical section of `end_op`. -/
def commit (s : LogState P) (p : P) : LogState P :=
  { s with
    log := { s.log with committing := false, block := [] }
    pc := Function.update s.pc p .running }.wakeup

/-- The process can make this step. -/
def Enabled (s : LogState P) (p : P) : LogOp → Prop
  | .beginOp | .logWrite _ => s.pc p = .running
  | .retry => s.pc p = .woken
  | .endOp => s.pc p = .running ∧ 0 < s.held p
  | .commit => s.pc p = .commits

instance (s : LogState P) (p : P) (op : LogOp) : Decidable (s.Enabled p op) :=
  match op with
  | .beginOp | .logWrite _ | .retry | .commit => inferInstanceAs (Decidable (_ = _))
  | .endOp => inferInstanceAs (Decidable (_ ∧ _))

def apply (s : LogState P) (p : P) : LogOp → Except LogError (LogState P)
  | .beginOp | .retry => .ok (s.admission p)
  | .logWrite blockno => s.logWrite blockno
  | .endOp => s.endOp p
  | .commit => .ok (s.commit p)

/-- A step of a process. -/
def next (s : LogState P) (a : P × LogOp) : Except LogError (LogState P) :=
  if s.Enabled a.1 a.2 then s.apply a.1 a.2 else .error .disabled

/-- An operation is open, and whoever has one open sleeps in `begin_op`. -/
def Deadlocked (s : LogState P) : Prop :=
  0 < s.log.outstanding ∧ ∀ p, 0 < s.held p → s.pc p = .asleep

/-- The process has an operation open and asks for another one that is not admitted. -/
def WaitsInside (s : LogState P) (p : P) (op : LogOp) : Prop :=
  (op = .beginOp ∨ op = .retry) ∧ 0 < s.held p ∧ ¬ s.log.Admits

/-- Who waits with an operation open leaves another one that can still end its own. -/
def Covered (s : LogState P) (a : P × LogOp) : Prop :=
  s.WaitsInside a.1 a.2 → ∃ q, q ≠ a.1 ∧ 0 < s.held q ∧ s.pc q ≠ .asleep

/-- The counter of open operations is right, and there are none during a commit. -/
structure Sound [Fintype P] (s : LogState P) : Prop where
  counted : s.log.outstanding = ∑ p, s.held p
  quiet : s.log.committing = true → s.log.outstanding = 0
  commits : ∀ p, s.pc p = .commits → s.log.committing = true
  one : ∀ p q, s.pc p = .commits → s.pc q = .commits → p = q

/-- Covered steps. -/
def CoveredStep (s : LogState P) (a : P × LogOp) (s' : LogState P) : Prop :=
  s.next a = .ok s' ∧ Covered s a

section Steps

variable [Fintype P] {s s' : LogState P} {p : P} {op : LogOp}

theorem sum_update (f : P → Nat) (p : P) (n : Nat) :
    ∑ q, update f p n q + f p = ∑ q, f q + n := by
  have inside := Finset.mem_univ p
  rw [Finset.sum_update_of_mem inside, ← Finset.add_sum_erase Finset.univ f inside,
    Finset.sdiff_singleton_eq_erase]
  omega

/-- An open operation has a process that opened it. -/
theorem Sound.exists_held (sound : Sound s) (pos : 0 < s.log.outstanding) :
    ∃ p, 0 < s.held p := by
  by_contra none
  have zero : ∑ p, s.held p = 0 :=
    Finset.sum_eq_zero fun p _ => Nat.le_zero.mp (Nat.not_lt.mp fun pos => none ⟨p, pos⟩)
  rw [sound.counted, zero] at pos
  exact absurd pos (Nat.lt_irrefl 0)

theorem sound_init : Sound (init : LogState P) where
  counted := by simp [init]
  quiet := by simp [init]
  commits := by simp [init]
  one := by simp [init]

theorem wakeup_not_asleep (s : LogState P) (p : P) : s.wakeup.pc p ≠ .asleep := by
  unfold wakeup
  simp only
  split
  · simp
  · assumption

theorem wakeup_commits (s : LogState P) (p : P) :
    s.wakeup.pc p = .commits ↔ s.pc p = .commits := by
  unfold wakeup
  simp only
  split
  · rename_i asleep
    simp [asleep]
  · rfl

theorem Sound.wakeup (sound : Sound s) : Sound s.wakeup where
  counted := sound.counted
  quiet := sound.quiet
  commits p at' := sound.commits p ((wakeup_commits s p).mp at')
  one p q atP atQ := sound.one p q ((wakeup_commits s p).mp atP) ((wakeup_commits s q).mp atQ)

/-- A process that does not commit changes its place. -/
theorem update_commits {pc : P → OpPc} {p q : P} {place : OpPc} (other : place ≠ .commits)
    (at' : update pc p place q = .commits) : pc q = .commits := by
  by_cases same : q = p
  · subst same
    rw [update_self] at at'
    exact absurd at' other
  · rwa [update_of_ne same] at at'

theorem Sound.admission (sound : Sound s) (p : P) : Sound (s.admission p) := by
  unfold LogState.admission
  split
  · rename_i admits
    refine ⟨?_, ?_, fun q at' => sound.commits q (update_commits (by simp) at'),
      fun q q' at' at'' => sound.one q q' (update_commits (by simp) at')
        (update_commits (by simp) at'')⟩
    · have sum := sum_update s.held p (s.held p + 1)
      have counted := sound.counted
      simp only
      omega
    · intro committing
      simp only [admits.1] at committing
      cases committing
  · exact ⟨sound.counted, sound.quiet, fun q at' => sound.commits q (update_commits (by simp) at'),
      fun q q' at' at'' => sound.one q q' (update_commits (by simp) at')
        (update_commits (by simp) at'')⟩

theorem logWrite_ok {blockno : Nat} (run : s.logWrite blockno = .ok s') :
    s'.pc = s.pc ∧ s'.held = s.held ∧ s'.log.outstanding = s.log.outstanding ∧
      s'.log.committing = s.log.committing := by
  unfold LogState.logWrite at run
  split at run
  · cases run
  · split at run
    · cases run
    · split at run <;> cases run <;> exact ⟨rfl, rfl, rfl, rfl⟩

/-- The last operation to end commits; otherwise everybody is woken up. -/
theorem Sound.endOp (sound : Sound s) (pos : 0 < s.held p) (run : s.endOp p = .ok s') :
    Sound s' ∧ (s'.log.outstanding = 0 ∨ ∀ q, s'.pc q ≠ .asleep) := by
  have sum := sum_update s.held p (s.held p - 1)
  have counted := sound.counted
  unfold LogState.endOp at run
  simp only at run
  split at run
  · cases run
  · rename_i idle
    have nobody : ∀ q, s.pc q ≠ .commits := fun q at' => idle (sound.commits q at')
    split at run
    · rename_i last
      cases run
      refine ⟨⟨by simp only; omega, fun _ => last, fun _ _ => rfl, fun q q' at' at'' => ?_⟩,
        Or.inl last⟩
      have here : ∀ q, update s.pc p .commits q = .commits → q = p := by
        intro q at'
        by_contra other
        rw [update_of_ne other] at at'
        exact nobody q at'
      exact (here q at').trans (here q' at'').symm
    · cases run
      have sound' : Sound { s with
          log := { s.log with outstanding := s.log.outstanding - 1 }
          held := update s.held p (s.held p - 1) } :=
        ⟨by simp only; omega, fun committing => absurd committing idle,
          fun q at' => absurd at' (nobody q), fun q _ at' => absurd at' (nobody q)⟩
      exact ⟨sound'.wakeup, Or.inr (wakeup_not_asleep _)⟩

theorem Sound.commit (sound : Sound s) (at' : s.pc p = .commits) : Sound (s.commit p) := by
  have none : s.log.outstanding = 0 := sound.quiet (sound.commits p at')
  have nobody : ∀ q, update s.pc p .running q ≠ .commits := by
    intro q also
    by_cases same : q = p
    · subst same
      simp at also
    · rw [update_of_ne same] at also
      exact same (sound.one q p also at')
  have sound' : Sound { s with
      log := { s.log with committing := false, block := [] }
      pc := update s.pc p .running } :=
    ⟨sound.counted, fun _ => none, fun q also => absurd also (nobody q),
      fun q _ also => absurd also (nobody q)⟩
  exact sound'.wakeup

theorem next_ok (step : s.next (p, op) = .ok s') :
    s.Enabled p op ∧ s.apply p op = .ok s' := by
  unfold next at step
  split at step
  · exact ⟨by assumption, step⟩
  · cases step

theorem Sound.step (sound : Sound s) (step : s.next (p, op) = .ok s') : Sound s' := by
  obtain ⟨enabled, run⟩ := next_ok step
  cases op with
  | beginOp | retry =>
    cases run
    exact sound.admission p
  | logWrite blockno =>
    obtain ⟨pc, held, outstanding, committing⟩ := logWrite_ok run
    constructor
    · rw [outstanding, held]
      exact sound.counted
    · rw [outstanding, committing]
      exact sound.quiet
    · rw [pc, committing]
      exact sound.commits
    · rw [pc]
      exact sound.one
  | endOp => exact (sound.endOp enabled.2 run).1
  | commit =>
    cases run
    exact sound.commit enabled

/-- A turn of `begin_op` deadlocks the log exactly if the process waits with an operation
open and nobody else with one is awake. -/
theorem Sound.admission_deadlocked (sound : Sound s) (fine : ¬ s.Deadlocked)
    (isTurn : op = .beginOp ∨ op = .retry) :
    (s.admission p).Deadlocked ↔ ¬ Covered s (p, op) := by
  unfold LogState.admission
  by_cases admits : s.log.Admits
  · rw [if_pos admits]
    have covered : Covered s (p, op) := fun waits => absurd admits waits.2.2
    refine ⟨fun dead => ?_, fun bad => absurd covered bad⟩
    have awake := dead.2 p (by simp)
    simp at awake
  · rw [if_neg admits]
    have others : ∀ q, q ≠ p → update s.pc p .asleep q = s.pc q := fun q other =>
      update_of_ne other ..
    constructor
    · rintro ⟨_, asleep⟩ covered
      -- Some process with an open operation was awake before; it must be the one that waits.
      obtain ⟨q, pos, awake⟩ : ∃ q, 0 < s.held q ∧ s.pc q ≠ .asleep := by
        by_contra none
        refine fine ⟨by assumption, fun q pos => ?_⟩
        by_contra awake
        exact none ⟨q, pos, awake⟩
      have same : q = p := by
        by_contra other
        exact awake ((others q other).symm.trans (asleep q pos))
      subst same
      obtain ⟨q', other, pos', awake'⟩ := covered ⟨isTurn, pos, admits⟩
      exact awake' ((others q' other).symm.trans (asleep q' pos'))
    · intro bad
      obtain ⟨waits, none⟩ : s.WaitsInside p op ∧
          ¬ ∃ q, q ≠ p ∧ 0 < s.held q ∧ s.pc q ≠ .asleep := by
        by_contra notBoth
        exact bad fun waits => by_contra fun none => notBoth ⟨waits, none⟩
      obtain ⟨_, pos, _⟩ := waits
      refine ⟨?_, fun q held => ?_⟩
      · change 0 < s.log.outstanding
        rw [sound.counted]
        exact Finset.sum_pos' (fun _ _ => Nat.zero_le _) ⟨p, Finset.mem_univ p, pos⟩
      · by_cases same : q = p
        · subst same
          simp
        · refine (others q same).trans ?_
          by_contra awake
          exact none ⟨q, same, held, awake⟩

/-- From a state that is not deadlocked a step leads to a deadlock exactly if it is not
covered. -/
theorem Sound.step_deadlocked (sound : Sound s) (fine : ¬ s.Deadlocked)
    (step : s.next (p, op) = .ok s') : s'.Deadlocked ↔ ¬ Covered s (p, op) := by
  have sound' := sound.step step
  obtain ⟨enabled, run⟩ := next_ok step
  cases op with
  | beginOp =>
    cases run
    exact sound.admission_deadlocked fine (Or.inl rfl)
  | retry =>
    cases run
    exact sound.admission_deadlocked fine (Or.inr rfl)
  | logWrite blockno =>
    obtain ⟨pc, held, outstanding, _⟩ := logWrite_ok run
    have covered : Covered s (p, .logWrite blockno) := by
      rintro ⟨h | h, _⟩ <;> cases h
    refine ⟨fun dead => absurd ?_ fine, fun bad => absurd covered bad⟩
    obtain ⟨pos, asleep⟩ := dead
    rw [outstanding] at pos
    rw [pc, held] at asleep
    exact ⟨pos, asleep⟩
  | endOp =>
    have covered : Covered s (p, .endOp) := by
      rintro ⟨h | h, _⟩ <;> cases h
    refine ⟨fun dead => ?_, fun bad => absurd covered bad⟩
    rcases (sound.endOp enabled.2 run).2 with last | awake
    · rw [Deadlocked, last] at dead
      exact absurd dead.1 (Nat.lt_irrefl 0)
    · obtain ⟨q, pos⟩ := sound'.exists_held dead.1
      exact absurd (dead.2 q pos) (awake q)
  | commit =>
    have covered : Covered s (p, .commit) := by
      rintro ⟨h | h, _⟩ <;> cases h
    refine ⟨fun dead => ?_, fun bad => absurd covered bad⟩
    cases run
    obtain ⟨q, pos⟩ := sound'.exists_held dead.1
    exact absurd (dead.2 q pos) (wakeup_not_asleep _ q)

end Steps

end LogState

/-- The disk blocks of a swap file and of what describes it. -/
structure SwapInode where
  inode : Nat
  bitmap : Nat
  indirect : Nat
  data : Nat → Nat

abbrev NDIRECT : Nat := 12

/-- What `bmap` and `writei` log for a block the file did not have. -/
def SwapInode.newBlock (ip : SwapInode) (bn : Nat) : List Nat :=
  if bn < NDIRECT then [ip.bitmap, ip.data bn, ip.data bn]
  else
    (if bn = NDIRECT then [ip.bitmap, ip.indirect] else []) ++
      [ip.bitmap, ip.data bn, ip.indirect, ip.data bn]

/-- The loop of `filewrite` that appends `n` blocks from block `bn` on: each chunk is an
operation of its own. -/
def SwapInode.filewriteOps (ip : SwapInode) : Nat → Nat → Nat → List LogOp
  | 0, _, _ => []
  | fuel + 1, bn, n =>
    if n = 0 then []
    else
      let n1 := min n (WRITEMAX / BSIZE)
      let logged := (List.range n1).flatMap (fun i => ip.newBlock (bn + i)) ++ [ip.inode]
      .beginOp :: logged.map .logWrite ++ [.endOp] ++ ip.filewriteOps fuel (bn + n1) (n - n1)

/-- A page written to a slot at the end of the file. -/
def SwapInode.pageOps (ip : SwapInode) (slot : Nat) : List LogOp :=
  ip.filewriteOps (PGSIZE / BSIZE) (slot * (PGSIZE / BSIZE)) (PGSIZE / BSIZE)

/-- The start of an `exec` that evicts two pages while it loads its image. -/
def SwapInode.execOps (ip : SwapInode) : List LogOp :=
  .beginOp :: (ip.pageOps 0 ++ ip.pageOps 1)

def sampleInode : SwapInode := ⟨40, 58, 500, fun bn => 600 + bn⟩

namespace LogState

end LogState

end Xv6
