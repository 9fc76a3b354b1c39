import Xv6.System.Log

/-!
The room that `begin_op` reserves in the log against the room that `log_write` needs.

The operations are not nested and keep to their budget of `MAXOPBLOCKS` distinct blocks; the
blocks that the open operation of a process has logged are recorded beside the log. A log of
`LOGSIZE` blocks has one for the header, and `log_write` needs another free one even for a
block that is already there, while `begin_op` admits operations up to `LOGSIZE` blocks.
-/

namespace Xv6

open Finset Function LogState

structure Budget (P : Type) where
  log : LogState P
  /-- The distinct blocks logged by the open operation. -/
  mine : P → Finset Nat

namespace Budget

variable {P : Type} [DecidableEq P]

def init : Budget P := ⟨LogState.init, fun _ => ∅⟩

/-- The call is not nested and keeps to the budget. -/
def Within (s : Budget P) : P × LogOp → Prop
  | (p, .beginOp) => s.log.held p = 0
  | (p, .logWrite blockno) =>
    0 < s.log.held p ∧ (insert blockno (s.mine p)).card ≤ MAXOPBLOCKS
  | _ => True

def track (s : Budget P) : P × LogOp → P → Finset Nat
  | (p, .logWrite blockno) => Function.update s.mine p (insert blockno (s.mine p))
  | (p, .endOp) => Function.update s.mine p ∅
  | _ => s.mine

instance (s : Budget P) (a : P × LogOp) : Decidable (s.Within a) :=
  match a with
  | (_, .beginOp) => inferInstanceAs (Decidable (_ = _))
  | (_, .logWrite _) => inferInstanceAs (Decidable (_ ∧ _))
  | (_, .retry) | (_, .endOp) | (_, .commit) => inferInstanceAs (Decidable True)

def next (s : Budget P) (a : P × LogOp) : Except LogError (Budget P) :=
  if s.Within a then (s.log.next a).map fun log => ⟨log, s.track a⟩ else .error .disabled

def Step (s : Budget P) (a : P × LogOp) (s' : Budget P) : Prop := s.next a = .ok s'

/-- `log_write` panics although the call keeps to the budget. -/
def Overflows (s : Budget P) : Prop := ∃ a, s.next a = .error .tooBigTransaction

/-- The blocks that the open operation of a process may still log. -/
def left (s : Budget P) (p : P) : Nat :=
  if 0 < s.log.held p then MAXOPBLOCKS - (s.mine p).card else 0

section

variable [Fintype P]

/-- The log with all that may still come. -/
def demand (s : Budget P) : Nat := s.log.log.block.length + ∑ p, s.left p

/-- An operation is admitted. -/
def Admission (s : Budget P) (a : P × LogOp) : Prop :=
  (a.2 = .beginOp ∨ a.2 = .retry) ∧ s.log.log.Admits

/-- There is room for one more operation. -/
def Room (s : Budget P) : Prop := s.demand + MAXOPBLOCKS ≤ LOGSIZE - 2

/-- A step that admits an operation only if there is room for it. -/
def RoomStep (s : Budget P) (a : P × LogOp) (s' : Budget P) : Prop :=
  s.Step a s' ∧ (s.Admission a → s.Room)

structure Tracked (s : Budget P) : Prop where
  sound : s.log.Sound
  closed : ∀ p, s.log.held p = 0 → s.mine p = ∅
  active : ∀ p, 0 < s.log.held p → s.log.held p = 1 ∧ s.log.pc p = .running
  logged : ∀ p, ∀ b ∈ s.mine p, b ∈ s.log.log.block
  few : ∀ p, (s.mine p).card ≤ MAXOPBLOCKS

variable {s s' : Budget P} {p : P} {a : P × LogOp} {t : LogState P} {blockno : Nat}

omit [Fintype P] in
theorem step_iff :
    s.Step a s' ↔ s.Within a ∧ s.log.next a = .ok s'.log ∧ s'.mine = s.track a := by
  unfold Step next
  by_cases within : s.Within a
  · rw [if_pos within]
    cases result : s.log.next a with
    | error e => simp [Except.map]
    | ok log =>
      simp only [Except.map, Except.ok.injEq, within, true_and]
      constructor
      · rintro rfl
        exact ⟨rfl, rfl⟩
      · rintro ⟨rfl, mine⟩
        cases s'
        exact congrArg _ mine.symm
  · simp [within]

omit [DecidableEq P] [Fintype P] in
theorem logWrite_panics_iff :
    t.logWrite blockno = .error .tooBigTransaction ↔ LOGSIZE - 1 ≤ t.log.block.length := by
  unfold LogState.logWrite
  by_cases full : LOGSIZE - 1 ≤ t.log.block.length
  · simp [full]
  · have small : ¬ LOGSIZE ≤ t.log.block.length := by omega
    rw [if_neg (not_or.mpr ⟨small, full⟩)]
    split_ifs <;> simp [full]

omit [Fintype P] in
theorem next_panics (within : s.Within (p, .logWrite blockno)) (running : s.log.pc p = .running)
    (full : LOGSIZE - 1 ≤ s.log.log.block.length) :
    s.next (p, .logWrite blockno) = .error .tooBigTransaction := by
  have enabled : s.log.Enabled p (.logWrite blockno) := running
  rw [next, if_pos within, LogState.next, if_pos enabled, LogState.apply,
    logWrite_panics_iff.mpr full]
  rfl

omit [Fintype P] in
theorem overflows_iff : s.Overflows ↔ ∃ p blockno, s.Within (p, .logWrite blockno) ∧
    s.log.pc p = .running ∧ LOGSIZE - 1 ≤ s.log.log.block.length := by
  constructor
  · rintro ⟨⟨p, op⟩, panics⟩
    unfold next at panics
    split at panics
    case isFalse => cases panics
    case isTrue within =>
      have panics : s.log.next (p, op) = .error .tooBigTransaction := by
        cases result : s.log.next (p, op) with
        | error e =>
          rw [result] at panics
          cases panics
          rfl
        | ok log =>
          rw [result] at panics
          cases panics
      unfold LogState.next at panics
      split at panics
      case isFalse => cases panics
      case isTrue enabled =>
        cases op with
        | logWrite blockno => exact ⟨p, blockno, within, enabled, logWrite_panics_iff.mp panics⟩
        | beginOp | retry | commit => cases panics
        | endOp =>
          simp only [LogState.apply, LogState.endOp] at panics
          split_ifs at panics
          cases panics
  · rintro ⟨p, blockno, within, running, full⟩
    exact ⟨(p, .logWrite blockno), next_panics within running full⟩

theorem tracked_init : (init : Budget P).Tracked :=
  ⟨sound_init, fun _ _ => rfl, fun _ open' => absurd open' (Nat.lt_irrefl 0),
    fun _ _ none => absurd none (notMem_empty _), fun _ => Nat.zero_le _⟩

/-- Only what belongs to `p` changes in the sum. -/
theorem demand_update (s s' : Budget P) (p : P) (others : ∀ q, q ≠ p → s'.left q = s.left q) :
    s'.demand + (s.log.log.block.length + s.left p) =
      s.demand + (s'.log.log.block.length + s'.left p) := by
  have same : s'.left = update s.left p (s'.left p) := by
    funext q
    by_cases isP : q = p
    · rw [isP, update_self]
    · rw [update_of_ne isP, others q isP]
  have sum := sum_update s.left p (s'.left p)
  rw [← same] at sum
  unfold demand
  omega

omit [DecidableEq P] [Fintype P] in
theorem left_congr {q : P} (held : s'.log.held q = s.log.held q) (mine : s'.mine q = s.mine q) :
    s'.left q = s.left q := by
  rw [left, left, held, mine]

theorem Tracked.admission (tracked : s.Tracked) (closed : s.log.held p = 0)
    (log : s'.log = s.log.admission p) (mine : s'.mine = s.mine) :
    s'.Tracked ∧
      s'.demand = if s.log.log.Admits then s.demand + MAXOPBLOCKS else s.demand := by
  have sound : s'.log.Sound := log ▸ tracked.sound.admission p
  rw [LogState.admission] at log
  split
  case isTrue admits =>
    rw [if_pos admits] at log
    have held : s'.log.held = update s.log.held p 1 := by rw [log, closed]
    have pc : s'.log.pc = update s.log.pc p .running := by rw [log]
    have block : s'.log.log.block = s.log.log.block := by rw [log]
    refine ⟨⟨sound, fun q zero => ?_, fun q open' => ?_, fun q b inside => ?_, fun q => ?_⟩, ?_⟩
    · by_cases same : q = p
      · simp [held, same] at zero
      · exact mine ▸ tracked.closed q (by simpa [held, same] using zero)
    · by_cases same : q = p
      · simp [held, pc, same]
      · simpa [held, pc, same] using tracked.active q (by simpa [held, same] using open')
    · rw [block]
      exact tracked.logged q b (mine ▸ inside)
    · exact mine ▸ tracked.few q
    · have change := demand_update s s' p fun q other =>
        left_congr (by rw [held, update_of_ne other]) (by rw [mine])
      have before : s.left p = 0 := by simp [left, closed]
      have after : s'.left p = MAXOPBLOCKS := by
        simp [left, held, mine, tracked.closed p closed]
      rw [block, before, after] at change
      omega
  case isFalse waits =>
    rw [if_neg waits] at log
    have held : s'.log.held = s.log.held := by rw [log]
    have pc : s'.log.pc = update s.log.pc p .asleep := by rw [log]
    have block : s'.log.log.block = s.log.log.block := by rw [log]
    refine ⟨⟨sound, fun q zero => ?_, fun q open' => ?_, fun q b inside => ?_, fun q => ?_⟩, ?_⟩
    · exact mine ▸ tracked.closed q (held ▸ zero)
    · rw [held] at open' ⊢
      have other : q ≠ p := by
        rintro rfl
        exact absurd closed (Nat.ne_of_gt open')
      simpa [pc, other] using tracked.active q open'
    · rw [block]
      exact tracked.logged q b (mine ▸ inside)
    · exact mine ▸ tracked.few q
    · have same : s'.left = s.left := funext fun q => left_congr (by rw [held]) (by rw [mine])
      rw [demand, demand, block, same]

omit [DecidableEq P] [Fintype P] in
/-- A call of `log_write` that does not panic logs the block unless it is there. -/
theorem logWrite_block {t' : LogState P} (log : t.logWrite blockno = .ok t') :
    t'.log.block = if blockno ∈ t.log.block then t.log.block else t.log.block ++ [blockno] := by
  unfold LogState.logWrite at log
  split at log
  · cases log
  · split at log
    · cases log
    · split at log
      case isTrue inside =>
        cases log
        rw [if_pos inside]
      case isFalse outside =>
        cases log
        rw [if_neg outside]

theorem Tracked.logWrite (tracked : s.Tracked) (sound : s'.log.Sound)
    (within : s.Within (p, .logWrite blockno)) (log : s.log.logWrite blockno = .ok s'.log)
    (mine : s'.mine = s.track (p, .logWrite blockno)) :
    s'.Tracked ∧ s'.demand ≤ s.demand ∧ (blockno ∉ s.log.log.block → s'.demand = s.demand) := by
  obtain ⟨open', budget⟩ := within
  obtain ⟨pc, held, -, -⟩ := logWrite_ok log
  have block := logWrite_block log
  have mineP : s'.mine p = insert blockno (s.mine p) := by rw [mine]; exact update_self ..
  have mineQ : ∀ q, q ≠ p → s'.mine q = s.mine q := fun q other => by
    rw [mine]
    exact update_of_ne other ..
  have kept : ∀ b ∈ s.log.log.block, b ∈ s'.log.log.block := by
    intro b inside
    rw [block]
    split
    · exact inside
    · exact List.mem_append_left _ inside
  have added : blockno ∈ s'.log.log.block := by
    rw [block]
    split
    · assumption
    · simp
  refine ⟨⟨sound, fun q zero => ?_, fun q open' => ?_, fun q b inside => ?_, fun q => ?_⟩, ?_⟩
  · rw [held] at zero
    rw [mineQ q fun same => Nat.ne_of_gt open' (same ▸ zero)]
    exact tracked.closed q zero
  · rw [held, pc]
    exact tracked.active q (held ▸ open')
  · by_cases same : q = p
    · subst same
      rw [mineP] at inside
      rcases mem_insert.mp inside with rfl | inside
      · exact added
      · exact kept b (tracked.logged q b inside)
    · rw [mineQ q same] at inside
      exact kept b (tracked.logged q b inside)
  · by_cases same : q = p
    · rw [same, mineP]
      exact budget
    · rw [mineQ q same]
      exact tracked.few q
  · have change := demand_update s s' p fun q other =>
      left_congr (by rw [held]) (mineQ q other)
    have before : s.left p = MAXOPBLOCKS - (s.mine p).card := if_pos open'
    have after : s'.left p = MAXOPBLOCKS - (insert blockno (s.mine p)).card := by
      rw [left, if_pos (held ▸ open'), mineP]
    by_cases again : blockno ∈ s.mine p
    · have inside := tracked.logged p blockno again
      rw [if_pos inside] at block
      rw [insert_eq_of_mem again] at after
      rw [block, before, after] at change
      exact ⟨by omega, fun fresh => absurd inside fresh⟩
    · rw [card_insert_of_notMem again] at after budget
      split at block <;> rw [block] at change
      · exact ⟨by omega, fun fresh => by contradiction⟩
      · rw [List.length_append, List.length_singleton] at change
        exact ⟨by omega, fun _ => by omega⟩

theorem Tracked.endOp (tracked : s.Tracked) (sound : s'.log.Sound) (open' : 0 < s.log.held p)
    (log : s.log.endOp p = .ok s'.log) (mine : s'.mine = s.track (p, .endOp)) :
    s'.Tracked ∧ s'.demand ≤ s.demand := by
  have one := (tracked.active p open').1
  have ended : s'.log.held = update s.log.held p 0 ∧ s'.log.log.block = s.log.log.block ∧
      ∀ q, q ≠ p → s.log.pc q = .running → s'.log.pc q = .running := by
    unfold LogState.endOp at log
    simp only [one] at log
    split at log
    · cases log
    · split at log <;> rw [← Except.ok.inj log]
      · exact ⟨rfl, rfl, fun q other running => (update_of_ne other ..).trans running⟩
      · refine ⟨rfl, rfl, fun q _ running => ?_⟩
        simp [wakeup, running]
  obtain ⟨held, block, pc⟩ := ended
  have mineP : s'.mine p = ∅ := by rw [mine]; exact update_self ..
  have mineQ : ∀ q, q ≠ p → s'.mine q = s.mine q := fun q other => by
    rw [mine]
    exact update_of_ne other ..
  refine ⟨⟨sound, fun q zero => ?_, fun q active => ?_, fun q b inside => ?_, fun q => ?_⟩, ?_⟩
  · by_cases same : q = p
    · exact same ▸ mineP
    · rw [mineQ q same]
      exact tracked.closed q (by simpa [held, same] using zero)
  · have other : q ≠ p := by
      rintro rfl
      simp [held] at active
    rw [held, update_of_ne other] at active ⊢
    exact ⟨(tracked.active q active).1, pc q other (tracked.active q active).2⟩
  · by_cases same : q = p
    · rw [same, mineP] at inside
      exact absurd inside (notMem_empty b)
    · rw [block]
      exact tracked.logged q b (mineQ q same ▸ inside)
  · by_cases same : q = p
    · rw [same, mineP]
      exact Nat.zero_le _
    · rw [mineQ q same]
      exact tracked.few q
  · have change := demand_update s s' p fun q other =>
      left_congr (by rw [held, update_of_ne other]) (mineQ q other)
    have after : s'.left p = 0 := by simp [left, held]
    rw [block, after] at change
    omega

theorem Tracked.commit (tracked : s.Tracked) (sound : s'.log.Sound)
    (commits : s.log.pc p = .commits) (log : s'.log = s.log.commit p) (mine : s'.mine = s.mine) :
    s'.Tracked ∧ s'.demand ≤ s.demand := by
  have none : s.log.log.outstanding = 0 := tracked.sound.quiet (tracked.sound.commits p commits)
  have held : s'.log.held = s.log.held := by rw [log]; rfl
  have idle : ∀ q, s.log.held q = 0 := by
    have counted := tracked.sound.counted
    rw [none] at counted
    exact fun q => sum_eq_zero_iff.mp counted.symm q (mem_univ q)
  have empty : ∀ q, s'.mine q = ∅ := fun q => by
    rw [mine]
    exact tracked.closed q (idle q)
  refine ⟨⟨sound, fun q _ => empty q, fun q active => ?_, fun q b inside => ?_, fun q => ?_⟩, ?_⟩
  · rw [held, idle q] at active
    exact absurd active (Nat.lt_irrefl 0)
  · rw [empty q] at inside
    exact absurd inside (notMem_empty b)
  · rw [empty q]
    exact Nat.zero_le _
  · have block : s'.log.log.block = [] := by rw [log]; rfl
    have same : s'.left = s.left := funext fun q => left_congr (by rw [held]) (by rw [mine])
    rw [demand, demand, block, same]
    simp

theorem Tracked.step (tracked : s.Tracked) (step : s.Step a s') :
    s'.Tracked ∧ (s.Admission a → s'.demand = s.demand + MAXOPBLOCKS) ∧
      (¬ s.Admission a → s'.demand ≤ s.demand) := by
  obtain ⟨p, op⟩ := a
  obtain ⟨within, next, mine⟩ := step_iff.mp step
  have sound := tracked.sound.step next
  obtain ⟨enabled, applied⟩ := next_ok next
  have turn : ∀ (isTurn : op = .beginOp ∨ op = .retry), s.log.held p = 0 →
      s'.log = s.log.admission p → s'.mine = s.mine →
      s'.Tracked ∧ (s.Admission (p, op) → s'.demand = s.demand + MAXOPBLOCKS) ∧
      (¬ s.Admission (p, op) → s'.demand ≤ s.demand) := by
    intro isTurn closed log mine
    obtain ⟨tracked', demand⟩ := tracked.admission closed log mine
    refine ⟨tracked', fun admission => ?_, fun none => ?_⟩
    · rw [demand, if_pos admission.2]
    · rw [demand, if_neg fun admits => none ⟨isTurn, admits⟩]
  cases op with
  | beginOp =>
    exact turn (.inl rfl) within (Except.ok.inj applied).symm mine
  | retry =>
    refine turn (.inr rfl) ?_ (Except.ok.inj applied).symm mine
    by_contra open'
    have running := (tracked.active p (Nat.pos_of_ne_zero open')).2
    cases running.symm.trans enabled
  | logWrite blockno =>
    obtain ⟨tracked', less, -⟩ := tracked.logWrite sound within applied mine
    exact ⟨tracked', fun admission => (by rcases admission.1 with h | h <;> cases h), fun _ => less⟩
  | endOp =>
    obtain ⟨tracked', less⟩ := tracked.endOp sound enabled.2 applied mine
    exact ⟨tracked', fun admission => (by rcases admission.1 with h | h <;> cases h), fun _ => less⟩
  | commit =>
    obtain ⟨tracked', less⟩ := tracked.commit sound enabled (Except.ok.inj applied).symm mine
    exact ⟨tracked', fun admission => (by rcases admission.1 with h | h <;> cases h), fun _ => less⟩

theorem Tracked.safe (small : s.demand ≤ LOGSIZE - 2) : ¬ s.Overflows := by
  rw [overflows_iff]
  rintro ⟨p, blockno, -, -, full⟩
  have : s.log.log.block.length ≤ s.demand := Nat.le_add_right ..
  have : LOGSIZE = 30 := rfl
  omega

/-- Along steps with room the demand stays small. -/
theorem Tracked.run {trace : List (P × LogOp)} (run : Lts.Run RoomStep s trace s')
    (start : s.Tracked ∧ s.demand ≤ LOGSIZE - 2) : s'.Tracked ∧ s'.demand ≤ LOGSIZE - 2 := by
  refine run.invariant (I := fun s => s.Tracked ∧ s.demand ≤ LOGSIZE - 2) ?_ start
  rintro s a s' ⟨tracked, small⟩ ⟨step, room⟩
  obtain ⟨tracked', more, less⟩ := tracked.step step
  refine ⟨tracked', ?_⟩
  by_cases admission : s.Admission a
  · rw [more admission]
    exact room admission
  · exact (less admission).trans small

/-- Operations that still have to log more blocks than fit can do so. -/
theorem Tracked.overflows (tracked : s.Tracked) (large : LOGSIZE - 1 ≤ s.demand)
    (open' : 0 < s.log.held p) :
    ∃ trace s', Lts.Run RoomStep s trace s' ∧ s'.Overflows := by
  obtain ⟨room, count⟩ : ∃ room, LOGSIZE - 1 - s.log.log.block.length = room := ⟨_, rfl⟩
  induction room generalizing s with
  | zero =>
    obtain ⟨blockno, budget⟩ : ∃ b, (insert b (s.mine p)).card ≤ MAXOPBLOCKS := by
      rcases (s.mine p).eq_empty_or_nonempty with empty | ⟨b, inside⟩
      · exact ⟨0, by rw [empty]; decide⟩
      · exact ⟨b, by rw [insert_eq_of_mem inside]; exact tracked.few p⟩
    refine ⟨[], s, .nil s, overflows_iff.mpr ⟨p, blockno, ⟨open', budget⟩, ?_, by omega⟩⟩
    exact (tracked.active p open').2
  | succ room ih =>
    have some : 0 < ∑ q, s.left q := by
      unfold demand at large
      omega
    obtain ⟨q, -, more⟩ := exists_ne_zero_of_sum_ne_zero (Nat.ne_of_gt some)
    have openQ : 0 < s.log.held q := by
      by_contra closed
      exact more (if_neg closed)
    obtain ⟨blockno, fresh⟩ := Infinite.exists_notMem_finset s.log.log.block.toFinset
    rw [List.mem_toFinset] at fresh
    have running := (tracked.active q openQ).2
    have within : s.Within (q, .logWrite blockno) := by
      refine ⟨openQ, ?_⟩
      have : s.left q = MAXOPBLOCKS - (s.mine q).card := if_pos openQ
      have := card_insert_le blockno (s.mine q)
      omega
    have outstanding : ¬ s.log.log.outstanding < 1 := by
      have := single_le_sum (fun q _ => Nat.zero_le (s.log.held q)) (mem_univ q)
      have := tracked.sound.counted
      omega
    let s₁ : Budget P :=
      ⟨{ s.log with log := { s.log.log with block := s.log.log.block ++ [blockno] } },
        s.track (q, .logWrite blockno)⟩
    have written : s.log.logWrite blockno = .ok s₁.log := by
      rw [LogState.logWrite, if_neg (by omega), if_neg outstanding, if_neg fresh]
    have step : s.Step (q, .logWrite blockno) s₁ := by
      refine step_iff.mpr ⟨within, ?_, rfl⟩
      rw [LogState.next, if_pos (show s.log.Enabled q (.logWrite blockno) from running)]
      exact written
    have sound := tracked.sound.step (step_iff.mp step).2.1
    obtain ⟨tracked', -, same⟩ := tracked.logWrite sound within written rfl
    obtain ⟨trace, s', run, bad⟩ := ih tracked' (by rw [same fresh]; exact large) open' (by
      change LOGSIZE - 1 - (s.log.log.block ++ [blockno]).length = room
      rw [List.length_append, List.length_singleton]
      omega)
    refine ⟨(q, .logWrite blockno) :: trace, s', .cons ⟨step, fun admission => ?_⟩ run, bad⟩
    rcases admission.1 with other | other <;> cases other

/-- Who is admitted has an operation open. -/
theorem held_of_admission (step : s.Step a s') (admission : s.Admission a) :
    0 < s'.log.held a.1 := by
  obtain ⟨p, op⟩ := a
  obtain ⟨-, next, -⟩ := step_iff.mp step
  obtain ⟨-, applied⟩ := next_ok next
  have log : s'.log = s.log.admission p := by
    rcases admission.1 with rfl | rfl <;> exact (Except.ok.inj applied).symm
  rw [log, LogState.admission, if_pos admission.2]
  simp

end

/-- Three operations are admitted to an empty log; two log ten blocks each and the third nine. -/
def threeOps : List (Fin 64 × LogOp) :=
  [(0, .beginOp), (1, .beginOp), (2, .beginOp)] ++
    (List.range 29).map fun b => (Fin.ofNat 64 (b / 10), .logWrite b)

end Budget

end Xv6
