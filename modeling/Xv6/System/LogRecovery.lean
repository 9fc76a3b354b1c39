import Xv6.System.Log

/-!
Commit and recovery of the log of `log.c` on a disk that can stop after any write.

`commit` and `recover_from_log` are lists of block writes; a crash leaves the disk after a
prefix of them. The buffer cache agrees with the disk on the blocks of the log, so what
`bread` returns for them is what was written last. A block is an array of words, of which the
header uses the first for `n` and the following ones for `block`.
-/

namespace Xv6.Recovery

open Function List

abbrev BlockNo := BitVec 32

/-- `BSIZE` bytes. -/
abbrev Block := Fin 128 → BitVec 32

abbrev Disk := BlockNo → Block

/-- A write of a block, with contents that may depend on the disk. -/
structure Write where
  block : BlockNo
  contents : Disk → Block

def run (ws : List Write) (d : Disk) : Disk :=
  ws.foldl (fun d w => Function.update d w.block (w.contents d)) d

/-- `log.start` and `log.size`. -/
structure Area where
  start : BlockNo
  size : Nat

namespace Area

variable (a : Area)

/-- The log block of an index. -/
def slot (tail : Nat) : BlockNo := a.start + BitVec.ofNat 32 tail + 1

/-- The block is the header or a log block. -/
def Inside (b : BlockNo) : Prop := b = a.start ∨ ∃ tail, tail + 1 < a.size ∧ b = a.slot tail

/-- The loop of `write_log`. -/
def writeLog (cache : BlockNo → Block) : Nat → List BlockNo → List Write
  | _, [] => []
  | tail, b :: bs => ⟨a.slot tail, fun _ => cache b⟩ :: writeLog cache (tail + 1) bs

/-- The loop of `install_trans`. -/
def installTrans : Nat → List BlockNo → List Write
  | _, [] => []
  | tail, b :: bs => ⟨b, fun d => d (a.slot tail)⟩ :: installTrans (tail + 1) bs

/-- The header with `n` and the first `n` entries of `block` replaced. -/
def header (blocks : List BlockNo) (old : Block) : Block := fun i =>
  if i = 0 then BitVec.ofNat 32 blocks.length else blocks[i.val - 1]?.getD (old i)

def writeHead (blocks : List BlockNo) : List Write :=
  [⟨a.start, fun d => header blocks (d a.start)⟩]

/-- `read_head`, unless it writes beyond `log.lh.block`. -/
def readHead (d : Disk) : Option (List BlockNo) :=
  let n := (d a.start 0).toInt.toNat
  if n ≤ LOGSIZE then some ((List.range n).map fun i => d a.start (Fin.ofNat 128 (i + 1))) else none

def commit (cache : BlockNo → Block) (blocks : List BlockNo) : List Write :=
  if 0 < blocks.length then
    a.writeLog cache 0 blocks ++ a.writeHead blocks ++ a.installTrans 0 blocks ++ a.writeHead []
  else []

/-- `recover_from_log` after `read_head`. -/
def recover (blocks : List BlockNo) : List Write := a.installTrans 0 blocks ++ a.writeHead []

/-- `recover_from_log` started on a disk, and again after every crash in it, until it completes. -/
inductive Recovers : Disk → Disk → Prop
  | done {d : Disk} {blocks : List BlockNo} (read : a.readHead d = some blocks) :
      Recovers d (run (a.recover blocks) d)
  | crash {d d' : Disk} {blocks : List BlockNo} (read : a.readHead d = some blocks) (k : Nat)
      (again : Recovers (run ((a.recover blocks).take k) d) d') : Recovers d d'

end Area

theorem run_append (ws ws' : List Write) (d : Disk) : run (ws ++ ws') d = run ws' (run ws d) :=
  foldl_append ..

variable {ws : List Write}

theorem run_other {b : BlockNo} (elsewhere : ∀ w ∈ ws, w.block ≠ b) (d : Disk) : run ws d b = d b := by
  induction ws generalizing d with
  | nil => rfl
  | cons w ws ih =>
    refine (ih (fun w' inside => elsewhere w' (mem_cons_of_mem _ inside)) _).trans ?_
    exact update_of_ne (elsewhere w (mem_cons_self ..)).symm ..

namespace Area

variable {a : Area} {tail : Nat} {w : Write} {b : BlockNo} {d' : Disk}

theorem slot_ne_start (small : tail < LOGSIZE) : a.slot tail ≠ a.start := by
  have small : tail < 30 := small
  unfold slot
  bv_omega

variable {i : Nat}

theorem slot_inj {j : Nat} (smallI : i < LOGSIZE) (smallJ : j < LOGSIZE)
    (same : a.slot i = a.slot j) : i = j := by
  have smallI : i < 30 := smallI
  have smallJ : j < 30 := smallJ
  unfold slot at same
  bv_omega

variable {d : Disk}

theorem readHead_header {blocks : List BlockNo} (short : blocks.length ≤ LOGSIZE)
    {old : Block} (head : d a.start = header blocks old) : a.readHead d = some blocks := by
  have short' : blocks.length ≤ 30 := short
  have count : (d a.start 0).toInt.toNat = blocks.length := by
    have value : (BitVec.ofNat 32 blocks.length).toNat = blocks.length := by
      rw [BitVec.toNat_ofNat, Nat.mod_eq_of_lt (by omega)]
    rw [head, header, if_pos rfl, BitVec.toInt_eq_toNat_of_lt (by omega), value, Int.toNat_natCast]
  rw [readHead]
  simp only [count, if_pos short, Option.some.injEq]
  refine ext_getElem (by simp) fun i inside inside' => ?_
  have value : (Fin.ofNat 128 (i + 1)).val = i + 1 := Nat.mod_eq_of_lt (by omega)
  have place : Fin.ofNat 128 (i + 1) ≠ 0 := fun zero => by
    rw [zero] at value
    cases value
  simp only [getElem_map, getElem_range, head, header, if_neg place, value]
  rw [Nat.add_sub_cancel, getElem?_eq_getElem inside']
  rfl

theorem readHead_empty (empty : d a.start 0 = 0) : a.readHead d = some [] := by
  simp [readHead, empty]

/-- The log is empty and the other blocks are as on `f`. -/
structure Idle (a : Area) (f e : Disk) : Prop where
  empty : e a.start 0 = 0
  homes : ∀ b, ¬ a.Inside b → e b = f b

/-- The transaction is in the log. -/
structure Committed (a : Area) (d : Disk) (cache : BlockNo → Block) (blocks : List BlockNo)
    (e : Disk) : Prop where
  head : a.readHead e = some blocks
  log : ∀ i b, blocks[i]? = some b → e (a.slot i) = cache b
  others : ∀ b, ¬ a.Inside b → b ∉ blocks → e b = d b

def installed (d : Disk) (cache : BlockNo → Block) (blocks : List BlockNo) : Disk := fun b =>
  if b ∈ blocks then cache b else d b

/-- What `commit` can rely on. -/
structure Transaction (a : Area) (blocks : List BlockNo) : Prop where
  fits : blocks.length + 1 ≤ a.size
  logged : blocks.length ≤ LOGSIZE
  homes : ∀ b ∈ blocks, ¬ a.Inside b

variable {d e : Disk} {cache : BlockNo → Block} {blocks : List BlockNo}

theorem mem_installTrans (inside : w ∈ a.installTrans tail blocks) :
    w.block ∈ blocks := by
  induction blocks generalizing tail with
  | nil => cases inside
  | cons b bs ih =>
    rcases mem_cons.mp inside with rfl | inside
    · exact mem_cons_self ..
    · exact mem_cons_of_mem _ (ih inside)

theorem mem_writeLog (inside : w ∈ a.writeLog cache tail blocks) :
    ∃ i, i < blocks.length ∧ w.block = a.slot (tail + i) := by
  induction blocks generalizing tail with
  | nil => cases inside
  | cons b bs ih =>
    rcases mem_cons.mp inside with rfl | inside
    · exact ⟨0, by simp, rfl⟩
    · obtain ⟨i, less, same⟩ := ih inside
      exact ⟨i + 1, by simpa using less, by rw [same]; congr 1; omega⟩

theorem installTrans_other (other : b ∉ blocks) (e : Disk) :
    run (a.installTrans tail blocks) e b = e b := by
  refine run_other (fun w inside same => other ?_) e
  rw [← same]
  exact mem_installTrans inside

theorem writeLog_all (short : tail + blocks.length ≤ LOGSIZE) (at' : blocks[i]? = some b)
    (d : Disk) : run (a.writeLog cache tail blocks) d (a.slot (tail + i)) = cache b := by
  induction blocks generalizing tail i d with
  | nil => cases at'
  | cons c cs ih =>
    rw [length_cons] at short
    cases i with
    | zero =>
      cases at'
      change run (a.writeLog cache (tail + 1) cs) (update d (a.slot tail) (cache b))
        (a.slot tail) = cache b
      rw [run_other, update_self]
      intro w inside same
      obtain ⟨j, less, target⟩ := mem_writeLog inside
      have := slot_inj (by omega) (by omega) (target.symm.trans same)
      omega
    | succ i =>
      rw [getElem?_cons_succ] at at'
      have rest := ih (i := i) (show tail + 1 + cs.length ≤ LOGSIZE by omega) at'
        (update d (a.slot tail) (cache c))
      rwa [Nat.add_right_comm, Nat.add_assoc] at rest

theorem installTrans_all (homes : ∀ b ∈ blocks, ¬ a.Inside b)
    (inside : ∀ i, i < blocks.length → a.Inside (a.slot (tail + i)))
    (log : ∀ i b, blocks[i]? = some b → e (a.slot (tail + i)) = cache b) (member : b ∈ blocks) :
    run (a.installTrans tail blocks) e b = cache b := by
  induction blocks generalizing tail e with
  | nil => cases member
  | cons c cs ih =>
    have first : e (a.slot tail) = cache c := log 0 c rfl
    have stays : ∀ i, i < cs.length → a.slot (tail + 1 + i) ≠ c := fun i less same => by
      refine homes c (mem_cons_self ..) (same ▸ ?_)
      have := inside (i + 1) (by simpa using less)
      rwa [show tail + (i + 1) = tail + 1 + i by omega] at this
    change run (a.installTrans (tail + 1) cs) (update e c (e (a.slot tail))) b = cache b
    by_cases later : b ∈ cs
    · refine ih (fun b inside => homes b (mem_cons_of_mem _ inside)) (fun i less => ?_)
        (fun i b' at' => ?_) later
      · have := inside (i + 1) (by simpa using less)
        rwa [show tail + (i + 1) = tail + 1 + i by omega] at this
      · have less : i < cs.length := (List.getElem?_eq_some_iff.mp at').1
        rw [update_of_ne (stays i less)]
        have := log (i + 1) b' (by simpa using at')
        rwa [show tail + (i + 1) = tail + 1 + i by omega] at this
    · obtain rfl : b = c := by simpa [later] using member
      rw [installTrans_other later, update_self, first]

namespace Transaction

theorem slot_inside (t : Transaction a blocks) (less : i < blocks.length) : a.Inside (a.slot i) :=
  .inr ⟨i, by have := t.fits; omega, rfl⟩

end Transaction

/-- Writes to home blocks of the transaction leave it in the log. -/
theorem Committed.run (t : Transaction a blocks) (committed : Committed a d cache blocks e)
    (homes : ∀ w ∈ ws, w.block ∈ blocks) : Committed a d cache blocks (run ws e) := by
  have kept : ∀ b, b ∉ blocks → Recovery.run ws e b = e b := by
    refine fun b other => run_other (fun w inside same => other ?_) e
    rw [← same]
    exact homes w inside
  have start : Recovery.run ws e a.start = e a.start :=
    kept _ fun inside => t.homes _ inside (.inl rfl)
  refine ⟨?_, fun i b at' => ?_, fun b outside other => ?_⟩
  · simpa only [readHead, start] using committed.head
  · have less : i < blocks.length := (List.getElem?_eq_some_iff.mp at').1
    rw [kept _ fun inside => t.homes _ inside (t.slot_inside less)]
    exact committed.log i b at'
  · rw [kept b other]
    exact committed.others b outside other

theorem idle_cleared {f : Disk} (homes : ∀ b, ¬ a.Inside b → e b = f b) :
    Idle a f (run (a.writeHead []) e) := by
  refine ⟨?_, fun b outside => ?_⟩
  · change update e a.start (header [] (e a.start)) a.start 0 = 0
    rw [update_self]
    rfl
  · rw [run_other (b := b) fun w inside same => ?_]
    · exact homes b outside
    · rw [mem_singleton.mp inside] at same
      exact outside (.inl same.symm)

theorem Committed.recovered (t : Transaction a blocks) (committed : Committed a d cache blocks e) :
    Idle a (installed d cache blocks) (Recovery.run (a.recover blocks) e) := by
  rw [recover, run_append]
  refine idle_cleared fun b outside => ?_
  unfold installed
  split
  case isTrue member =>
    refine installTrans_all t.homes (fun i less => ?_) (fun i b' at' => ?_) member
    · rw [Nat.zero_add]
      exact t.slot_inside less
    · rw [Nat.zero_add]
      exact committed.log i b' at'
  case isFalse other =>
    rw [installTrans_other other]
    exact committed.others b outside other

theorem Idle.recovers {f e : Disk} (idle : Idle a f e) (recovers : a.Recovers e d') :
    Idle a f d' := by
  induction recovers with
  | done read =>
    cases (readHead_empty idle.empty).symm.trans read
    exact idle_cleared idle.homes
  | crash read k _ ih =>
    cases (readHead_empty idle.empty).symm.trans read
    apply ih
    cases k with
    | zero => exact idle
    | succ k =>
      rw [take_of_length_le (by simp [recover, installTrans, writeHead])]
      exact idle_cleared idle.homes

theorem Committed.recovers (t : Transaction a blocks) (committed : Committed a d cache blocks e)
    (recovers : a.Recovers e d') :
    Idle a (installed d cache blocks) d' := by
  induction recovers with
  | done read =>
    cases committed.head.symm.trans read
    exact committed.recovered t
  | @crash e d' blocks' read k again ih =>
    cases committed.head.symm.trans read
    by_cases early : k ≤ (a.installTrans 0 blocks).length
    · apply ih
      rw [recover, take_append_of_le_length early]
      exact committed.run t fun w inside => mem_installTrans (mem_of_mem_take inside)
    · rw [take_of_length_le (by simp [recover, writeHead]; omega)] at again
      exact (committed.recovered t).recovers again

/-- Until the header is written, recovery does not see the transaction. -/
theorem idle_writeLog (t : Transaction a blocks) (empty : d a.start 0 = 0) (k : Nat) :
    Idle a d (run ((a.writeLog cache 0 blocks).take k) d) := by
  have kept : ∀ b, (∀ i, i < blocks.length → a.slot i ≠ b) →
      run ((a.writeLog cache 0 blocks).take k) d b = d b := by
    refine fun b other => run_other (fun w inside same => ?_) d
    obtain ⟨i, less, target⟩ := mem_writeLog (mem_of_mem_take inside)
    rw [Nat.zero_add] at target
    exact other i less (target.symm.trans same)
  refine ⟨?_, fun b outside => kept b fun i less same => outside ?_⟩
  · rw [kept a.start fun i less => slot_ne_start (Nat.lt_of_lt_of_le less t.logged)]
    exact empty
  · exact same ▸ t.slot_inside less

/-- Writing the header commits the transaction. -/
theorem committed_writeHead (t : Transaction a blocks) :
    Committed a d cache blocks (run (a.writeLog cache 0 blocks ++ a.writeHead blocks) d) := by
  rw [run_append]
  generalize written : run (a.writeLog cache 0 blocks) d = e
  change Committed a d cache blocks (update e a.start (header blocks (e a.start)))
  have small : ∀ i b, blocks[i]? = some b → i < blocks.length := fun i b at' =>
    (List.getElem?_eq_some_iff.mp at').1
  refine ⟨readHead_header t.logged (update_self ..), fun i b at' => ?_, fun b outside other => ?_⟩
  · have apart := slot_ne_start (a := a) (Nat.lt_of_lt_of_le (small i b at') t.logged)
    have logged : run (a.writeLog cache 0 blocks) d (a.slot (0 + i)) = cache b :=
      writeLog_all (by simpa using t.logged) at' d
    rw [Nat.zero_add] at logged
    rw [update_of_ne apart, ← written, logged]
  · rw [update_of_ne fun same => outside (.inl same), ← written, run_other]
    intro w inside same
    obtain ⟨i, less, target⟩ := mem_writeLog inside
    rw [Nat.zero_add] at target
    exact outside (target.symm.trans same ▸ t.slot_inside less)

@[simp] theorem length_writeLog (cache : BlockNo → Block) (tail : Nat) (blocks : List BlockNo) :
    (a.writeLog cache tail blocks).length = blocks.length := by
  induction blocks generalizing tail with
  | nil => rfl
  | cons b bs ih => simp [writeLog, ih]

/-- The disk after a prefix of the writes of `commit`. -/
theorem commit_prefix (cache : Disk) (t : Transaction a blocks) (empty : d a.start 0 = 0) (k : Nat) :
    k ≤ blocks.length ∧ Idle a d (run ((a.commit cache blocks).take k) d) ∨
      Committed a d cache blocks (run ((a.commit cache blocks).take k) d) ∨
      Idle a (installed d cache blocks) (run ((a.commit cache blocks).take k) d) := by
  by_cases some : 0 < blocks.length
  · rw [commit, if_pos some, append_assoc (_ ++ _)]
    by_cases early : k ≤ blocks.length
    · refine .inl ⟨early, ?_⟩
      rw [append_assoc, take_append_of_le_length (by simpa using early)]
      exact idle_writeLog t empty k
    · have length : (a.writeLog cache 0 blocks ++ a.writeHead blocks).length = blocks.length + 1 := by
        simp [writeHead]
      have committed : Committed a d cache blocks _ := committed_writeHead t
      rw [take_append, length, take_of_length_le (by omega), run_append]
      generalize run (a.writeLog cache 0 blocks ++ a.writeHead blocks) d = e at committed
      by_cases whole : k - (blocks.length + 1) ≤ (a.installTrans 0 blocks).length
      · rw [take_append_of_le_length whole]
        exact .inr (.inl (committed.run t fun w inside =>
          mem_installTrans (mem_of_mem_take inside)))
      · rw [take_of_length_le (by simp [writeHead]; omega)]
        exact .inr (.inr (committed.recovered t))
  · have none : blocks = [] := eq_nil_of_length_eq_zero (by omega)
    subst none
    refine .inr (.inr ?_)
    simp only [commit, length_nil, Nat.lt_irrefl, if_false, take_nil]
    exact ⟨empty, fun b _ => by simp [installed, run]⟩

/-- The disks that `commit` can start from: `initlog` has recovered the log, and earlier
transactions have been committed. -/
inductive Mounted (a : Area) : Disk → Prop
  | initlog {d d' : Disk} (recovered : a.Recovers d d') : Mounted a d'
  | commit {d : Disk} (mounted : Mounted a d) {blocks : List BlockNo} (t : Transaction a blocks)
      (cache : BlockNo → Block) : Mounted a (run (a.commit cache blocks) d)

theorem Recovers.empty (recovers : a.Recovers d d') : d' a.start 0 = 0 := by
  induction recovers with
  | done _ =>
    rw [recover, run_append]
    exact (idle_cleared fun _ _ => rfl).empty
  | crash _ _ _ ih => exact ih

theorem Mounted.empty (mounted : Mounted a d) : d a.start 0 = 0 := by
  induction mounted with
  | initlog recovered => exact recovered.empty
  | @commit d mounted blocks t cache ih =>
    by_cases some : 0 < blocks.length
    · rw [Area.commit, if_pos some, run_append]
      exact (idle_cleared fun _ _ => rfl).empty
    · rw [Area.commit, if_neg some]
      exact ih

/-- Whatever `commit` had written when it stopped, recovery leaves all or nothing of the
transaction. -/
theorem commit_crash_atomic (t : Transaction a blocks) (mounted : Mounted a d) (k : Nat) :
    (∃ d', a.Recovers (run ((a.commit cache blocks).take k) d) d') ∧
    ∀ d', a.Recovers (run ((a.commit cache blocks).take k) d) d' →
      ((∀ b ∈ blocks, d' b = d b) ∨ ∀ b ∈ blocks, d' b = cache b) ∧
      (blocks.length < k → ∀ b ∈ blocks, d' b = cache b) ∧
      (∀ b, ¬ a.Inside b → b ∉ blocks → d' b = d b) ∧
      d' a.start 0 = 0 := by
  have done : ∀ {e}, Idle a (installed d cache blocks) e →
      (∀ b ∈ blocks, e b = cache b) ∧ ∀ b, ¬ a.Inside b → b ∉ blocks → e b = d b := by
    refine fun idle => ⟨fun b member => ?_, fun b outside other => ?_⟩
    · rw [idle.homes b (t.homes b member), installed, if_pos member]
    · rw [idle.homes b outside, installed, if_neg other]
  rcases commit_prefix cache t mounted.empty k with
    ⟨early, idle⟩ | committed | idle
  · refine ⟨⟨_, .done (readHead_empty idle.empty)⟩, fun d' recovers => ?_⟩
    have after := idle.recovers recovers
    exact ⟨.inl fun b member => after.homes b (t.homes b member), fun late => by omega,
      fun b outside _ => after.homes b outside, after.empty⟩
  · refine ⟨⟨_, .done committed.head⟩, fun d' recovers => ?_⟩
    have after := committed.recovers t recovers
    exact ⟨.inr (done after).1, fun _ => (done after).1, (done after).2, after.empty⟩
  · refine ⟨⟨_, .done (readHead_empty idle.empty)⟩, fun d' recovers => ?_⟩
    have after := idle.recovers recovers
    exact ⟨.inr (done after).1, fun _ => (done after).1, (done after).2, after.empty⟩

/-- The header of a transaction of two blocks has been written. -/
theorem commit_crash_atomic_sample :
    ∃ d', (⟨2, 30⟩ : Area).Recovers
        (run (((⟨2, 30⟩ : Area).commit (fun b _ => b) [100, 101]).take 3)
          (run ((⟨2, 30⟩ : Area).recover []) fun _ _ => 0)) d' ∧
      d' 100 = fun _ => 100 := by
  have t : Transaction ⟨2, 30⟩ [100, 101] := by
    refine ⟨by decide, by decide, fun b member inside => ?_⟩
    rcases inside with same | ⟨tail, less, same⟩
    · simp [same] at member
    · have less : tail + 1 < 30 := less
      simp only [slot] at same
      simp only [List.mem_cons, List.not_mem_nil, or_false] at member
      rcases member with rfl | rfl <;> bv_omega
  have mounted : Mounted ⟨2, 30⟩ (run ((⟨2, 30⟩ : Area).recover []) fun _ _ => 0) :=
    .initlog (.done (readHead_empty rfl))
  obtain ⟨⟨d', recovers⟩, after⟩ := commit_crash_atomic t mounted 3
  exact ⟨d', recovers, (after d' recovers).2.1 (by decide) 100 (by simp)⟩

end Area

end Xv6.Recovery
