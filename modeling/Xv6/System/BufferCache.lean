import Xv6.Library.CircularList
import Xv6.Library.Lts
import Xv6.Memory.Kernel

/-!
The buffer cache of `bio.c`.

`bread` is a critical section of `bcache.lock` in `bget`, after which the process waits for the
sleep lock of the buffer and reads the block if necessary; `brelse` gives up the sleep lock and
then enters a critical section. Each of these is a step. `iderw` completes within a step. A step
that would panic does not exist. `claims` lists who has taken a buffer in `bget` and not yet
given it back in `brelse`, and `released` the time of the last `brelse` of a buffer, 0 before
the first one; they influence nothing.
-/

namespace Xv6

open CircularList List

abbrev NBUF : Nat := 30

abbrev BufNo := Fin NBUF

/-- `flags` are the bits `B_VALID` and `B_DIRTY`. -/
structure Buf where
  dev : Nat
  blockno : Nat
  refcnt : Nat
  valid : Bool
  dirty : Bool
  deriving DecidableEq

structure BufferCache where
  buf : BufNo → Buf
  links : Links BufNo

namespace BufferCache

/-- The result of `bget`. -/
inductive Got where
  | hit
  | recycled
  deriving DecidableEq

def binit : BufferCache where
  buf _ := ⟨0, 0, 0, false, false⟩
  links := (List.finRange NBUF).foldl Links.pushFront ⟨fun _ => none, fun _ => none⟩

def setBuf (c : BufferCache) (b : BufNo) (v : Buf) : BufferCache :=
  { c with buf := Function.update c.buf b v }

def isBlock (c : BufferCache) (dev blockno : Nat) (b : BufNo) : Bool :=
  (c.buf b).dev = dev ∧ (c.buf b).blockno = blockno

def recyclable (c : BufferCache) (b : BufNo) : Bool :=
  (c.buf b).refcnt = 0 ∧ (c.buf b).dirty = false

def bget (c : BufferCache) (dev blockno : Nat) : Option (Got × BufNo × BufferCache) :=
  match scan c.links.next (c.isBlock dev blockno) NBUF (c.links.next none) with
  | .found b => some (.hit, b, c.setBuf b { c.buf b with refcnt := (c.buf b).refcnt + 1 })
  | .absent =>
    match scan c.links.prev c.recyclable NBUF (c.links.prev none) with
    | .found b => some (.recycled, b, c.setBuf b ⟨dev, blockno, 1, false, false⟩)
    | _ => none
  | .endless => none

/-- `iderw` with its effect on the flags. -/
def iderw (c : BufferCache) (b : BufNo) : BufferCache :=
  c.setBuf b { c.buf b with valid := true, dirty := false }

/-- The critical section of `brelse`. -/
def unref (c : BufferCache) (b : BufNo) : BufferCache :=
  let c := c.setBuf b { c.buf b with refcnt := (c.buf b).refcnt - 1 }
  if (c.buf b).refcnt = 0 then { c with links := (c.links.unlink b).pushFront b } else c

/-- Where a process is. -/
inductive Pc where
  | idle
  /-- In `bget`, waiting for the sleep lock. -/
  | waiting (b : BufNo)
  /-- In `brelse`, without the sleep lock. -/
  | releasing (b : BufNo)
  deriving DecidableEq

structure State where
  cache : BufferCache
  lock : BufNo → Option ProcNo
  pc : ProcNo → Pc
  claims : List (ProcNo × BufNo)
  clock : Nat
  released : BufNo → Nat

inductive Op where
  | bget (p : ProcNo) (dev blockno : Nat)
  /-- The rest of `bread`. -/
  | bread (p : ProcNo)
  | logWrite (b : BufNo)
  | bwrite (p : ProcNo) (b : BufNo)
  | brelse (p : ProcNo) (b : BufNo)
  /-- The rest of `brelse`. -/
  | unref (p : ProcNo)
  deriving DecidableEq

inductive Event where
  | quiet
  | got (how : Got) (b : BufNo)
  deriving DecidableEq

namespace State

def goto (s : State) (p : ProcNo) (pc : Pc) : State := { s with pc := Function.update s.pc p pc }

def next (s : State) : Op → Option (Event × State)
  | .bget p dev blockno =>
    if s.pc p = .idle ∧ dev ≠ 0 then
      (s.cache.bget dev blockno).map fun (how, b, cache) =>
        (.got how b, { s with cache := cache, claims := (p, b) :: s.claims }.goto p (.waiting b))
    else none
  | .bread p =>
    match s.pc p with
    | .waiting b =>
      if s.lock b = none then
        let cache := if (s.cache.buf b).valid then s.cache else s.cache.iderw b
        some (.quiet,
          { s with cache := cache, lock := Function.update s.lock b (some p) }.goto p .idle)
      else none
    | _ => none
  | .logWrite b =>
    some (.quiet,
      { s with cache := s.cache.setBuf b { s.cache.buf b with dirty := true } })
  | .bwrite p b =>
    if s.pc p = .idle ∧ s.lock b = some p then
      some (.quiet, { s with cache := s.cache.iderw b })
    else none
  | .brelse p b =>
    if s.pc p = .idle ∧ s.lock b = some p then
      some (.quiet, { s with lock := Function.update s.lock b none }.goto p (.releasing b))
    else none
  | .unref p =>
    match s.pc p with
    | .releasing b =>
      some (.quiet, { s with
        cache := s.cache.unref b
        claims := s.claims.erase (p, b)
        clock := s.clock + 1
        released := Function.update s.released b (s.clock + 1) }.goto p .idle)
    | _ => none

def Step (s : State) (a : Op × Event) (s' : State) : Prop := s.next a.1 = some (a.2, s')

def init : State where
  cache := binit
  lock _ := none
  pc _ := .idle
  claims := []
  clock := 0
  released _ := 0

/-- The number of outstanding holders of a buffer. -/
def holders (s : State) (b : BufNo) : Nat := s.claims.countP fun claim => claim.2 = b

end State

/-! The list of the cache and the order in it. -/

/-- For buffers without holders: `a` was released after `b`, or both were never used. -/
def State.After (s : State) (a b : BufNo) : Prop :=
  s.released b < s.released a ∨ s.released a = 0 ∧ s.released b = 0

def State.Newer (s : State) (a b : BufNo) : Prop :=
  (s.cache.buf a).refcnt = 0 → (s.cache.buf b).refcnt = 0 → s.After a b

structure State.Listed (s : State) (l : List BufNo) : Prop where
  holds : Holds s.cache.links l
  all : ∀ b, b ∈ l
  order : l.Pairwise s.Newer

/-- Every claim is held, waited for or being given up. -/
def State.share (s : State) (p : ProcNo) (b : BufNo) : Nat :=
  (if s.pc p = .waiting b then 1 else 0) + (if s.pc p = .releasing b then 1 else 0) +
    if s.lock b = some p then 1 else 0

structure Inv (s : State) : Prop where
  listed : ∃ l, s.Listed l
  unique : ∀ b b', (s.cache.buf b).dev ≠ 0 → (s.cache.buf b).dev = (s.cache.buf b').dev →
    (s.cache.buf b).blockno = (s.cache.buf b').blockno → b = b'
  counts : ∀ b, (s.cache.buf b).refcnt = s.holders b
  shares : ∀ p b, s.claims.count (p, b) = s.share p b
  past : ∀ b, s.released b ≤ s.clock

theorem listed_init : State.init.Listed (List.finRange NBUF).reverse := by
  have empty : Holds (⟨fun _ => none, fun _ => none⟩ : Links BufNo) [] := ⟨⟨rfl, rfl⟩, nodup_nil⟩
  have filled := empty.foldl_pushFront (List.finRange NBUF) (by simpa using nodup_finRange NBUF)
  rw [append_nil] at filled
  refine ⟨filled, by simp, pairwise_of_forall fun a b => ?_⟩
  exact fun _ _ => .inr ⟨rfl, rfl⟩

theorem inv_init : Inv State.init :=
  ⟨⟨_, listed_init⟩, fun _ _ used => absurd rfl used, fun _ => rfl, fun _ _ => by
    simp [State.init, State.share], fun _ => le_rfl⟩

/-! `bget` finds a block where it is, or takes the buffer released least recently. -/

variable {c : BufferCache} {l : List BufNo} {b : BufNo} {s' : State} {p : ProcNo} {op : Op}
  {ev : Event}

theorem bget_eq (holds : Holds c.links l) (dev blockno : Nat) :
    c.bget dev blockno = match l.find? (c.isBlock dev blockno), l.reverse.find? c.recyclable with
      | some b, _ => some (.hit, b, c.setBuf b { c.buf b with refcnt := (c.buf b).refcnt + 1 })
      | none, some b => some (.recycled, b, c.setBuf b ⟨dev, blockno, 1, false, false⟩)
      | none, none => none := by
  have short : l.length ≤ NBUF := by simpa using holds.nodup.length_le_card
  unfold bget
  rw [scan_path holds.segment.path_next short,
    scan_path holds.segment.path_prev (by simpa using short)]
  cases l.find? (c.isBlock dev blockno) with
  | some b => rfl
  | none => cases l.reverse.find? c.recyclable <;> rfl

/-- The buffers behind the one that is recycled are in use. -/
theorem bget_cases {c' : BufferCache} (holds : Holds c.links l) (all : ∀ b, b ∈ l)
    {dev blockno : Nat} {how : Got} (got : c.bget dev blockno = some (how, b, c')) :
    how = .hit ∧ c.isBlock dev blockno b ∧
        c' = c.setBuf b { c.buf b with refcnt := (c.buf b).refcnt + 1 } ∨
      how = .recycled ∧ (∀ b', ¬ c.isBlock dev blockno b') ∧ c.recyclable b ∧
        (∃ front back, l = front ++ b :: back ∧ ∀ b' ∈ back, ¬ c.recyclable b') ∧
        c' = c.setBuf b ⟨dev, blockno, 1, false, false⟩ := by
  rw [bget_eq holds] at got
  split at got
  case h_1 b' found =>
    cases got
    exact .inl ⟨rfl, find?_some found, rfl⟩
  case h_2 b' absent found =>
    cases got
    obtain ⟨passes, back, front, split, fails⟩ := find?_eq_some_iff_append.mp found
    refine .inr ⟨rfl, fun b' => find?_eq_none.mp absent b' (all b'), passes, ?_, rfl⟩
    refine ⟨front.reverse, back.reverse, ?_, fun b' inside => ?_⟩
    · rw [← reverse_reverse l, split]
      simp
    · simpa using fails b' (mem_reverse.mp inside)
  case h_3 => cases got

@[simp] theorem buf_setBuf (c : BufferCache) (b b' : BufNo) (v : Buf) :
    (c.setBuf b v).buf b' = if b' = b then v else c.buf b' := Function.update_apply ..

variable {s : State}

theorem State.Listed.mono (listed : s.Listed l) (links : s'.cache.links = s.cache.links)
    (newer : ∀ a b, s.Newer a b → s'.Newer a b) :
    s'.Listed l :=
  ⟨links ▸ listed.holds, listed.all, listed.order.imp (newer _ _)⟩

/-- A step that changes at most flags and keeps the claims. -/
theorem Inv.flags (inv : Inv s) (links : s'.cache.links = s.cache.links)
    (same : ∀ b, (s'.cache.buf b).dev = (s.cache.buf b).dev ∧
      (s'.cache.buf b).blockno = (s.cache.buf b).blockno ∧
      (s'.cache.buf b).refcnt = (s.cache.buf b).refcnt)
    (claims : s'.claims = s.claims) (shares : ∀ p b, s'.share p b = s.share p b)
    (clock : s'.clock = s.clock) (released : s'.released = s.released) : Inv s' := by
  obtain ⟨l, listed⟩ := inv.listed
  refine ⟨⟨l, listed.mono links fun a b newer => ?_⟩, fun b b' used => ?_, fun b => ?_,
    fun p b => ?_, fun b => ?_⟩
  · simpa only [State.Newer, State.After, (same a).2.2, (same b).2.2, released] using newer
  · rw [(same b).1] at used ⊢
    rw [(same b').1, (same b).2.1, (same b').2.1]
    exact inv.unique b b' used
  · rw [(same b).2.2, State.holders, claims]
    exact inv.counts b
  · rw [claims, shares]
    exact inv.shares p b
  · rw [released, clock]
    exact inv.past b

theorem share_goto {pc : Pc} {q : ProcNo} :
    (s.goto p pc).share q b =
      if q = p then (if pc = .waiting b then 1 else 0) + (if pc = .releasing b then 1 else 0) +
        if s.lock b = some p then 1 else 0
      else s.share q b := by
  by_cases same : q = p
  · subst same
    simp only [State.share, State.goto, Function.update_self, if_true]
    rfl
  · simp only [State.share, State.goto, Function.update_of_ne same, if_neg same]
    rfl

theorem Inv.got (inv : Inv s) {v : Buf} (idle : s.pc p = .idle)
    (refcnt : v.refcnt = (s.cache.buf b).refcnt + 1)
    (block : v.dev = (s.cache.buf b).dev ∧ v.blockno = (s.cache.buf b).blockno ∨
      ∀ b', ¬ s.cache.isBlock v.dev v.blockno b') :
    Inv ({ s with cache := s.cache.setBuf b v, claims := (p, b) :: s.claims }.goto p
      (.waiting b)) := by
  obtain ⟨l, listed⟩ := inv.listed
  refine ⟨⟨l, listed.mono rfl fun a a' newer free free' => ?_⟩, ?_, fun b' => ?_, fun q b' => ?_,
    inv.past⟩
  · have held : ∀ c, ((s.cache.setBuf b v).buf c).refcnt = 0 → (s.cache.buf c).refcnt = 0 := by
      intro c free
      by_cases same : c = b
      · simp [same, refcnt] at free
      · simpa [same] using free
    exact newer (held a free) (held a' free')
  · have foreign : ∀ c, c ≠ b → v.dev ≠ 0 → v.dev = (s.cache.buf c).dev →
        v.blockno ≠ (s.cache.buf c).blockno := by
      intro c other used dev blockno
      rcases block with ⟨oldDev, oldBlockno⟩ | absent
      · exact other (inv.unique b c (oldDev ▸ used) (oldDev ▸ dev) (oldBlockno ▸ blockno)).symm
      · exact absent c (by simp [isBlock, dev, blockno])
    intro b₁ b₂ used dev blockno
    change ((s.cache.setBuf b v).buf b₁).dev ≠ 0 at used
    change ((s.cache.setBuf b v).buf b₁).dev = ((s.cache.setBuf b v).buf b₂).dev at dev
    change ((s.cache.setBuf b v).buf b₁).blockno = ((s.cache.setBuf b v).buf b₂).blockno at blockno
    by_cases first : b₁ = b <;> by_cases second : b₂ = b
    · rw [first, second]
    · simp only [buf_setBuf, first, second, if_true, if_false] at used dev blockno
      exact absurd blockno (foreign b₂ second used dev)
    · simp only [buf_setBuf, first, second, if_true, if_false] at used dev blockno
      exact absurd blockno.symm (foreign b₁ first (dev ▸ used) dev.symm)
    · simp only [buf_setBuf, first, second, if_false] at used dev blockno
      exact inv.unique b₁ b₂ used dev blockno
  · have before : _ = s.claims.countP _ := inv.counts b'
    change ((s.cache.setBuf b v).buf b').refcnt = ((p, b) :: s.claims).countP _
    rw [countP_cons, buf_setBuf]
    by_cases same : b' = b
    · subst same
      simpa [refcnt] using before
    · simpa [same, Ne.symm same] using before
  · have before := inv.shares q b'
    rw [share_goto]
    change ((p, b) :: s.claims).count (q, b') = _
    rw [count_cons, before]
    by_cases same : q = p
    · subst same
      by_cases mine : b' = b
      · simp [State.share, mine, idle, Nat.add_comm]
      · simp [State.share, Ne.symm mine, idle]
    · simp only [Ne.symm same, Prod.mk.injEq, beq_iff_eq, false_and, if_false, if_neg same]
      rfl

theorem buf_unref (c : BufferCache) (b b' : BufNo) :
    (c.unref b).buf b' =
      if b' = b then { c.buf b with refcnt := (c.buf b).refcnt - 1 } else c.buf b' := by
  have moved : (c.unref b).buf =
      (c.setBuf b { c.buf b with refcnt := (c.buf b).refcnt - 1 }).buf := by
    simp only [unref]
    split <;> rfl
  rw [moved, buf_setBuf]

theorem links_unref (c : BufferCache) (b : BufNo) :
    (c.unref b).links =
      if (c.buf b).refcnt - 1 = 0 then (c.links.unlink b).pushFront b else c.links := by
  unfold unref
  simp only [buf_setBuf, if_true]
  split <;> rfl

/-- The last release moves the buffer to the front. -/
theorem State.Listed.unref (listed : s.Listed l) (past : ∀ b, s.released b ≤ s.clock)
    (cache : s'.cache = s.cache.unref b)
    (released : s'.released = Function.update s.released b (s.clock + 1)) :
    ∃ l', s'.Listed l' := by
  have newer : ∀ a a', a ≠ b → a' ≠ b → s.Newer a a' → s'.Newer a a' := by
    intro a a' other other' before
    simpa [State.Newer, State.After, cache, released, buf_unref, other, other'] using before
  by_cases last : (s.cache.buf b).refcnt - 1 = 0
  · obtain ⟨front, back, rfl⟩ := append_of_mem (listed.all b)
    have nodup := listed.holds.nodup
    have fresh : b ∉ front ++ back := (nodup_middle.mp nodup).notMem
    refine ⟨b :: (front ++ back), ?_, fun c => ?_, pairwise_cons.mpr ⟨fun c inside => ?_, ?_⟩⟩
    · rw [cache, links_unref, if_pos last]
      exact listed.holds.unlink.pushFront fresh
    · have := listed.all c
      simp only [mem_append, mem_cons] at this ⊢
      tauto
    · have other : c ≠ b := fun same => fresh (same ▸ inside)
      intro _ _
      refine .inl ?_
      rw [released, Function.update_of_ne other, Function.update_self]
      exact Nat.lt_succ_of_le (past c)
    · have order : (front ++ back).Pairwise _ := listed.order.sublist (by simp)
      refine order.imp_of_mem fun {a a'} inside inside' before => ?_
      exact newer a a' (fun same => fresh (same ▸ inside)) (fun same => fresh (same ▸ inside')) before
  · refine ⟨l, ?_, listed.all, listed.order.imp fun {a a'} before => ?_⟩
    · rw [cache, links_unref, if_neg last]
      exact listed.holds
    · have held : ∀ c, (s'.cache.buf c).refcnt = 0 → c ≠ b := by
        rintro c free rfl
        rw [cache, buf_unref, if_pos rfl] at free
        exact last free
      exact fun free free' => newer a a' (held a free) (held a' free') before free free'

theorem Inv.unref (inv : Inv s) (at' : s.pc p = .releasing b) :
    Inv ({ s with
      cache := s.cache.unref b
      claims := s.claims.erase (p, b)
      clock := s.clock + 1
      released := Function.update s.released b (s.clock + 1) }.goto p .idle) := by
  have claimed : (p, b) ∈ s.claims := by
    rw [← count_pos_iff, inv.shares]
    simp only [State.share, at', if_true]
    omega
  have split := perm_cons_erase claimed
  obtain ⟨l, listed⟩ := inv.listed
  have same : ∀ c, ((s.cache.unref b).buf c).dev = (s.cache.buf c).dev ∧
      ((s.cache.unref b).buf c).blockno = (s.cache.buf c).blockno := by
    intro c
    rw [buf_unref]
    by_cases isB : c = b <;> simp [isB]
  refine ⟨listed.unref inv.past rfl rfl, fun b₁ b₂ => ?_, fun b' => ?_, fun q b' => ?_, fun b' => ?_⟩
  · simp only [State.goto, same]
    exact inv.unique b₁ b₂
  · have before : _ = s.claims.countP _ := inv.counts b'
    rw [split.countP_eq, countP_cons] at before
    change ((s.cache.unref b).buf b').refcnt = (s.claims.erase (p, b)).countP _
    rw [buf_unref]
    by_cases isB : b' = b
    · subst isB
      simp at before
      simp [before]
    · simpa [isB, Ne.symm isB] using before
  · have before := inv.shares q b'
    rw [split.count_eq, count_cons] at before
    rw [share_goto]
    change (s.claims.erase (p, b)).count (q, b') = _
    by_cases me : q = p
    · subst me
      by_cases isB : b' = b
      · subst isB
        simp only [State.share, at', beq_self_eq_true, if_true, if_false, reduceCtorEq] at before ⊢
        omega
      · simp only [State.share, at', beq_iff_eq, Prod.mk.injEq, Ne.symm isB, and_false, if_false,
          Pc.releasing.injEq, reduceCtorEq, if_true] at before ⊢
        omega
    · simp only [beq_iff_eq, Prod.mk.injEq, Ne.symm me, false_and, if_false, Nat.add_zero] at before
      rw [if_neg me]
      exact before
  · by_cases isB : b' = b
    · simp [State.goto, isB]
    · simpa [State.goto, isB] using (inv.past b').trans (Nat.le_succ _)

theorem Inv.next (inv : Inv s) (step : s.next op = some (ev, s')) : Inv s' := by
  cases op with
  | bget p dev blockno =>
    obtain ⟨⟨idle, real⟩, taken⟩ := Option.ite_none_right_eq_some.mp step
    obtain ⟨⟨how, b, c⟩, got, same⟩ := Option.map_eq_some_iff.mp taken
    cases same
    obtain ⟨l, listed⟩ := inv.listed
    rcases bget_cases listed.holds listed.all got with
      ⟨-, -, rfl⟩ | ⟨-, absent, free, -, rfl⟩
    · exact inv.got idle rfl (.inl ⟨rfl, rfl⟩)
    · refine inv.got idle ?_ (.inr absent)
      have unused : (s.cache.buf b).refcnt = 0 ∧ (s.cache.buf b).dirty = false := by
        simpa [recyclable] using free
      rw [unused.1]
  | bread p =>
    simp only [State.next] at step
    split at step
    case h_1 b at' =>
      obtain ⟨free, rfl, rfl⟩ := Lts.of_guard step
      refine inv.flags ?_ (fun b' => ?_) rfl (fun q b' => ?_) rfl rfl
      · simp only [State.goto]
        split <;> rfl
      · simp only [State.goto]
        split
        · exact ⟨rfl, rfl, rfl⟩
        · by_cases same : b' = b <;> simp [iderw, same]
      · rw [share_goto]
        by_cases me : q = p <;> by_cases mine : b' = b <;> simp_all [State.share, Ne.symm]
    case h_2 => cases step
  | logWrite b =>
    cases step
    refine inv.flags rfl (fun b' => ?_) rfl (fun _ _ => rfl) rfl rfl
    by_cases same : b' = b <;> simp [same]
  | bwrite p b =>
    obtain ⟨-, rfl, rfl⟩ := Lts.of_guard step
    refine inv.flags rfl (fun b' => ?_) rfl (fun _ _ => rfl) rfl rfl
    by_cases same : b' = b <;> simp [iderw, same]
  | brelse p b =>
    obtain ⟨⟨idle, mine⟩, rfl, rfl⟩ := Lts.of_guard step
    refine inv.flags rfl (fun _ => ⟨rfl, rfl, rfl⟩) rfl (fun q b' => ?_) rfl rfl
    rw [share_goto]
    by_cases me : q = p <;> by_cases same : b' = b <;> simp_all [State.share, Ne.symm]
  | unref p =>
    simp only [State.next] at step
    split at step
    case h_1 b at' =>
      cases step
      exact inv.unref at'
    case h_2 => cases step

/-- Only `bget` gives a buffer to another block, namely the one it recycles. -/
theorem block_kept (inv : Inv s) (step : s.next op = some (ev, s')) (b : BufNo)
    (kept : ev ≠ .got .recycled b) :
    (s'.cache.buf b).dev = (s.cache.buf b).dev ∧
      (s'.cache.buf b).blockno = (s.cache.buf b).blockno := by
  cases op with
  | bget p dev blockno =>
    obtain ⟨-, taken⟩ := Option.ite_none_right_eq_some.mp step
    obtain ⟨⟨how, b', c⟩, got, same⟩ := Option.map_eq_some_iff.mp taken
    cases same
    obtain ⟨l, listed⟩ := inv.listed
    rcases bget_cases listed.holds listed.all got with
      ⟨-, -, rfl⟩ | ⟨rfl, -, -, -, rfl⟩
    · by_cases same : b = b' <;> simp [State.goto, same]
    · have apart : b ≠ b' := fun same => kept (by rw [same])
      simp [State.goto, apart]
  | bread p =>
    simp only [State.next] at step
    split at step
    case h_1 b' at' =>
      obtain ⟨free, rfl, rfl⟩ := Lts.of_guard step
      simp only [State.goto]
      split
      · exact ⟨rfl, rfl⟩
      · by_cases same : b = b' <;> simp [iderw, same]
    case h_2 => cases step
  | logWrite b' =>
    cases step
    by_cases same : b = b' <;> simp [same]
  | bwrite p b' =>
    obtain ⟨-, rfl, rfl⟩ := Lts.of_guard step
    by_cases same : b = b' <;> simp [iderw, same]
  | brelse p b' =>
    obtain ⟨-, rfl, rfl⟩ := Lts.of_guard step
    exact ⟨rfl, rfl⟩
  | unref p =>
    simp only [State.next] at step
    split at step
    case h_1 b' at' =>
      cases step
      simp only [State.goto, buf_unref]
      by_cases same : b = b' <;> simp [same]
    case h_2 => cases step

theorem recycled_oldest (inv : Inv s) (step : s.next op = some (.got .recycled b, s')) :
    (s.cache.buf b).refcnt = 0 ∧ (s.cache.buf b).dirty = false ∧
      ∀ b', b' ≠ b → (s.cache.buf b').refcnt = 0 → (s.cache.buf b').dirty = false →
        s.After b' b := by
  cases op with
  | bget p dev blockno =>
    obtain ⟨-, taken⟩ := Option.ite_none_right_eq_some.mp step
    obtain ⟨⟨how, b, c⟩, got, same⟩ := Option.map_eq_some_iff.mp taken
    cases same
    obtain ⟨l, listed⟩ := inv.listed
    rcases bget_cases listed.holds listed.all got with
      ⟨other, -, -⟩ | ⟨-, -, free, ⟨front, back, rfl, busy⟩, -⟩
    · cases other
    · have unused : (s.cache.buf b).refcnt = 0 ∧ (s.cache.buf b).dirty = false := by
        simpa [recyclable] using free
      refine ⟨unused.1, unused.2, fun b' other unused' clean' => ?_⟩
      have before : b' ∈ front := by
        have inside := listed.all b'
        simp only [mem_append, mem_cons, other, false_or] at inside
        refine inside.resolve_right fun behind => busy b' behind ?_
        simp [recyclable, unused', clean']
      have order := (pairwise_append.mp listed.order).2.2 b' before b (by simp)
      exact order unused' unused.1
  | bread p | unref p =>
    simp only [State.next] at step
    split at step
    · first
      | cases step
      | obtain ⟨-, ⟨⟩, -⟩ := Lts.of_guard step
    · cases step
  | logWrite b' => cases step
  | bwrite p b' | brelse p b' =>
    obtain ⟨-, ⟨⟩, -⟩ := Lts.of_guard step

theorem buffer_cache_invariant {s : State} {trace : List (Op × Event)}
    (run : Lts.Run State.Step State.init trace s) :
    (∃ l : List BufNo, l.Nodup ∧ (∀ b, b ∈ l) ∧ Path s.cache.links.next none l ∧
      Path s.cache.links.prev none l.reverse) ∧
    (∀ b b', (s.cache.buf b).dev ≠ 0 → (s.cache.buf b).dev = (s.cache.buf b').dev →
      (s.cache.buf b).blockno = (s.cache.buf b').blockno → b = b') ∧
    (∀ b, (s.cache.buf b).refcnt = s.holders b) ∧
    ∀ op ev s', s.Step (op, ev) s' →
      (∀ b, ev ≠ .got .recycled b → (s'.cache.buf b).dev = (s.cache.buf b).dev ∧
        (s'.cache.buf b).blockno = (s.cache.buf b).blockno) ∧
      ∀ b, ev = .got .recycled b →
        (s.cache.buf b).refcnt = 0 ∧ (s.cache.buf b).dirty = false ∧
          ∀ b', b' ≠ b → (s.cache.buf b').refcnt = 0 → (s.cache.buf b').dirty = false →
            s.released b < s.released b' ∨ s.released b' = 0 ∧ s.released b = 0 := by
  have inv : Inv s := run.invariant (fun _ _ _ inv step => inv.next step) inv_init
  obtain ⟨l, listed⟩ := inv.listed
  refine ⟨⟨l, listed.holds.nodup, listed.all, listed.holds.segment.path_next,
    listed.holds.segment.path_prev⟩, inv.unique, inv.counts, fun op ev s' step => ⟨?_, ?_⟩⟩
  · exact fun b kept => block_kept inv step b kept
  · rintro b rfl
    exact recycled_oldest inv step

/-- Two blocks are read; one is released, read again and released. -/
def sampleTrace : List (Op × Event) :=
  [(.bget 0 1 7, .got .recycled 0), (.bread 0, .quiet), (.bget 1 1 8, .got .recycled 1),
    (.bread 1, .quiet), (.bget 2 1 7, .got .hit 0), (.brelse 0 0, .quiet), (.bread 2, .quiet),
    (.unref 0, .quiet), (.brelse 2 0, .quiet), (.unref 2, .quiet)]

theorem buffer_cache_invariant_sample :
    ∃ s, Lts.Run State.Step State.init sampleTrace s ∧ s.released 0 = 2 ∧
      ∀ b, (s.cache.buf b).refcnt = s.holders b := by
  obtain ⟨s, run, released⟩ := Lts.Run.of_follow State.next sampleTrace (s := State.init)
    (fun s => s.released 0 = 2) (by decide +kernel)
  exact ⟨s, run, of_decide_eq_true released, (buffer_cache_invariant run).2.2.1⟩

end BufferCache

end Xv6
