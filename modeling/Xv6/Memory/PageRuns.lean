import Xv6.Library.Lts
import Xv6.Memory.Accounting

/-!
Runs of one process seen from its paging metadata: samplings, allocations, evictions
and swap-ins, with a record of what they observed.

An operation happens where the counters send the code to it: `allocuvm` and
`onPageFaultPG` evict when memory is full, bring a page in when it is not, and
exchange two pages when the file is full as well. The accessed bits are the inputs of
a sampling. The record says when a slot was filled and which bits were found, and
nothing of the metadata depends on it.
-/

namespace Xv6

open Paging

inductive Happening where
  /-- A page was made resident in this slot. -/
  | loaded (i : Slot)
  /-- The resident pages were sampled and had these accessed bits. -/
  | sampled (bits : Slot → Bool)

/-- The record has the latest happening first. -/
structure Observed where
  paging : Paging
  log : List Happening

inductive PageOp where
  | sample (bits : Slot → Bool)
  | alloc (va pgdir : Nat)
  | evict
  | swapIn (va pgdir : Nat)
  | exchange (va : Nat)

/-- The tests of `allocuvm` and `onPageFaultPG` on the counters. -/
def PageOp.Enabled (m : Paging) : PageOp → Prop
  | .sample _ => True
  | .alloc _ _ => m.pagesInMemory < MAX_PSYC_PAGES
  | .evict => m.pagesInMemory = MAX_PSYC_PAGES ∧
      m.pagesInSwapfile ≠ MAX_TOTAL_PAGES - MAX_PSYC_PAGES
  | .swapIn _ _ => m.pagesInMemory < MAX_PSYC_PAGES
  | .exchange _ => m.pagesInMemory = MAX_PSYC_PAGES ∧
      m.pagesInSwapfile = MAX_TOTAL_PAGES - MAX_PSYC_PAGES

instance (m : Paging) (op : PageOp) : Decidable (op.Enabled m) := by
  cases op <;> unfold PageOp.Enabled <;> infer_instance

/-- `updatePageInPriorityQueue` on the metadata. Only `AQ` looks at other pages' bits. -/
def Paging.test (sel : Selection) (bits : Slot → Bool) (m : Paging) (pageNum : Int) :
    Res Paging := do
  let i ← ramSlot pageNum
  updatePage sel (fun _ => none) (bits i) m i

namespace Observed

def carryOut (sel : Selection) (s : Observed) : PageOp → Res Observed
  | .sample bits => do
    let m ← (sampleOrder sel s.paging).foldlM (Paging.test sel bits) s.paging
    .ok ⟨m, .sampled bits :: s.log⟩
  | .alloc a pgdir =>
    match getPageIndexDefault s.paging.ramPmd false CLEAN_VA with
    | none => .error .outOfBounds
    | some i => do
      let m := s.paging.occupy i a pgdir
      let m ← insertPageToPrioQueue sel { m with pagesInMemory := m.pagesInMemory + 1 } i
      .ok ⟨m, .loaded i :: s.log⟩
  | .evict =>
    let choice := getVictimIndex sel s.paging
    if choice.1 = -1 then .error .noValidMemIndex
    else
      match getPageIndexDefault choice.2.swapPmd false CLEAN_VA with
      | none => .error .noSwapSpace
      | some j => do
        let i ← ramSlot choice.1
        .ok ⟨choice.2.pageOut i j, s.log⟩
  | .swapIn va1 pgdir =>
    match getPageIndexDefault s.paging.swapPmd true va1 with
    | none => .error .faultNotInSwap
    | some j => do
      let m ← increaseProcAge (s.paging.vacateSwap j)
      match getPageIndexDefault m.ramPmd false CLEAN_VA with
      | none => .error .faultNoRam
      | some i => do
        let m ← insertPageToPrioQueue sel (m.occupy i va1 pgdir) i
        .ok ⟨{ m with pagesInMemory := m.pagesInMemory + 1 }, .loaded i :: s.log⟩
  | .exchange va1 =>
    let choice := getVictimIndex sel s.paging
    match getPageIndexDefault choice.2.swapPmd true va1 with
    | none => .error .swapNotInSwap
    | some j =>
      if choice.1 = -1 then .error .swapNotInMemory
      else do
        let i ← ramSlot choice.1
        let m ← increaseProcAge (choice.2.exchanged i j)
        let m ← insertPageToPrioQueue sel (m.setRam i (choice.2.swapPmd j)) i
        .ok ⟨m, .loaded i :: s.log⟩

/-- An operation the code makes in this state and that does not panic. -/
def next (sel : Selection) (s : Observed) (op : PageOp) : Except (Option Panic) Observed :=
  if op.Enabled s.paging then (s.carryOut sel op).mapError some else .error none

end Observed

section Pieces

variable {m m' : Paging} {S : Finset Slot} {sel : Selection} {i : Slot} {turns : List Nat}

/-- The age of a page when it is made resident; `SCFIFO` leaves the field alone. -/
def firstAge (sel : Selection) (age : UInt32) : UInt32 :=
  match sel with
  | .NFUA => 0
  | .LAPA => 0xFFFFFFFF
  | _ => age

def firstPriority (sel : Selection) (q : PrioQueue) : UInt32 :=
  match sel with
  | .NFUA => 0
  | .LAPA => countSetBits 0xFFFFFFFF
  | _ => lastPriority q

/-- The metadata with a page that was not queued at the place the policy gives it. -/
def Paging.entered (m : Paging) (sel : Selection) (i : Slot) : Paging :=
  { m.setRam i { m.ramPmd i with age := firstAge sel (m.ramPmd i).age } with
    queue := insertHeap m.queue ⟨i.val, firstPriority sel m.queue⟩ }

theorem insertPageToPrioQueue_eq (build : sel.Queued) (queued : Queued m.queue S)
    (outside : i ∉ S) : insertPageToPrioQueue sel m i = .ok (m.entered sel i) := by
  have absent := queued.findInHeap_absent outside
  rcases build with rfl | rfl | rfl
  · simp only [insertPageToPrioQueue, absent, HeapP.clean]
    exact enqueue_ok (m := m.setRam i _) queued _
  · simp only [insertPageToPrioQueue, absent, HeapP.clean]
    exact enqueue_ok (m := m.setRam i _) queued _
  · simp only [insertPageToPrioQueue, absent, HeapP.clean]
    refine (enqueue_ok queued _).trans ?_
    simp [entered, firstAge, firstPriority, setRam]

/-- The position whose priority the turn `i` of `increaseProcAge` raises, if it raises one. -/
def Paging.raisedAt (m : Paging) (i : Nat) : Option Nat :=
  if h : i < MAX_PSYC_PAGES then
    if (entryAt m.queue.array i).index ≠ -1 ∧ (m.ramPmd ⟨i, h⟩).occupied then
      some (entryAt m.queue.array i).index.toNat
    else none
  else none

/-- How often `increaseProcAge` raises the priority at a position. -/
def Paging.raises (m : Paging) (k : Nat) : Nat :=
  ((List.range MAX_PRIO_ARR).filterMap m.raisedAt).count k

/-- What some turns of `increaseProcAge` do: ages go by slot, priorities by position. -/
structure RaisedBy (turns : List Nat) (m m' : Paging) : Prop where
  same : SamePages m m'
  size : m'.queue.size = m.queue.size
  length : m'.queue.array.length = m.queue.array.length
  index : ∀ k, (entryAt m'.queue.array k).index = (entryAt m.queue.array k).index
  age : ∀ i : Slot, (m'.ramPmd i).age = (m.ramPmd i).age +
    UInt32.ofNat (turns.countP (fun t => t = i.val ∧ (m.raisedAt t).isSome))
  priority : ∀ k, (entryAt m'.queue.array k).priority = (entryAt m.queue.array k).priority +
    UInt32.ofNat ((turns.filterMap m.raisedAt).count k)

theorem RaisedBy.raisedAt (raised : RaisedBy turns m m') :
    m'.raisedAt = m.raisedAt := by
  funext t
  unfold Paging.raisedAt
  split
  · rw [raised.index, raised.same.ramPmd]
  · rfl

theorem RaisedBy.trans {turns' : List Nat} {m₁ : Paging} (first : RaisedBy turns m m₁)
    (second : RaisedBy turns' m₁ m') : RaisedBy (turns ++ turns') m m' where
  same := first.same.trans second.same
  size := second.size.trans first.size
  length := second.length.trans first.length
  index k := (second.index k).trans (first.index k)
  age i := by
    rw [second.age, first.age, first.raisedAt, List.countP_append, UInt32.ofNat_add,
      UInt32.add_assoc]
  priority k := by
    rw [second.priority, first.priority, first.raisedAt, List.filterMap_append,
      List.count_append, UInt32.ofNat_add, UInt32.add_assoc]

theorem entryAt_bump_priority {array : List HeapP} {i : Nat} (k : Nat) (inside : i < array.length)
    (priority : UInt32) :
    (entryAt (array.set i { entryAt array i with priority := priority }) k).priority =
      if k = i then priority else (entryAt array k).priority := by
  rw [entryAt_set _ _ _ _ inside]
  split <;> rfl

theorem increaseAgeAt_raised (queued : Queued m.queue S) (t : Nat) :
    ∃ m', increaseAgeAt m t = .ok m' ∧ RaisedBy [t] m m' := by
  have still : m.raisedAt t = none → RaisedBy [t] m m := fun none => {
    same := .refl m
    size := rfl
    length := rfl
    index := fun _ => rfl
    age := fun i => by simp [none]
    priority := fun k => by simp [none] }
  unfold increaseAgeAt
  by_cases clean : (entryAt m.queue.array t).index = -1
  · simp only [clean, if_true]
    exact ⟨m, rfl, still (by simp [Paging.raisedAt, clean])⟩
  · have low : t < MAX_PSYC_PAGES := by
      by_contra high
      exact clean (queued.tail t (by omega))
    obtain ⟨j, index⟩ := (queued.known t).resolve_left clean
    have bound := j.isLt
    have inside : j.val < m.queue.array.length := by
      rw [queued.length]
      unfold MAX_PRIO_ARR
      omega
    simp only [index, if_neg (show ¬ (j.val : Int) = -1 by omega), dif_pos low]
    split
    · rename_i taken
      have raised : m.raisedAt t = some j.val := by
        simp [Paging.raisedAt, low, taken, index]
      rw [if_pos ⟨by omega, by unfold MAX_PRIO_ARR; omega⟩]
      refine ⟨_, rfl, (SamePages.setAge m ⟨t, low⟩ _).trans (.setQueue _ _), rfl, by simp,
        fun k => entryAt_bump .., fun i => ?_, fun k => ?_⟩
      · by_cases here : i = ⟨t, low⟩
        · subst here
          simp [setRam, raised]
        · have other : ¬ t = i.val := fun same => here (Fin.ext same.symm)
          simp [setRam, here, other]
      · simp only [Int.toNat_natCast]
        rw [entryAt_bump_priority k inside]
        by_cases here : k = j.val
        · simp [here, raised]
        · simp [here, raised, Ne.symm here]
    · rename_i vacant
      exact ⟨m, rfl, still (by simp [Paging.raisedAt, low, vacant])⟩

theorem RaisedBy.queued (raised : RaisedBy turns m m') (queued : Queued m.queue S) :
    Queued m'.queue S :=
  queued.congr raised.size raised.length raised.index

theorem increaseProcAge_raised (queued : Queued m.queue S) :
    ∃ m', increaseProcAge m = .ok m' ∧ RaisedBy (List.range MAX_PRIO_ARR) m m' := by
  unfold increaseProcAge
  generalize List.range MAX_PRIO_ARR = turns
  induction turns generalizing m with
  | nil =>
    exact ⟨m, rfl, .refl m, rfl, rfl, fun _ => rfl, fun _ => by simp, fun _ => by simp⟩
  | cons t turns ih =>
    obtain ⟨m₁, run, raised⟩ := increaseAgeAt_raised queued t
    obtain ⟨m', run', raised'⟩ := ih (raised.queued queued)
    refine ⟨m', ?_, raised.trans raised'⟩
    rw [List.foldlM_cons, run]
    exact run'

end Pieces

namespace Observed

section Steps

variable {sel : Selection} {s s' : Observed} {op : PageOp} {bits : Slot → Bool} {m m' : Paging}

theorem next_ok : s.next sel op = .ok s' ↔ op.Enabled s.paging ∧ s.carryOut sel op = .ok s' := by
  unfold next
  split
  · rename_i enabled
    cases s.carryOut sel op <;> simp [Except.mapError, enabled]
  · rename_i disabled
    simp [disabled]

/-- Sampling any occupied slots. -/
theorem test_kept (build : sel.Queued) (acc : Accounted m) {i : Slot}
    (taken : i ∈ occupied m.ramPmd) (run : m.test sel bits i.val = .ok m') :
    SamePages m m' ∧ Accounted m' := by
  simp only [test, ramSlot_val, Res.ok_bind] at run
  obtain ⟨m₁, run₁, same, acc₁⟩ := updatePage_accounted build (fun _ => none) (bits i) acc taken
  cases run₁.symm.trans run
  exact ⟨same, acc₁⟩

/-- A sampling keeps what every test of an occupied slot keeps. `I` may depend on the pages
still to be visited. -/
theorem tests_induction (build : sel.Queued) {I : List Int → Paging → Prop}
    (step : ∀ (i : Slot) rest m m', Accounted m → i ∈ occupied m.ramPmd →
      I (i.val :: rest) m → m.test sel bits i.val = .ok m' → I rest m') (order : List Int)
    (acc : Accounted m) (resident : ∀ x ∈ order, ∃ i ∈ occupied m.ramPmd, x = i.val)
    (run : order.foldlM (Paging.test sel bits) m = .ok m') (start : I order m) :
    I [] m' ∧ SamePages m m' ∧ Accounted m' := by
  induction order generalizing m with
  | nil =>
    cases run
    exact ⟨start, .refl _, acc⟩
  | cons x rest ih =>
    obtain ⟨i, taken, rfl⟩ := resident x (List.mem_cons_self ..)
    rw [List.foldlM_cons] at run
    obtain ⟨m₁, first, run⟩ := Res.bind_ok.mp run
    obtain ⟨same, acc₁⟩ := test_kept build acc taken first
    have resident₁ : ∀ x ∈ rest, ∃ i ∈ occupied m₁.ramPmd, x = i.val := fun x inside => by
      rw [same.resident]
      exact resident x (List.mem_cons_of_mem _ inside)
    obtain ⟨done, same', acc'⟩ := ih acc₁ resident₁ run (step i rest _ m₁ acc taken start first)
    exact ⟨done, same.trans same', acc'⟩

theorem next_sample (run : s.next sel (.sample bits) = .ok s') :
    ∃ m, (sampleOrder sel s.paging).foldlM (Paging.test sel bits) s.paging = .ok m ∧
      s' = ⟨m, .sampled bits :: s.log⟩ := by
  obtain ⟨m, tests, done⟩ := Res.bind_ok.mp (next_ok.mp run).2
  cases done
  exact ⟨m, tests, rfl⟩

theorem next_alloc (build : sel.Queued) (acc : Accounted s.paging) {a d : Nat}
    (run : s.next sel (.alloc a d) = .ok s') :
    Accounted s'.paging ∧ ∃ i ∉ occupied s.paging.ramPmd,
      s' = ⟨{ s.paging.occupy i a d with
        pagesInMemory := s.paging.pagesInMemory + 1 }.entered sel i, .loaded i :: s.log⟩ := by
  obtain ⟨room, run⟩ := next_ok.mp run
  obtain ⟨i, m', found, queued, _, acc'⟩ := acc.track build room a d
  have vacant : i ∉ occupied s.paging.ramPmd := by simp [(getPageIndexDefault_some found).1]
  simp only [carryOut, found, queued, Res.ok_bind, Except.ok.injEq] at run
  subst run
  refine ⟨acc', i, vacant, ?_⟩
  have entered := insertPageToPrioQueue_eq (m := { s.paging.occupy i a d with
    pagesInMemory := s.paging.pagesInMemory + 1 }) build acc.queued vacant
  cases queued.symm.trans entered
  rfl

/-- The pages are there for an eviction. -/
theorem nonempty_of_full (acc : Accounted m) (full : m.pagesInMemory = MAX_PSYC_PAGES) :
    (occupied m.ramPmd).Nonempty := by
  rw [acc.pagesInMemory] at full
  refine Finset.card_pos.mp ?_
  have : (occupied m.ramPmd).card = 16 := by exact_mod_cast full
  omega

theorem next_evict (build : sel.Queued) (acc : Accounted s.paging)
    (run : s.next sel .evict = .ok s') :
    Accounted s'.paging ∧ ∃ i ∈ occupied s.paging.ramPmd, ∃ j ∉ occupied s.paging.swapPmd,
      getVictimIndex sel s.paging = ((i.val : Int), s.paging) ∧
        s' = ⟨s.paging.pageOut i j, s.log⟩ := by
  obtain ⟨⟨full, _⟩, run⟩ := next_ok.mp run
  obtain ⟨i, taken, victim, _⟩ := acc.victim build (nonempty_of_full acc full)
  have slot : ¬ (i.val : Int) = -1 := by omega
  simp only [carryOut, victim, if_neg slot] at run
  split at run
  · cases run
  · rename_i j found
    have vacant : j ∉ occupied s.paging.swapPmd := by simp [(getPageIndexDefault_some found).1]
    simp only [ramSlot_val, Res.ok_bind, Except.ok.injEq] at run
    subst run
    exact ⟨acc.pageOut taken vacant, i, taken, j, vacant, victim, rfl⟩

theorem next_swapIn (build : sel.Queued) (acc : Accounted s.paging) {va d : Nat}
    (run : s.next sel (.swapIn va d) = .ok s') :
    Accounted s'.paging ∧ ∃ j m₁, ∃ i ∉ occupied s.paging.ramPmd,
      getPageIndexDefault s.paging.swapPmd true va = some j ∧
      increaseProcAge (s.paging.vacateSwap j) = .ok m₁ ∧
      s' = ⟨{ (m₁.occupy i va d).entered sel i with
        pagesInMemory := m₁.pagesInMemory + 1 }, .loaded i :: s.log⟩ := by
  obtain ⟨room, run⟩ := next_ok.mp run
  simp only [carryOut] at run
  split at run
  · cases run
  · rename_i j found
    have taken : j ∈ occupied s.paging.swapPmd :=
      mem_occupied.mpr (getPageIndexDefault_some found).1
    obtain ⟨m₁, i, m₂, aged, same, free, queued, _, acc'⟩ := acc.swapIn build room taken va d
    have resident : occupied m₁.ramPmd = occupied s.paging.ramPmd := same.resident
    have vacant : i ∉ occupied s.paging.ramPmd := by
      rw [← resident]
      simp [(getPageIndexDefault_some free).1]
    simp only [aged, free, queued, Res.ok_bind, Except.ok.injEq] at run
    subst run
    refine ⟨acc', j, m₁, i, vacant, found, aged, ?_⟩
    obtain ⟨m₁', aged', raised⟩ := increaseProcAge_raised (m := s.paging.vacateSwap j) acc.queued
    cases aged.symm.trans aged'
    have entered := insertPageToPrioQueue_eq (m := m₁.occupy i va d) build
      (raised.queued acc.queued) vacant
    cases queued.symm.trans entered
    rfl

theorem next_exchange (build : sel.Queued) (acc : Accounted s.paging) {va : Nat}
    (run : s.next sel (.exchange va) = .ok s') :
    Accounted s'.paging ∧ ∃ i ∈ occupied s.paging.ramPmd, ∃ j m₁,
      getVictimIndex sel s.paging = ((i.val : Int), s.paging) ∧
      getPageIndexDefault s.paging.swapPmd true va = some j ∧
      increaseProcAge (s.paging.exchanged i j) = .ok m₁ ∧
      s' = ⟨(m₁.setRam i (s.paging.swapPmd j)).entered sel i, .loaded i :: s.log⟩ := by
  obtain ⟨⟨full, _⟩, run⟩ := next_ok.mp run
  obtain ⟨i, taken, victim, _⟩ := acc.victim build (nonempty_of_full acc full)
  have slot : ¬ (i.val : Int) = -1 := by omega
  simp only [carryOut, victim] at run
  split at run
  · cases run
  · rename_i j found
    have swapped := (getPageIndexDefault_some found).1
    obtain ⟨m₁, m₂, aged, _, queued, _, acc'⟩ :=
      acc.exchange build taken (mem_occupied.mpr swapped) swapped
    simp only [if_neg slot, ramSlot_val, aged, queued, Res.ok_bind, Except.ok.injEq] at run
    subst run
    refine ⟨acc', i, taken, j, m₁, victim, found, aged, ?_⟩
    have left := (acc.queued.dequeue taken).1
    obtain ⟨m₁', aged', raised⟩ := increaseProcAge_raised (m := s.paging.exchanged i j) left
    cases aged.symm.trans aged'
    have entered := insertPageToPrioQueue_eq (m := m₁.setRam i (s.paging.swapPmd j)) build
      (raised.queued left) (Finset.notMem_erase i _)
    cases queued.symm.trans entered
    rfl

theorem next_accounted (build : sel.Queued) (acc : Accounted s.paging)
    (run : s.next sel op = .ok s') : Accounted s'.paging := by
  cases op with
  | sample bits =>
    obtain ⟨m, tests, rfl⟩ := next_sample run
    exact (tests_induction build (I := fun _ _ => True) (fun _ _ _ _ _ _ _ _ => trivial) _ acc
      (fun _ => sampleOrder_resident build acc) tests trivial).2.2
  | alloc a d => exact (next_alloc build acc run).1
  | evict => exact (next_evict build acc run).1
  | swapIn va d => exact (next_swapIn build acc run).1
  | exchange va => exact (next_exchange build acc run).1

end Steps

/-- The metadata when `exec` starts to build an image. -/
def start : Observed := ⟨Paging.zeroed.reset, []⟩

abbrev Runs (sel : Selection) : Observed → List PageOp → Observed → Prop :=
  Lts.Run (fun s op s' => s.next sel op = .ok s')

def nextWhere (sel : Selection) (C : Observed → PageOp → Prop) [∀ s op, Decidable (C s op)]
    (s : Observed) (op : PageOp) : Except (Option Panic) Observed :=
  if C s op then s.next sel op else .error none

/-- A run with a condition on its steps can be found by carrying it out. -/
theorem exists_run_where (sel : Selection) (s₀ : Observed) (ops : List PageOp)
    (C : Observed → PageOp → Prop) [∀ s op, Decidable (C s op)] (p : Observed → Bool)
    (checked : (ops.foldlM (nextWhere sel C) s₀).toOption.any p = true) :
    ∃ s, Lts.Run (fun s op s' => s.next sel op = .ok s' ∧ C s op) s₀ ops s ∧ p s = true := by
  cases outcome : ops.foldlM (nextWhere sel C) s₀ with
  | error e => simp [outcome, Except.toOption] at checked
  | ok s =>
    refine ⟨s, (Lts.Run.of_foldlM ops outcome).mono fun op _ s s' step => ?_, ?_⟩
    · unfold nextWhere at step
      split at step
      · rename_i holds
        exact ⟨step, holds⟩
      · cases step
    · simpa [outcome, Except.toOption] using checked

theorem exists_run (sel : Selection) (s₀ : Observed) (ops : List PageOp) (p : Observed → Bool)
    (checked : (ops.foldlM (next sel) s₀).toOption.any p = true) :
    ∃ s, Runs sel s₀ ops s ∧ p s = true := by
  have every : nextWhere sel (fun _ _ => True) = next sel := by
    funext s op
    simp [nextWhere]
  rw [← every] at checked
  obtain ⟨s, run, found⟩ := exists_run_where sel s₀ ops (fun _ _ => True) p checked
  exact ⟨s, run.mono fun _ _ _ _ step => step.1, found⟩

/-- A process of 3 pages, its code, the page below its stack and its stack, grows by 16 pages
in one call of `sbrk`; `first` are the bits found by the first sampling. -/
def growth (first : Slot → Bool) : List PageOp :=
  (List.range 16).map (fun n => .alloc (n * PGSIZE) 1) ++
    [.sample first, .evict, .alloc (16 * PGSIZE) 1,
     .sample (fun _ => false), .evict, .alloc (17 * PGSIZE) 1,
     .sample (fun _ => false), .evict, .alloc (18 * PGSIZE) 1]

end Observed

end Xv6
