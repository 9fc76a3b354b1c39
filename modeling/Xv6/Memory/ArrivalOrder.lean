import Xv6.Library.Outcome
import Xv6.Memory.PageRuns

/-!
The order of arrival in the `SCFIFO` build.

A page that becomes resident goes to the end of the queue, and so does one whose
accessed bit a sampling finds set; the victim is at its front. The order is encoded in
priorities, and `increaseProcAge` raises priorities by position: on a swap-in it leaves
out one position, so that the page there falls back against all others. The order
survives as long as no page is caught up with.
-/

namespace Xv6

open HeapOrder List Outcome

/-- The page in `x` became resident before the page in `y`, and no sampling since then found
an accessed bit of either set. -/
def older : List Happening → Slot → Slot → Bool
  | [], _, _ => false
  | .loaded j :: log, x, y => if j = y then x ≠ y else if j = x then false else older log x y
  | .sampled bits :: log, x, y => !bits x && !bits y && older log x y

/-- Priorities are distinct, and `R x y` puts `x` before `y`. -/
structure InLine (R : Slot → Slot → Prop) (q : PrioQueue) : Prop where
  distinct : (q.live.map HeapP.priority).Nodup
  ordered : ∀ e ∈ q.live, ∀ e' ∈ q.live, ∀ x y : Slot, e.index = x.val → e'.index = y.val →
    R x y → e.priority.toNat < e'.priority.toNat

/-- Every priority is bounded by one in the half of the array that `findMaxElementIndex`
looks at. -/
def PrioQueue.MaxInScan (q : PrioQueue) : Prop :=
  ∀ a, a < q.size → ∃ b, q.size / 2 ≤ b ∧ b < q.size ∧ prioAt q.array a ≤ prioAt q.array b

section Queue

variable {q q' : PrioQueue} {e : HeapP} {R R' : Slot → Slot → Prop}

theorem mem_live {q : PrioQueue} {e : HeapP} : e ∈ q.live ↔ ∃ k < q.size, entryAt q.array k = e := by
  simp [PrioQueue.live]

theorem scan_max (array : List HeapP) (l : List Nat) (b : Nat) :
    ∃ r ∈ b :: l, l.foldl (maxStep array) ((entryAt array b).priority.toInt32, b) =
        ((entryAt array r).priority.toInt32, r) ∧
      ∀ i ∈ b :: l, prioAt array i ≤ prioAt array r := by
  induction l generalizing b with
  | nil => exact ⟨b, mem_singleton_self b, rfl, by simp⟩
  | cons i l ih =>
    rw [foldl_cons]
    by_cases better : (entryAt array b).priority < (entryAt array i).priority
    · obtain ⟨r, inside, run, most⟩ := ih i
      refine ⟨r, mem_cons_of_mem _ inside, ?_, fun k listed => ?_⟩
      · simpa [maxStep, better] using run
      · rcases mem_cons.mp listed with rfl | later
        · exact Nat.le_trans (Nat.le_of_lt (UInt32.lt_iff_toNat_lt.mp better))
            (most i (mem_cons_self ..))
        · exact most k later
    · obtain ⟨r, inside, run, most⟩ := ih b
      have worse : prioAt array i ≤ prioAt array b :=
        Nat.not_lt.mp fun less => better (UInt32.lt_iff_toNat_lt.mpr less)
      refine ⟨r, ?_, ?_, fun k listed => ?_⟩
      · rcases mem_cons.mp inside with rfl | later
        · exact mem_cons_self ..
        · exact mem_cons_of_mem _ (mem_cons_of_mem _ later)
      · simpa [maxStep, better] using run
      · rcases mem_cons.mp listed with rfl | listed
        · exact most k (mem_cons_self ..)
        · rcases mem_cons.mp listed with rfl | later
          · exact Nat.le_trans worse (most b (mem_cons_self ..))
          · exact most k (mem_cons_of_mem _ later)

theorem findMaxElementIndex_spec (array : List HeapP) {size : Nat} (pos : 0 < size) :
    findMaxElementIndex array size < size ∧ ∀ i, size / 2 ≤ i → i < size →
      prioAt array i ≤ prioAt array (findMaxElementIndex array size) := by
  obtain ⟨r, inside, run, most⟩ :=
    scan_max array (List.range' (1 + size / 2) (size - (1 + size / 2))) (size / 2)
  have scanned : ∀ i, i ∈ size / 2 :: List.range' (1 + size / 2) (size - (1 + size / 2)) ↔
      size / 2 ≤ i ∧ i < size := by
    intro i
    rw [mem_cons, mem_range'_1]
    omega
  have found : findMaxElementIndex array size = r := by
    unfold findMaxElementIndex
    rw [run]
  rw [found]
  exact ⟨((scanned r).mp inside).2, fun i lower upper => most i ((scanned i).mpr ⟨lower, upper⟩)⟩

/-- The place at the end of the queue is behind every page in it. -/
theorem lastPriority_gt (scan : q.MaxInScan)
    (low : ∀ e ∈ q.live, e.priority.toNat < 2 ^ 32 - 1) (inside : e ∈ q.live) :
    e.priority.toNat < (lastPriority q).toNat := by
  obtain ⟨a, bound, rfl⟩ := mem_live.mp inside
  obtain ⟨upper, most⟩ := findMaxElementIndex_spec q.array (Nat.zero_lt_of_lt bound)
  obtain ⟨b, lower, bound', le⟩ := scan a bound
  have top := low _ (mem_live.mpr ⟨_, upper, rfl⟩)
  have last : (lastPriority q).toNat =
      prioAt q.array (findMaxElementIndex q.array q.size) + 1 := by
    unfold lastPriority prioAt
    rw [UInt32.toNat_add]
    exact Nat.mod_eq_of_lt (by simp only [UInt32.toNat_one]; omega)
  rw [last]
  exact Nat.lt_succ_of_le (Nat.le_trans le (most b lower bound'))

theorem maxInScan_of_isHeap (heap : q.IsHeap) : q.MaxInScan :=
  fun a bound => exists_leaf_ge heap a bound

/-- The last of a queue in heap order is among the leaves. -/
theorem findMaxElementIndex_max (array : List HeapP) {n : Nat} (pos : 0 < n)
    (heap : PrioQueue.IsHeap ⟨array, n⟩) :
    findMaxElementIndex array n < n ∧
      ∀ i < n, prioAt array i ≤ prioAt array (findMaxElementIndex array n) := by
  obtain ⟨bound, most⟩ := findMaxElementIndex_spec array pos
  refine ⟨bound, fun i inside => ?_⟩
  obtain ⟨leaf, lower, upper, le⟩ := maxInScan_of_isHeap heap i inside
  exact Nat.le_trans le (most leaf lower upper)

/-- The priorities around `2 ^ 31` are those where a signed maximum changes sign. -/
theorem findMaxElementIndex_max_signed :
    findMaxElementIndex [⟨0, 0x7FFFFFFE⟩, ⟨1, 0x80000002⟩, ⟨2, 0x7FFFFFFF⟩, ⟨3, 0x80000003⟩] 4 < 4 ∧
      ∀ i < 4, prioAt [⟨0, 0x7FFFFFFE⟩, ⟨1, 0x80000002⟩, ⟨2, 0x7FFFFFFF⟩, ⟨3, 0x80000003⟩] i ≤
        0x80000003 :=
  findMaxElementIndex_max [⟨0, 0x7FFFFFFE⟩, ⟨1, 0x80000002⟩, ⟨2, 0x7FFFFFFF⟩, ⟨3, 0x80000003⟩]
    (by decide) (by decide)

/-- A page that was not queued goes to the end. -/
theorem InLine.insert (inLine : InLine R q) {i : Slot} (inserted : Inserted q e q')
    (index : e.index = i.val) (absent : ∀ e' ∈ q.live, e'.index ≠ i.val)
    (above : ∀ e' ∈ q.live, e'.priority.toNat < e.priority.toNat)
    (weaker : ∀ x y, R' x y → x ≠ i ∧ (y = i ∨ y ≠ i ∧ R x y)) : InLine R' q' where
  distinct := by
    refine (inserted.live.map HeapP.priority).nodup_iff.mpr (nodup_cons.mpr ⟨?_, inLine.distinct⟩)
    intro listed
    obtain ⟨e', inside, same⟩ := mem_map.mp listed
    have := above e' inside
    rw [same] at this
    exact Nat.lt_irrefl _ this
  ordered e₁ inside₁ e₂ inside₂ x y first second related := by
    obtain ⟨apart, related⟩ := weaker x y related
    have old₁ : e₁ ∈ q.live := by
      rcases mem_cons.mp (inserted.live.mem_iff.mp inside₁) with rfl | old
      · exact absurd (Fin.ext (Int.ofNat.inj (first.symm.trans index))) apart
      · exact old
    rcases mem_cons.mp (inserted.live.mem_iff.mp inside₂) with rfl | old₂
    · exact above e₁ old₁
    · rcases related with rfl | ⟨_, related⟩
      · exact absurd second (absent e₂ old₂)
      · exact inLine.ordered e₁ old₁ e₂ old₂ x y first second related

theorem InLine.delete (inLine : InLine R q) (deleted : Deleted q e q') : InLine R q' where
  distinct := by
    have nodup := (deleted.live.map HeapP.priority).nodup_iff.mp inLine.distinct
    exact (nodup_cons.mp nodup).2
  ordered e₁ inside₁ e₂ inside₂ := inLine.ordered
    e₁ (deleted.live.mem_iff.mpr (mem_cons_of_mem _ inside₁))
    e₂ (deleted.live.mem_iff.mpr (mem_cons_of_mem _ inside₂))

theorem InLine.mono (inLine : InLine R q) (weaker : ∀ x y, R' x y → R x y) : InLine R' q :=
  ⟨inLine.distinct, fun e₁ inside₁ e₂ inside₂ x y first second related =>
    inLine.ordered e₁ inside₁ e₂ inside₂ x y first second (weaker x y related)⟩

theorem nodup_priorities : (q.live.map HeapP.priority).Nodup ↔
    ∀ a < q.size, ∀ b < q.size, prioAt q.array a = prioAt q.array b → a = b := by
  have flat : q.live.map HeapP.priority =
      (List.range q.size).map (fun k => (entryAt q.array k).priority) := by
    simp [PrioQueue.live, Function.comp_def]
  rw [flat, nodup_map_iff_inj_on nodup_range]
  simp only [mem_range, prioAt, UInt32.toNat_inj]

end Queue

/-- No priority of a queued page is raised past `2 ^ 32 - 2`. -/
def Paging.RaisedLow (m : Paging) : Prop :=
  ∀ k < m.queue.size, prioAt m.queue.array k + m.raises k < 2 ^ 32 - 1

/-- No queued page is caught up with when `increaseProcAge` raises the priorities. -/
def Paging.RaisedInOrder (m : Paging) : Prop :=
  ∀ a < m.queue.size, ∀ b < m.queue.size, prioAt m.queue.array a < prioAt m.queue.array b →
    prioAt m.queue.array a + m.raises a < prioAt m.queue.array b + m.raises b

instance : DecidablePred Paging.RaisedLow := fun m => inferInstanceAs
  (Decidable (∀ k < m.queue.size, prioAt m.queue.array k + m.raises k < 2 ^ 32 - 1))

instance : DecidablePred Paging.RaisedInOrder := fun m => inferInstanceAs
  (Decidable (∀ a < m.queue.size, ∀ b < m.queue.size,
    prioAt m.queue.array a < prioAt m.queue.array b →
      prioAt m.queue.array a + m.raises a < prioAt m.queue.array b + m.raises b))

section Raising

variable {m m₁ : Paging} {R : Slot → Slot → Prop}

theorem RaisedBy.prioAt_eq (raised : RaisedBy (List.range MAX_PRIO_ARR) m m₁) (low : m.RaisedLow)
    {k : Nat} (live : k < m.queue.size) :
    prioAt m₁.queue.array k = prioAt m.queue.array k + m.raises k := by
  have bound := low k live
  have small : m.raises k < 2 ^ 32 := by omega
  unfold prioAt at *
  rw [raised.priority, UInt32.toNat_add]
  change (_ + (UInt32.ofNat (m.raises k)).toNat) % _ = _
  rw [UInt32.toNat_ofNat', Nat.mod_eq_of_lt small, Nat.mod_eq_of_lt (by omega)]

theorem RaisedBy.raisedLow (raised : RaisedBy (List.range MAX_PRIO_ARR) m m₁)
    (low : m.RaisedLow) : ∀ e ∈ m₁.queue.live, e.priority.toNat < 2 ^ 32 - 1 := by
  intro e inside
  obtain ⟨k, live, rfl⟩ := mem_live.mp inside
  rw [raised.size] at live
  have eq := raised.prioAt_eq low live
  unfold prioAt at eq
  rw [eq]
  exact low k live

theorem InLine.raise (inLine : InLine R m.queue)
    (raised : RaisedBy (List.range MAX_PRIO_ARR) m m₁) (low : m.RaisedLow)
    (inOrder : m.RaisedInOrder) : InLine R m₁.queue := by
  have distinct := nodup_priorities.mp inLine.distinct
  refine ⟨nodup_priorities.mpr fun a liveA b liveB same => ?_, ?_⟩
  · rw [raised.size] at liveA liveB
    rw [raised.prioAt_eq low liveA, raised.prioAt_eq low liveB] at same
    rcases Nat.lt_trichotomy (prioAt m.queue.array a) (prioAt m.queue.array b) with less | eq | more
    · have := inOrder a liveA b liveB less
      omega
    · exact distinct a liveA b liveB eq
    · have := inOrder b liveB a liveA more
      omega
  · intro e inside e' inside' x y first second related
    obtain ⟨a, liveA, rfl⟩ := mem_live.mp inside
    obtain ⟨b, liveB, rfl⟩ := mem_live.mp inside'
    rw [raised.size] at liveA liveB
    rw [raised.index] at first second
    have before := inLine.ordered _ (mem_live.mpr ⟨a, liveA, rfl⟩) _ (mem_live.mpr ⟨b, liveB, rfl⟩)
      x y first second related
    change prioAt m₁.queue.array a < prioAt m₁.queue.array b
    rw [raised.prioAt_eq low liveA, raised.prioAt_eq low liveB]
    exact inOrder a liveA b liveB before

/-- The queue need not be a heap any more, but its maximum stays where it is looked for. -/
theorem RaisedBy.maxInScan (raised : RaisedBy (List.range MAX_PRIO_ARR) m m₁)
    (heap : m.queue.IsHeap) (inLine : InLine R m.queue) (low : m.RaisedLow)
    (inOrder : m.RaisedInOrder) : m₁.queue.MaxInScan := by
  intro a live
  rw [raised.size] at live ⊢
  obtain ⟨b, lower, liveB, le⟩ := exists_leaf_ge heap a live
  refine ⟨b, lower, liveB, ?_⟩
  rw [raised.prioAt_eq low live, raised.prioAt_eq low liveB]
  rcases Nat.lt_or_eq_of_le le with less | same
  · exact Nat.le_of_lt (inOrder a live b liveB less)
  · rw [nodup_priorities.mp inLine.distinct a live b liveB same]

end Raising

def Paging.Low (m : Paging) : Prop := ∀ e ∈ m.queue.live, e.priority.toNat < 2 ^ 32 - 1

instance : DecidablePred Paging.Low := fun m =>
  inferInstanceAs (Decidable (∀ e ∈ m.queue.live, e.priority.toNat < 2 ^ 32 - 1))

/-- The queued priorities stay below `2 ^ 32 - 1` at every step of the operation. -/
def PageOp.StaysLow (m : Paging) : PageOp → Prop
  | .sample bits => Through Paging.Low (Paging.test .SCFIFO bits) (sampleOrder .SCFIFO m) m
  | .alloc _ _ => m.Low
  | .evict => m.Low
  | .swapIn _ _ => m.RaisedLow
  | .exchange va => ∀ i j, (getVictimIndex .SCFIFO m).1 = (i : Slot).val →
      getPageIndexDefault m.swapPmd true va = some j → (m.exchanged i j).RaisedLow

/-- A swap-in lets no queued page catch up with another. -/
def PageOp.RaisesInOrder (m : Paging) : PageOp → Prop
  | .swapIn _ _ => m.RaisedInOrder
  | .exchange va => ∀ i j, (getVictimIndex .SCFIFO m).1 = (i : Slot).val →
      getPageIndexDefault m.swapPmd true va = some j → (m.exchanged i j).RaisedInOrder
  | _ => True

instance (m : Paging) : (op : PageOp) → Decidable (op.StaysLow m)
  | .sample bits => inferInstanceAs
      (Decidable (Through Paging.Low (Paging.test .SCFIFO bits) (sampleOrder .SCFIFO m) m))
  | .alloc _ _ => inferInstanceAs (Decidable m.Low)
  | .evict => inferInstanceAs (Decidable m.Low)
  | .swapIn _ _ => inferInstanceAs (Decidable m.RaisedLow)
  | .exchange va => inferInstanceAs (Decidable (∀ i j, (getVictimIndex .SCFIFO m).1 =
      (i : Slot).val → getPageIndexDefault m.swapPmd true va = some j →
        (m.exchanged i j).RaisedLow))

instance (m : Paging) : (op : PageOp) → Decidable (op.RaisesInOrder m)
  | .swapIn _ _ => inferInstanceAs (Decidable m.RaisedInOrder)
  | .exchange va => inferInstanceAs (Decidable (∀ i j, (getVictimIndex .SCFIFO m).1 =
      (i : Slot).val → getPageIndexDefault m.swapPmd true va = some j →
        (m.exchanged i j).RaisedInOrder))
  | .sample _ => .isTrue trivial
  | .alloc _ _ => .isTrue trivial
  | .evict => .isTrue trivial

section Runs

variable {m m' : Paging} {s s' : Observed} {op : PageOp} {R R' : Slot → Slot → Prop}

theorem scfifo_queued : Selection.SCFIFO.Queued := .inr (.inr rfl)

/-- A page found accessed goes to the end; nothing else moves. -/
theorem test_inLine {bits : Slot → Bool} {i : Slot} (acc : Accounted m)
    (taken : i ∈ occupied m.ramPmd) (low : m.Low)
    (inLine : InLine (fun x y => bits x = false ∧ bits y = false ∧ R x y) m.queue)
    (run : m.test .SCFIFO bits i.val = .ok m') :
    InLine (fun x y => bits x = false ∧ bits y = false ∧ R x y) m'.queue := by
  have isTaken : (m.ramPmd i).occupied = true := mem_occupied.mp taken
  simp only [Paging.test, ramSlot_val, Res.ok_bind, updatePage, isTaken, if_true] at run
  cases found : bits i with
  | false =>
    simp only [found, Bool.false_eq_true, if_false] at run
    cases run
    exact inLine
  | true =>
    obtain ⟨_, deleted⟩ := acc.queued.deleted taken
    have left := (acc.queued.dequeue taken).1
    simp only [found, if_true] at run
    cases (enqueue_ok (m := m.dequeue i.val) left _).symm.trans run
    have lower : ∀ e ∈ (m.dequeue i.val).queue.live, e.priority.toNat < 2 ^ 32 - 1 :=
      fun e inside => low e (deleted.live.mem_iff.mpr (mem_cons_of_mem _ inside))
    refine (inLine.delete deleted).insert (left.inserted _) rfl
      (left.absent (Finset.notMem_erase i _))
      (fun e inside => lastPriority_gt (maxInScan_of_isHeap deleted.isHeap) lower inside) ?_
    rintro x y ⟨unsetX, unsetY, related⟩
    refine ⟨?_, .inr ⟨?_, unsetX, unsetY, related⟩⟩
    · rintro rfl
      simp [found] at unsetX
    · rintro rfl
      simp [found] at unsetY

theorem sampling_inLine {bits : Slot → Bool} (acc : Accounted m)
    (low : PageOp.StaysLow m (.sample bits)) (inLine : InLine R m.queue)
    (run : (sampleOrder .SCFIFO m).foldlM (Paging.test .SCFIFO bits) m = .ok m') :
    InLine (fun x y => bits x = false ∧ bits y = false ∧ R x y) m'.queue := by
  let I : List Int → Paging → Prop := fun rest m₁ =>
    InLine (fun x y => bits x = false ∧ bits y = false ∧ R x y) m₁.queue ∧
      Through Paging.Low (Paging.test .SCFIFO bits) rest m₁
  have step : ∀ (i : Slot) rest m₁ m₂, Accounted m₁ → i ∈ occupied m₁.ramPmd →
      I (i.val :: rest) m₁ → m₁.test .SCFIFO bits i.val = .ok m₂ → I rest m₂ :=
    fun i rest m₁ m₂ acc₁ taken ahead run =>
      ⟨test_inLine acc₁ taken ahead.2.here ahead.1 run, ahead.2.later run⟩
  exact (Observed.tests_induction scfifo_queued step (sampleOrder .SCFIFO m) acc
    (fun _ => sampleOrder_resident scfifo_queued acc) run
    ⟨inLine.mono fun _ _ related => related.2.2, low⟩).1.1

/-- The page in `i` has just been made resident. -/
theorem older_loaded {log : List Happening} {i x y : Slot}
    (related : older (.loaded i :: log) x y = true) :
    x ≠ i ∧ (y = i ∨ y ≠ i ∧ older log x y = true) := by
  simp only [older] at related
  split at related
  · rename_i same
    subst same
    exact ⟨by simpa using related, .inl rfl⟩
  · rename_i other
    split at related
    · cases related
    · rename_i apart
      exact ⟨Ne.symm apart, .inr ⟨Ne.symm other, related⟩⟩

theorem next_inLine (acc : Accounted s.paging)
    (inLine : InLine (fun x y => older s.log x y = true) s.paging.queue)
    (run : s.next .SCFIFO op = .ok s') (low : op.StaysLow s.paging)
    (inOrder : op.RaisesInOrder s.paging) :
    InLine (fun x y => older s'.log x y = true) s'.paging.queue := by
  cases op with
  | sample bits =>
    obtain ⟨m, tests, rfl⟩ := Observed.next_sample run
    refine (sampling_inLine acc low inLine tests).mono fun x y related => ?_
    simpa [older, and_assoc] using related
  | alloc a d =>
    obtain ⟨_, i, vacant, rfl⟩ := Observed.next_alloc scfifo_queued acc run
    exact inLine.insert (acc.queued.inserted _) rfl (acc.queued.absent vacant)
      (fun e inside => lastPriority_gt (maxInScan_of_isHeap acc.isHeap) low inside)
      fun x y => older_loaded
  | evict =>
    obtain ⟨_, i, taken, j, _, _, rfl⟩ := Observed.next_evict scfifo_queued acc run
    exact inLine.delete (acc.queued.deleted taken).2
  | swapIn va d =>
    obtain ⟨_, j, m₁, i, vacant, _, aged, rfl⟩ := Observed.next_swapIn scfifo_queued acc run
    obtain ⟨m₁', aged', raised⟩ := increaseProcAge_raised (m := s.paging.vacateSwap j) acc.queued
    cases aged.symm.trans aged'
    have queued := raised.queued acc.queued
    have scan := raised.maxInScan (R := fun x y => older s.log x y = true) acc.isHeap inLine
      low inOrder
    exact (InLine.raise (m := s.paging.vacateSwap j) inLine raised low inOrder).insert
      (queued.inserted _) rfl (queued.absent vacant)
      (fun e inside => lastPriority_gt scan (raised.raisedLow low) inside)
      fun x y => older_loaded
  | exchange va =>
    obtain ⟨_, i, taken, j, m₁, victim, found, aged, rfl⟩ :=
      Observed.next_exchange scfifo_queued acc run
    have chosen : (getVictimIndex .SCFIFO s.paging).1 = i.val := by rw [victim]
    obtain ⟨_, deleted⟩ := acc.queued.deleted taken
    have left := (acc.queued.dequeue taken).1
    obtain ⟨m₁', aged', raised⟩ := increaseProcAge_raised (m := s.paging.exchanged i j) left
    cases aged.symm.trans aged'
    have queued := raised.queued left
    have before : InLine (fun x y => older s.log x y = true) (s.paging.exchanged i j).queue :=
      inLine.delete deleted
    have scan := raised.maxInScan deleted.isHeap before (low i j chosen found)
      (inOrder i j chosen found)
    exact (before.raise raised (low i j chosen found) (inOrder i j chosen found)).insert
      (queued.inserted _) rfl (queued.absent (Finset.notMem_erase i _))
      (fun e inside => lastPriority_gt scan (raised.raisedLow (low i j chosen found)) inside)
      fun x y => older_loaded

end Runs

/-- In every run in which no swap-in lets a page catch up with another, a page is not chosen
for eviction while one is resident that came before it, if neither was found accessed since
both are resident; and a page just made resident is behind every other. -/
theorem scfifo_evicts_in_arrival_order {s₀ s : Observed} {ops : List PageOp}
    (acc : Accounted s₀.paging)
    (inLine : InLine (fun x y => older s₀.log x y = true) s₀.paging.queue)
    (run : Lts.Run (fun s op s' => s.next .SCFIFO op = .ok s' ∧ op.StaysLow s.paging ∧
      op.RaisesInOrder s.paging) s₀ ops s) :
    (∀ x ∈ occupied s.paging.ramPmd, ∀ y : Slot, older s.log x y = true →
      (getVictimIndex .SCFIFO s.paging).1 ≠ y.val) ∧
    ∀ i log, s.log = .loaded i :: log → ∀ e ∈ s.paging.queue.live, e.index = i.val →
      ∀ e' ∈ s.paging.queue.live, e'.index ≠ i.val → e'.priority.toNat < e.priority.toNat := by
  obtain ⟨acc, inLine⟩ := run.invariant
    (I := fun s => Accounted s.paging ∧ InLine (fun x y => older s.log x y = true) s.paging.queue)
    (fun _ _ _ before step => ⟨Observed.next_accounted scfifo_queued before.1 step.1,
      next_inLine before.1 before.2 step.1 step.2.1 step.2.2⟩) ⟨acc, inLine⟩
  constructor
  · intro x taken y related chosen
    obtain ⟨v, _, victim, e, inside, index, least⟩ := acc.victim scfifo_queued ⟨x, taken⟩
    rw [victim] at chosen
    obtain ⟨e', inside', index'⟩ := acc.queued.exists_live taken
    have := inLine.ordered e' inside' e inside x y index' (index.trans chosen) related
    have := least e' inside'
    omega
  · intro i log latest e inside index e' inside' other
    obtain ⟨x, _, index'⟩ := acc.queued.live_slot inside'
    refine inLine.ordered e' inside' e inside x i index' index ?_
    have apart : x ≠ i := fun same => other (by rw [index', same])
    simp [latest, older, apart]

/-- A page is swapped in by a process of 17 pages that has used pages 0, 2 and 7. -/
theorem scfifo_evicts_in_arrival_order_sample :
    ∃ s, Lts.Run (fun s op s' => s.next .SCFIFO op = .ok s' ∧ op.StaysLow s.paging ∧
        op.RaisesInOrder s.paging) Observed.start
        ((List.range 16).map (fun n => .alloc (n * PGSIZE) 1) ++
          [.sample (fun i => i.val ∈ [0, 2]), .evict, .alloc (16 * PGSIZE) 1,
           .sample (fun i => i.val ∈ [0, 2, 7]), .evict, .swapIn PGSIZE 1]) s ∧
      older s.log 4 5 = true ∧ (getVictimIndex .SCFIFO s.paging).1 ≠ (5 : Slot).val := by
  obtain ⟨s, run, found⟩ := Observed.exists_run_where .SCFIFO .start
    ((List.range 16).map (fun n => .alloc (n * PGSIZE) 1) ++
      [.sample (fun i => i.val ∈ [0, 2]), .evict, .alloc (16 * PGSIZE) 1,
       .sample (fun i => i.val ∈ [0, 2, 7]), .evict, .swapIn PGSIZE 1])
    (fun s op => op.StaysLow s.paging ∧ op.RaisesInOrder s.paging)
    (fun s => older s.log 4 5 = true ∧ 4 ∈ occupied s.paging.ramPmd) (by decide +kernel)
  obtain ⟨related, taken⟩ := of_decide_eq_true found
  have empty : InLine (fun x y => older [] x y = true) Observed.start.paging.queue :=
    ⟨by simp [Observed.start, Paging.reset, PrioQueue.live], fun _ _ _ _ _ _ _ _ related => by
      simp [older] at related⟩
  exact ⟨s, run, related,
    (scfifo_evicts_in_arrival_order (accounted_reset _) empty run).1 4 taken 5 related⟩

/-- A process grows by 16 pages, uses three of them and touches three that are in the file,
one after the other. At the third fault the page in slot 10 is chosen, although the page
in slot 9 came before it and neither was ever found accessed. -/
theorem scfifo_evicts_out_of_order :
    ∃ s, Lts.Run (fun s op s' => s.next .SCFIFO op = .ok s' ∧ op.StaysLow s.paging)
        Observed.start
        (Observed.growth (fun i => i = 0 ∨ i = 2) ++
          [.sample (fun i => i.val ∈ [0, 2, 6, 7, 11]), .evict, .swapIn (4 * PGSIZE) 1,
           .sample (fun i => i.val ∈ [0, 2, 5]), .evict, .swapIn (3 * PGSIZE) 1,
           .sample (fun i => i.val ∈ [0, 2, 8])]) s ∧
      9 ∈ occupied s.paging.ramPmd ∧ older s.log 9 10 = true ∧
      (getVictimIndex .SCFIFO s.paging).1 = (10 : Slot).val := by
  obtain ⟨s, run, found⟩ := Observed.exists_run_where .SCFIFO .start
    (Observed.growth (fun i => i = 0 ∨ i = 2) ++
      [.sample (fun i => i.val ∈ [0, 2, 6, 7, 11]), .evict, .swapIn (4 * PGSIZE) 1,
       .sample (fun i => i.val ∈ [0, 2, 5]), .evict, .swapIn (3 * PGSIZE) 1,
       .sample (fun i => i.val ∈ [0, 2, 8])])
    (fun s op => op.StaysLow s.paging)
    (fun s => 9 ∈ occupied s.paging.ramPmd ∧ older s.log 9 10 = true ∧
      (getVictimIndex .SCFIFO s.paging).1 = (10 : Slot).val) (by decide +kernel)
  exact ⟨s, run, of_decide_eq_true found⟩

end Xv6
