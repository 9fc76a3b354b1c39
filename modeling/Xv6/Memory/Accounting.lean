import Xv6.Memory.Paging

/-!
Accounting of the paging metadata: the counters, the occupied entries of the two
arrays and the replacement queue describe the same pages.

The queue is rebuilt by every insertion and deletion, so the three builds without
`AQ` only differ in the priorities they insert. The one operation that leaves the
queue disordered is `increaseProcAge`; what it keeps, the set of queued slots, is
enough for the insertion that follows it.
-/

namespace Xv6

open HeapP List Paging

/-- The occupied entries of an array. -/
def occupied (pmds : Slot → Pmd) : Finset Slot := Finset.univ.filter (fun i => (pmds i).occupied)

variable {pmds : Slot → Pmd} {m m' : Paging}

variable {i : Slot}

@[simp] theorem mem_occupied : i ∈ occupied pmds ↔ (pmds i).occupied = true := by
  simp [occupied]

theorem occupied_congr {pmds' : Slot → Pmd} (same : ∀ i, (pmds' i).occupied = (pmds i).occupied) :
    occupied pmds' = occupied pmds := by
  ext i
  simp [same i]

theorem occupied_update (i : Slot) (pmd : Pmd) :
    occupied (Function.update pmds i pmd) =
      if pmd.occupied then insert i (occupied pmds) else (occupied pmds).erase i := by
  ext k
  by_cases same : k = i
  · subst same
    cases taken : pmd.occupied <;> simp [taken]
  · cases taken : pmd.occupied <;> simp [same]

theorem card_occupied_le (pmds : Slot → Pmd) : (occupied pmds).card ≤ MAX_PSYC_PAGES := by
  have bound := Finset.card_le_univ (occupied pmds)
  rwa [Fintype.card_fin] at bound

theorem getPageIndexDefault_some {isOccupied : Bool} {va : Nat}
    (found : getPageIndexDefault pmds isOccupied va = some i) :
    (pmds i).occupied = isOccupied ∧ (va = CLEAN_VA ∨ (pmds i).va = va) := by
  have := find?_some found
  simpa only [decide_eq_true_eq] using this

/-- A lookup of a vacant entry succeeds while the array is not full. -/
theorem exists_vacant (room : (occupied pmds).card < MAX_PSYC_PAGES) :
    ∃ i, getPageIndexDefault pmds false CLEAN_VA = some i := by
  rw [← Option.isSome_iff_exists, getPageIndexDefault, find?_isSome]
  by_contra full
  have all : occupied pmds = Finset.univ := by
    ext i
    have := fun vacant => full ⟨i, mem_finRange i, by simpa using vacant⟩
    simpa using this
  rw [all, Finset.card_univ, Fintype.card_fin] at room
  exact absurd room (Nat.lt_irrefl _)

theorem ramSlot_val (i : Slot) : ramSlot (i.val : Int) = .ok i := by
  have bound := i.isLt
  unfold ramSlot
  rw [dif_pos ⟨by omega, by omega⟩]
  rfl

/-- `q` is `prioArr`, queueing the slots in `S` once each. Behind the live part it
holds indices of slots or -1, and -1 only from position 16 on. -/
structure Queued (q : PrioQueue) (S : Finset Slot) : Prop where
  length : q.array.length = MAX_PRIO_ARR
  slots : (q.live.map HeapP.index : Multiset Int) = S.val.map (fun i => (i.val : Int))
  stale : ∀ k, q.size ≤ k → (entryAt q.array k).index = -1 ∨
    ∃ i : Slot, (entryAt q.array k).index = i.val
  tail : ∀ k, MAX_PSYC_PAGES ≤ k → (entryAt q.array k).index = -1

theorem entryAt_beyond {array : List HeapP} {k : Nat} (beyond : array.length ≤ k) :
    entryAt array k = .clean := by
  rw [entryAt, getD_eq_getElem?_getD, getElem?_eq_none beyond, Option.getD_none]

/-- Behind the array there is nothing to check. -/
instance (q : PrioQueue) (S : Finset Slot) : Decidable (Queued q S) :=
  decidable_of_iff (q.array.length = MAX_PRIO_ARR ∧
    (q.live.map HeapP.index : Multiset Int) = S.val.map (fun i => (i.val : Int)) ∧
    (∀ k < q.array.length, q.size ≤ k → (entryAt q.array k).index = -1 ∨
      ∃ i : Slot, (entryAt q.array k).index = i.val) ∧
    ∀ k < q.array.length, MAX_PSYC_PAGES ≤ k → (entryAt q.array k).index = -1) <| by
    refine ⟨fun ⟨length, slots, stale, tail⟩ => ⟨length, slots, fun k dead => ?_, fun k high => ?_⟩,
      fun queued => ⟨queued.length, queued.slots, fun k _ => queued.stale k, fun k _ => queued.tail k⟩⟩
    · by_cases inside : k < q.array.length
      · exact stale k inside dead
      · rw [entryAt_beyond (Nat.not_lt.mp inside)]
        exact .inl rfl
    · by_cases inside : k < q.array.length
      · exact tail k inside high
      · rw [entryAt_beyond (Nat.not_lt.mp inside)]
        rfl

namespace Queued

variable {q q' : PrioQueue} {S : Finset Slot}

section

variable (queued : Queued q S)

include queued

theorem size : q.size = S.card := by
  have := congrArg Multiset.card queued.slots
  simpa [length_live] using this

theorem size_le : q.size ≤ MAX_PSYC_PAGES := by
  have bound := Finset.card_le_univ S
  rwa [Fintype.card_fin, ← queued.size] at bound

theorem room : q.size < q.array.length := by
  have bound := queued.size_le
  rw [queued.length]
  unfold MAX_PRIO_ARR
  omega

theorem fits : q.Fits := Nat.le_of_lt queued.room

theorem mem_live {index : Int} :
    (∃ e ∈ q.live, e.index = index) ↔ ∃ i ∈ S, index = i.val := by
  have same : index ∈ (q.live.map HeapP.index : Multiset Int) ↔
      index ∈ S.val.map (fun i => (i.val : Int)) := by
    rw [queued.slots]
  simpa [eq_comm] using same

variable {e : HeapP} {i : Slot}

theorem live_slot (inside : e ∈ q.live) : ∃ i ∈ S, e.index = i.val :=
  queued.mem_live.mp ⟨e, inside, rfl⟩

theorem exists_live (inside : i ∈ S) : ∃ e ∈ q.live, e.index = i.val :=
  queued.mem_live.mpr ⟨i, inside, rfl⟩

theorem absent (outside : i ∉ S) :
    ∀ e ∈ q.live, e.index ≠ i.val := by
  intro e inside same
  obtain ⟨j, member, eq⟩ := queued.live_slot inside
  obtain rfl : i = j := Fin.ext (by omega)
  exact outside member

/-- Every entry holds -1 or the index of a slot. -/
theorem known (k : Nat) :
    (entryAt q.array k).index = -1 ∨ ∃ i : Slot, (entryAt q.array k).index = i.val := by
  by_cases dead : q.size ≤ k
  · exact queued.stale k dead
  · have inside : entryAt q.array k ∈ q.live := mem_map.mpr ⟨k, mem_range.mpr (by omega), rfl⟩
    obtain ⟨i, _, same⟩ := queued.live_slot inside
    exact .inr ⟨i, same⟩

omit queued in
theorem live_map_index (q : PrioQueue) :
    q.live.map HeapP.index = (List.range q.size).map (fun k => (entryAt q.array k).index) := by
  simp [PrioQueue.live, Function.comp_def]

/-- Priorities do not matter. -/
theorem congr (size : q'.size = q.size) (length : q'.array.length = q.array.length)
    (indices : ∀ k, (entryAt q'.array k).index = (entryAt q.array k).index) : Queued q' S where
  length := length.trans queued.length
  slots := by
    rw [← queued.slots, live_map_index, live_map_index, size]
    simp only [indices]
  stale k dead := by
    rw [indices]
    exact queued.stale k (size ▸ dead)
  tail k high := by
    rw [indices]
    exact queued.tail k high

theorem add (outside : i ∉ S) (index : e.index = i.val) (inserted : Inserted q e q') :
    Queued q' (insert i S) where
  length := inserted.length.trans queued.length
  slots := by
    have live := Multiset.coe_eq_coe.mpr (inserted.live.map HeapP.index)
    rw [live, Finset.insert_val_of_notMem outside, Multiset.map_cons, ← queued.slots, ← index]
    rfl
  stale k dead := by
    rw [inserted.size] at dead
    rw [inserted.beyond k (by omega)]
    exact queued.stale k (by omega)
  tail k high := by
    have card : (insert i S).card ≤ MAX_PSYC_PAGES := by
      have bound := Finset.card_le_univ (insert i S)
      rwa [Fintype.card_fin] at bound
    rw [Finset.card_insert_of_notMem outside, ← queued.size] at card
    rw [inserted.beyond k (by omega)]
    exact queued.tail k high

theorem remove (inside : i ∈ S) (index : e.index = i.val) (deleted : Deleted q e q') :
    Queued q' (S.erase i) where
  length := deleted.length.trans queued.length
  slots := by
    have live := Multiset.coe_eq_coe.mpr (deleted.live.map HeapP.index)
    rw [queued.slots, map_cons, ← Multiset.cons_coe] at live
    rw [Finset.erase_val, Multiset.map_erase_of_mem _ _ inside, live, index,
      Multiset.erase_cons_head]
  stale k dead := by
    by_cases last : k = q'.size
    · subst last
      rw [deleted.vacated]
      exact .inr ⟨i, index⟩
    · rw [deleted.beyond k (by have := deleted.size; omega)]
      exact queued.stale k (by have := deleted.size; omega)
  tail k high := by
    have bound := queued.size_le
    rw [deleted.beyond k (by omega)]
    exact queued.tail k high

theorem peek (nonempty : S.Nonempty) :
    ∃ i ∈ S, (peekHeap q.array).index = i.val := by
  have pos : 0 < q.size := by
    rw [queued.size]
    exact Finset.card_pos.mpr nonempty
  exact queued.live_slot (peekHeap_mem pos)

end

end Queued

/-- `m` and `m'` record the same pages and differ at most in ages and queue. -/
structure SamePages (m m' : Paging) : Prop where
  pagesInMemory : m'.pagesInMemory = m.pagesInMemory
  pagesInSwapfile : m'.pagesInSwapfile = m.pagesInSwapfile
  swapPmd : m'.swapPmd = m.swapPmd
  ramPmd : ∀ i, m'.ramPmd i = { m.ramPmd i with age := (m'.ramPmd i).age }

theorem SamePages.refl (m : Paging) : SamePages m m := ⟨rfl, rfl, rfl, fun _ => rfl⟩

theorem SamePages.trans {m₁ : Paging} (first : SamePages m m₁) (second : SamePages m₁ m') :
    SamePages m m' where
  pagesInMemory := second.pagesInMemory.trans first.pagesInMemory
  pagesInSwapfile := second.pagesInSwapfile.trans first.pagesInSwapfile
  swapPmd := second.swapPmd.trans first.swapPmd
  ramPmd i := by rw [second.ramPmd i, first.ramPmd i]

theorem SamePages.resident (same : SamePages m m') : occupied m'.ramPmd = occupied m.ramPmd :=
  occupied_congr fun i => by rw [same.ramPmd i]

/-- Setting an age. -/
theorem SamePages.setAge (m : Paging) (i : Slot) (age : UInt32) :
    SamePages m (m.setRam i { m.ramPmd i with age := age }) where
  pagesInMemory := rfl
  pagesInSwapfile := rfl
  swapPmd := rfl
  ramPmd k := by
    by_cases same : k = i
    · subst same
      simp [setRam]
    · simp [setRam, same]

theorem SamePages.setQueue (m : Paging) (q : PrioQueue) : SamePages m { m with queue := q } :=
  ⟨rfl, rfl, rfl, fun _ => rfl⟩

/-- The counters, the arrays and the queue agree. -/
structure Accounted (m : Paging) : Prop where
  pagesInMemory : m.pagesInMemory = (occupied m.ramPmd).card
  pagesInSwapfile : m.pagesInSwapfile = (occupied m.swapPmd).card
  queued : Queued m.queue (occupied m.ramPmd)
  isHeap : m.queue.IsHeap

instance (m : Paging) : Decidable (Accounted m) :=
  decidable_of_iff (m.pagesInMemory = (occupied m.ramPmd).card ∧
    m.pagesInSwapfile = (occupied m.swapPmd).card ∧ Queued m.queue (occupied m.ramPmd) ∧
    m.queue.IsHeap)
    ⟨fun ⟨inMemory, inSwapfile, queued, isHeap⟩ => ⟨inMemory, inSwapfile, queued, isHeap⟩,
      fun acc => ⟨acc.pagesInMemory, acc.pagesInSwapfile, acc.queued, acc.isHeap⟩⟩

section Queue

variable {m : Paging} {S : Finset Slot} {q : PrioQueue} {i : Slot}

theorem enqueue_ok (queued : Queued m.queue S) (e : HeapP) :
    m.enqueue e = .ok { m with queue := insertHeap m.queue e } := by
  rw [enqueue, if_pos queued.room]

theorem Queued.inserted (queued : Queued q S) (e : HeapP) : Inserted q e (insertHeap q e) :=
  insertHeap_inserted q e queued.room

theorem Queued.deleted (queued : Queued q S) (inside : i ∈ S) :
    (deleteRoot q i.val).1.index = i.val ∧ Deleted q (deleteRoot q i.val).1 (deleteRoot q i.val).2 :=
  deleteRoot_deleted q i.val queued.fits (queued.exists_live inside)

theorem Queued.dequeue (queued : Queued m.queue S) (inside : i ∈ S) :
    Queued (m.dequeue i.val).queue (S.erase i) ∧ (m.dequeue i.val).queue.IsHeap := by
  obtain ⟨index, deleted⟩ := queued.deleted inside
  exact ⟨queued.remove inside index deleted, deleted.isHeap⟩

theorem Queued.findInHeap_absent (queued : Queued q S) (outside : i ∉ S) :
    findInHeap q i.val = (.clean, q) := by
  simp [findInHeap, deleteRoot_absent (queued.absent outside), clean]

/-- The queue entry of a slot that has just been filled. -/
theorem insertPageToPrioQueue_queued {sel : Selection} (build : sel.Queued)
    (queued : Queued m.queue S) (outside : i ∉ S) :
    ∃ m', insertPageToPrioQueue sel m i = .ok m' ∧ SamePages m m' ∧
      Queued m'.queue (insert i S) ∧ m'.queue.IsHeap := by
  have absent := queued.findInHeap_absent outside
  have insertion : ∀ m₁ : Paging, SamePages m m₁ → m₁.queue = m.queue → ∀ priority : UInt32,
      ∃ m', m₁.enqueue ⟨i.val, priority⟩ = .ok m' ∧ SamePages m m' ∧
        Queued m'.queue (insert i S) ∧ m'.queue.IsHeap := by
    intro m₁ same unchanged priority
    have queued₁ : Queued m₁.queue S := unchanged ▸ queued
    have inserted := queued₁.inserted ⟨i.val, priority⟩
    exact ⟨_, enqueue_ok queued₁ _, same.trans (.setQueue _ _),
      queued₁.add outside rfl inserted, inserted.isHeap⟩
  rcases build with rfl | rfl | rfl
  · simp only [insertPageToPrioQueue, absent, clean]
    exact insertion _ (.setAge m i 0) rfl 0
  · simp only [insertPageToPrioQueue, absent, clean]
    exact insertion _ (.setAge m i 0xFFFFFFFF) rfl _
  · simp only [insertPageToPrioQueue, absent, clean]
    exact insertion m (.refl m) rfl _

end Queue

theorem Accounted.of_same (acc : Accounted m) (same : SamePages m m')
    (queued : Queued m'.queue (occupied m.ramPmd)) (isHeap : m'.queue.IsHeap) : Accounted m' where
  pagesInMemory := by rw [same.pagesInMemory, same.resident, acc.pagesInMemory]
  pagesInSwapfile := by rw [same.pagesInSwapfile, same.swapPmd, acc.pagesInSwapfile]
  queued := by
    rw [same.resident]
    exact queued
  isHeap := isHeap

section Sampling

variable {m : Paging} {sel : Selection} {S : Finset Slot}

/-- Testing one page leaves the queue in order whatever its accessed bit was. -/
theorem updatePage_accounted (build : sel.Queued) (accessed : Nat → Option Bool) (bit : Bool)
    (acc : Accounted m) (taken : i ∈ occupied m.ramPmd) :
    ∃ m', updatePage sel accessed bit m i = .ok m' ∧ SamePages m m' ∧ Accounted m' := by
  have isTaken : (m.ramPmd i).occupied = true := mem_occupied.mp taken
  have queued := (acc.queued.dequeue taken).1
  have same : SamePages m (m.dequeue i.val) := .setQueue _ _
  have requeue : ∀ m₁ : Paging, SamePages m m₁ → m₁.queue = (m.dequeue i.val).queue →
      ∀ priority : UInt32,
        ∃ m', m₁.enqueue ⟨i.val, priority⟩ = .ok m' ∧ SamePages m m' ∧ Accounted m' := by
    intro m₁ same₁ unchanged priority
    have queued₁ : Queued m₁.queue ((occupied m.ramPmd).erase i) := unchanged ▸ queued
    have inserted := queued₁.inserted ⟨i.val, priority⟩
    have same' := same₁.trans (.setQueue m₁ (insertHeap m₁.queue ⟨i.val, priority⟩))
    refine ⟨_, enqueue_ok queued₁ _, same', acc.of_same same' ?_ inserted.isHeap⟩
    rw [← Finset.insert_erase taken]
    exact queued₁.add (Finset.notMem_erase _ _) rfl inserted
  rcases build with rfl | rfl | rfl
  · simp only [updatePage, isTaken, if_true]
    exact requeue _ (same.trans (.setAge _ i _)) rfl _
  · simp only [updatePage, isTaken, if_true]
    exact requeue _ (same.trans (.setAge _ i _)) rfl _
  · simp only [updatePage, isTaken, if_true]
    cases bit with
    | false => exact ⟨m, rfl, .refl m, acc⟩
    | true => exact requeue _ same rfl _

/-- `extractMin` takes every live entry out once. -/
theorem drain_perm (n : Nat) (q : PrioQueue) (fits : q.Fits) (size : q.size = n) :
    (drain n q).Perm (q.live.map HeapP.index) := by
  induction n generalizing q with
  | zero => simp [drain, PrioQueue.live, size]
  | succ n ih =>
    have extracted := extractMin_extracted q fits (by omega)
    have smaller : (extractMin q).2.size = n := by
      have := extracted.size
      omega
    have fits' : (extractMin q).2.Fits := by
      have bound : q.size ≤ q.array.length := fits
      unfold PrioQueue.Fits
      rw [extracted.length]
      omega
    have rest := ih (extractMin q).2 fits' smaller
    exact (rest.cons _).trans (extracted.live.map HeapP.index).symm

/-- A sampling visits occupied entries only. -/
theorem sampleOrder_resident (build : sel.Queued) (acc : Accounted m) {x : Int}
    (visited : x ∈ sampleOrder sel m) : ∃ i ∈ occupied m.ramPmd, x = i.val := by
  have aging : x ∈ ((List.finRange MAX_PSYC_PAGES).filter (fun i => (m.ramPmd i).occupied)).map
      (fun i => (i.val : Int)) → ∃ i ∈ occupied m.ramPmd, x = i.val := by
    intro inside
    obtain ⟨i, taken, rfl⟩ := mem_map.mp inside
    exact ⟨i, mem_occupied.mpr (mem_filter.mp taken).2, rfl⟩
  rcases build with rfl | rfl | rfl
  · exact aging visited
  · exact aging visited
  · have drained := drain_perm _ m.queue acc.queued.fits rfl
    obtain ⟨e, inside, rfl⟩ := mem_map.mp (drained.mem_iff.mp visited)
    exact acc.queued.live_slot inside

theorem entryAt_bump (array : List HeapP) (i k : Nat) (priority : UInt32) :
    (entryAt (array.set i { entryAt array i with priority := priority }) k).index =
      (entryAt array k).index := by
  by_cases inside : i < array.length
  · rw [entryAt_set _ _ _ _ inside]
    split
    · rename_i same
      rw [same]
    · rfl
  · rw [set_eq_of_length_le (by omega)]

/-- One turn of `increaseProcAge` stays inside both arrays and moves no page. -/
theorem increaseAgeAt_queued (queued : Queued m.queue S) (i : Nat) :
    ∃ m', increaseAgeAt m i = .ok m' ∧ SamePages m m' ∧ Queued m'.queue S := by
  unfold increaseAgeAt
  by_cases clean : (entryAt m.queue.array i).index = -1
  · simp only [clean, if_true]
    exact ⟨m, rfl, .refl m, queued⟩
  · have low : i < MAX_PSYC_PAGES := by
      by_contra high
      exact clean (queued.tail i (by omega))
    obtain ⟨j, index⟩ := (queued.known i).resolve_left clean
    have bound := j.isLt
    simp only [index, if_neg (show ¬ (j.val : Int) = -1 by omega), dif_pos low]
    split
    · rw [if_pos ⟨by omega, by unfold MAX_PRIO_ARR; omega⟩]
      refine ⟨_, rfl, (SamePages.setAge m ⟨i, low⟩ _).trans (.setQueue _ _), ?_⟩
      exact queued.congr rfl (by simp) (fun k => entryAt_bump ..)
    · exact ⟨m, rfl, .refl m, queued⟩

theorem increaseProcAge_queued (queued : Queued m.queue S) :
    ∃ m', increaseProcAge m = .ok m' ∧ SamePages m m' ∧ Queued m'.queue S := by
  unfold increaseProcAge
  generalize List.range MAX_PRIO_ARR = turns
  induction turns generalizing m with
  | nil => exact ⟨m, rfl, .refl m, queued⟩
  | cons i turns ih =>
    obtain ⟨m₁, run, same, queued₁⟩ := increaseAgeAt_queued queued i
    obtain ⟨m', run', same', queued'⟩ := ih queued₁
    refine ⟨m', ?_, same.trans same', queued'⟩
    rw [foldlM_cons, run]
    exact run'

end Sampling

/-- The entry of slot `i` has the least priority in the queue. -/
def Paging.Least (m : Paging) (i : Slot) : Prop :=
  ∃ e ∈ m.queue.live, e.index = i.val ∧ ∀ e' ∈ m.queue.live, e.priority.toNat ≤ e'.priority.toNat

section Moves

variable {m : Paging} {sel : Selection} {j : Slot}

theorem Accounted.inMemory_le (acc : Accounted m) :
    m.pagesInMemory ≤ MAX_PSYC_PAGES := by
  rw [acc.pagesInMemory]
  exact Int.ofNat_le.mpr (card_occupied_le _)

theorem Accounted.inSwapfile_le (acc : Accounted m) :
    m.pagesInSwapfile ≤ MAX_PSYC_PAGES := by
  rw [acc.pagesInSwapfile]
  exact Int.ofNat_le.mpr (card_occupied_le _)

theorem Accounted.size (acc : Accounted m) : (m.queue.size : Int) = m.pagesInMemory := by
  rw [acc.queued.size, acc.pagesInMemory]

/-- The page chosen for eviction. -/
theorem Accounted.victim (acc : Accounted m) (build : sel.Queued)
    (nonempty : (occupied m.ramPmd).Nonempty) :
    ∃ i ∈ occupied m.ramPmd, getVictimIndex sel m = ((i.val : Int), m) ∧ m.Least i := by
  obtain ⟨i, taken, index⟩ := acc.queued.peek nonempty
  have pos : 0 < m.queue.size := by
    rw [acc.queued.size]
    exact Finset.card_pos.mpr nonempty
  refine ⟨i, taken, ?_, peekHeap m.queue.array, peekHeap_mem pos, index, fun e inside =>
    peekHeap_le acc.isHeap inside⟩
  rcases build with rfl | rfl | rfl
  · simp only [getVictimIndex, if_neg (show ¬ m.queue.size = 0 by omega), index]
  · simp only [getVictimIndex, if_neg (show ¬ m.queue.size = 0 by omega), index]
  · simp only [getVictimIndex, if_neg (show ¬ m.queue.size = 0 by omega), index]

/-- The swap entry of a page that leaves memory. -/
def Pmd.paged (pmd page : Pmd) (j : Slot) : Pmd :=
  { pmd with pgdir := page.pgdir, offset := j.val * PGSIZE, occupied := true, va := page.va }

theorem pageOut_eq (m : Paging) (i j : Slot) :
    m.pageOut i j = {
      pagesInMemory := m.pagesInMemory - 1
      pagesInSwapfile := m.pagesInSwapfile + 1
      swapPmd := Function.update m.swapPmd j ((m.swapPmd j).paged (m.ramPmd i) j)
      ramPmd := Function.update m.ramPmd i (initPmd (m.ramPmd i))
      queue := (m.dequeue i.val).queue } := rfl

theorem pageOut_resident (m : Paging) (i j : Slot) :
    occupied (m.pageOut i j).ramPmd = (occupied m.ramPmd).erase i := by
  simp [pageOut_eq, occupied_update, initPmd]

theorem pageOut_swapped (m : Paging) (i j : Slot) :
    occupied (m.pageOut i j).swapPmd = insert j (occupied m.swapPmd) := by
  simp [pageOut_eq, occupied_update, Pmd.paged]

theorem Accounted.pageOut (acc : Accounted m) (taken : i ∈ occupied m.ramPmd)
    (vacant : j ∉ occupied m.swapPmd) : Accounted (m.pageOut i j) := by
  obtain ⟨queued, isHeap⟩ := acc.queued.dequeue taken
  have pos := Finset.card_pos.mpr ⟨i, taken⟩
  refine ⟨?_, ?_, ?_, isHeap⟩
  · rw [pageOut_resident, Finset.card_erase_of_mem taken]
    have := acc.pagesInMemory
    simp only [pageOut_eq]
    omega
  · rw [pageOut_swapped, Finset.card_insert_of_notMem vacant]
    have := acc.pagesInSwapfile
    simp only [pageOut_eq]
    omega
  · rw [pageOut_resident]
    exact queued

/-- A page that `allocuvm` has mapped is recorded in a vacant entry. -/
theorem Accounted.track (acc : Accounted m) (build : sel.Queued)
    (room : m.pagesInMemory < MAX_PSYC_PAGES) (a d : Nat) :
    ∃ i m', getPageIndexDefault m.ramPmd false CLEAN_VA = some i ∧
      insertPageToPrioQueue sel
        { m.occupy i a d with pagesInMemory := (m.occupy i a d).pagesInMemory + 1 } i = .ok m' ∧
      SamePages { m.occupy i a d with pagesInMemory := (m.occupy i a d).pagesInMemory + 1 } m' ∧
      Accounted m' := by
  rw [acc.pagesInMemory] at room
  obtain ⟨i, found⟩ := exists_vacant (Int.ofNat_lt.mp room)
  have vacant : i ∉ occupied m.ramPmd := by simp [(getPageIndexDefault_some found).1]
  have filled : occupied (m.occupy i a d).ramPmd = insert i (occupied m.ramPmd) := by
    simp [occupy, setRam, occupied_update]
  obtain ⟨m', run, same, queued, isHeap⟩ := insertPageToPrioQueue_queued build
    (m := { m.occupy i a d with pagesInMemory := (m.occupy i a d).pagesInMemory + 1 })
    acc.queued vacant
  refine ⟨i, m', found, run, same, ⟨?_, ?_, ?_, isHeap⟩⟩
  · rw [same.pagesInMemory, same.resident, filled, Finset.card_insert_of_notMem vacant]
    have := acc.pagesInMemory
    simp only [occupy, setRam]
    omega
  · rw [same.pagesInSwapfile, same.swapPmd]
    exact acc.pagesInSwapfile
  · rw [same.resident, filled]
    exact queued

/-- The metadata of a swap-in before the queue is touched. -/
def Paging.vacateSwap (m : Paging) (j : Slot) : Paging :=
  { m.setSwap j { m.swapPmd j with occupied := false } with
    pagesInSwapfile := m.pagesInSwapfile - 1 }

/-- A page comes in from slot `j` while there is room. -/
theorem Accounted.swapIn (acc : Accounted m) (build : sel.Queued)
    (room : m.pagesInMemory < MAX_PSYC_PAGES) (taken : j ∈ occupied m.swapPmd) (va d : Nat) :
    ∃ m₁ i m₂, increaseProcAge (m.vacateSwap j) = .ok m₁ ∧ SamePages (m.vacateSwap j) m₁ ∧
      getPageIndexDefault m₁.ramPmd false CLEAN_VA = some i ∧
      insertPageToPrioQueue sel (m₁.occupy i va d) i = .ok m₂ ∧
      SamePages (m₁.occupy i va d) m₂ ∧
      Accounted { m₂ with pagesInMemory := m₂.pagesInMemory + 1 } := by
  obtain ⟨m₁, run, same, queued⟩ := increaseProcAge_queued (m := m.vacateSwap j) acc.queued
  have resident : occupied m₁.ramPmd = occupied m.ramPmd := same.resident
  rw [acc.pagesInMemory] at room
  have free : (occupied m₁.ramPmd).card < MAX_PSYC_PAGES := by
    rw [resident]
    exact Int.ofNat_lt.mp room
  obtain ⟨i, found⟩ := exists_vacant free
  have vacant : i ∉ occupied m.ramPmd := by
    rw [← resident]
    simp [(getPageIndexDefault_some found).1]
  have filled : occupied (m₁.occupy i va d).ramPmd = insert i (occupied m.ramPmd) := by
    rw [← resident]
    simp [occupy, setRam, occupied_update]
  obtain ⟨m₂, run₂, same₂, queued₂, isHeap₂⟩ := insertPageToPrioQueue_queued build
    (m := m₁.occupy i va d) queued vacant
  refine ⟨m₁, i, m₂, run, same, found, run₂, same₂, ⟨?_, ?_, ?_, isHeap₂⟩⟩
  · have filled₂ : occupied m₂.ramPmd = insert i (occupied m.ramPmd) := same₂.resident.trans filled
    have counter : m₂.pagesInMemory = m.pagesInMemory :=
      same₂.pagesInMemory.trans same.pagesInMemory
    simp only [filled₂, Finset.card_insert_of_notMem vacant, counter, acc.pagesInMemory]
    omega
  · have emptied : occupied m₂.swapPmd = (occupied m.swapPmd).erase j := by
      rw [same₂.swapPmd]
      change occupied m₁.swapPmd = _
      rw [same.swapPmd]
      simp [vacateSwap, setSwap, occupied_update]
    have counter : m₂.pagesInSwapfile = m.pagesInSwapfile - 1 :=
      same₂.pagesInSwapfile.trans same.pagesInSwapfile
    have pos := Finset.card_pos.mpr ⟨j, taken⟩
    simp only [emptied, Finset.card_erase_of_mem taken, counter, acc.pagesInSwapfile]
    omega
  · change Queued m₂.queue (occupied m₂.ramPmd)
    rw [same₂.resident, filled]
    exact queued₂

/-- The metadata of `swapPages` after the page in slot `i` has gone to the file. -/
def Paging.exchanged (m : Paging) (i j : Slot) : Paging :=
  { m.pageOut i j with
    pagesInSwapfile := (m.pageOut i j).pagesInSwapfile - 1
    pagesInMemory := (m.pageOut i j).pagesInMemory + 1 }

/-- The pages in slots `i` and `j` change places. -/
theorem Accounted.exchange (acc : Accounted m) (build : sel.Queued)
    (taken : i ∈ occupied m.ramPmd) (swapped : j ∈ occupied m.swapPmd) {tmp : Pmd}
    (page : tmp.occupied = true) :
    ∃ m₁ m₂, increaseProcAge (m.exchanged i j) = .ok m₁ ∧ SamePages (m.exchanged i j) m₁ ∧
      insertPageToPrioQueue sel (m₁.setRam i tmp) i = .ok m₂ ∧
      SamePages (m₁.setRam i tmp) m₂ ∧ Accounted m₂ := by
  obtain ⟨m₁, run, same, queued⟩ := increaseProcAge_queued (m := m.exchanged i j)
    (acc.queued.dequeue taken).1
  have resident : occupied m₁.ramPmd = (occupied m.ramPmd).erase i := by
    rw [same.resident]
    exact pageOut_resident m i j
  have filled : occupied (m₁.setRam i tmp).ramPmd = occupied m.ramPmd := by
    simp only [setRam, occupied_update, page, if_true, resident]
    exact Finset.insert_erase taken
  obtain ⟨m₂, run₂, same₂, queued₂, isHeap₂⟩ := insertPageToPrioQueue_queued build
    (m := m₁.setRam i tmp) queued (Finset.notMem_erase i _)
  refine ⟨m₁, m₂, run, same, run₂, same₂, ⟨?_, ?_, ?_, isHeap₂⟩⟩
  · have counter : m₂.pagesInMemory = m.pagesInMemory - 1 + 1 :=
      same₂.pagesInMemory.trans same.pagesInMemory
    rw [counter, same₂.resident, filled, acc.pagesInMemory]
    omega
  · have counter : m₂.pagesInSwapfile = m.pagesInSwapfile + 1 - 1 :=
      same₂.pagesInSwapfile.trans same.pagesInSwapfile
    have kept : occupied m₂.swapPmd = occupied m.swapPmd := by
      rw [same₂.swapPmd]
      change occupied m₁.swapPmd = _
      rw [same.swapPmd]
      exact (pageOut_swapped m i j).trans (Finset.insert_eq_of_mem swapped)
    rw [counter, kept, acc.pagesInSwapfile]
    omega
  · rw [same₂.resident, filled, ← Finset.insert_erase taken]
    exact queued₂

theorem Accounted.releaseRam (acc : Accounted m) (d a : Nat) : Accounted (m.releaseRam d a) := by
  unfold Paging.releaseRam
  split
  · exact acc
  · rename_i i _
    split
    · rename_i isTaken
      have taken : i ∈ occupied m.ramPmd := mem_occupied.mpr isTaken
      have pos := Finset.card_pos.mpr ⟨i, taken⟩
      obtain ⟨queued, isHeap⟩ := acc.queued.dequeue taken
      have emptied : occupied (Function.update m.ramPmd i (initPmd (m.ramPmd i))) =
          (occupied m.ramPmd).erase i := by
        simp [occupied_update, initPmd]
      refine ⟨?_, acc.pagesInSwapfile, ?_, isHeap⟩
      · change m.pagesInMemory - 1 = _
        simp only [setRam, Paging.dequeue, emptied, Finset.card_erase_of_mem taken,
          acc.pagesInMemory]
        omega
      · simp only [setRam, Paging.dequeue, emptied]
        exact queued
    · exact acc

theorem Accounted.releaseSwap (acc : Accounted m) (d a : Nat) : Accounted (m.releaseSwap d a) := by
  unfold Paging.releaseSwap
  split
  · exact acc
  · rename_i j _
    split
    · rename_i isTaken
      have taken : j ∈ occupied m.swapPmd := mem_occupied.mpr isTaken
      have pos := Finset.card_pos.mpr ⟨j, taken⟩
      refine ⟨acc.pagesInMemory, ?_, acc.queued, acc.isHeap⟩
      simp only [setSwap, occupied_update, initPmd, Bool.false_eq_true, if_false,
        Finset.card_erase_of_mem taken, acc.pagesInSwapfile]
      omega
    · exact acc

theorem Accounted.release (acc : Accounted m) (d a : Nat) : Accounted (m.release d a) :=
  (acc.releaseRam d a).releaseSwap d a

theorem entryAt_initHeap (n k : Nat) : entryAt (initHeap n) k = .clean := by
  unfold entryAt initHeap
  rw [getD_eq_getElem?_getD, getElem?_replicate]
  split <;> rfl

theorem occupied_initPmdArr (pmds : Slot → Pmd) : occupied (initPmdArr pmds) = ∅ := by
  ext i
  simp [initPmdArr, initPmd]

/-- Metadata without a page, as the reset of `exec` leaves it. -/
theorem accounted_reset (m : Paging) : Accounted m.reset where
  pagesInMemory := by simp [reset, initArrays, occupied_initPmdArr]
  pagesInSwapfile := by simp [reset, initArrays, occupied_initPmdArr]
  queued := {
    length := by simp [reset, initHeap]
    slots := by simp [reset, initArrays, occupied_initPmdArr, PrioQueue.live]
    stale := fun k _ => .inl (by simp [reset, entryAt_initHeap, clean])
    tail := fun k _ => by simp [reset, entryAt_initHeap, clean] }
  isHeap := by
    intro p c _ _ low
    exact absurd low (Nat.not_lt_zero c)

theorem entryAt_take_append_drop {a b : List HeapP} {n : Nat} (long : n ≤ a.length) (k : Nat) :
    entryAt (a.take n ++ b.drop n) k = if k < n then entryAt a k else entryAt b k := by
  unfold entryAt
  simp only [getD_eq_getElem?_getD]
  split
  · rename_i low
    rw [getElem?_append_left (by simp; omega), getElem?_take_of_lt low]
  · rename_i high
    rw [getElem?_append_right (by simp; omega), getElem?_drop]
    congr 2
    simp
    omega

/-- The metadata `fork` leaves in a child that `allocproc` has prepared. -/
theorem Accounted.forkCopy (acc : Accounted m) {child : Paging}
    (ram : occupied child.ramPmd = ∅) (swap : occupied child.swapPmd = ∅)
    (array : child.queue.array = initHeap MAX_PRIO_ARR) : Accounted (m.forkCopy child true) := by
  have bound := acc.queued.size_le
  have entries := entryAt_take_append_drop (a := m.queue.array) (b := child.queue.array)
    (n := MAX_PSYC_PAGES) (by rw [acc.queued.length]; unfold MAX_PRIO_ARR; omega)
  have resident : occupied (m.forkCopy child true).ramPmd = occupied m.ramPmd := by
    ext i
    have vacant : (child.ramPmd i).occupied = false := by
      have : i ∉ occupied child.ramPmd := by simp [ram]
      simpa using this
    by_cases taken : (m.ramPmd i).occupied = true <;> simp [Paging.forkCopy, taken, vacant]
  have swapped : occupied (m.forkCopy child true).swapPmd = occupied m.swapPmd := by
    ext i
    have vacant : (child.swapPmd i).occupied = false := by
      have : i ∉ occupied child.swapPmd := by simp [swap]
      simpa using this
    by_cases taken : (m.swapPmd i).occupied = true <;> simp [Paging.forkCopy, taken, vacant]
  refine ⟨?_, ?_, ?_, ?_⟩
  · rw [resident]
    exact acc.pagesInMemory
  · rw [swapped]
    exact acc.pagesInSwapfile
  · rw [resident]
    refine acc.queued.congr rfl ?_ fun k => ?_
    · simp only [Paging.forkCopy, array, initHeap, length_append, length_take,
        length_drop, length_replicate, acc.queued.length]
      rfl
    · simp only [Paging.forkCopy, entries]
      split
      · rfl
      · rename_i high
        rw [array, entryAt_initHeap, acc.queued.tail k (by omega)]
        rfl
  · refine HeapOrder.orderedFrom_congr (fun k low => ?_) acc.isHeap
    unfold prioAt
    change k < m.queue.size at low
    simp only [Paging.forkCopy]
    rw [entries, if_pos (by omega)]

end Moves

end Xv6
