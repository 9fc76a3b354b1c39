import Xv6.Memory.ArrivalOrder
import Xv6.Memory.QueueHistories
import Xv6.Memory.Layout

/-!
Sampling in the `SCFIFO` build: a stable partition of the queue by the accessed bit.

`updatePagesInPriorityQueue` empties a copy of the queue and moves each page it finds accessed to
the end of the original. While it runs, the original holds three groups: pages passed over, pages
moved, and pages still to come. The pages moved are in the order they were met and behind all
others.
-/

namespace Xv6

open HeapP List Outcome

/-- The live queue is a heap of distinct occupied slots. -/
structure Paging.Lined (m : Paging) : Prop where
  length : m.queue.array.length = MAX_PRIO_ARR
  isHeap : m.queue.IsHeap
  slots : ∀ e ∈ m.queue.live, ∃ i ∈ occupied m.ramPmd, e.index = i.val
  distinct : (m.queue.live.map HeapP.index).Nodup

instance (m : Paging) : Decidable m.Lined :=
  decidable_of_iff (m.queue.array.length = MAX_PRIO_ARR ∧ m.queue.IsHeap ∧
    (∀ e ∈ m.queue.live, ∃ i ∈ occupied m.ramPmd, e.index = i.val) ∧
    (m.queue.live.map HeapP.index).Nodup)
    ⟨fun ⟨length, isHeap, slots, distinct⟩ => ⟨length, isHeap, slots, distinct⟩,
      fun lined => ⟨lined.length, lined.isHeap, lined.slots, lined.distinct⟩⟩

namespace Paging.Lined

variable {m : Paging}

theorem size_le (lined : m.Lined) : m.queue.size ≤ MAX_PSYC_PAGES := by
  have inside : m.queue.live.map index ⊆
      (List.finRange MAX_PSYC_PAGES).map fun i => (i.val : Int) := by
    intro x mem
    obtain ⟨e, isIn, rfl⟩ := mem_map.mp mem
    obtain ⟨i, -, index⟩ := lined.slots e isIn
    exact mem_map.mpr ⟨i, mem_finRange i, index.symm⟩
  have bound := (subperm_of_subset lined.distinct inside).length_le
  simpa [length_live] using bound

theorem room (lined : m.Lined) : m.queue.size < m.queue.array.length := by
  have bound := lined.size_le
  rw [lined.length]
  unfold MAX_PRIO_ARR
  omega

theorem kept (lined : m.Lined) : m.queue.Kept := by
  refine ⟨Nat.le_of_lt lined.room, lined.isHeap, fun e mem => ?_⟩
  obtain ⟨i, -, index⟩ := lined.slots e mem
  omega

end Paging.Lined

/-- Entries of one index in a queue of distinct indices are the same. -/
theorem entry_unique {l : List HeapP} (distinct : (l.map HeapP.index).Nodup) {e e' : HeapP}
    (mem : e ∈ l) (mem' : e' ∈ l) (same : e.index = e'.index) : e = e' :=
  inj_on_of_nodup_map distinct mem mem' same

/-- `deleteRoot` and `insertHeap` of a page found accessed. -/
def PrioQueue.toEnd (q : PrioQueue) (index : Int) : PrioQueue :=
  insertHeap (deleteRoot q index).2 ⟨index, lastPriority (deleteRoot q index).2⟩

/-- The queue during a sampling: pages passed over, pages moved, pages still to come. -/
structure Parted (low moved rest : List HeapP) (q : PrioQueue) : Prop where
  room : q.size < q.array.length
  isHeap : q.IsHeap
  live : q.live.Perm (low ++ moved ++ rest)
  distinct : (q.live.map HeapP.index).Nodup
  increasing : moved.Pairwise fun a b => a.priority.toNat < b.priority.toNat
  above : ∀ e ∈ moved, ∀ e' ∈ low ++ rest, e'.priority.toNat < e.priority.toNat
  below : ∀ e ∈ q.live, e.priority.toNat + rest.length < 2 ^ 32

section Queue

variable {q q' : PrioQueue} {e e' : HeapP} {low moved rest : List HeapP}

/-- The place at the end is one behind some page of the queue before the deletion. When that leaves
the queue empty, the entry read is the one that was vacated. -/
theorem Deleted.lastPriority (deleted : Deleted q e q')
    (below : ∀ x ∈ q.live, x.priority.toNat + 1 < 2 ^ 32) :
    ∃ top ∈ q.live, (lastPriority q').toNat = top.priority.toNat + 1 ∧
      ∀ x ∈ q'.live, x.priority.toNat ≤ top.priority.toNat := by
  have next : ∀ p : UInt32, p.toNat + 1 < 2 ^ 32 → (p + 1).toNat = p.toNat + 1 := by
    intro p small
    rw [UInt32.toNat_add, UInt32.toNat_one, Nat.mod_eq_of_lt small]
  rcases Nat.eq_zero_or_pos q'.size with empty | nonempty
  · have isIn : e ∈ q.live := deleted.live.mem_iff.mpr (mem_cons_self ..)
    have vacated := deleted.vacated
    rw [empty] at vacated
    refine ⟨e, isIn, ?_, fun x mem => ?_⟩
    · have first : findMaxElementIndex q'.array 0 = 0 := rfl
      rw [Xv6.lastPriority, empty, first, vacated]
      exact next _ (below e isIn)
    · obtain ⟨k, bound, -⟩ := mem_live.mp mem
      omega
  · obtain ⟨bound, most⟩ := findMaxElementIndex_spec q'.array nonempty
    have isIn := deleted.live.mem_iff.mpr (mem_cons_of_mem e (mem_live.mpr ⟨_, bound, rfl⟩))
    refine ⟨_, isIn, next _ (below _ isIn), fun x mem => ?_⟩
    obtain ⟨a, inside, rfl⟩ := mem_live.mp mem
    obtain ⟨b, lower, upper, le⟩ := maxInScan_of_isHeap deleted.isHeap a inside
    exact Nat.le_trans le (most b lower upper)

theorem deleteRoot_entry (fits : q.Fits) (distinct : (q.live.map HeapP.index).Nodup)
    (isIn : e ∈ q.live) : Deleted q e (deleteRoot q e.index).2 := by
  obtain ⟨index, deleted⟩ := deleteRoot_deleted q e.index fits ⟨e, isIn, rfl⟩
  have same : (deleteRoot q e.index).1 = e := entry_unique distinct
    (deleted.live.mem_iff.mpr (mem_cons_self ..)) isIn index
  rwa [same] at deleted

/-- Moving a queued page to the end replaces its entry. -/
theorem toEnd_replaces (room : q.size < q.array.length) (distinct : (q.live.map HeapP.index).Nodup)
    (isIn : e ∈ q.live) :
    Deleted q e (deleteRoot q e.index).2 ∧
      Inserted (deleteRoot q e.index).2 ⟨e.index, lastPriority (deleteRoot q e.index).2⟩
        (q.toEnd e.index) := by
  have deleted := deleteRoot_entry (Nat.le_of_lt room) distinct isIn
  refine ⟨deleted, insertHeap_inserted _ _ ?_⟩
  have size := deleted.size
  rw [deleted.length]
  omega

theorem toEnd_size (deleted : Deleted q e q') (inserted : Inserted q' e' (q.toEnd e.index)) :
    (q.toEnd e.index).size = q.size ∧ (q.toEnd e.index).array.length = q.array.length :=
  ⟨inserted.size.trans deleted.size, inserted.length.trans deleted.length⟩

theorem toEnd_indices (deleted : Deleted q e q') (inserted : Inserted q' e' (q.toEnd e.index))
    (same : e'.index = e.index) :
    ((q.toEnd e.index).live.map HeapP.index).Perm (q.live.map HeapP.index) := by
  have before := deleted.live.map index
  have after := inserted.live.map index
  rw [map_cons, same] at after
  exact after.trans before.symm

theorem Parted.skip (parted : Parted low moved (e :: rest) q) : Parted (low ++ [e]) moved rest q where
  room := parted.room
  isHeap := parted.isHeap
  live := by
    have shifted : (low ++ moved ++ e :: rest).Perm (low ++ [e] ++ moved ++ rest) := by
      simp only [append_assoc]
      exact (perm_middle.append_left low).trans (by simp)
    exact parted.live.trans shifted
  distinct := parted.distinct
  increasing := parted.increasing
  above x mem y other := parted.above x mem y (by simpa using other)
  below x mem := by
    have bound := parted.below x mem
    rw [length_cons] at bound
    omega

theorem Parted.move (parted : Parted low moved (e :: rest) q) :
    ∃ e', e'.index = e.index ∧ Parted low (moved ++ [e']) rest (q.toEnd e.index) := by
  have isIn : e ∈ q.live := parted.live.mem_iff.mpr (by simp)
  obtain ⟨deleted, inserted⟩ := toEnd_replaces parted.room parted.distinct isIn
  have left : (deleteRoot q e.index).2.live.Perm (low ++ moved ++ rest) :=
    (perm_cons e).mp (deleted.live.symm.trans (parted.live.trans perm_middle))
  obtain ⟨top, topIn, last, most⟩ := deleted.lastPriority fun x mem => by
    have bound := parted.below x mem
    rw [length_cons] at bound
    omega
  have behind : ∀ x ∈ low ++ moved ++ rest,
      x.priority.toNat < (lastPriority (deleteRoot q e.index).2).toNat := by
    intro x mem
    rw [last]
    exact Nat.lt_succ_of_le (most x (left.mem_iff.mpr mem))
  refine ⟨⟨e.index, lastPriority (deleteRoot q e.index).2⟩, rfl, ?_, inserted.isHeap, ?_, ?_, ?_, ?_, ?_⟩
  · obtain ⟨size, length⟩ := toEnd_size deleted inserted
    rw [size, length]
    exact parted.room
  · refine inserted.live.trans ((left.cons _).trans ?_)
    simp only [append_assoc]
    exact perm_middle.symm.trans (perm_middle.symm.append_left low)
  · exact (toEnd_indices deleted inserted rfl).nodup_iff.mpr parted.distinct
  · refine pairwise_append.mpr ⟨parted.increasing, pairwise_singleton .., fun x mem y last => ?_⟩
    rw [mem_singleton.mp last]
    exact behind x (by simp [mem])
  · intro x mem y other
    rcases mem_append.mp mem with old | new
    · exact parted.above x old y (by
        rcases mem_append.mp other with isLow | later
        · exact mem_append_left _ isLow
        · exact mem_append_right _ (mem_cons_of_mem _ later))
    · rw [mem_singleton.mp new]
      refine behind y ?_
      rcases mem_append.mp other with isLow | later
      · simp [isLow]
      · simp [later]
  · intro x mem
    rcases mem_cons.mp (inserted.live.mem_iff.mp mem) with rfl | old
    · have bound := parted.below top topIn
      rw [length_cons] at bound
      simp only [last]
      omega
    · have bound := parted.below x (deleted.live.mem_iff.mpr (mem_cons_of_mem _ old))
      rw [length_cons] at bound
      omega

/-- One page of a sampling. -/
def PrioQueue.sampleOne (ref : Int → Bool) (q : PrioQueue) (index : Int) : PrioQueue :=
  if ref index then q.toEnd index else q

/-- A whole sampling: the pages not accessed keep their entries and the others follow in order. -/
theorem Parted.sample (ref : Int → Bool) (parted : Parted low moved rest q) :
    ∃ moved', moved'.map HeapP.index = (rest.filter fun e => ref e.index).map HeapP.index ∧
      Parted (low ++ rest.filter fun e => !ref e.index) (moved ++ moved') []
        ((rest.map HeapP.index).foldl (PrioQueue.sampleOne ref) q) := by
  induction rest generalizing low moved q with
  | nil => exact ⟨[], rfl, by simpa using parted⟩
  | cons e rest ih =>
    cases accessed : ref e.index with
    | false =>
      obtain ⟨moved', indices, done⟩ := ih parted.skip
      refine ⟨moved', by simpa [accessed] using indices, ?_⟩
      simpa [accessed, PrioQueue.sampleOne] using done
    | true =>
      obtain ⟨e', index, parted'⟩ := parted.move
      obtain ⟨moved', indices, done⟩ := ih parted'
      refine ⟨e' :: moved', by simpa [accessed, index] using indices, ?_⟩
      simpa [accessed, PrioQueue.sampleOne] using done

end Queue

/-- A sampled page stays in the queue, whatever its bit. -/
theorem Paging.Lined.sampleOne {m : Paging} (lined : m.Lined) (ref : Int → Bool) {i : Slot}
    (queued : ∃ e ∈ m.queue.live, e.index = i.val) :
    ((m.queue.sampleOne ref i.val).live.map HeapP.index).Perm (m.queue.live.map HeapP.index) ∧
      Paging.Lined { m with queue := m.queue.sampleOne ref i.val } := by
  unfold PrioQueue.sampleOne
  split
  · obtain ⟨e, isIn, index⟩ := queued
    obtain ⟨deleted, inserted⟩ := toEnd_replaces lined.room lined.distinct isIn
    have indices := toEnd_indices deleted inserted rfl
    rw [← index]
    refine ⟨indices, (toEnd_size deleted inserted).2.trans lined.length, inserted.isHeap, ?_,
      indices.nodup_iff.mpr lined.distinct⟩
    intro x mem
    obtain ⟨y, old, same⟩ := mem_map.mp (indices.mem_iff.mp (mem_map_of_mem mem))
    rw [← same]
    exact lined.slots y old
  · exact ⟨.refl _, lined⟩

theorem updatePage_scfifo {m : Paging} {i : Slot} (accessed : Nat → Option Bool) (bit : Bool)
    (taken : i ∈ occupied m.ramPmd) (room : m.queue.size < m.queue.array.length)
    (queued : ∃ e ∈ m.queue.live, e.index = i.val) :
    updatePage .SCFIFO accessed bit m i =
      .ok { m with queue := if bit then m.queue.toEnd i.val else m.queue } := by
  have isTaken : (m.ramPmd i).occupied = true := mem_occupied.mp taken
  cases bit with
  | false => rfl
  | true =>
    obtain ⟨-, deleted⟩ := deleteRoot_deleted m.queue i.val (Nat.le_of_lt room) queued
    have fits : (m.dequeue i.val).queue.size < (m.dequeue i.val).queue.array.length := by
      have size := deleted.size
      simp only [Paging.dequeue, deleted.length]
      omega
    simp only [updatePage, isTaken, if_true, Paging.enqueue, fits]
    rfl

namespace Kernel

/-- `PTE_A` of the page in slot `i`. -/
def referenced (k : Kernel) (me : ProcNo) (i : Slot) : Bool :=
  match walkpgdir (k.dirs (k.proc me).pgdir) ((k.proc me).paging.ramPmd i).va with
  | some pte => pte.a
  | none => false

/-- `PTE_A` of the page a queue entry stands for. -/
def refers (k : Kernel) (me : ProcNo) (index : Int) : Bool :=
  match ramSlot index with
  | .ok i => k.referenced me i
  | .error _ => false

/-- The queue of the process is a heap of distinct occupied slots with distinct mapped pages. -/
structure Lined (k : Kernel) (me : ProcNo) : Prop where
  lined : (k.proc me).paging.Lined
  mapped : ∀ i : Slot, (∃ e ∈ (k.proc me).paging.queue.live, e.index = i.val) →
    walkpgdir (k.dirs (k.proc me).pgdir) ((k.proc me).paging.ramPmd i).va ≠ none
  apart : ∀ i j : Slot, (∃ e ∈ (k.proc me).paging.queue.live, e.index = i.val) →
    (∃ e ∈ (k.proc me).paging.queue.live, e.index = j.val) →
    pageOf ((k.proc me).paging.ramPmd i).va = pageOf ((k.proc me).paging.ramPmd j).va → i = j

instance (k : Kernel) (me : ProcNo) : Decidable (k.Lined me) :=
  decidable_of_iff ((k.proc me).paging.Lined ∧
    (∀ i : Slot, (∃ e ∈ (k.proc me).paging.queue.live, e.index = i.val) →
      walkpgdir (k.dirs (k.proc me).pgdir) ((k.proc me).paging.ramPmd i).va ≠ none) ∧
    ∀ i j : Slot, (∃ e ∈ (k.proc me).paging.queue.live, e.index = i.val) →
      (∃ e ∈ (k.proc me).paging.queue.live, e.index = j.val) →
      pageOf ((k.proc me).paging.ramPmd i).va = pageOf ((k.proc me).paging.ramPmd j).va → i = j)
    ⟨fun ⟨lined, mapped, apart⟩ => ⟨lined, mapped, apart⟩,
      fun lined => ⟨lined.lined, lined.mapped, lined.apart⟩⟩

section Sampling

variable {cfg : Config} {k k' : Kernel} {me : ProcNo} {i : Slot}

@[simp] theorem refers_slot : k.refers me i.val = k.referenced me i := by
  rw [refers, ramSlot_val]

/-- The page in slot `i` has been sampled: its place in the queue follows from its bit, and the bit
is cleared. -/
structure SampledAt (me : ProcNo) (i : Slot) (k k' : Kernel) : Prop where
  proc : k'.proc me = { k.proc me with paging := { (k.proc me).paging with
    queue := (k.proc me).paging.queue.sampleOne (k.refers me) i.val } }
  mapped : walkpgdir (k'.dirs (k.proc me).pgdir) ((k.proc me).paging.ramPmd i).va ≠ none
  cleared : k'.referenced me i = false
  others : ∀ j : Slot,
    pageOf ((k.proc me).paging.ramPmd j).va ≠ pageOf ((k.proc me).paging.ramPmd i).va →
      walkpgdir (k'.dirs (k.proc me).pgdir) ((k.proc me).paging.ramPmd j).va =
        walkpgdir (k.dirs (k.proc me).pgdir) ((k.proc me).paging.ramPmd j).va

theorem updatePageInPriorityQueue_scfifo (build : cfg.sel = .SCFIFO)
    (taken : i ∈ occupied (k.proc me).paging.ramPmd)
    (room : (k.proc me).paging.queue.size < (k.proc me).paging.queue.array.length)
    (queued : ∃ e ∈ (k.proc me).paging.queue.live, e.index = i.val)
    (mapped : walkpgdir (k.dirs (k.proc me).pgdir) ((k.proc me).paging.ramPmd i).va ≠ none) :
    ∃ k', updatePageInPriorityQueue cfg me k i.val = .ok k' ∧ SampledAt me i k k' := by
  obtain ⟨pte, walk⟩ := Option.ne_none_iff_exists'.mp mapped
  have bit : k.referenced me i = pte.a := by
    rw [referenced, walk]
  have moved := updatePage_scfifo (m := (k.proc me).paging)
    (fun va => (walkpgdir (k.dirs (k.proc me).pgdir) va).map Pte.a) pte.a taken room queued
  refine ⟨_, by
    simp only [updatePageInPriorityQueue, ramSlot_val, Res.ok_bind, walk, build, moved]; rfl, ?_, ?_, ?_, ?_⟩
  · simp only [record_proc, setPte_proc, setPaging_self, PrioQueue.sampleOne, refers_slot, bit]
  · simp only [record_dirs, setPte_dirs_self, setPaging_dirs, walkpgdir_setPte walk, ne_eq, reduceCtorEq,
      not_false_eq_true]
  · simp only [referenced, record_proc, setPte_proc, setPaging_self, record_dirs, setPte_dirs_self,
      setPaging_dirs, walkpgdir_setPte walk]
  · intro j other
    simp only [record_dirs, setPte_dirs_self, setPaging_dirs]
    exact walkpgdir_setPte_other other

theorem SampledAt.queued (sampled : SampledAt me i k k') (lined : k.Lined me)
    (queued : ∃ e ∈ (k.proc me).paging.queue.live, e.index = i.val) (index : Int) :
    (∃ e ∈ (k'.proc me).paging.queue.live, e.index = index) ↔
      ∃ e ∈ (k.proc me).paging.queue.live, e.index = index := by
  have same := ((lined.lined.sampleOne (k.refers me) queued).1).mem_iff (a := index)
  rw [sampled.proc]
  simpa only [mem_map] using same

theorem SampledAt.referenced_other (sampled : SampledAt me i k k') (lined : k.Lined me)
    (queued : ∃ e ∈ (k.proc me).paging.queue.live, e.index = i.val) {j : Slot}
    (other : ∃ e ∈ (k.proc me).paging.queue.live, e.index = j.val) (ne : j ≠ i) :
    k'.referenced me j = k.referenced me j := by
  have same := sampled.others j fun page => ne (lined.apart j i other queued page)
  rw [referenced, sampled.proc, same, referenced]

theorem SampledAt.lined (sampled : SampledAt me i k k') (lined : k.Lined me)
    (queued : ∃ e ∈ (k.proc me).paging.queue.live, e.index = i.val) : k'.Lined me := by
  have indices := sampled.queued lined queued
  refine ⟨?_, fun j other => ?_, fun j j' first second page => ?_⟩
  · rw [sampled.proc]
    exact (lined.lined.sampleOne _ queued).2
  · rw [indices] at other
    rw [sampled.proc]
    by_cases same : j = i
    · rw [same]
      exact sampled.mapped
    · have kept := sampled.others j fun page => same (lined.apart j i other queued page)
      simp only [kept]
      exact lined.mapped j other
  · rw [indices] at first second
    rw [sampled.proc] at page
    exact lined.apart j j' first second page

/-- The loop of `updatePagesInPriorityQueue` over pages still to come. -/
theorem samplings_run (build : cfg.sel = .SCFIFO) (ref : Int → Bool) (rest : List Slot)
    (lined : k.Lined me) (nodup : rest.Nodup)
    (queued : ∀ i ∈ rest, ∃ e ∈ (k.proc me).paging.queue.live, e.index = i.val)
    (bits : ∀ i ∈ rest, ref i.val = k.referenced me i) :
    ∃ k', (rest.map fun i => (i.val : Int)).foldlM (updatePageInPriorityQueue cfg me) k = .ok k' ∧
      k'.proc me = { k.proc me with paging := { (k.proc me).paging with
        queue := (rest.map fun i => (i.val : Int)).foldl (PrioQueue.sampleOne ref)
          (k.proc me).paging.queue } } ∧
      ∀ i : Slot, (∃ e ∈ (k.proc me).paging.queue.live, e.index = i.val) →
        i ∈ rest ∨ k.referenced me i = false → k'.referenced me i = false := by
  induction rest generalizing k with
  | nil => exact ⟨k, rfl, rfl, fun i _ clear => clear.resolve_left not_mem_nil⟩
  | cons i rest ih =>
    obtain ⟨fresh, nodup⟩ := nodup_cons.mp nodup
    have here := queued i (mem_cons_self ..)
    have taken : i ∈ occupied (k.proc me).paging.ramPmd := by
      obtain ⟨e, isIn, index⟩ := here
      obtain ⟨j, taken, same⟩ := lined.lined.slots e isIn
      obtain rfl : i = j := Fin.ext (by omega)
      exact taken
    obtain ⟨k₁, run₁, sampled⟩ := updatePageInPriorityQueue_scfifo build taken lined.lined.room here
      (lined.mapped i here)
    have indices := sampled.queued lined here
    have apart : ∀ j ∈ rest, j ≠ i := fun j mem same => fresh (same ▸ mem)
    obtain ⟨k', run, proc, cleared⟩ := ih (sampled.lined lined here) nodup
      (fun j mem => (indices _).mpr (queued j (mem_cons_of_mem _ mem))) (fun j mem => by
        rw [bits j (mem_cons_of_mem _ mem)]
        exact (sampled.referenced_other lined here (queued j (mem_cons_of_mem _ mem))
          (apart j mem)).symm)
    have bit : k.refers me i.val = ref i.val := by
      rw [refers_slot, bits i (mem_cons_self ..)]
    refine ⟨k', ?_, ?_, fun j isQueued clear => cleared j ((indices _).mpr isQueued) ?_⟩
    · rw [map_cons, foldlM_cons, run₁]
      exact run
    · rw [proc, sampled.proc]
      simp only [map_cons, foldl_cons, PrioQueue.sampleOne, bit]
    · by_cases same : j = i
      · rw [same]
        exact .inr sampled.cleared
      · rw [sampled.referenced_other lined here isQueued same]
        exact clear.imp_left fun mem => (mem_cons.mp mem).resolve_left same

end Sampling

end Kernel

theorem drain_eq (n : Nat) (q : PrioQueue) : drain n q = (extractAll n q).map HeapP.index := by
  induction n generalizing q with
  | zero => rfl
  | succ n ih => rw [drain, extractAll, map_cons, ih]

theorem exists_slots {l : List Int} (slots : ∀ x ∈ l, ∃ i : Slot, x = i.val) :
    ∃ rest : List Slot, (rest.map fun i => (i.val : Int)) = l := by
  induction l with
  | nil => exact ⟨[], rfl⟩
  | cons x l ih =>
    obtain ⟨i, rfl⟩ := slots x (mem_cons_self ..)
    obtain ⟨rest, rfl⟩ := ih fun y mem => slots y (mem_cons_of_mem _ mem)
    exact ⟨i :: rest, rfl⟩

section Partition

variable {ref : Int → Bool} {order moved : List HeapP} {q q' : PrioQueue}

/-- Before a sampling every page is still to come. -/
theorem parted_start (room : q.size < q.array.length) (isHeap : q.IsHeap)
    (distinct : (q.live.map HeapP.index).Nodup) (live : order.Perm q.live)
    (below : ∀ e ∈ q.live, e.priority.toNat + q.size < 2 ^ 32) : Parted [] [] order q where
  room := room
  isHeap := isHeap
  live := live.symm
  distinct := distinct
  increasing := .nil
  above := nofun
  below e mem := by
    have bound := below e mem
    rw [← length_live, ← live.length_eq] at bound
    exact bound

/-- Pages met in the order of their priorities are moved in that order. -/
theorem moved_order (sorted : order.Pairwise fun a b => a.priority ≤ b.priority)
    (indices : moved.map HeapP.index = (order.filter fun e => ref e.index).map HeapP.index)
    (increasing : moved.Pairwise fun a b => a.priority.toNat < b.priority.toNat)
    (distinct : (moved.map HeapP.index).Nodup) {e₁ e₂ e₁' e₂' : HeapP} (mem₁ : e₁ ∈ order)
    (mem₂ : e₂ ∈ order) (set₁ : ref e₁.index = true) (set₂ : ref e₂.index = true)
    (mem₁' : e₁' ∈ moved) (mem₂' : e₂' ∈ moved) (same₁ : e₁'.index = e₁.index)
    (same₂ : e₂'.index = e₂.index) (before : e₁.priority.toNat < e₂.priority.toNat) :
    e₁'.priority.toNat < e₂'.priority.toNat := by
  have sorted' := sorted.filter fun e => ref e.index
  have listed₁ : e₁ ∈ order.filter fun e => ref e.index := mem_filter.mpr ⟨mem₁, set₁⟩
  have listed₂ : e₂ ∈ order.filter fun e => ref e.index := mem_filter.mpr ⟨mem₂, set₂⟩
  obtain ⟨a, boundA, rfl⟩ := mem_iff_getElem.mp listed₁
  obtain ⟨b, boundB, rfl⟩ := mem_iff_getElem.mp listed₂
  have length : moved.length = (order.filter fun e => ref e.index).length := by
    simpa using congrArg List.length indices
  have place : ∀ c (bound : c < moved.length),
      (moved.get ⟨c, bound⟩).index =
        ((order.filter fun e => ref e.index).get ⟨c, length ▸ bound⟩).index := by
    intro c bound
    have at_c := congrArg (fun l => l[c]?) indices
    simpa [bound, length ▸ bound] using at_c
  have first : moved.get ⟨a, length ▸ boundA⟩ = e₁' :=
    entry_unique distinct (get_mem ..) mem₁' ((place a _).trans same₁.symm)
  have second : moved.get ⟨b, length ▸ boundB⟩ = e₂' :=
    entry_unique distinct (get_mem ..) mem₂' ((place b _).trans same₂.symm)
  have less : a < b := by
    by_contra le
    rcases Nat.lt_or_eq_of_le (Nat.not_lt.mp le) with less | rfl
    · have wrong := pairwise_iff_getElem.mp sorted' b a boundB boundA less
      rw [UInt32.le_iff_toNat_le] at wrong
      omega
    · exact Nat.lt_irrefl _ before
  rw [← first, ← second]
  exact pairwise_iff_getElem.mp increasing a b _ _ less

/-- A queue `q'` has the entries of `q` with `ref` clear and behind them, in order, the pages with
`ref` set. -/
structure StablePartition (ref : Int → Bool) (q q' : PrioQueue) : Prop where
  slots : (q'.live.map HeapP.index).Perm (q.live.map HeapP.index)
  isHeap : q'.IsHeap
  unchanged : ∀ e ∈ q.live, ref e.index = false → e ∈ q'.live
  behind : ∀ e ∈ q'.live, ref e.index = true → ∀ x ∈ q.live, ref x.index = false →
    x.priority.toNat < e.priority.toNat
  stable : ∀ e₁ ∈ q.live, ∀ e₂ ∈ q.live, ref e₁.index = true → ref e₂.index = true →
    e₁.priority.toNat < e₂.priority.toNat → ∀ e₁' ∈ q'.live, ∀ e₂' ∈ q'.live,
      e₁'.index = e₁.index → e₂'.index = e₂.index → e₁'.priority.toNat < e₂'.priority.toNat

theorem Parted.stablePartition (live : order.Perm q.live)
    (sorted : order.Pairwise fun a b => a.priority ≤ b.priority)
    (indices : moved.map HeapP.index = (order.filter fun e => ref e.index).map HeapP.index)
    (parted : Parted (order.filter fun e => !ref e.index) moved [] q') :
    StablePartition ref q q' := by
  have after : q'.live.Perm ((order.filter fun e => !ref e.index) ++ moved) := by
    simpa using parted.live
  have set : ∀ e ∈ moved, ref e.index = true := by
    intro e mem
    have listed := mem_map_of_mem (f := index) mem
    rw [indices] at listed
    obtain ⟨x, isIn, same⟩ := mem_map.mp listed
    rw [← same]
    exact (mem_filter.mp isIn).2
  have isMoved : ∀ e ∈ q'.live, ref e.index = true → e ∈ moved := by
    intro e mem isSet
    rcases mem_append.mp (after.mem_iff.mp mem) with low | isIn
    · simp [isSet] at low
    · exact isIn
  refine ⟨?_, parted.isHeap, fun e mem clear => ?_, fun e mem isSet x other clear => ?_, ?_⟩
  · refine (after.map index).trans ?_
    rw [map_append, indices, ← map_append]
    refine List.Perm.map _ (List.Perm.trans ?_ live)
    exact perm_append_comm.trans (filter_append_perm (fun e => ref e.index) order)
  · exact after.mem_iff.mpr (mem_append_left _
      (mem_filter.mpr ⟨live.mem_iff.mpr mem, by simp [clear]⟩))
  · refine parted.above e (isMoved e mem isSet) x ?_
    rw [append_nil]
    exact mem_filter.mpr ⟨live.mem_iff.mpr other, by simp [clear]⟩
  · intro e₁ mem₁ e₂ mem₂ set₁ set₂ before e₁' mem₁' e₂' mem₂' same₁ same₂
    have distinct : (moved.map index).Nodup := by
      have nodup := (after.map index).nodup_iff.mp parted.distinct
      rw [map_append] at nodup
      exact nodup.of_append_right
    exact moved_order sorted indices parted.increasing distinct (live.mem_iff.mpr mem₁)
      (live.mem_iff.mpr mem₂) set₁ set₂ (isMoved e₁' mem₁' (same₁ ▸ set₁))
      (isMoved e₂' mem₂' (same₂ ▸ set₂)) same₁ same₂ before

/-- The page at the front afterwards: one that was not accessed if there is one, and in any case
the first of its kind. -/
theorem StablePartition.front (part : StablePartition ref q q')
    (distinct : (q.live.map HeapP.index).Nodup) (nonempty : 0 < q.size) :
    0 < q'.size ∧ ∃ e ∈ q.live, (peekHeap q'.array).index = e.index ∧
      ((∃ x ∈ q.live, ref x.index = false) → ref e.index = false) ∧
      ∀ x ∈ q.live, ref x.index = ref e.index → e.priority.toNat ≤ x.priority.toNat := by
  have nonempty' : 0 < q'.size := by
    have length := part.slots.length_eq
    simp only [length_map, length_live] at length
    omega
  have root := peekHeap_mem nonempty'
  have least := fun x mem => peekHeap_le (e := x) part.isHeap mem
  have find : ∀ x ∈ q.live, ∃ x' ∈ q'.live, x'.index = x.index := fun x mem =>
    mem_map.mp (part.slots.mem_iff.mpr (mem_map_of_mem mem))
  obtain ⟨e, isIn, same⟩ := mem_map.mp (part.slots.mem_iff.mp (mem_map_of_mem root))
  refine ⟨nonempty', e, isIn, same.symm, ?_⟩
  cases bit : ref e.index with
  | false =>
    have eq : e = peekHeap q'.array := entry_unique (part.slots.nodup_iff.mpr distinct)
      (part.unchanged e isIn bit) root same
    refine ⟨fun _ => rfl, fun x mem clear => ?_⟩
    rw [eq]
    exact least x (part.unchanged x mem clear)
  | true =>
    refine ⟨fun ⟨x, mem, clear⟩ => ?_, fun x mem isSet => ?_⟩
    · have less := part.behind _ root (same ▸ bit) x mem clear
      have le := least x (part.unchanged x mem clear)
      omega
    · by_contra more
      obtain ⟨x', mem', index⟩ := find x mem
      have less := part.stable x mem e isIn isSet bit (by omega) x' mem' _ root index same.symm
      have le := least x' mem'
      omega

end Partition

/-- A sampling in the `SCFIFO` build partitions the queue by the accessed bits and clears them. The
next victim is the unreferenced page of least priority if there is one, and otherwise a page of
least priority before the sampling. -/
theorem scfifo_sampling_partitions (cfg : Config) (build : cfg.sel = .SCFIFO) {k : Kernel}
    {me : ProcNo} (pid : 2 < (k.proc me).pid) (lined : k.Lined me)
    (below : ∀ e ∈ (k.proc me).paging.queue.live,
      e.priority.toNat + (k.proc me).paging.queue.size < 2 ^ 32) :
    ∃ k', k.updatePagesInPriorityQueue cfg me = .ok k' ∧
      StablePartition (k.refers me) (k.proc me).paging.queue (k'.proc me).paging.queue ∧
      (∀ i : Slot, (∃ e ∈ (k.proc me).paging.queue.live, e.index = i.val) →
        k'.referenced me i = false) ∧
      (0 < (k.proc me).paging.queue.size → ∃ e ∈ (k.proc me).paging.queue.live,
        (getVictimIndex cfg.sel (k'.proc me).paging).1 = e.index ∧
        ((∃ x ∈ (k.proc me).paging.queue.live, k.refers me x.index = false) →
          k.refers me e.index = false) ∧
        ∀ x ∈ (k.proc me).paging.queue.live, k.refers me x.index = k.refers me e.index →
          e.priority.toNat ≤ x.priority.toNat) := by
  obtain ⟨perm, sorted⟩ := extractAll_sorted (k.proc me).paging.queue.size rfl lined.lined.kept
  have listed : ∀ x, x ∈ drain (k.proc me).paging.queue.size (k.proc me).paging.queue ↔
      ∃ e ∈ (k.proc me).paging.queue.live, e.index = x := by
    intro x
    rw [drain_eq, (perm.map HeapP.index).mem_iff, List.mem_map]
  obtain ⟨rest, slots⟩ := exists_slots
    (l := drain (k.proc me).paging.queue.size (k.proc me).paging.queue) fun x mem => by
      obtain ⟨e, isIn, rfl⟩ := (listed x).mp mem
      obtain ⟨i, -, index⟩ := lined.lined.slots e isIn
      exact ⟨i, index⟩
  have isRest : ∀ i : Slot, i ∈ rest ↔ ∃ e ∈ (k.proc me).paging.queue.live, e.index = i.val := by
    intro i
    rw [← listed, ← slots, List.mem_map]
    constructor
    · exact fun mem => ⟨i, mem, rfl⟩
    · rintro ⟨j, mem, same⟩
      obtain rfl : j = i := Fin.ext (by omega)
      exact mem
  have nodup : rest.Nodup := by
    refine List.Nodup.of_map (fun i => (i.val : Int)) ?_
    rw [slots, drain_eq, (perm.map HeapP.index).nodup_iff]
    exact lined.lined.distinct
  obtain ⟨k', run, proc, cleared⟩ := Kernel.samplings_run build (k.refers me) rest lined nodup
    (fun i mem => (isRest i).mp mem) (fun i _ => Kernel.refers_slot)
  have start := parted_start lined.lined.room lined.lined.isHeap lined.lined.distinct perm below
  obtain ⟨moved, indices, parted⟩ := start.sample (k.refers me)
  have part : StablePartition (k.refers me) (k.proc me).paging.queue (k'.proc me).paging.queue := by
    refine Parted.stablePartition perm sorted indices ?_
    rw [proc, slots, drain_eq]
    simpa using parted
  refine ⟨k', ?_, part, fun i queued => cleared i queued (.inl ((isRest i).mpr queued)),
    fun nonempty => ?_⟩
  · rw [Kernel.updatePagesInPriorityQueue, if_neg (by omega), build, sampleOrder, ← slots]
    exact run
  · obtain ⟨nonempty', e, isIn, same, front⟩ := part.front lined.lined.distinct nonempty
    refine ⟨e, isIn, ?_, front⟩
    rw [build, getVictimIndex, if_neg (by omega)]
    exact same

/-- A process of three pages has used the first one. -/
theorem scfifo_sampling_partitions_lone :
    ∃ k, Kernel.loneUser .SCFIFO 3 [0] = .ok k ∧ k.Lined 1 ∧
      ∃ k', k.updatePagesInPriorityQueue (layoutConfig .SCFIFO) 1 = .ok k' ∧
        StablePartition (k.refers 1) (k.proc 1).paging.queue (k'.proc 1).paging.queue := by
  obtain ⟨k, run, checked⟩ := exists_ok_of_any (x := Kernel.loneUser .SCFIFO 3 [0])
    (p := fun k => decide (2 < (k.proc 1).pid ∧ k.Lined 1 ∧
      ∀ e ∈ (k.proc 1).paging.queue.live, e.priority.toNat + (k.proc 1).paging.queue.size < 2 ^ 32))
    (by decide +kernel)
  obtain ⟨pid, lined, below⟩ := of_decide_eq_true checked
  obtain ⟨k', sampled, part, -⟩ :=
    scfifo_sampling_partitions (layoutConfig .SCFIFO) rfl pid lined below
  exact ⟨k, run, lined, k', sampled, part⟩

end Xv6
