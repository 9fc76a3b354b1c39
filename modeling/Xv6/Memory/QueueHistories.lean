import Xv6.Library.Lts
import Xv6.Memory.PriorityQueue

/-!
Histories of the replacement queue against a multiset of entries.

The abstract queue is the multiset alone. Which of several entries with one index or with the least
priority is returned is left open there, since the array decides it by position.
-/

namespace Xv6

inductive QueueOp where
  | insertHeap (newHeap : HeapP)
  | deleteRoot (index : Int)
  | findInHeap (pageNum : Int)
  | extractMin

/-- The result and the queue after a call; `insertHeap` has no result. -/
def PrioQueue.apply (q : PrioQueue) : QueueOp → Option HeapP × PrioQueue
  | .insertHeap e => (none, insertHeap q e)
  | .deleteRoot index => (some (deleteRoot q index).1, (deleteRoot q index).2)
  | .findInHeap pageNum => (some (findInHeap q pageNum).1, (findInHeap q pageNum).2)
  | .extractMin => (some (extractMin q).1, (extractMin q).2)

/-- What callers keep to: entries have an index, there is room for them, and the minimum is only taken
from a queue that is not empty. -/
def PrioQueue.Allows (q : PrioQueue) : QueueOp → Prop
  | .insertHeap e => 0 ≤ e.index ∧ q.size < q.array.length
  | .extractMin => 0 < q.size
  | .deleteRoot _ | .findInHeap _ => True

instance (q : PrioQueue) : (op : QueueOp) → Decidable (q.Allows op)
  | .insertHeap _ => inferInstanceAs (Decidable (_ ∧ _))
  | .extractMin => inferInstanceAs (Decidable (_ < _))
  | .deleteRoot _ | .findInHeap _ => inferInstanceAs (Decidable True)

def PrioQueue.Step (q : PrioQueue) (a : QueueOp × Option HeapP) (q' : PrioQueue) : Prop :=
  q.Allows a.1 ∧ q.apply a.1 = (a.2, q')

/-- An entry with the index is looked up; `rest` is what is left when there is one. -/
def Looked (m : Multiset HeapP) (index : Int) (r : HeapP) (rest m' : Multiset HeapP) : Prop :=
  (r ∈ m ∧ r.index = index ∧ m' = rest) ∨ ((∀ e ∈ m, e.index ≠ index) ∧ r = .clean ∧ m' = m)

/-- The abstract queue. -/
inductive BagStep : Multiset HeapP → QueueOp × Option HeapP → Multiset HeapP → Prop
  | insertHeap (m : Multiset HeapP) (e : HeapP) : BagStep m (.insertHeap e, none) (e ::ₘ m)
  | deleteRoot {m m' : Multiset HeapP} {index : Int} {r : HeapP}
      (looked : Looked m index r (m.erase r) m') : BagStep m (.deleteRoot index, some r) m'
  | findInHeap {m m' : Multiset HeapP} {pageNum : Int} {r : HeapP}
      (looked : Looked m pageNum r m m') : BagStep m (.findInHeap pageNum, some r) m'
  | extractMin {m : Multiset HeapP} {r : HeapP} (mem : r ∈ m)
      (least : ∀ e ∈ m, r.priority ≤ e.priority) : BagStep m (.extractMin, some r) (m.erase r)

/-- Take the minimum until the queue is empty. -/
def extractAll : Nat → PrioQueue → List HeapP
  | 0, _ => []
  | n + 1, q => (extractMin q).1 :: extractAll n (extractMin q).2

def PrioQueue.bag (q : PrioQueue) : Multiset HeapP := q.live

/-- The invariant of a history: a heap inside its array, of entries that have an index. -/
structure PrioQueue.Kept (q : PrioQueue) : Prop where
  fits : q.Fits
  isHeap : q.IsHeap
  index : ∀ e ∈ q.live, 0 ≤ e.index

section

variable {q q' : PrioQueue} {e : HeapP}

theorem Inserted.kept (kept : q.Kept) (inserted : Inserted q e q') (room : q.size < q.array.length)
    (index : 0 ≤ e.index) : q'.Kept := by
  refine ⟨?_, inserted.isHeap, fun x mem => ?_⟩
  · rw [PrioQueue.Fits, inserted.size, inserted.length]
    exact room
  · cases List.mem_cons.mp (inserted.live.mem_iff.mp mem) with
    | inl same => exact same ▸ index
    | inr mem => exact kept.index x mem

theorem Deleted.kept (kept : q.Kept) (deleted : Deleted q e q') : q'.Kept := by
  have fits : q.size ≤ q.array.length := kept.fits
  have size := deleted.size
  refine ⟨?_, deleted.isHeap, fun x mem => ?_⟩
  · rw [PrioQueue.Fits, deleted.length]
    omega
  · exact kept.index x (deleted.live.mem_iff.mpr (List.mem_cons_of_mem e mem))

theorem Extracted.kept (kept : q.Kept) (extracted : Extracted q e q') : q'.Kept := by
  have fits : q.size ≤ q.array.length := kept.fits
  have size := extracted.size
  refine ⟨?_, extracted.isHeap kept.isHeap, fun x mem => ?_⟩
  · rw [PrioQueue.Fits, extracted.length]
    omega
  · exact kept.index x (extracted.live.mem_iff.mpr (List.mem_cons_of_mem e mem))

theorem bag_erase (live : q.live.Perm (e :: q'.live)) : e ∈ q.bag ∧ q'.bag = q.bag.erase e := by
  have same : q.bag = e ::ₘ q'.bag := Multiset.coe_eq_coe.mpr live
  rw [same, Multiset.erase_cons_head]
  exact ⟨Multiset.mem_cons_self .., rfl⟩

/-- `deleteRoot` finds an entry, or there is none. -/
theorem deleteRoot_cases (kept : q.Kept) (index : Int) :
    ((deleteRoot q index).1.index = index ∧ Deleted q (deleteRoot q index).1 (deleteRoot q index).2) ∨
      ((∀ e ∈ q.live, e.index ≠ index) ∧ deleteRoot q index = (.clean, q)) := by
  by_cases present : ∃ e ∈ q.live, e.index = index
  · exact .inl (deleteRoot_deleted q index kept.fits present)
  · push Not at present
    exact .inr ⟨present, deleteRoot_absent present⟩

theorem findInHeap_found (kept : q.Kept) {index : Int}
    (found : (deleteRoot q index).1.index = index)
    (deleted : Deleted q (deleteRoot q index).1 (deleteRoot q index).2) :
    (findInHeap q index).1 = (deleteRoot q index).1 ∧ (findInHeap q index).2.Kept ∧
      (findInHeap q index).2.bag = q.bag := by
  have mem : (deleteRoot q index).1 ∈ q.live := deleted.live.mem_iff.mpr (List.mem_cons_self ..)
  have nonneg := kept.index _ mem
  have fits : q.size ≤ q.array.length := kept.fits
  have room : (deleteRoot q index).2.size < (deleteRoot q index).2.array.length := by
    have size := deleted.size
    rw [deleted.length]
    omega
  have inserted := insertHeap_inserted (deleteRoot q index).2 (deleteRoot q index).1 room
  have isFound : (deleteRoot q index).1.index ≠ -1 := by omega
  simp only [findInHeap, isFound, ne_eq, not_false_eq_true, if_true]
  refine ⟨trivial, inserted.kept (deleted.kept kept) room nonneg, ?_⟩
  exact Multiset.coe_eq_coe.mpr (inserted.live.trans deleted.live.symm)

theorem findInHeap_absent {index : Int} (absent : deleteRoot q index = (.clean, q)) :
    findInHeap q index = (.clean, q) := by
  simp [findInHeap, absent, HeapP.clean]

/-- Each call keeps the invariant and is a step of the multiset. -/
theorem PrioQueue.Kept.step (kept : q.Kept) {a : QueueOp × Option HeapP} (step : q.Step a q') :
    q'.Kept ∧ BagStep q.bag a q'.bag := by
  obtain ⟨op, r⟩ := a
  obtain ⟨allows, applied⟩ := step
  cases op with
  | insertHeap e =>
    cases applied
    have inserted := insertHeap_inserted q e allows.2
    refine ⟨inserted.kept kept allows.2 allows.1, ?_⟩
    have same : (insertHeap q e).bag = e ::ₘ q.bag := Multiset.coe_eq_coe.mpr inserted.live
    rw [same]
    exact .insertHeap q.bag e
  | deleteRoot index =>
    cases applied
    obtain ⟨found, deleted⟩ | ⟨absent, same⟩ := deleteRoot_cases kept index
    · obtain ⟨mem, rest⟩ := bag_erase deleted.live
      exact ⟨deleted.kept kept, .deleteRoot (.inl ⟨mem, found, rest⟩)⟩
    · rw [same]
      exact ⟨kept, .deleteRoot (.inr ⟨absent, rfl, rfl⟩)⟩
  | findInHeap index =>
    cases applied
    obtain ⟨found, deleted⟩ | ⟨absent, same⟩ := deleteRoot_cases kept index
    · obtain ⟨result, kept', same⟩ := findInHeap_found kept found deleted
      obtain ⟨mem, -⟩ := bag_erase deleted.live
      rw [result]
      exact ⟨kept', .findInHeap (.inl ⟨mem, found, same⟩)⟩
    · rw [findInHeap_absent same]
      exact ⟨kept, .findInHeap (.inr ⟨absent, rfl, rfl⟩)⟩
  | extractMin =>
    cases applied
    have extracted := extractMin_extracted q kept.fits allows
    obtain ⟨mem, rest⟩ := bag_erase extracted.live
    refine ⟨extracted.kept kept, ?_⟩
    rw [rest]
    refine .extractMin mem fun e isIn => ?_
    rw [extracted.root, UInt32.le_iff_toNat_le]
    exact peekHeap_le kept.isHeap isIn

/-- Draining a heap sorts it: each minimum is below what is still to come. -/
theorem extractAll_sorted (n : Nat) (size : q.size = n) (kept : q.Kept) :
    (extractAll n q).Perm q.live ∧ (extractAll n q).Pairwise fun a b => a.priority ≤ b.priority := by
  induction n generalizing q with
  | zero =>
    have empty : q.live = [] := by simp [PrioQueue.live, size]
    rw [empty]
    exact ⟨.nil, .nil⟩
  | succ n ih =>
    have extracted := extractMin_extracted q kept.fits (by omega)
    obtain ⟨perm, sorted⟩ := ih (by have := extracted.size; omega) (extracted.kept kept)
    refine ⟨(perm.cons _).trans extracted.live.symm, List.pairwise_cons.mpr ⟨fun e mem => ?_, sorted⟩⟩
    rw [extracted.root, UInt32.le_iff_toNat_le]
    refine peekHeap_le kept.isHeap (extracted.live.mem_iff.mpr (List.mem_cons_of_mem _ ?_))
    exact perm.mem_iff.mp mem

end

theorem initHeap_kept (n : Nat) : (⟨initHeap n, 0⟩ : PrioQueue).Kept :=
  ⟨Nat.zero_le _, fun _ _ _ _ below => absurd below (Nat.not_lt_zero _), nofun⟩

/-- Every history of calls is one of the multiset with the same results; the array is a heap whose
front is a minimum, and draining it lists all entries in order. -/
theorem queue_refines_bag (n : Nat) {history : List (QueueOp × Option HeapP)} {q : PrioQueue}
    (run : Lts.Run PrioQueue.Step ⟨initHeap n, 0⟩ history q) :
    Lts.Run BagStep 0 history q.bag ∧ q.IsHeap ∧
      (0 < q.size → peekHeap q.array ∈ q.bag ∧
        ∀ e ∈ q.bag, (peekHeap q.array).priority ≤ e.priority) ∧
      ((extractAll q.size q : Multiset HeapP) = q.bag) ∧
      (extractAll q.size q).Pairwise fun a b => a.priority ≤ b.priority := by
  have start : (⟨initHeap n, 0⟩ : PrioQueue).Kept ∧ (⟨initHeap n, 0⟩ : PrioQueue).bag = 0 :=
    ⟨initHeap_kept n, rfl⟩
  obtain ⟨m, abstract, kept, rfl⟩ := run.simulate (R := fun q m => q.Kept ∧ q.bag = m)
    (fun q m a q' ⟨kept, same⟩ step => by
      obtain ⟨kept', bagStep⟩ := kept.step step
      exact ⟨q'.bag, same ▸ bagStep, kept', rfl⟩) start
  obtain ⟨perm, sorted⟩ := extractAll_sorted q.size rfl kept
  refine ⟨abstract, kept.isHeap, fun nonempty => ⟨peekHeap_mem nonempty, fun e mem => ?_⟩,
    Multiset.coe_eq_coe.mpr perm, sorted⟩
  rw [UInt32.le_iff_toNat_le]
  exact peekHeap_le kept.isHeap mem

/-- A history with every call; the second search finds nothing any more. -/
def sampleHistory : List (QueueOp × Option HeapP) :=
  [(.insertHeap ⟨3, 7⟩, none), (.insertHeap ⟨1, 2⟩, none), (.insertHeap ⟨2, 5⟩, none),
    (.findInHeap 3, some ⟨3, 7⟩), (.deleteRoot 3, some ⟨3, 7⟩), (.findInHeap 3, some .clean),
    (.extractMin, some ⟨1, 2⟩)]

theorem queue_refines_bag_sample :
    ∃ q, Lts.Run PrioQueue.Step ⟨initHeap 16, 0⟩ sampleHistory q ∧
      Lts.Run BagStep 0 sampleHistory q.bag ∧ extractAll q.size q = [⟨2, 5⟩] := by
  obtain ⟨q, run, drained⟩ : ∃ q, Lts.Run PrioQueue.Step ⟨initHeap 16, 0⟩ sampleHistory q ∧
      extractAll q.size q = [⟨2, 5⟩] := by
    refine ⟨_, .cons ⟨by decide, rfl⟩ <| .cons ⟨by decide, rfl⟩ <| .cons ⟨by decide, rfl⟩ <|
      .cons ⟨trivial, rfl⟩ <| .cons ⟨trivial, rfl⟩ <| .cons ⟨trivial, rfl⟩ <|
      .cons ⟨by decide, rfl⟩ <| .nil _, ?_⟩
    decide
  exact ⟨q, run, (queue_refines_bag 16 run).1, drained⟩

end Xv6
