import Xv6.Library.HeapOrder

/-!
The replacement queue: `priorityQueue.c`.

A queue is an array of fixed length together with the number of live entries at
its front. Entries behind the live part are stale but stay readable, since the
source copies and scans them. Insertion and deletion rebuild the whole heap, so
their results do not depend on the order they find; only `extractMin` does.
-/

namespace Xv6

open HeapOrder

/-- `struct heap_p`. -/
structure HeapP where
  index : Int
  priority : UInt32
  deriving DecidableEq, Repr

/-- `{-1, -1}`: what `initHeap` stores and a failed search returns. -/
def HeapP.clean : HeapP := ⟨-1, 0xFFFFFFFF⟩

/-- An array of queue entries with the value behind its size pointer. -/
structure PrioQueue where
  array : List HeapP
  size : Nat
  deriving DecidableEq, Repr

def entryAt (array : List HeapP) (i : Nat) : HeapP := array.getD i .clean

def swapHeapNode (array : List HeapP) (a b : Nat) : List HeapP :=
  (array.set a (entryAt array b)).set b (entryAt array a)

def peekHeap (array : List HeapP) : HeapP := entryAt array 0

/-- The position `heapify` calls `smallest`: `i` or the child to descend to. -/
def smallestOf (array : List HeapP) (size i : Nat) : Nat :=
  let l := 2 * i + 1
  let r := 2 * i + 2
  let smallest :=
    if l < size ∧ (entryAt array l).priority < (entryAt array i).priority then l else i
  if r < size ∧ (entryAt array r).priority < (entryAt array smallest).priority then r
  else smallest

def heapifyWith : Nat → List HeapP → Nat → Nat → List HeapP
  | 0, array, _, _ => array
  | fuel + 1, array, size, i =>
    if size = 1 then array
    else if smallestOf array size i ≠ i then
      heapifyWith fuel (swapHeapNode array i (smallestOf array size i)) size
        (smallestOf array size i)
    else array

/-- The recursion of the source descends at most once per position. -/
def heapify (array : List HeapP) (size i : Nat) : List HeapP :=
  heapifyWith size array size i

/-- `for (i = n - 1; i >= 0; i--) heapify(array, size, i)`. -/
def rebuild (array : List HeapP) (size : Nat) : Nat → List HeapP
  | 0 => array
  | n + 1 => rebuild (heapify array size n) size n

def insertHeap (q : PrioQueue) (newHeap : HeapP) : PrioQueue :=
  if q.size = 0 then ⟨q.array.set 0 newHeap, 1⟩
  else
    let size := q.size + 1
    ⟨rebuild (q.array.set q.size newHeap) size (size / 2), size⟩

/-- The loop of `deleteRoot` that looks for the first live entry of an index. -/
def findEntry (q : PrioQueue) (index : Int) : Option Nat :=
  (List.range q.size).find? (fun i => (entryAt q.array i).index = index)

def deleteRoot (q : PrioQueue) (index : Int) : HeapP × PrioQueue :=
  match findEntry q index with
  | none => (.clean, q)
  | some i =>
    let size := q.size - 1
    (entryAt q.array i, ⟨rebuild (swapHeapNode q.array i size) size (size / 2), size⟩)

def extractMin (q : PrioQueue) : HeapP × PrioQueue :=
  if q.size = 1 then (entryAt q.array 0, ⟨q.array, 0⟩)
  else
    let size := q.size - 1
    (entryAt q.array 0, ⟨heapify (q.array.set 0 (entryAt q.array size)) size 0, size⟩)

def initHeap (size : Nat) : List HeapP := List.replicate size .clean

def findInHeap (q : PrioQueue) (pageNum : Int) : HeapP × PrioQueue :=
  let found := deleteRoot q pageNum
  if found.1.index ≠ -1 then (found.1, insertHeap found.2 found.1) else found

/-- One turn of the scan; the running maximum is a signed `int`, which the
comparison converts back to unsigned. -/
def maxStep (array : List HeapP) (best : Int32 × Nat) (i : Nat) : Int32 × Nat :=
  if best.1.toUInt32 < (entryAt array i).priority then
    ((entryAt array i).priority.toInt32, i)
  else best

def findMaxElementIndex (array : List HeapP) (size : Nat) : Nat :=
  ((List.range' (1 + size / 2) (size - (1 + size / 2))).foldl (maxStep array)
    ((entryAt array (size / 2)).priority.toInt32, size / 2)).2

/-- The live entries in array order. -/
def PrioQueue.live (q : PrioQueue) : List HeapP := (List.range q.size).map (entryAt q.array)

def prioAt (array : List HeapP) (i : Nat) : Nat := (entryAt array i).priority.toNat

def PrioQueue.IsHeap (q : PrioQueue) : Prop := OrderedFrom (prioAt q.array) q.size 0

instance (q : PrioQueue) : Decidable q.IsHeap :=
  decidable_of_iff (∀ c < q.size, 0 < c → prioAt q.array ((c - 1) / 2) ≤ prioAt q.array c)
    orderedFrom_zero_iff.symm

/-- The live part lies inside the array. -/
def PrioQueue.Fits (q : PrioQueue) : Prop := q.size ≤ q.array.length

/-- `b` is `a` with its first `n` entries permuted and nothing else changed. -/
structure Rearranged (n : Nat) (a b : List HeapP) : Prop where
  length : b.length = a.length
  perm : ((List.range n).map (entryAt b)).Perm ((List.range n).map (entryAt a))
  beyond : ∀ k, n ≤ k → entryAt b k = entryAt a k

theorem Rearranged.refl (n : Nat) (a : List HeapP) : Rearranged n a a :=
  ⟨rfl, List.Perm.refl _, fun _ _ => rfl⟩

theorem Rearranged.trans {n : Nat} {a b c : List HeapP} (ab : Rearranged n a b)
    (bc : Rearranged n b c) : Rearranged n a c :=
  ⟨bc.length.trans ab.length, bc.perm.trans ab.perm,
    fun k hk => (bc.beyond k hk).trans (ab.beyond k hk)⟩

section

variable (array : List HeapP)
include array

theorem entryAt_set (i k : Nat) (e : HeapP) (hi : i < array.length) :
    entryAt (array.set i e) k = if k = i then e else entryAt array k := by
  unfold entryAt
  by_cases h : k = i
  · subst h
    simp [List.getD_eq_getElem?_getD, hi]
  · simp [List.getD_eq_getElem?_getD, h, Ne.symm h]

theorem entryAt_swapHeapNode {a b : Nat} (ha : a < array.length) (hb : b < array.length) :
    entryAt (swapHeapNode array a b) = swapAt (entryAt array) a b := by
  funext k
  simp only [swapHeapNode, swapAt]
  rw [entryAt_set _ _ _ _ (by simpa using hb), entryAt_set _ _ _ _ ha]

theorem swapHeapNode_rearranged {n a b : Nat} (hn : n ≤ array.length)
    (ha : a < n) (hb : b < n) : Rearranged n array (swapHeapNode array a b) where
  length := by simp [swapHeapNode]
  perm := by
    rw [entryAt_swapHeapNode array (by omega) (by omega)]
    exact range_map_swapAt_perm _ ha hb
  beyond k hk := by
    rw [entryAt_swapHeapNode array (by omega) (by omega)]
    exact swapAt_other _ (by omega) (by omega)

theorem smallestOf_cases (size i : Nat) :
    smallestOf array size i = i ∨
      (IsChild i (smallestOf array size i) ∧ smallestOf array size i < size) := by
  unfold smallestOf IsChild
  dsimp only
  split_ifs <;> simp_all

/-- The chosen position holds the least priority of the node and its children. -/
theorem smallestOf_least (size i : Nat) :
    prioAt array (smallestOf array size i) ≤ prioAt array i ∧
      ∀ c, IsChild i c → c < size →
        prioAt array (smallestOf array size i) ≤ prioAt array c := by
  unfold smallestOf IsChild prioAt
  simp only [UInt32.lt_iff_toNat_lt]
  refine ⟨by split_ifs <;> omega, ?_⟩
  rintro c (rfl | rfl) hc
  · split_ifs <;> omega
  · split_ifs <;> omega

end

theorem heapifyWith_rearranged (fuel : Nat) (array : List HeapP) (size i : Nat)
    (fits : size ≤ array.length) : Rearranged size array (heapifyWith fuel array size i) := by
  induction fuel generalizing array i with
  | zero => exact Rearranged.refl _ _
  | succ fuel ih =>
    unfold heapifyWith
    split
    · exact Rearranged.refl _ _
    · split
      · rename_i moved
        rcases smallestOf_cases array size i with same | ⟨child, bound⟩
        · exact absurd same moved
        · have step := swapHeapNode_rearranged array fits (lt_trans child.lt bound) bound
          exact step.trans (ih _ _ (by simpa [swapHeapNode] using fits))
      · exact Rearranged.refl _ _

theorem heapify_rearranged (array : List HeapP) (size i : Nat) (fits : size ≤ array.length) :
    Rearranged size array (heapify array size i) :=
  heapifyWith_rearranged size array size i fits

/-- Sifting down from `hole` orders every edge from `lo` on, whatever lies
before `lo`. The fuel covers the positions still below the hole. -/
theorem heapifyWith_ordered (fuel : Nat) (array : List HeapP) (size lo hole : Nat)
    (fits : size ≤ array.length) (hlo : lo ≤ hole) (enough : size ≤ hole + fuel)
    (s : Sifting (prioAt array) size lo hole) :
    OrderedFrom (prioAt (heapifyWith fuel array size hole)) size lo := by
  induction fuel generalizing array hole with
  | zero =>
    apply s.finish
    intro c hc hn
    have := hc.lt
    omega
  | succ fuel ih =>
    have least := smallestOf_least array size hole
    unfold heapifyWith
    split
    · rename_i one
      apply s.finish
      intro c hc hn
      have := hc.lt
      omega
    · split
      · rename_i moved
        rcases smallestOf_cases array size hole with same | ⟨child, bound⟩
        · exact absurd same moved
        · have hlt := child.lt
          apply ih _ _ (by simpa [swapHeapNode] using fits) (by omega) (by omega)
          have view : prioAt (swapHeapNode array hole (smallestOf array size hole)) =
              swapAt (prioAt array) hole (smallestOf array size hole) := by
            have key := entryAt_swapHeapNode array (a := hole)
              (b := smallestOf array size hole) (by omega) (by omega)
            unfold prioAt
            rw [key]
            exact swapAt_comp (fun e : HeapP => e.priority.toNat) _ _ _
          rw [view]
          exact s.descend hlo child bound least.1 least.2
      · rename_i stays
        have stays := not_not.mp stays
        apply s.finish
        intro c hc hn
        have := least.2 c hc hn
        rwa [stays] at this

theorem heapify_ordered (array : List HeapP) (size i : Nat) (fits : size ≤ array.length)
    (h : OrderedFrom (prioAt array) size (i + 1)) :
    OrderedFrom (prioAt (heapify array size i)) size i :=
  heapifyWith_ordered size array size i i fits (le_refl _) (by omega) (sifting_start h)

theorem rebuild_rearranged (array : List HeapP) (size n : Nat) (fits : size ≤ array.length) :
    Rearranged size array (rebuild array size n) := by
  induction n generalizing array with
  | zero => exact Rearranged.refl _ _
  | succ n ih =>
    have step := heapify_rearranged array size n fits
    exact step.trans (ih _ (by rw [step.length]; exact fits))

/-- The bottom-up loop turns any array into a heap. -/
theorem rebuild_ordered (array : List HeapP) (size n : Nat) (fits : size ≤ array.length)
    (h : OrderedFrom (prioAt array) size n) :
    OrderedFrom (prioAt (rebuild array size n)) size 0 := by
  induction n generalizing array with
  | zero => exact h
  | succ n ih =>
    apply ih _ (by rw [(heapify_rearranged array size n fits).length]; exact fits)
    exact heapify_ordered array size n fits h

theorem rebuild_isHeap (array : List HeapP) (size : Nat) (fits : size ≤ array.length) :
    OrderedFrom (prioAt (rebuild array size (size / 2))) size 0 :=
  rebuild_ordered array size (size / 2) fits (orderedFrom_half _ _)

/-- What `insertHeap` does to a queue with room, ordered or not. -/
structure Inserted (q : PrioQueue) (e : HeapP) (q' : PrioQueue) : Prop where
  size : q'.size = q.size + 1
  length : q'.array.length = q.array.length
  live : q'.live.Perm (e :: q.live)
  isHeap : q'.IsHeap
  beyond : ∀ k, q.size < k → entryAt q'.array k = entryAt q.array k

theorem live_append_set (q : PrioQueue) (e : HeapP) (room : q.size < q.array.length) :
    ((List.range (q.size + 1)).map (entryAt (q.array.set q.size e))).Perm (e :: q.live) := by
  rw [List.range_succ, List.map_append, List.map_singleton]
  have front : (List.range q.size).map (entryAt (q.array.set q.size e)) = q.live := by
    apply List.map_congr_left
    intro k hk
    have := List.mem_range.mp hk
    rw [entryAt_set _ _ _ _ room, if_neg (by omega)]
  rw [front, entryAt_set _ _ _ _ room, if_pos rfl]
  exact List.perm_append_singleton e q.live

theorem insertHeap_inserted (q : PrioQueue) (e : HeapP) (room : q.size < q.array.length) :
    Inserted q e (insertHeap q e) := by
  unfold insertHeap
  split
  · rename_i empty
    refine ⟨by simp [empty], by simp, ?_, ?_, ?_⟩
    · have := live_append_set q e room
      simpa [PrioQueue.live, empty] using this
    · intro p c _ hc hn
      have := hc.lt
      simp only at hn
      omega
    · intro k hk
      rw [entryAt_set _ _ _ _ (by omega), if_neg (by omega)]
  · have fits : q.size + 1 ≤ (q.array.set q.size e).length := by
      rw [List.length_set]
      exact room
    have moved := rebuild_rearranged (q.array.set q.size e) (q.size + 1) ((q.size + 1) / 2) fits
    refine ⟨rfl, ?_, moved.perm.trans (live_append_set q e room), rebuild_isHeap _ _ fits, ?_⟩
    · simpa using moved.length
    · intro k hk
      rw [moved.beyond k (by omega), entryAt_set _ _ _ _ room, if_neg (by omega)]

/-- What `deleteRoot` does to a queue that holds an entry of the index. -/
structure Deleted (q : PrioQueue) (e : HeapP) (q' : PrioQueue) : Prop where
  size : q'.size + 1 = q.size
  length : q'.array.length = q.array.length
  live : q.live.Perm (e :: q'.live)
  isHeap : q'.IsHeap
  vacated : entryAt q'.array q'.size = e
  beyond : ∀ k, q.size ≤ k → entryAt q'.array k = entryAt q.array k

variable {q : PrioQueue} {index : Int}

theorem findEntry_eq_none :
    findEntry q index = none ↔ ∀ e ∈ q.live, e.index ≠ index := by
  simp [findEntry, PrioQueue.live]

theorem findEntry_some {i : Nat} (h : findEntry q index = some i) :
    i < q.size ∧ (entryAt q.array i).index = index := by
  unfold findEntry at h
  exact ⟨List.mem_range.mp (List.mem_of_find?_eq_some h), by
    simpa using List.find?_some h⟩

theorem deleteRoot_absent (absent : ∀ e ∈ q.live, e.index ≠ index) :
    deleteRoot q index = (.clean, q) := by
  simp [deleteRoot, findEntry_eq_none.mpr absent]

theorem live_swap_last (q : PrioQueue) (fits : q.Fits) {i : Nat} (hi : i < q.size) :
    q.live.Perm (entryAt q.array i ::
      (List.range (q.size - 1)).map (entryAt (swapHeapNode q.array i (q.size - 1)))) := by
  have fits : q.size ≤ q.array.length := fits
  have moved := (swapHeapNode_rearranged q.array fits hi (show q.size - 1 < q.size by omega)).perm
  have split : List.range q.size = List.range (q.size - 1) ++ [q.size - 1] := by
    rw [← List.range_succ]
    congr 1
    omega
  refine moved.symm.trans ?_
  rw [split, List.map_append, List.map_singleton]
  have last : entryAt (swapHeapNode q.array i (q.size - 1)) (q.size - 1) =
      entryAt q.array i := by
    rw [entryAt_swapHeapNode q.array (by omega) (by omega)]
    exact swapAt_right _ _ _
  rw [last]
  exact List.perm_append_singleton _ _

theorem deleteRoot_deleted (q : PrioQueue) (index : Int) (fits : q.Fits)
    (present : ∃ e ∈ q.live, e.index = index) :
    (deleteRoot q index).1.index = index ∧
      Deleted q (deleteRoot q index).1 (deleteRoot q index).2 := by
  have bound : q.size ≤ q.array.length := fits
  cases found : findEntry q index with
  | none =>
    obtain ⟨e, he, same⟩ := present
    exact absurd same (findEntry_eq_none.mp found e he)
  | some i =>
    obtain ⟨hi, same⟩ := findEntry_some found
    have fits' : q.size - 1 ≤ (swapHeapNode q.array i (q.size - 1)).length := by
      simp only [swapHeapNode, List.length_set]
      omega
    have moved := rebuild_rearranged (swapHeapNode q.array i (q.size - 1)) (q.size - 1)
      ((q.size - 1) / 2) fits'
    simp only [deleteRoot, found]
    refine ⟨same, ⟨by simp only; omega, ?_, ?_, rebuild_isHeap _ _ fits', ?_, ?_⟩⟩
    · simpa [swapHeapNode] using moved.length
    · exact (live_swap_last q fits hi).trans (List.Perm.cons _ moved.perm.symm)
    · simp only
      rw [moved.beyond _ (le_refl _), entryAt_swapHeapNode q.array (by omega) (by omega)]
      exact swapAt_right _ _ _
    · intro k hk
      rw [moved.beyond k (by omega), entryAt_swapHeapNode q.array (by omega) (by omega)]
      exact swapAt_other _ (by omega) (by omega)

/-- What `extractMin` does to a nonempty queue. -/
structure Extracted (q : PrioQueue) (e : HeapP) (q' : PrioQueue) : Prop where
  size : q'.size + 1 = q.size
  length : q'.array.length = q.array.length
  live : q.live.Perm (e :: q'.live)
  root : e = peekHeap q.array
  isHeap : q.IsHeap → q'.IsHeap

theorem extractMin_extracted (q : PrioQueue) (fits : q.Fits) (nonempty : 0 < q.size) :
    Extracted q (extractMin q).1 (extractMin q).2 := by
  have bound : q.size ≤ q.array.length := fits
  unfold extractMin
  split
  · rename_i one
    refine ⟨by simp [one], rfl, ?_, rfl, ?_⟩
    · simp [PrioQueue.live, one]
    · intro _ p c _ _ hn
      simp at hn
  · rename_i many
    have fits' : q.size - 1 ≤ (q.array.set 0 (entryAt q.array (q.size - 1))).length := by
      simp only [List.length_set]
      omega
    have moved := heapify_rearranged (q.array.set 0 (entryAt q.array (q.size - 1)))
      (q.size - 1) 0 fits'
    -- Below the last position, copying it over the root and swapping it with
    -- the root are the same.
    have agree : ∀ k, k < q.size - 1 →
        entryAt (q.array.set 0 (entryAt q.array (q.size - 1))) k =
          entryAt (swapHeapNode q.array 0 (q.size - 1)) k := by
      intro k hk
      rw [entryAt_set _ _ _ _ (by omega),
        entryAt_swapHeapNode q.array (by omega) (by omega)]
      simp only [swapAt]
      rw [if_neg (show k ≠ q.size - 1 by omega)]
    refine ⟨by simp only; omega, by simpa using moved.length, ?_, rfl, ?_⟩
    · refine (live_swap_last q fits (i := 0) (by omega)).trans (List.Perm.cons _ ?_)
      refine List.Perm.trans ?_ moved.perm.symm
      rw [List.map_congr_left (fun k hk => (agree k (List.mem_range.mp hk)).symm)]
    · intro heap
      apply heapify_ordered _ _ _ fits'
      intro p c hp hc hn
      have := hc.lt
      unfold prioAt
      rw [entryAt_set _ _ _ _ (by omega), entryAt_set _ _ _ _ (by omega),
        if_neg (by omega), if_neg (by omega)]
      exact heap p c (by omega) hc (by omega)

theorem peekHeap_le (heap : q.IsHeap) {e : HeapP} (he : e ∈ q.live) :
    (peekHeap q.array).priority.toNat ≤ e.priority.toNat := by
  obtain ⟨i, hi, rfl⟩ := List.mem_map.mp he
  exact root_le heap i (List.mem_range.mp hi)

theorem peekHeap_mem (nonempty : 0 < q.size) : peekHeap q.array ∈ q.live :=
  List.mem_map.mpr ⟨0, List.mem_range.mpr nonempty, rfl⟩

theorem length_live (q : PrioQueue) : q.live.length = q.size := by
  simp [PrioQueue.live]

/-- Insertion and deletion leave a heap whatever order they find. -/
theorem queue_reordered (q : PrioQueue) :
    (∀ e, q.size < q.array.length → Inserted q e (insertHeap q e)) ∧
      ∀ index, q.Fits → (∃ e ∈ q.live, e.index = index) →
        (deleteRoot q index).1.index = index ∧
          Deleted q (deleteRoot q index).1 (deleteRoot q index).2 :=
  ⟨insertHeap_inserted q, deleteRoot_deleted q⟩

/-- Three entries out of order and a stale one. -/
theorem queue_reordered_descending :
    ¬ PrioQueue.IsHeap ⟨[⟨0, 9⟩, ⟨1, 5⟩, ⟨2, 3⟩, ⟨7, 1⟩], 3⟩ ∧
      Inserted ⟨[⟨0, 9⟩, ⟨1, 5⟩, ⟨2, 3⟩, ⟨7, 1⟩], 3⟩ ⟨3, 4⟩
        ⟨[⟨2, 3⟩, ⟨3, 4⟩, ⟨0, 9⟩, ⟨1, 5⟩], 4⟩ ∧
      Deleted ⟨[⟨0, 9⟩, ⟨1, 5⟩, ⟨2, 3⟩, ⟨7, 1⟩], 3⟩ ⟨1, 5⟩
        ⟨[⟨2, 3⟩, ⟨0, 9⟩, ⟨1, 5⟩, ⟨7, 1⟩], 2⟩ := by
  have repaired := queue_reordered ⟨[⟨0, 9⟩, ⟨1, 5⟩, ⟨2, 3⟩, ⟨7, 1⟩], 3⟩
  exact ⟨by decide, repaired.1 ⟨3, 4⟩ (by decide),
    (repaired.2 1 (show 3 ≤ 4 by decide) ⟨⟨1, 5⟩, by decide, rfl⟩).2⟩

end Xv6
