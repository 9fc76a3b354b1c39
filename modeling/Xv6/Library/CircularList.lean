import Mathlib

/-!
Circular doubly linked lists with a head node.

A node is the head, `none`, or an element. The links are two maps on nodes, changed by single
assignments. `Segment` says which elements lie between two nodes; a circular list is a segment
from the head to the head without repetitions.
-/

namespace CircularList

open Function List

variable {ι : Type*}

structure Links (ι : Type*) where
  next : Option ι → Option ι
  prev : Option ι → Option ι

/-- Following `step` from a node visits the elements and ends at the head. -/
def Path (step : Option ι → Option ι) : Option ι → List ι → Prop
  | a, [] => step a = none
  | a, x :: xs => step a = some x ∧ Path step (some x) xs

/-- The result of a loop over the list. -/
inductive Scan (ι : Type*) where
  | found (x : ι)
  | absent
  | endless

/-- A loop that stops at the head or at the first element that passes the test. -/
def scan (step : Option ι → Option ι) (test : ι → Bool) : Nat → Option ι → Scan ι
  | _, none => .absent
  | 0, some _ => .endless
  | n + 1, some x => if test x then .found x else scan step test n (step (some x))

variable {xs : List ι} {k : Links ι} {a c : Option ι} {ys : List ι} {x : ι}

theorem scan_path {step : Option ι → Option ι} {test : ι → Bool} (path : Path step a xs) {n : Nat}
    (enough : xs.length ≤ n) :
    scan step test n (step a) = (xs.find? test).elim .absent .found := by
  induction xs generalizing a n with
  | nil =>
    rw [show step a = none from path]
    cases n <;> rfl
  | cons x xs ih =>
    obtain ⟨first, rest⟩ := path
    obtain ⟨n, rfl⟩ : ∃ m, n = m + 1 := ⟨n - 1, by simp at enough; omega⟩
    rw [first, scan]
    by_cases passes : test x
    · rw [if_pos passes, find?_cons_of_pos passes]
      rfl
    · rw [if_neg passes, find?_cons_of_neg passes]
      exact ih rest (by simpa using enough)

/-- The elements strictly between two nodes. -/
def Segment (k : Links ι) : Option ι → List ι → Option ι → Prop
  | a, [], c => k.next a = c ∧ k.prev c = a
  | a, x :: xs, c => (k.next a = some x ∧ k.prev (some x) = a) ∧ Segment k (some x) xs c

theorem segment_append :
    Segment k a (xs ++ x :: ys) c ↔ Segment k a xs (some x) ∧ Segment k (some x) ys c := by
  induction xs generalizing a with
  | nil => exact Iff.rfl
  | cons y xs ih => simp only [cons_append, Segment, ih, and_assoc]

theorem Segment.congr {k' : Links ι} (seg : Segment k a xs c)
    (next : ∀ n ∈ a :: xs.map some, k'.next n = k.next n)
    (prev : ∀ n ∈ c :: xs.map some, k'.prev n = k.prev n) : Segment k' a xs c := by
  induction xs generalizing a with
  | nil => exact ⟨(next a (by simp)).trans seg.1, (prev c (by simp)).trans seg.2⟩
  | cons x xs ih =>
    refine ⟨⟨(next a (by simp)).trans seg.1.1, (prev (some x) (by simp)).trans seg.1.2⟩, ?_⟩
    refine ih seg.2 (fun n inside => next n ?_) fun n inside => prev n ?_
    · exact mem_cons_of_mem _ inside
    · simp only [map_cons, mem_cons] at inside ⊢
      tauto

theorem Segment.prev_mem (seg : Segment k a xs c) :
    k.prev c ∈ a :: xs.map some := by
  induction xs generalizing a with
  | nil => simp [seg.2]
  | cons x xs ih => exact mem_cons_of_mem _ (ih seg.2)

theorem Segment.path_next (seg : Segment k a xs none) :
    Path k.next a xs := by
  induction xs generalizing a with
  | nil => exact seg.1
  | cons x xs ih => exact ⟨seg.1.1, ih seg.2⟩

theorem Segment.path_prev (seg : Segment k none xs c) :
    Path k.prev c xs.reverse := by
  induction xs using List.reverseRecOn generalizing c with
  | nil => exact seg.2
  | append_singleton xs x ih =>
    obtain ⟨front, last⟩ := segment_append.mp seg
    rw [reverse_append]
    exact ⟨last.2, ih front⟩

variable [DecidableEq ι]

namespace Links

def setNext (k : Links ι) (a c : Option ι) : Links ι :=
  { k with next := Function.update k.next a c }

def setPrev (k : Links ι) (c a : Option ι) : Links ι :=
  { k with prev := Function.update k.prev c a }

def unlink (k : Links ι) (x : ι) : Links ι :=
  let k := k.setPrev (k.next (some x)) (k.prev (some x))
  k.setNext (k.prev (some x)) (k.next (some x))

def pushFront (k : Links ι) (x : ι) : Links ι :=
  let k := k.setNext (some x) (k.next none)
  let k := k.setPrev (some x) none
  let k := k.setPrev (k.next none) (some x)
  k.setNext none (some x)

end Links

/-- The circular list has these elements. -/
structure Holds (k : Links ι) (xs : List ι) : Prop where
  segment : Segment k none xs none
  nodup : xs.Nodup

omit [DecidableEq ι] in
theorem some_notMem (fresh : x ∉ xs) : some x ∉ xs.map some := by
  simpa using fresh

/-- The last link of a segment led to another node. -/
theorem Segment.relink {b : Option ι} (seg : Segment k a xs b) (nodup : (a :: xs.map some).Nodup)
    (fresh : c ∉ xs.map some) :
    Segment ((k.setPrev c (k.prev b)).setNext (k.prev b) c) a xs c := by
  induction xs generalizing a with
  | nil =>
    rw [seg.2]
    exact ⟨update_self .., update_self ..⟩
  | cons x xs ih =>
    have later := seg.2.prev_mem
    have apart : a ≠ k.prev b := by
      rintro rfl
      exact (nodup_cons.mp nodup).1 later
    have other : some x ≠ c := by
      rintro rfl
      simp at fresh
    refine ⟨⟨?_, ?_⟩, ih seg.2 (nodup_cons.mp nodup).2 fun inside => fresh ?_⟩
    · exact (update_of_ne apart ..).trans seg.1.1
    · exact (update_of_ne other ..).trans seg.1.2
    · exact mem_cons_of_mem _ inside

theorem unlink_eq (apart : some x ≠ k.next (some x)) :
    k.unlink x =
      (k.setPrev (k.next (some x)) (k.prev (some x))).setNext (k.prev (some x)) (k.next (some x)) := by
  have same : (k.setPrev (k.next (some x)) (k.prev (some x))).prev (some x) = k.prev (some x) :=
    update_of_ne apart ..
  simp only [Links.unlink, same]
  rfl

theorem Holds.unlink (holds : Holds k (xs ++ x :: ys)) :
    Holds (k.unlink x) (xs ++ ys) := by
  obtain ⟨front, back⟩ := segment_append.mp holds.segment
  obtain ⟨nodupX, nodupY, apart⟩ := nodup_append.mp holds.nodup
  have nodup : (none :: xs.map some).Nodup := by
    simpa using nodupX.map fun _ _ => Option.some.inj
  refine ⟨?_, holds.nodup.sublist (by simp)⟩
  cases ys with
  | nil =>
    have last : k.next (some x) = none := back.1
    rw [unlink_eq (by simp [last]), last, append_nil]
    exact front.relink nodup (by simp)
  | cons y ys =>
    obtain ⟨⟨after, -⟩, rest⟩ := back
    have freshY : y ∉ xs := fun inside => apart y inside y (by simp) rfl
    have notY : y ∉ ys := (nodup_cons.mp (nodup_cons.mp nodupY).2).1
    have notX : x ≠ y := fun same => (nodup_cons.mp nodupY).1 (by simp [same])
    rw [unlink_eq (by simpa [after] using notX), after, segment_append]
    refine ⟨front.relink nodup (by simpa using freshY), rest.congr (fun n inside => ?_)
      fun n inside => ?_⟩
    · refine update_of_ne (fun same => ?_) ..
      subst same
      have before := front.prev_mem
      rcases mem_cons.mp before with head | before
      · simp [head] at inside
      · obtain ⟨z, inX, same⟩ := mem_map.mp before
        rw [← same, ← map_cons, mem_map] at inside
        obtain ⟨z', inY, same'⟩ := inside
        cases same'
        exact apart z inX z (mem_cons_of_mem _ inY) rfl
    · refine update_of_ne (fun same => ?_) ..
      subst same
      simp [notY] at inside

theorem Holds.pushFront (holds : Holds k xs) (fresh : x ∉ xs) :
    Holds (k.pushFront x) (x :: xs) := by
  refine ⟨?_, nodup_cons.mpr ⟨fresh, holds.nodup⟩⟩
  have seg := holds.segment
  have notFirst : k.next none ≠ some x := by
    intro same
    cases xs with
    | nil => cases seg.1.symm.trans same
    | cons y ys =>
      cases seg.1.1.symm.trans same
      simp at fresh
  have next : (k.pushFront x).next =
      update (update k.next (some x) (k.next none)) none (some x) := rfl
  have prev : (k.pushFront x).prev =
      update (update k.prev (some x) none) (k.next none) (some x) := by
    simp only [Links.pushFront, Links.setNext, Links.setPrev]
    rw [update_of_ne (by simp)]
  have start : (k.pushFront x).next none = some x ∧ (k.pushFront x).prev (some x) = none := by
    rw [next, prev, update_self, update_of_ne notFirst.symm, update_self]
    exact ⟨rfl, rfl⟩
  have second : (k.pushFront x).next (some x) = k.next none := by
    rw [next, update_of_ne (by simp), update_self]
  refine ⟨start, ?_⟩
  cases xs with
  | nil =>
    refine ⟨second.trans seg.1, ?_⟩
    rw [prev, seg.1, update_self]
  | cons y ys =>
    obtain ⟨⟨first, -⟩, rest⟩ := seg
    refine ⟨⟨second.trans first, ?_⟩, rest.congr (fun n inside => ?_) fun n inside => ?_⟩
    · rw [prev, first, update_self]
    · have notX : n ≠ some x := by
        rintro rfl
        exact some_notMem fresh (by simpa using inside)
      have notHead : n ≠ none := by
        rintro rfl
        simp at inside
      rw [next, update_of_ne notHead, update_of_ne notX]
    · have notX : n ≠ some x := by
        rintro rfl
        refine some_notMem fresh (mem_cons_of_mem _ ?_)
        simpa using inside
      have notY : n ≠ k.next none := by
        rw [first]
        rintro rfl
        have := (nodup_cons.mp holds.nodup).1
        simp [this] at inside
      rw [prev, update_of_ne notY, update_of_ne notX]

theorem Holds.foldl_pushFront (holds : Holds k xs) (ys : List ι)
    (nodup : (ys.reverse ++ xs).Nodup) :
    Holds (ys.foldl Links.pushFront k) (ys.reverse ++ xs) := by
  induction ys generalizing k xs with
  | nil => exact holds
  | cons y ys ih =>
    rw [reverse_cons, append_assoc] at nodup ⊢
    have fresh : y ∉ xs := (nodup_cons.mp (nodup_append.mp nodup).2.1).1
    exact ih (holds.pushFront fresh) nodup

end CircularList
