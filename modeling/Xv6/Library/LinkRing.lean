import Mathlib

/-!
Circular singly linked lists.

`Threaded next xs e` says that each node of `xs` leads to the one after it and the last one to `e`. A
list threaded back to its first node is a ring; it may be entered at any node, and a search from there
sees every node.
-/

namespace LinkRing

open List

variable {ι : Type*} {next next' : ι → ι} {xs ys : List ι} {x e : ι} {start : ι} {stop : ι → Bool}
  {n : Nat}

def Threaded (next : ι → ι) : List ι → ι → Prop
  | [], _ => True
  | x :: xs, e => next x = xs.headD e ∧ Threaded next xs e

theorem headD_append (xs ys : List ι) (e : ι) : (xs ++ ys).headD e = xs.headD (ys.headD e) := by
  cases xs <;> rfl

theorem threaded_append :
    Threaded next (xs ++ ys) e ↔ Threaded next xs (ys.headD e) ∧ Threaded next ys e := by
  induction xs with
  | nil => simp [Threaded]
  | cons x xs ih => simp only [cons_append, Threaded, headD_append, ih, and_assoc]

theorem Threaded.congr (threaded : Threaded next xs e) (same : ∀ x ∈ xs, next' x = next x) :
    Threaded next' xs e := by
  induction xs with
  | nil => trivial
  | cons x xs ih =>
    refine ⟨(same x (mem_cons_self ..)).trans threaded.1, ih threaded.2 fun y inside => ?_⟩
    exact same y (mem_cons_of_mem x inside)

/-- A ring may be entered at each of its nodes. -/
theorem Threaded.enter (ring : Threaded next (x :: xs) x) (inside : start ∈ x :: xs) :
    ∃ ys, Threaded next (start :: ys) start ∧ (start :: ys).Perm (x :: xs) := by
  obtain ⟨front, back, split⟩ := append_of_mem inside
  have isHead : front.headD start = x := by
    have same := congrArg (List.headD · start) split
    rw [headD_append] at same
    exact same.symm
  refine ⟨back ++ front, ?_, ?_⟩
  · rw [split, ← isHead] at ring
    obtain ⟨before, after⟩ := threaded_append.mp ring
    exact threaded_append.mpr ⟨after, before⟩
  · rw [split, ← cons_append]
    exact perm_append_comm

/-- A loop along the links that ends at the first node with `stop`. -/
def seek (next : ι → ι) (stop : ι → Bool) : Nat → ι → Option ι
  | 0, _ => none
  | n + 1, x => if stop x then some x else seek next stop n (next x)

theorem seek_succ {y : ι} (found : seek next stop n x = some y) :
    seek next stop (n + 1) x = some y := by
  induction n generalizing x with
  | zero => cases found
  | succ n ih =>
    rw [seek] at found ⊢
    split
    · rename_i stops
      rwa [if_pos stops] at found
    · rename_i goes
      rw [if_neg goes] at found
      exact ih found

theorem seek_threaded (threaded : Threaded next xs e) (stops : ∃ x ∈ xs, stop x = true)
    (enough : xs.length ≤ n) :
    ∃ x ∈ xs, stop x = true ∧ seek next stop n (xs.headD e) = some x := by
  induction xs generalizing n with
  | nil =>
    obtain ⟨x, inside, -⟩ := stops
    cases inside
  | cons y ys ih =>
    obtain ⟨n, rfl⟩ : ∃ m, n = m + 1 := ⟨n - 1, by simp at enough; omega⟩
    change ∃ x ∈ y :: ys, stop x = true ∧ seek next stop (n + 1) y = some x
    rw [seek]
    by_cases here : stop y = true
    · exact ⟨y, mem_cons_self .., here, if_pos here⟩
    · obtain ⟨x, inside, there⟩ := stops
      have later : x ∈ ys := (mem_cons.mp inside).resolve_left fun same => here (same ▸ there)
      obtain ⟨z, inside, there, found⟩ := ih threaded.2 ⟨x, later, there⟩ (by simpa using enough)
      refine ⟨z, mem_cons_of_mem y inside, there, ?_⟩
      rw [if_neg here, threaded.1]
      exact found

/-- A search in a ring finds a node, wherever it is started. -/
theorem seek_ring (ring : Threaded next (x :: xs) x) (inside : start ∈ x :: xs)
    (stops : ∃ y ∈ x :: xs, stop y = true) (enough : xs.length < n) :
    ∃ y ∈ x :: xs, stop y = true ∧ seek next stop n start = some y := by
  obtain ⟨ys, entered, perm⟩ := ring.enter inside
  have length := perm.length_eq
  obtain ⟨y, isStop, there⟩ := stops
  obtain ⟨z, isNode, there, found⟩ := seek_threaded entered ⟨y, perm.mem_iff.mpr isStop, there⟩ (n := n)
    (by simp at length ⊢; omega)
  exact ⟨z, perm.mem_iff.mp isNode, there, found⟩

end LinkRing
