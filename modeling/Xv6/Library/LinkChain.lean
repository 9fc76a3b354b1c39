import Mathlib

/-!
Lists threaded through a successor map.

A node pool stores one successor per node and a head pointer elsewhere. `Chain`
says that following successors from the head visits exactly the given nodes and
then ends. The rules below are those a stack of free nodes needs.
-/

namespace LinkChain

variable {ι : Type*} {next : ι → Option ι} {head : Option ι} {xs : List ι}

def Chain (next : ι → Option ι) : Option ι → List ι → Prop
  | head, [] => head = none
  | head, x :: xs => head = some x ∧ Chain next (next x) xs

theorem chain_congr {next' : ι → Option ι} (h : Chain next head xs)
    (same : ∀ x ∈ xs, next' x = next x) : Chain next' head xs := by
  induction xs generalizing head with
  | nil => exact h
  | cons x xs ih =>
    refine ⟨h.1, ?_⟩
    rw [same x (List.mem_cons_self ..)]
    exact ih h.2 (fun y hy => same y (List.mem_cons_of_mem x hy))

theorem chain_update [DecidableEq ι] (h : Chain next head xs) {x : ι} (fresh : x ∉ xs)
    (value : Option ι) :
    Chain (Function.update next x value) head xs := by
  apply chain_congr h
  intro y hy
  apply Function.update_of_ne
  rintro rfl
  exact fresh hy

/-- Pushing a node that is not on the chain. -/
theorem chain_push [DecidableEq ι] (h : Chain next head xs) {x : ι} (fresh : x ∉ xs) :
    Chain (Function.update next x head) (some x) (x :: xs) := by
  refine ⟨rfl, ?_⟩
  rw [Function.update_self]
  exact chain_update h fresh head

/-- Nodes in consecutive positions, each leading to the next one. -/
theorem chain_range' {next : Nat → Option Nat} {a : Nat} (n : Nat)
    (links : ∀ x, a ≤ x → x + 1 < a + n → next x = some (x + 1))
    (last : 0 < n → next (a + n - 1) = none) :
    Chain next (if n = 0 then none else some a) (List.range' a n) := by
  induction n generalizing a with
  | zero => rfl
  | succ n ih =>
    refine ⟨rfl, ?_⟩
    by_cases one : n = 0
    · subst one
      exact last (Nat.succ_pos 0)
    · rw [links a (Nat.le_refl a) (by omega)]
      have rest := ih (a := a + 1) (fun x lower upper => links x (by omega) (by omega))
        (fun _ => by
          rw [show a + 1 + n - 1 = a + (n + 1) - 1 by omega]
          exact last (Nat.succ_pos n))
      rwa [if_neg one] at rest

end LinkChain
