import Mathlib

/-!
Half-open intervals of naturals that tile an interval.

The weight of a list of spans at a position is the number of spans the position lies in. Weights add up
over lists, and two spans that touch weigh as much as the span they make up. A list whose weight is 1
inside an interval and 0 outside consists of disjoint spans that cover the interval.
-/

namespace Spans

structure Span where
  lo : Nat
  hi : Nat

def Span.Apart (s t : Span) : Prop := s.hi ≤ t.lo ∨ t.hi ≤ s.lo

def weight (l : List Span) (x : Nat) : Nat := l.countP fun s => s.lo ≤ x ∧ x < s.hi

theorem weight_nil (x : Nat) : weight [] x = 0 := rfl

theorem weight_cons (s : Span) (l : List Span) (x : Nat) :
    weight (s :: l) x = weight l x + if s.lo ≤ x ∧ x < s.hi then 1 else 0 := by
  simp [weight, List.countP_cons]

theorem weight_append (l m : List Span) (x : Nat) : weight (l ++ m) x = weight l x + weight m x :=
  List.countP_append

variable {l m : List Span} {a b : Nat}

theorem weight_perm (perm : l.Perm m) (x : Nat) : weight l x = weight m x := perm.countP_eq _

/-- Two spans that touch. -/
theorem weight_join {c : Nat} (left : a ≤ b) (right : b ≤ c) (l : List Span) (x : Nat) :
    weight (⟨a, b⟩ :: ⟨b, c⟩ :: l) x = weight (⟨a, c⟩ :: l) x := by
  simp only [weight_cons]
  split <;> split <;> split <;> omega

/-- The spans of `l` tile the interval from `a` to `b`. -/
def Tiles (l : List Span) (a b : Nat) : Prop :=
  ∀ x, weight l x = if a ≤ x ∧ x < b then 1 else 0

theorem Tiles.congr (tiles : Tiles l a b) (same : ∀ x, weight m x = weight l x) : Tiles m a b :=
  fun x => (same x).trans (tiles x)

theorem Tiles.cons {c : Nat} (tiles : Tiles l a b) (le : a ≤ b) (le' : b ≤ c) :
    Tiles (⟨b, c⟩ :: l) a c := by
  intro x
  simp only [weight_cons, tiles x]
  split <;> split <;> split <;> omega

theorem Tiles.covers {x : Nat} (tiles : Tiles l a b) (lower : a ≤ x) (upper : x < b) :
    ∃ s ∈ l, s.lo ≤ x ∧ x < s.hi := by
  have one := tiles x
  rw [if_pos ⟨lower, upper⟩] at one
  have pos : 0 < weight l x := by omega
  simpa [weight, List.countP_pos_iff] using pos

theorem one_le_weight {s : Span} (inside : s ∈ l) {x : Nat} (lower : s.lo ≤ x) (upper : x < s.hi) :
    1 ≤ weight l x :=
  List.countP_pos_iff.mpr ⟨s, inside, by simp [lower, upper]⟩

theorem Tiles.inside (tiles : Tiles l a b) {s : Span} (inside : s ∈ l) (proper : s.lo < s.hi) :
    a ≤ s.lo ∧ s.hi ≤ b := by
  have first := one_le_weight inside (Nat.le_refl _) proper
  have last := one_le_weight inside (Nat.le_sub_one_of_lt proper) (by omega)
  rw [tiles] at first last
  constructor
  · by_contra below
    rw [if_neg (by omega)] at first
    omega
  · by_contra above
    rw [if_neg (by omega)] at last
    omega

theorem Tiles.apart (tiles : Tiles l a b) :
    l.Pairwise fun s t => s.lo < s.hi → t.lo < t.hi → s.Apart t := by
  have light : ∀ x, weight l x ≤ 1 := by
    intro x
    rw [tiles x]
    split <;> omega
  clear tiles
  induction l with
  | nil => exact .nil
  | cons s l ih =>
    refine .cons (fun t inside properS properT => ?_) (ih fun x => ?_)
    · by_contra meet
      unfold Span.Apart at meet
      have both := light (max s.lo t.lo)
      have other : 1 ≤ weight l (max s.lo t.lo) := one_le_weight inside (by omega) (by omega)
      rw [weight_cons, if_pos (by omega)] at both
      omega
    · have := light x
      rw [weight_cons] at this
      omega

end Spans
