import Mathlib

/-!
Runs of labelled transition systems.

A run carries the list of its labels. An invariant kept by every step holds at the
end of a run, and a simulation of steps extends to runs with the same labels.
-/

namespace Lts

variable {S T A : Type*}

inductive Run (step : S → A → S → Prop) : S → List A → S → Prop
  | nil (s : S) : Run step s [] s
  | snoc {s s' s'' : S} {as : List A} {a : A} (run : Run step s as s') (last : step s' a s'') :
      Run step s (as ++ [a]) s''

variable {step : S → A → S → Prop} {s s' : S} {as : List A} {ε : Type}

variable {s'' : S} {a : A}

theorem Run.cons (first : step s a s') (run : Run step s' as s'') : Run step s (a :: as) s'' := by
  induction run with
  | nil => exact .snoc (.nil s) first
  | snoc _ last ih => exact .snoc ih last

theorem Run.invariant {I : S → Prop} (keeps : ∀ s a s', I s → step s a s' → I s')
    (run : Run step s as s') (start : I s) : I s' := by
  induction run with
  | nil => exact start
  | snoc _ last ih => exact keeps _ _ _ ih last

theorem Run.mono {step' : S → A → S → Prop} (run : Run step s as s')
    (stronger : ∀ a ∈ as, ∀ s s', step s a s' → step' s a s') :
    Run step' s as s' := by
  induction run with
  | nil => exact .nil _
  | snoc _ last ih =>
    refine .snoc (ih fun a inside => stronger a (List.mem_append_left _ inside)) ?_
    exact stronger _ (List.mem_append_right _ (List.mem_singleton_self _)) _ _ last

/-- A relation kept by matching steps lifts every run to one with the same labels. -/
theorem Run.simulate {step' : T → A → T → Prop} {R : S → T → Prop}
    (matches' : ∀ s t a s', R s t → step s a s' → ∃ t', step' t a t' ∧ R s' t') {t : T}
    (run : Run step s as s') (start : R s t) :
    ∃ t', Run step' t as t' ∧ R s' t' := by
  induction run with
  | nil => exact ⟨t, .nil t, start⟩
  | snoc _ last ih =>
    obtain ⟨t₁, run', related⟩ := ih
    obtain ⟨t₂, last', related'⟩ := matches' _ _ _ _ related last
    exact ⟨t₂, .snoc run' last', related'⟩

/-- Steps that are functions of state and label make runs functions of the labels. -/
theorem Run.deterministic (unique : ∀ s a s' s'', step s a s' → step s a s'' → s' = s'')
    (run : Run step s as s') (run' : Run step s as s'') : s' = s'' := by
  induction run generalizing s'' with
  | nil =>
    generalize empty : ([] : List A) = as at run'
    cases run' with
    | nil => rfl
    | snoc => simp at empty
  | @snoc s₁ s₂ as a run last ih =>
    generalize same : as ++ [a] = bs at run'
    cases run' with
    | nil => simp at same
    | @snoc t₁ _ bs b run' last' =>
      obtain ⟨rfl, same⟩ := List.append_inj' same rfl
      obtain rfl : a = b := by simpa using same
      obtain rfl := ih run'
      exact unique _ _ _ _ last last'

variable {f : S → A → Except ε S}

/-- Carrying out a step function along a list of labels is a run. -/
theorem Run.of_foldlM (as : List A) (run : as.foldlM f s = .ok s') :
    Run (fun s a s' => f s a = .ok s') s as s' := by
  induction as using List.reverseRecOn generalizing s' with
  | nil =>
    cases run
    exact .nil s
  | append_singleton as a ih =>
    rw [List.foldlM_append] at run
    cases first : as.foldlM f s with
    | error e =>
      rw [first] at run
      cases run
    | ok s₁ =>
      rw [first] at run
      cases last : f s₁ a with
      | error e => simp [bind, Except.bind, last] at run
      | ok s₂ =>
        obtain rfl : s₂ = s' := by simpa [bind, Except.bind, last, pure, Except.pure] using run
        exact .snoc (ih first) last

/-- A step of a step function behind a test. -/
theorem of_guard {p : Prop} [Decidable p] {a' : A}
    (step : (if p then some (a, s) else none) = some (a', s')) : p ∧ a = a' ∧ s = s' := by
  obtain ⟨holds, same⟩ := Option.ite_none_right_eq_some.mp step
  cases same
  exact ⟨holds, rfl, rfl⟩

/-- A run found by evaluation of a step function, with a test of its last state. -/
theorem Run.of_any (as : List A) (test : S → Bool)
    (ends : (as.foldlM f s).toOption.any test = true) :
    ∃ s', Run (fun s a s' => f s a = .ok s') s as s' ∧ test s' = true := by
  cases result : as.foldlM f s with
  | error e =>
    rw [result] at ends
    cases ends
  | ok s' =>
    rw [result] at ends
    exact ⟨s', .of_foldlM as result, ends⟩

section

variable {E : Type*} [DecidableEq E] (next : S → A → Option (E × S))

/-- The state after a step that shows what it should. -/
def follow (s : S) (a : A × E) : Option S :=
  (next s a.1).bind fun r => if r.1 = a.2 then some r.2 else none

theorem follow_eq_some {s s' : S} {a : A × E} (followed : follow next s a = some s') :
    next s a.1 = some (a.2, s') := by
  obtain ⟨r, found, shown⟩ := Option.bind_eq_some_iff.mp followed
  obtain ⟨same, last⟩ := Option.ite_none_right_eq_some.mp shown
  cases last
  rw [found, ← same]

/-- A run found by evaluation, with a test of its last state. -/
theorem Run.of_follow (trace : List (A × E)) (test : S → Bool) {s : S}
    (ends : (trace.foldlM (follow next) s).any test = true) :
    ∃ s', Run (fun s a s' => next s a.1 = some (a.2, s')) s trace s' ∧ test s' = true := by
  induction trace generalizing s with
  | nil => exact ⟨s, .nil s, ends⟩
  | cons a trace ih =>
    rw [List.foldlM_cons] at ends
    cases followed : follow next s a with
    | none =>
      rw [followed] at ends
      cases ends
    | some s₁ =>
      rw [followed] at ends
      obtain ⟨s', run, holds⟩ := ih ends
      exact ⟨s', .cons (follow_eq_some next followed) run, holds⟩

end

end Lts
