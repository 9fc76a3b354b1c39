import Mathlib

/-!
Postconditions of computations that may fail.

`Sat E P x` says that `x` returns a value with `P` or fails with an error in `E`. The
rules follow the way such computations are put together: sequencing, iteration over
a list, and weakening of either condition.
-/

namespace Outcome

variable {ε α β σ : Type} {E : ε → Prop} {P : α → Prop} {x : Except ε α} {f : σ → β → Except ε σ}
  {E' : ε → Prop} {P' : α → Prop} {s : σ} {l : List β}

inductive Sat (E : ε → Prop) (P : α → Prop) : Except ε α → Prop
  | ok {a : α} (value : P a) : Sat E P (.ok a)
  | error {e : ε} (reason : E e) : Sat E P (.error e)

theorem sat_true (x : Except ε α) : Sat (fun _ => True) (fun _ => True) x := by
  cases x with
  | ok => exact .ok trivial
  | error => exact .error trivial

theorem Sat.bind {Q : β → Prop} {f : α → Except ε β} (first : Sat E P x)
    (rest : ∀ a, P a → Sat E Q (f a)) : Sat E Q (x >>= f) := by
  cases first with
  | ok value => exact rest _ value
  | error reason => exact .error reason

theorem Sat.mono (sat : Sat E P x) (errors : ∀ e, E e → E' e) (values : ∀ a, P a → P' a) :
    Sat E' P' x := by
  cases sat with
  | ok value => exact .ok (values _ value)
  | error reason => exact .error (errors _ reason)

theorem Sat.weaken (sat : Sat E P x) (values : ∀ a, P a → P' a) : Sat E P' x :=
  sat.mono (fun _ reason => reason) values

theorem Sat.and {Q : α → Prop} (first : Sat E P x) (second : Sat E' Q x) :
    Sat E (fun a => P a ∧ Q a) x := by
  cases first with
  | ok value =>
    cases second with
    | ok also => exact .ok ⟨value, also⟩
  | error reason => exact .error reason

/-- Remember which computation the value comes from. -/
theorem Sat.attach (sat : Sat E P x) : Sat E (fun a => x = .ok a ∧ P a) x := by
  cases sat with
  | ok value => exact .ok ⟨rfl, value⟩
  | error reason => exact .error reason

/-- A value found by evaluation. -/
theorem exists_ok_of_any {p : α → Bool} (found : x.toOption.any p = true) :
    ∃ a, x = .ok a ∧ p a = true := by
  cases x with
  | ok a => exact ⟨a, rfl, found⟩
  | error e => cases found

/-- Keep what is known of the values and forget the errors. -/
theorem Sat.values (sat : Sat E P x) : Sat (fun _ => True) P x :=
  sat.mono (fun _ _ => trivial) (fun _ value => value)

theorem Sat.of_ok {a : α} (sat : Sat E P x) (ok : x = .ok a) : P a := by
  cases sat with
  | ok value =>
    cases ok
    exact value
  | error => cases ok

theorem Sat.of_error {e : ε} (sat : Sat E P x) (error : x = .error e) : E e := by
  cases sat with
  | ok => cases error
  | error reason =>
    cases error
    exact reason

/-- An invariant of the steps of a loop over a list. -/
theorem Sat.foldlM {I : σ → Prop} (l : List β) (step : ∀ s b, b ∈ l → I s → Sat E I (f s b))
    (start : I s) :
    Sat E I (l.foldlM f s) := by
  induction l generalizing s with
  | nil => exact .ok start
  | cons b l ih =>
    rw [List.foldlM_cons]
    refine Sat.bind (step s b (List.mem_cons_self ..) start) fun s' kept => ?_
    exact ih (fun s b inside => step s b (List.mem_cons_of_mem _ inside)) kept

/-- `P` holds in every state that a loop over a list passes through. -/
def Through (P : σ → Prop) (f : σ → β → Except ε σ) : List β → σ → Prop
  | [], s => P s
  | b :: l, s => P s ∧ Sat (fun _ => True) (Through P f l) (f s b)

theorem Through.here {P : σ → Prop} (through : Through P f l s) : P s := by
  cases l with
  | nil => exact through
  | cons => exact through.1

theorem Through.later {P : σ → Prop} {b : β} {s' : σ} (through : Through P f (b :: l) s)
    (step : f s b = .ok s') : Through P f l s' :=
  through.2.of_ok step

instance instDecidableSat [DecidablePred P] : (x : Except ε α) → Decidable (Sat (fun _ => True) P x)
  | .ok a => decidable_of_iff (P a) ⟨.ok, fun sat => sat.of_ok rfl⟩
  | .error _ => .isTrue (.error trivial)

instance instDecidableThrough {P : σ → Prop} [DecidablePred P] {f : σ → β → Except ε σ} :
    (l : List β) → (s : σ) → Decidable (Through P f l s)
  | [], s => inferInstanceAs (Decidable (P s))
  | b :: l, s =>
    have : DecidablePred (Through P f l) := instDecidableThrough l
    inferInstanceAs (Decidable (P s ∧ Sat (fun _ => True) (Through P f l) (f s b)))

end Outcome
