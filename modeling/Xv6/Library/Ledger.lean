import Mathlib

/-!
Reference counts against a ledger of holders.

A ledger assigns to each holder, a place that may keep a reference, the resource
it refers to. Counts balance when every resource outside a reserved set has as
many references as holders; some holders are exclusive and share with nobody. The
rules are the ways a reference is created, shared, moved and given up, each as an
update of the ledger at one or two holders. Where every resource has one holder at most,
a mark in place of the count will do; where the holders are a finite table, the count is a sum
over it.
-/

namespace Ledger

open Function

variable {C R : Type*} {t : C → Option R} {c : C}

def holders (t : C → Option R) (r : R) : Set C := {c | t c = some r}

noncomputable def count (t : C → Option R) (r : R) : Nat := (holders t r).ncard

/-- Only finitely many holders keep a reference. -/
def FiniteSupport (t : C → Option R) : Prop := {c | t c ≠ none}.Finite

theorem FiniteSupport.holders (finite : FiniteSupport t) (r : R) :
    (holders t r).Finite := by
  apply Set.Finite.subset finite
  intro c hc
  simp only [Ledger.holders, Set.mem_ofPred_eq] at hc
  simp [hc]

theorem count_pos (finite : FiniteSupport t) {r : R} (h : t c = some r) : 0 < count t r :=
  (Set.ncard_pos (finite.holders r)).mpr ⟨c, h⟩

theorem holder_unique (finite : FiniteSupport t) {c' : C} {r : R} (one : count t r ≤ 1)
    (h : t c = some r) (h' : t c' = some r) : c = c' :=
  (Set.ncard_le_one (finite.holders r)).mp one c h c' h'

section Update

variable [DecidableEq C] {t : C → Option R}

theorem FiniteSupport.update (finite : FiniteSupport t) (c : C) (v : Option R) :
    FiniteSupport (update t c v) := by
  apply Set.Finite.subset (finite.insert c)
  intro x hx
  by_cases same : x = c
  · exact Or.inl same
  · right
    simpa [same] using hx

theorem count_add [DecidableEq R] (finite : FiniteSupport t) {c : C} (vacant : t c = none)
    (r r' : R) :
    count (update t c (some r)) r' = count t r' + if r' = r then 1 else 0 := by
  unfold count
  by_cases same : r' = r
  · subst same
    have grown : holders (update t c (some r')) r' = insert c (holders t r') := by
      ext x
      by_cases here : x = c
      · simp [holders, here]
      · simp [holders, here]
    have fresh : c ∉ holders t r' := by simp [holders, vacant]
    rw [grown, Set.ncard_insert_of_notMem fresh (finite.holders r'), if_pos rfl]
  · have kept : holders (update t c (some r)) r' = holders t r' := by
      ext x
      by_cases here : x = c
      · simp [holders, here, vacant, Ne.symm same]
      · simp [holders, here]
    rw [kept, if_neg same, Nat.add_zero]

theorem count_remove [DecidableEq R] (finite : FiniteSupport t) {c : C} {r : R}
    (held : t c = some r) (r' : R) :
    count (update t c none) r' + (if r' = r then 1 else 0) = count t r' := by
  have back : update (update t c none) c (some r) = t := by
    rw [update_idem, ← held, update_eq_self]
  have := count_add (finite.update c none) (update_self ..) r r' (t := update t c none)
  rw [back] at this
  exact this.symm

end Update

/-- Counts agree with the ledger outside `reserved`. -/
structure Balanced (ref : R → Int) (reserved : Set R) (exclusive : C → Prop)
    (t : C → Option R) : Prop where
  finite : FiniteSupport t
  counted : ∀ r, r ∉ reserved → ref r = count t r
  kept : ∀ r ∈ reserved, 1 ≤ ref r ∧ ∀ c, t c ≠ some r
  alone : ∀ c r, exclusive c → t c = some r → ref r = 1

section Rules

variable {ref ref' : R → Int} {reserved : Set R} {exclusive : C → Prop} {t : C → Option R}
  {c c' : C} {r : R}

section

variable (b : Balanced ref reserved exclusive t)
include b

theorem Balanced.not_reserved (held : t c = some r) : r ∉ reserved := fun h => (b.kept r h).2 c held

theorem Balanced.ref_pos (held : t c = some r) :
    1 ≤ ref r := by
  rw [b.counted r (b.not_reserved held)]
  have := count_pos b.finite held
  omega

theorem Balanced.sole (one : ref r = 1) (h : t c = some r)
    (h' : t c' = some r) : c = c' := by
  apply holder_unique b.finite _ h h'
  have := b.counted r (b.not_reserved h)
  omega

theorem Balanced.free (zero : ref r = 0) (c : C) :
    t c ≠ some r := by
  intro held
  have := b.ref_pos held
  omega

end

variable [DecidableEq C] [DecidableEq R]

section

variable (b : Balanced ref reserved exclusive t)
include b

/-- A vacant holder gets a reference. -/
theorem Balanced.add (out : r ∉ reserved) (vacant : t c = none)
    (refs : ∀ r', ref' r' = if r' = r then ref r + 1 else ref r')
    (sole : ∀ x, exclusive x → x = c ∨ t x = some r → ref r = 0) :
    Balanced ref' reserved exclusive (update t c (some r)) where
  finite := b.finite.update c _
  counted r' out := by
    rw [count_add b.finite vacant, refs r']
    have old := b.counted r' out
    by_cases same : r' = r
    · subst same
      simp only [if_true]
      omega
    · simp only [if_neg same]
      omega
  kept r' isReserved := by
    have old := b.kept r' isReserved
    have other : r' ≠ r := ne_of_mem_of_not_mem isReserved out
    rw [refs r', if_neg other]
    refine ⟨old.1, fun x => ?_⟩
    by_cases here : x = c
    · simp [here, Ne.symm other]
    · simpa [here] using old.2 x
  alone x r' isExclusive held := by
    rw [refs r']
    by_cases here : x = c
    · subst here
      obtain rfl : r = r' := by simpa using held
      rw [if_pos rfl, sole x isExclusive (.inl rfl), zero_add]
    · rw [update_of_ne here] at held
      split
      · rename_i same
        subst same
        rw [sole x isExclusive (.inr held), zero_add]
      · exact b.alone x r' isExclusive held

/-- A resource without references goes to a vacant holder. -/
theorem Balanced.acquire (free : ref r = 0)
    (vacant : t c = none) (refs : ∀ r', ref' r' = if r' = r then 1 else ref r') :
    Balanced ref' reserved exclusive (update t c (some r)) := by
  refine b.add (fun isReserved => ?_) vacant (by simpa [free] using refs) fun _ _ _ => free
  have := b.kept r isReserved
  omega

/-- A vacant holder joins the holders of a resource none of which is exclusive. -/
theorem Balanced.share (held : t c' = some r)
    (shared : ¬ exclusive c') (vacant : t c = none) (isOpen : ¬ exclusive c)
    (refs : ∀ r', ref' r' = if r' = r then ref r + 1 else ref r') :
    Balanced ref' reserved exclusive (update t c (some r)) := by
  refine b.add (b.not_reserved held) vacant refs fun x isExclusive holds => ?_
  rcases holds with rfl | holds
  · exact absurd isExclusive isOpen
  · -- An exclusive holder would be the only one.
    cases b.sole (b.alone x r isExclusive holds) holds held
    exact absurd isExclusive shared

/-- A holder gives up its reference. -/
theorem Balanced.release (held : t c = some r)
    (refs : ∀ r', ref' r' = if r' = r then ref r - 1 else ref r') :
    Balanced ref' reserved exclusive (update t c none) where
  finite := b.finite.update c _
  counted r' out := by
    have removed := count_remove b.finite held r'
    have old := b.counted r' out
    rw [refs r']
    by_cases same : r' = r
    · subst same
      simp only [if_true] at removed ⊢
      omega
    · simp only [if_neg same] at removed ⊢
      omega
  kept r' isReserved := by
    have old := b.kept r' isReserved
    have other : r' ≠ r := by
      rintro rfl
      exact old.2 c held
    rw [refs r', if_neg other]
    refine ⟨old.1, fun x => ?_⟩
    by_cases here : x = c
    · simp [here]
    · simpa [here] using old.2 x
  alone x r' isExclusive holds := by
    have here : x ≠ c := by
      rintro rfl
      simp at holds
    rw [update_of_ne here] at holds
    have old := b.alone x r' isExclusive holds
    rw [refs r']
    split
    · rename_i same
      subst same
      exact absurd (b.sole old holds held) here
    · exact old

/-- A reference moves to a vacant holder, which may be exclusive only if it is the
only reference. -/
theorem Balanced.move (held : t c = some r)
    (vacant : t c' = none) (alone : exclusive c' → ref r = 1) :
    Balanced ref reserved exclusive
      (update (update t c none) c' (some r)) := by
  have apart : c' ≠ c := by
    rintro rfl
    simp [held] at vacant
  have vacant' : update t c none c' = none := by simp [apart, vacant]
  refine ⟨(b.finite.update c none).update c' _, ?_, ?_, ?_⟩
  · intro r' out
    rw [count_add (b.finite.update c none) vacant', count_remove b.finite held r']
    exact b.counted r' out
  · intro r' isReserved
    have old := b.kept r' isReserved
    refine ⟨old.1, fun x => ?_⟩
    by_cases here : x = c'
    · subst here
      rw [update_self]
      rintro ⟨⟩
      exact old.2 c held
    · rw [update_of_ne here]
      by_cases there : x = c
      · simp [there]
      · simpa [there] using old.2 x
  · intro x r' isExclusive holds
    by_cases here : x = c'
    · subst here
      obtain rfl : r = r' := by simpa using holds
      exact alone isExclusive
    · rw [update_of_ne here] at holds
      by_cases there : x = c
      · simp [there] at holds
      · rw [update_of_ne there] at holds
        exact b.alone x r' isExclusive holds

end

end Rules

section Listed

variable {t : C → Option R} {l : List (C × R)}

/-- A ledger given by a list of holders with their resources. -/
def Listed (t : C → Option R) (l : List (C × R)) : Prop := ∀ c r, t c = some r ↔ (c, r) ∈ l

theorem Listed.finiteSupport (listed : Listed t l) : FiniteSupport t := by
  apply Set.Finite.subset (l.map Prod.fst).finite_toSet
  intro c kept
  obtain ⟨r, held⟩ := Option.ne_none_iff_exists'.mp kept
  exact List.mem_map.mpr ⟨(c, r), (listed c r).mp held, rfl⟩

variable [DecidableEq C] [DecidableEq R]

theorem Listed.count (listed : Listed t l) (nodup : l.Nodup) (r : R) :
    count t r = l.countP (fun p => p.2 = r) := by
  have apart : ((l.filter (fun p => p.2 = r)).map Prod.fst).Nodup := by
    refine List.Nodup.map_on ?_ (nodup.filter _)
    rintro ⟨c, x⟩ hx ⟨c', y⟩ hy same
    simp only [List.mem_filter, decide_eq_true_eq] at hx hy
    rw [hx.2, hy.2]
    exact congrArg (·, r) same
  have holders : holders t r = ((l.filter (fun p => p.2 = r)).map Prod.fst).toFinset := by
    ext c
    simp only [Ledger.holders, Set.mem_ofPred_eq, listed c r, List.coe_toFinset, List.mem_map,
      List.mem_filter, decide_eq_true_eq, Prod.exists, exists_and_right, exists_eq_right]
  rw [Ledger.count, holders, Set.ncard_coe_finset, List.toFinset_card_of_nodup apart,
    List.length_map, List.countP_eq_length_filter]

/-- Counting the list balances its ledger, if exclusive holders are alone in it. -/
theorem Listed.balanced {ref : R → Int} {exclusive : C → Prop} (listed : Listed t l)
    (nodup : l.Nodup) (refs : ∀ r, ref r = l.countP (fun p => p.2 = r))
    (alone : ∀ p ∈ l, exclusive p.1 → l.countP (fun q => q.2 = p.2) = 1) :
    Balanced ref ∅ exclusive t where
  finite := listed.finiteSupport
  counted r _ := by rw [refs r, listed.count nodup r]
  kept r absurd := by cases absurd
  alone c r isExclusive held := by
    rw [refs r]
    exact_mod_cast alone (c, r) ((listed c r).mp held) isExclusive

end Listed

/-- Every resource has at most one holder, and a mark says whether a resource inside has one. -/
structure Marked (inside : R → Prop) (mark : R → Bool) (t : C → Option R) : Prop where
  once : ∀ c c' r, t c = some r → t c' = some r → c = c'
  marked : ∀ r, inside r → (mark r = true ↔ ∃ c, t c = some r)
  inside : ∀ c r, t c = some r → inside r

section Marks

variable {inside : R → Prop} {mark : R → Bool} {t : C → Option R} {r : R} {c : C}

theorem Marked.fresh (m : Marked inside mark t) (isInside : inside r) (free : mark r = false)
    (c : C) : t c ≠ some r := by
  intro held
  have marked := (m.marked r isInside).mpr ⟨c, held⟩
  simp [free] at marked

theorem Marked.isMarked (m : Marked inside mark t) (held : t c = some r) : mark r = true :=
  (m.marked r (m.inside c r held)).mpr ⟨c, held⟩

variable [DecidableEq C] [DecidableEq R]

theorem Marked.acquire (m : Marked inside mark t) (isInside : inside r) (free : mark r = false)
    (vacant : t c = none) :
    Marked inside (update mark r true) (update t c (some r)) := by
  have fresh := m.fresh isInside free
  refine ⟨fun x y r' hx hy => ?_, fun r' isInside' => ?_, fun x r' held => ?_⟩
  · by_cases isC : x = c
    · by_cases isC' : y = c
      · rw [isC, isC']
      · rw [isC, update_self] at hx
        rw [update_of_ne isC'] at hy
        cases hx
        exact absurd hy (fresh y)
    · rw [update_of_ne isC] at hx
      by_cases isC' : y = c
      · rw [isC', update_self] at hy
        cases hy
        exact absurd hx (fresh x)
      · rw [update_of_ne isC'] at hy
        exact m.once x y r' hx hy
  · by_cases same : r' = r
    · rw [same, update_self]
      exact ⟨fun _ => ⟨c, update_self ..⟩, fun _ => rfl⟩
    · rw [update_of_ne same, m.marked r' isInside']
      refine exists_congr fun x => ?_
      by_cases isC : x = c
      · rw [isC, update_self, vacant]
        simp [Ne.symm same]
      · rw [update_of_ne isC]
  · by_cases isC : x = c
    · rw [isC, update_self] at held
      cases held
      exact isInside
    · rw [update_of_ne isC] at held
      exact m.inside x r' held

theorem Marked.release (m : Marked inside mark t) (held : t c = some r) :
    Marked inside (update mark r false) (update t c none) := by
  have kept : ∀ {x r'}, update t c none x = some r' → x ≠ c ∧ t x = some r' := by
    intro x r' h
    by_cases isC : x = c
    · simp [isC] at h
    · exact ⟨isC, by rwa [update_of_ne isC] at h⟩
  refine ⟨fun x y r' hx hy => m.once x y r' (kept hx).2 (kept hy).2, fun r' isInside' => ?_,
    fun x r' h => m.inside x r' (kept h).2⟩
  by_cases same : r' = r
  · rw [same, update_self]
    refine ⟨nofun, fun ⟨x, h⟩ => ?_⟩
    exact absurd (m.once x c r (kept h).2 held) (kept h).1
  · rw [update_of_ne same, m.marked r' isInside']
    refine ⟨fun ⟨x, h⟩ => ⟨x, ?_⟩, fun ⟨x, h⟩ => ⟨x, (kept h).2⟩⟩
    have other : x ≠ c := fun isC => by
      rw [isC, held] at h
      exact same (Option.some.inj h).symm
    rwa [update_of_ne other]

end Marks

/-- What a table adds up to, after one of its places has changed. -/
theorem sum_update {A : Type*} [DecidableEq C] {s : Finset C} (mem : c ∈ s) (weight : A → Nat)
    (t : C → A) (v : A) :
    ∑ x ∈ s, weight (update t c v x) + weight (t c) = ∑ x ∈ s, weight (t x) + weight v := by
  have others : ∀ x ∈ s.erase c, weight (update t c v x) = weight (t x) := fun x hx => by
    rw [update_of_ne (Finset.ne_of_mem_erase hx)]
  rw [← Finset.add_sum_erase _ _ mem, ← Finset.add_sum_erase _ (fun x => weight (t x)) mem,
    Finset.sum_congr rfl others, update_self]
  omega

end Ledger
