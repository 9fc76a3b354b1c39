import Mathlib

/-!
Order theory of binary min-heaps laid out in level order.

A heap is read through a key function on positions; how positions are stored is
left open. The sifting rules say what one exchange with a smallest child
preserves, so a sift-down loop over any representation is an induction that
applies them. No assumption is made about the keys above the sifted position.
-/

namespace HeapOrder

variable {κ : Type*} [LinearOrder κ] {c n lo hole : Nat} {f : Nat → κ}

def IsChild (p c : Nat) : Prop := c = 2 * p + 1 ∨ c = 2 * p + 2

/-- Every edge below position `n` whose parent is at or after `lo` is ordered. -/
def OrderedFrom (f : Nat → κ) (n lo : Nat) : Prop :=
  ∀ p c, lo ≤ p → IsChild p c → c < n → f p ≤ f c

/-- All edges from `lo` on are ordered except those leaving `hole`, and a value
lifted out of the hole's children would not be below the hole's parent. -/
structure Sifting (f : Nat → κ) (n lo hole : Nat) : Prop where
  off : ∀ p c, lo ≤ p → p ≠ hole → IsChild p c → c < n → f p ≤ f c
  grand : ∀ p c, lo ≤ p → IsChild p hole → IsChild hole c → c < n → f p ≤ f c

/-- Exchange the values at two positions. -/
def swapAt {α : Type*} (f : Nat → α) (i j : Nat) : Nat → α :=
  fun k => if k = j then f i else if k = i then f j else f k

theorem IsChild.lt {p : Nat} (h : IsChild p c) : p < c := by
  rcases h with rfl | rfl <;> omega

theorem IsChild.parent_unique {p q : Nat} (hp : IsChild p c) (hq : IsChild q c) : p = q := by
  unfold IsChild at hp hq
  omega

/-- Each position is compared with its parent. -/
theorem orderedFrom_zero_iff :
    OrderedFrom f n 0 ↔ ∀ c < n, 0 < c → f ((c - 1) / 2) ≤ f c := by
  constructor
  · intro ordered c bound pos
    refine ordered _ c (Nat.zero_le _) ?_ bound
    unfold IsChild
    omega
  · intro ordered p c _ child bound
    have parent : (c - 1) / 2 = p := by
      unfold IsChild at child
      omega
    rw [← parent]
    exact ordered c bound (Nat.zero_lt_of_lt child.lt)

/-- The upper half of the positions has no children to be out of order with. -/
theorem orderedFrom_half (f : Nat → κ) (n : Nat) : OrderedFrom f n (n / 2) := by
  intro p c hp hc hn
  unfold IsChild at hc
  omega

theorem orderedFrom_congr {g : Nat → κ} (same : ∀ k, k < n → f k = g k) (h : OrderedFrom f n lo) :
    OrderedFrom g n lo := by
  intro p c hp hc hn
  rw [← same p (lt_trans hc.lt hn), ← same c hn]
  exact h p c hp hc hn

/-- Sifting starts at a position all of whose proper descendants are ordered. -/
theorem sifting_start {i : Nat} (h : OrderedFrom f n (i + 1)) :
    Sifting f n i i where
  off p c hp hne := h p c (by omega)
  grand p c hp hchild := by
    have := hchild.lt
    omega

theorem Sifting.finish (s : Sifting f n lo hole)
    (least : ∀ c, IsChild hole c → c < n → f hole ≤ f c) : OrderedFrom f n lo := by
  intro p c hp hc hn
  by_cases same : p = hole
  · subst same
    exact least c hc hn
  · exact s.off p c hp same hc hn

/-- Exchanging the hole with a smallest child that is below it moves the hole
to that child. -/
theorem Sifting.descend (s : Sifting f n lo hole) (hlo : lo ≤ hole) (hc : IsChild hole c)
    (hn : c < n) (below : f c ≤ f hole) (least : ∀ d, IsChild hole d → d < n → f c ≤ f d) :
    Sifting (swapAt f hole c) n lo c := by
  have hlt := hc.lt
  constructor
  · intro p d hp hpc hd hdn
    by_cases hph : p = hole
    · subst hph
      by_cases hdc : d = c
      · subst hdc
        simpa [swapAt, hpc] using below
      · have : d ≠ p := by have := hd.lt; omega
        simpa [swapAt, hpc, hdc, this] using least d hd hdn
    · have hdc : d ≠ c := fun h => hph (hd.parent_unique (h ▸ hc))
      by_cases hdh : d = hole
      · subst hdh
        simpa [swapAt, hpc, hph, hdc] using s.grand p c hp hd hc hn
      · simpa [swapAt, hpc, hph, hdc, hdh] using s.off p d hp hph hd hdn
  · intro p d hp hpc hcd hdn
    have hph : p = hole := hpc.parent_unique hc
    subst hph
    have hd := hcd.lt
    simpa [swapAt, show p ≠ c by omega, show d ≠ c by omega, show d ≠ p by omega]
      using s.off c d (by omega) (by omega) hcd hdn

/-- The root of a heap is a minimum. -/
theorem root_le (h : OrderedFrom f n 0) (i : Nat) (hi : i < n) :
    f 0 ≤ f i := by
  induction i using Nat.strongRecOn with
  | ind i ih =>
    by_cases zero : i = 0
    · subst zero
      exact le_refl _
    · have hc : IsChild ((i - 1) / 2) i := by
        unfold IsChild
        omega
      have hp : (i - 1) / 2 < i := hc.lt
      exact le_trans (ih _ hp (by omega)) (h _ _ (Nat.zero_le _) hc hi)

/-- Every value of a heap is bounded by one in the upper half. -/
theorem exists_leaf_ge (h : OrderedFrom f n 0) (i : Nat) (hi : i < n) :
    ∃ j, n / 2 ≤ j ∧ j < n ∧ f i ≤ f j := by
  induction hk : n - i using Nat.strongRecOn generalizing i with
  | ind k ih =>
    by_cases leaf : n / 2 ≤ i
    · exact ⟨i, leaf, hi, le_refl _⟩
    · have hc : IsChild i (2 * i + 1) := Or.inl rfl
      have hn : 2 * i + 1 < n := by omega
      obtain ⟨j, hj, hjn, hle⟩ := ih (n - (2 * i + 1)) (by omega) (2 * i + 1) hn rfl
      exact ⟨j, hj, hjn, le_trans (h i _ (Nat.zero_le _) hc hn) hle⟩

section Positions

variable {α : Type*}

theorem swapAt_right (f : Nat → α) (i j : Nat) : swapAt f i j j = f i := by
  simp [swapAt]

theorem swapAt_other (f : Nat → α) {i j k : Nat} (hi : k ≠ i) (hj : k ≠ j) :
    swapAt f i j k = f k := by
  simp [swapAt, hi, hj]

theorem swapAt_comp {β : Type*} (g : α → β) (f : Nat → α) (i j : Nat) :
    (fun k => g (swapAt f i j k)) = swapAt (fun k => g (f k)) i j := by
  funext k
  simp only [swapAt]
  split
  · rfl
  · split <;> rfl

/-- An exchange inside the first `n` positions permutes the values there. -/
theorem range_map_swapAt_perm (f : Nat → α) {n i j : Nat} (hi : i < n) (hj : j < n) :
    ((List.range n).map (swapAt f i j)).Perm ((List.range n).map f) := by
  have factor : swapAt f i j = f ∘ swapAt id i j := by
    funext k
    simp only [swapAt, Function.comp, id]
    split
    · rfl
    · split <;> rfl
  rw [factor, ← List.map_map]
  apply List.Perm.map
  have inj : Function.Injective (swapAt id i j) := by
    intro a b
    simp only [swapAt, id]
    split <;> split <;> (try split) <;> (try split) <;> omega
  apply List.Subperm.perm_of_length_le
  · apply List.subperm_of_subset (List.Nodup.map inj List.nodup_range)
    intro k hk
    obtain ⟨a, ha, rfl⟩ := List.mem_map.mp hk
    have ha := List.mem_range.mp ha
    apply List.mem_range.mpr
    simp only [swapAt, id]
    split
    · exact hi
    · split
      · exact hj
      · exact ha
  · simp

end Positions

end HeapOrder
