import Mathlib

/-!
Records laid out in memory without gaps.

A record is a list of distinct fields with their sizes. A field starts where the
fields before it end, and every byte of the record belongs to one of them.
-/

namespace RecordLayout

variable {F : Type} [DecidableEq F]

def total (size : F → Nat) (fields : List F) : Nat := (fields.map size).sum

/-- Where the field starts. -/
def offset (size : F → Nat) : List F → F → Nat
  | [], _ => 0
  | g :: rest, f => if g = f then 0 else size g + offset size rest f

theorem offset_add_size_le (size : F → Nat) {fields : List F} {f : F} (mem : f ∈ fields) :
    offset size fields f + size f ≤ total size fields := by
  induction fields with
  | nil => cases mem
  | cons g rest ih =>
    simp only [offset, total, List.map_cons, List.sum_cons]
    by_cases same : g = f
    · subst same
      simp
    · have inRest : f ∈ rest := (List.mem_cons.mp mem).resolve_left (Ne.symm same)
      have bound := ih inRest
      simp only [total] at bound
      simp only [same, ite_false]
      omega

/-- Every byte of the record lies in a field. -/
theorem exists_field (size : F → Nat) {fields : List F} (nodup : fields.Nodup) {i : Nat}
    (inside : i < total size fields) :
    ∃ f ∈ fields, offset size fields f ≤ i ∧ i < offset size fields f + size f := by
  induction fields generalizing i with
  | nil => simp [total] at inside
  | cons g rest ih =>
    simp only [total, List.map_cons, List.sum_cons] at inside
    by_cases first : i < size g
    · exact ⟨g, List.mem_cons_self, by simp [offset], by simpa [offset] using first⟩
    · obtain ⟨fresh, nodup⟩ := List.nodup_cons.mp nodup
      obtain ⟨f, mem, lower, upper⟩ := ih nodup (i := i - size g) (by simp only [total]; omega)
      have other : g ≠ f := fun same => fresh (same ▸ mem)
      refine ⟨f, List.mem_cons_of_mem g mem, ?_, ?_⟩
      · simp only [offset, other, ite_false]
        omega
      · simp only [offset, other, ite_false]
        omega

end RecordLayout
