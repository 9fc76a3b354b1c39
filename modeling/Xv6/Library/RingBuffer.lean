import Mathlib

/-!
Ring buffers with free-running counters.

The counters have `w` bits and wrap around; the places of the buffer are the counters modulo
its size `N`, which divides `2 ^ w`. The contents are a list, to which a push appends and from
which a pop takes the head.
-/

structure RingBuffer (α : Type*) (w N : Nat) where
  data : Fin N → α
  nread : BitVec w
  nwrite : BitVec w

namespace RingBuffer

open List Nat

variable {α : Type*} {w N : Nat} {r : RingBuffer α w N} {a b c : BitVec w}

def size (r : RingBuffer α w N) : Nat := (r.nwrite - r.nread).toNat

theorem nwrite_eq (r : RingBuffer α w N) : r.nwrite = r.nread + BitVec.ofNat w r.size := by
  rw [size, BitVec.ofNat_toNat, BitVec.setWidth_eq, add_sub_cancel]

theorem size_eq_zero : r.size = 0 ↔ r.nread = r.nwrite := by
  rw [size, ← BitVec.toNat_zero (w := w), BitVec.toNat_inj, eq_comm (a := r.nread)]
  exact sub_eq_zero

/-- The counters differ by the size of the buffer exactly if it is full. -/
theorem full_iff (r : RingBuffer α w N) (fits : N < 2 ^ w) :
    r.nwrite = r.nread + BitVec.ofNat w N ↔ r.size = N := by
  rw [← sub_eq_iff_eq_add', size, ← BitVec.toNat_inj, BitVec.toNat_ofNat, mod_eq_of_lt fits]

def pop (r : RingBuffer α w N) : RingBuffer α w N := { r with nread := r.nread + 1 }

theorem size_pop (some : r.nread ≠ r.nwrite) : r.pop.size + 1 = r.size := by
  obtain ⟨n, more⟩ := exists_eq_succ_of_ne_zero (mt size_eq_zero.mp some)
  have bound : r.size < 2 ^ w := (r.nwrite - r.nread).isLt
  have less : r.nwrite - (r.nread + 1) = BitVec.ofNat w n := by
    rw [r.nwrite_eq, more, succ_eq_add_one, BitVec.ofNat_add]
    change r.nread + (BitVec.ofNat w n + 1) - (r.nread + 1) = BitVec.ofNat w n
    ring
  rw [size, pop, less, BitVec.toNat_ofNat, mod_eq_of_lt (by omega), more]

/-- The distance of two counters from a third one. -/
theorem distance_sub (between : (b - a).toNat ≤ (c - a).toNat) :
    (c - b).toNat = (c - a).toNat - (b - a).toNat := by
  have rest : c - b = c - a - (b - a) := by ring
  rw [rest, BitVec.toNat_sub_of_le (BitVec.le_def.mpr between)]

variable [NeZero N]

def push (r : RingBuffer α w N) (x : α) : RingBuffer α w N :=
  { r with
    data := Function.update r.data (Fin.ofNat N r.nwrite.toNat) x
    nwrite := r.nwrite + 1 }

def front (r : RingBuffer α w N) : α := r.data (Fin.ofNat N r.nread.toNat)

def contents (r : RingBuffer α w N) : List α :=
  (List.range r.size).map fun k => r.data (Fin.ofNat N (r.nread.toNat + k))

theorem length_contents (r : RingBuffer α w N) : r.contents.length = r.size := by simp [contents]

theorem size_push (x : α) (fits : N < 2 ^ w) (room : r.size < N) :
    (r.push x).size = r.size + 1 := by
  have grown : r.nwrite + 1 - r.nread = BitVec.ofNat w (r.size + 1) := by
    rw [r.nwrite_eq, BitVec.ofNat_add]
    change r.nread + BitVec.ofNat w r.size + 1 - r.nread = BitVec.ofNat w r.size + 1
    ring
  rw [size, push, grown, BitVec.toNat_ofNat, mod_eq_of_lt (by omega)]

theorem contents_push (x : α) (divides : N ∣ 2 ^ w) (fits : N < 2 ^ w) (room : r.size < N) :
    (r.push x).contents = r.contents ++ [x] := by
  have place : r.nwrite.toNat % N = (r.nread.toNat + r.size) % N := by
    conv_lhs => rw [r.nwrite_eq]
    rw [BitVec.toNat_add, mod_mod_of_dvd _ divides, BitVec.toNat_ofNat,
      mod_eq_of_lt (by omega : r.size < 2 ^ w)]
  rw [contents, size_push x fits room, range_succ, map_append, map_singleton]
  congr 1
  · refine map_congr_left fun k inside => ?_
    have less : k < r.size := mem_range.mp inside
    refine Function.update_of_ne (fun same => ?_) ..
    have same : (r.nread.toNat + k) % N = (r.nread.toNat + r.size) % N :=
      (congrArg Fin.val same).trans place
    have := Nat.ModEq.add_left_cancel' r.nread.toNat same
    rw [Nat.ModEq, mod_eq_of_lt room, mod_eq_of_lt (less.trans room)] at this
    omega
  · have same : Fin.ofNat N (r.nread.toNat + r.size) = Fin.ofNat N r.nwrite.toNat :=
      Fin.ext place.symm
    change [Function.update r.data (Fin.ofNat N r.nwrite.toNat) x
      (Fin.ofNat N (r.nread.toNat + r.size))] = [x]
    rw [same, Function.update_self]

theorem contents_pop (divides : N ∣ 2 ^ w) (some : r.nread ≠ r.nwrite) :
    r.contents = r.front :: r.pop.contents := by
  rw [contents, ← size_pop some, range_succ_eq_map, map_cons, map_map]
  congr 1
  refine map_congr_left fun k _ => congrArg r.data (Fin.ext ?_)
  change (r.nread.toNat + (k + 1)) % N = ((r.nread + 1).toNat + k) % N
  have one : (1 : BitVec w).toNat % N = 1 % N := by
    rw [show (1 : BitVec w) = BitVec.ofNat w 1 from rfl, BitVec.toNat_ofNat,
      mod_mod_of_dvd _ divides]
  have next : (r.nread + 1).toNat % N = (r.nread.toNat + 1) % N := by
    rw [BitVec.toNat_add, mod_mod_of_dvd _ divides, add_mod, one, ← add_mod]
  rw [← mod_add_mod (r.nread + 1).toNat, next, mod_add_mod, add_right_comm, add_assoc]

/-- The contents up to a counter in between come first. -/
theorem contents_split (divides : N ∣ 2 ^ w) (data : Fin N → α)
    (between : (b - a).toNat ≤ (c - a).toNat) :
    contents ⟨data, a, c⟩ = contents ⟨data, a, b⟩ ++ contents ⟨data, b, c⟩ := by
  have sum : (c - a).toNat = (b - a).toNat + (c - b).toNat := by
    rw [distance_sub between]
    omega
  have place : ∀ k, (a.toNat + ((b - a).toNat + k)) % N = (b.toNat + k) % N := by
    intro k
    have whole : b = a + (b - a) := by ring
    have start : b.toNat % N = (a.toNat + (b - a).toNat) % N := by
      conv_lhs => rw [whole, BitVec.toNat_add, mod_mod_of_dvd _ divides]
    rw [← add_assoc, ← mod_add_mod, ← start, mod_add_mod]
  rw [contents, contents, contents, size, size, size, sum, range_add, map_append, map_map]
  congr 1
  exact map_congr_left fun k _ => congrArg data (Fin.ext (place k))

end RingBuffer
