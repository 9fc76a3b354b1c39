import Xv6.System.Umalloc

/-!
Requests near the limits of the address space.

`malloc` rounds a request up to units in unsigned arithmetic, and `morecore` passes the number of bytes
to `sbrk` as an `int`. The sum wraps around for the seven largest requests, which are then served with
one unit, the header. A request of 2³¹ bytes or more with its header makes the argument of `sbrk`
negative or zero.
-/

namespace Xv6.Umalloc

/-- The units as `malloc` computes them. -/
def nunits (nbytes : Nat) : Nat := (nbytes + 8 - 1) % 2 ^ 32 / 8 + 1

/-- The units as `morecore` rounds them up. -/
def coreUnits (nu : Nat) : Nat := if nu < 4096 then 4096 else nu

/-- The argument of `sbrk`. -/
def request (nu : Nat) : Int := Int.bmod (coreUnits nu * 8) (2 ^ 32)

theorem malloc_eq (base : Nat) (grant : Nat → Int → Bool) (fuel : Nat) (h : Heap) (nbytes : Nat) :
    h.malloc base grant fuel nbytes =
      let h := if h.freep = 0 then { (h.setPtr base base).setSize base 0 with freep := base } else h
      Heap.search grant (nunits nbytes) fuel h h.freep (h.next h.freep) := rfl

/-- In every state of every program, what `malloc` returns is null or serves the request, and what
`morecore` asks for on its behalf are the bytes of its units. -/
structure Honest (nbytes : Nat) : Prop where
  serves : ∀ (prog : Program) mem acts s, Lts.Run (Step prog) (.start prog mem) acts s →
    ∀ grant fuel r h, s.heap.malloc prog.base grant fuel nbytes = some (r, h) →
      r ≠ 0 → Serves prog h s.live r nbytes
  asks : 0 < request (nunits nbytes) ∧ request (nunits nbytes) = 8 * coreUnits (nunits nbytes)

theorem request_eq {nu : Nat} (range : 8 * nu < 2 ^ 31) :
    0 < request nu ∧ request nu = 8 * coreUnits nu := by
  unfold request coreUnits Int.bmod
  dsimp only
  split <;> split <;> omega

theorem request_nonpos {nu : Nat} (large : 2 ^ 31 ≤ 8 * nu) (word : 8 * nu ≤ 2 ^ 32) :
    request nu ≤ 0 := by
  unfold request coreUnits Int.bmod
  dsimp only
  split <;> split <;> omega

/-- A program at the beginning of the address space. -/
def lowProgram : Program := ⟨0x1000, 0x4000, by decide, by decide, by decide⟩

def Heap.fresh : Heap := ⟨fun _ => ⟨0, 0⟩, 0, 0x4000⟩

/-- One unit is cut off what the first call of `sbrk` gives. -/
theorem one_unit_taken :
    ∃ h, Heap.fresh.malloc 0x1000 (fun _ _ => true) 4 0xffffffff = some (49152, h) ∧
      h.size (49152 - 8) = 1 ∧ h.brk = 49152 := by
  have result : (Heap.fresh.malloc 0x1000 (fun _ _ => true) 4 0xffffffff).map
      (fun r => (r.1, r.2.size (49152 - 8), r.2.brk)) = some (49152, 1, 49152) := by decide +kernel
  obtain ⟨⟨r, h⟩, run, same⟩ := Option.map_eq_some_iff.mp result
  simp only [Prod.mk.injEq] at same
  obtain ⟨rfl, size, brk⟩ := same
  exact ⟨h, run, size, brk⟩

/-- A request is honoured in every state if and only if its units have less than 2³¹ bytes. -/
theorem malloc_honest_iff {nbytes : Nat} (word : nbytes < 2 ^ 32) :
    Honest nbytes ↔ 8 * units nbytes < 2 ^ 31 := by
  constructor
  · intro honest
    by_contra large
    by_cases wraps : nbytes + 7 < 2 ^ 32
    · have same : nunits nbytes = units nbytes := by
        unfold nunits units
        omega
      have := honest.asks.1
      have nonpos : request (nunits nbytes) ≤ 0 := request_nonpos (by omega) (by unfold nunits; omega)
      omega
    · -- The count is that of the largest request.
      have one : nunits nbytes = nunits 0xffffffff := by
        unfold nunits
        omega
      obtain ⟨h, run, -, brk⟩ := one_unit_taken
      rw [malloc_eq, ← one, ← malloc_eq] at run
      obtain ⟨b, -, upper, -, below, -⟩ :=
        honest.serves lowProgram (fun _ => ⟨0, 0⟩) [] _ (.nil _) _ _ _ _ run (by decide)
      omega
  · intro range
    refine ⟨fun prog mem acts s run grant fuel r h ends notNull => ?_, ?_⟩
    · obtain ⟨nodes, ⟨null, -⟩ | ⟨a, rfl, sound⟩⟩ := (Invariant.of_run run).malloc_outcome range ends
      · exact absurd null notNull
      · exact sound.serves
    · have same : nunits nbytes = units nbytes := by
        unfold nunits units at *
        omega
      rw [same]
      exact request_eq range

theorem malloc_honest_page : Honest 4096 := (malloc_honest_iff (by decide)).mpr (by decide)

/-- `malloc(0xffffffff)` returns a block of one unit, which is its header, and `malloc(0x80000000)` asks
`sbrk` for a negative number of bytes. -/
theorem malloc_dishonest :
    (∃ h, Heap.fresh.malloc 0x1000 (fun _ _ => true) 4 0xffffffff = some (49152, h) ∧
      h.size (49152 - 8) = 1) ∧ request (nunits 0x80000000) = -2147483640 := by
  obtain ⟨h, run, size, -⟩ := one_unit_taken
  exact ⟨⟨h, run, size⟩, by decide⟩

end Xv6.Umalloc
