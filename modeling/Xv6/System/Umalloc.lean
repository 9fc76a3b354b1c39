import Xv6.Library.LinkRing
import Xv6.Library.Lts
import Xv6.Library.Spans

/-!
The allocator of user programs, `malloc` and `free` of `umalloc.c`.

The memory of a program is given by the header that each unit of eight bytes would be read as. Headers
never overlap: `base` lies below the heap, and the others are at multiples of eight from its start. A
request to `sbrk` is granted or refused by the kernel. The free list is a ring through `base` in address
order. Freeing a block links it in and joins it with its neighbours, and `malloc` cuts a block off the
end of a free one; both keep the free and the live blocks a tiling of what `sbrk` has given.
-/

namespace Xv6.Umalloc

open LinkRing List Nat Spans

/-- `union header`. -/
structure Header where
  ptr : Nat
  size : Nat

/-- The static data of a program are below its heap. -/
structure Program where
  base : Nat
  start : Nat
  base_pos : 0 < base
  base_below : base + 8 ≤ start
  start_lt : start < 2 ^ 32

structure Heap where
  mem : Nat → Header
  freep : Nat
  brk : Nat

namespace Heap

def setPtr (h : Heap) (p ptr : Nat) : Heap :=
  { h with mem := Function.update h.mem p { h.mem p with ptr := ptr } }

def setSize (h : Heap) (p size : Nat) : Heap :=
  { h with mem := Function.update h.mem p { h.mem p with size := size } }

def next (h : Heap) (p : Nat) : Nat := (h.mem p).ptr

def size (h : Heap) (p : Nat) : Nat := (h.mem p).size

end Heap

/-- `p + n` for a pointer to headers. -/
def plus (p n : Nat) : Nat := (p + 8 * n) % 2 ^ 32

namespace Heap

/-- The loop of `free` ends at `p`. -/
def stops (h : Heap) (bp p : Nat) : Bool :=
  (p < bp ∧ bp < h.next p) ∨ (h.next p ≤ p ∧ (p < bp ∨ bp < h.next p))

/-- The block after `p` is joined with `bp` if they touch. -/
def joinUpper (h : Heap) (bp p : Nat) : Heap :=
  if plus bp (h.size bp) = h.next p then
    let h := h.setSize bp ((h.size bp + h.size (h.next p)) % 2 ^ 32)
    h.setPtr bp (h.next (h.next p))
  else h.setPtr bp (h.next p)

/-- The block `bp` is joined with `p` if they touch. -/
def joinLower (h : Heap) (bp p : Nat) : Heap :=
  if plus p (h.size p) = bp then
    let h := h.setSize p ((h.size p + h.size bp) % 2 ^ 32)
    h.setPtr p (h.next bp)
  else h.setPtr p bp

def free (fuel : Nat) (h : Heap) (ap : Nat) : Option Heap := do
  let bp := (ap + 2 ^ 32 - 8) % 2 ^ 32
  let p ← seek h.next (h.stops bp) fuel h.freep
  let h := (h.joinUpper bp p).joinLower bp p
  some { h with freep := p }

/-- The kernel's part: `grant` says which requests it meets. The break stays an address. -/
def sbrk (grant : Nat → Int → Bool) (h : Heap) (n : Int) : Nat × Heap :=
  if grant h.brk n ∧ 0 ≤ h.brk + n ∧ h.brk + n < 2 ^ 32 then
    (h.brk, { h with brk := (h.brk + n).toNat })
  else (2 ^ 32 - 1, h)

def morecore (grant : Nat → Int → Bool) (fuel : Nat) (h : Heap) (nu : Nat) : Option (Nat × Heap) :=
  let nu := if nu < 4096 then 4096 else nu
  -- The product is an `uint`, and the parameter of `sbrk` an `int`.
  let (p, h) := h.sbrk grant (Int.bmod (nu * 8) (2 ^ 32))
  if p = 2 ^ 32 - 1 then some (0, h)
  else do
    let h := h.setSize p nu
    let h ← h.free fuel (plus p 1)
    some (h.freep, h)

/-- The block `p` after `prevp` is large enough. -/
def take (h : Heap) (prevp p nunits : Nat) : Nat × Heap :=
  if h.size p = nunits then
    (plus p 1, { h.setPtr prevp (h.next p) with freep := prevp })
  else
    let h := h.setSize p (h.size p - nunits)
    let p := plus p (h.size p)
    (plus p 1, { h.setSize p nunits with freep := prevp })

/-- The loop of `malloc`. -/
def search (grant : Nat → Int → Bool) (nunits : Nat) : Nat → Heap → Nat → Nat → Option (Nat × Heap)
  | 0, _, _, _ => none
  | n + 1, h, prevp, p =>
    if nunits ≤ h.size p then some (h.take prevp p nunits)
    else if p = h.freep then do
      let (p, h) ← h.morecore grant n nunits
      if p = 0 then some (0, h) else search grant nunits n h p (h.next p)
    else search grant nunits n h p (h.next p)

def malloc (base : Nat) (grant : Nat → Int → Bool) (fuel : Nat) (h : Heap) (nbytes : Nat) :
    Option (Nat × Heap) :=
  let nunits := (nbytes + 8 - 1) % 2 ^ 32 / 8 + 1
  let h := if h.freep = 0 then { (h.setPtr base base).setSize base 0 with freep := base } else h
  search grant nunits fuel h h.freep (h.next h.freep)

end Heap

section Fields

variable (h : Heap) (p q v : Nat)

namespace Heap

@[simp] theorem next_setPtr : (h.setPtr p v).next q = if q = p then v else h.next q := by
  simp only [next, setPtr, Function.update_apply]
  split <;> rfl

@[simp] theorem size_setPtr : (h.setPtr p v).size q = h.size q := by
  simp only [size, setPtr, Function.update_apply]
  split
  · rename_i here
    rw [here]
  · rfl

@[simp] theorem size_setSize : (h.setSize p v).size q = if q = p then v else h.size q := by
  simp only [size, setSize, Function.update_apply]
  split <;> rfl

@[simp] theorem next_setSize : (h.setSize p v).next q = h.next q := by
  simp only [next, setSize, Function.update_apply]
  split
  · rename_i here
    rw [here]
  · rfl

end Heap

end Fields

/-- A block of `size` units with its header at `start`. -/
structure Block where
  start : Nat
  size : Nat
deriving DecidableEq

namespace Block

def stop (b : Block) : Nat := b.start + 8 * b.size

def span (b : Block) : Span := ⟨b.start, b.stop⟩

/-- The block `c` is above `b` and does not touch it. -/
def Before (b c : Block) : Prop := b.stop < c.start

/-- The block `b` and the blocks above it after `joinUpper`. -/
def upper (b : Block) : List Block → Block × List Block
  | [] => (b, [])
  | c :: above => if b.stop = c.start then (⟨b.start, b.size + c.size⟩, above) else (b, c :: above)

/-- The blocks `p` and `b` after `joinLower`. -/
def lower (p b : Block) : List Block :=
  if p.stop = b.start then [⟨p.start, p.size + b.size⟩] else [p, b]

end Block

/-- `base` as a block. -/
def Program.root (prog : Program) : Block := ⟨prog.base, 0⟩

/-- The blocks have their headers in memory, each leading to the next one and the last one to `e`. -/
def Holds (h : Heap) (blocks : List Block) (e : Nat) : Prop :=
  Threaded h.next (blocks.map Block.start) e ∧ ∀ b ∈ blocks, h.size b.start = b.size

def first (blocks : List Block) (e : Nat) : Nat := (blocks.map Block.start).headD e

variable {n m : Nat}

section Lists

variable {h h' : Heap} {xs ys above : List Block} {b p : Block} {e : Nat} {c : Block}

theorem holds_nil : Holds h [] e := ⟨trivial, nofun⟩

theorem holds_cons :
    Holds h (b :: xs) e ↔ (h.next b.start = first xs e ∧ h.size b.start = b.size) ∧ Holds h xs e := by
  simp only [Holds, first, map_cons, Threaded, forall_mem_cons]
  tauto

theorem holds_append : Holds h (xs ++ ys) e ↔ Holds h xs (first ys e) ∧ Holds h ys e := by
  simp only [Holds, first, map_append, threaded_append, mem_append, or_imp, forall_and]
  tauto

theorem Holds.congr (holds : Holds h xs e)
    (same : ∀ b ∈ xs, h'.next b.start = h.next b.start ∧ h'.size b.start = h.size b.start) :
    Holds h' xs e := by
  refine ⟨holds.1.congr fun a inside => ?_, fun b inside => (same b inside).2.trans (holds.2 b inside)⟩
  obtain ⟨b, isBlock, rfl⟩ := mem_map.mp inside
  exact (same b isBlock).1

theorem plus_eq {p : Nat} (fits : p + 8 * n < 2 ^ 32) : plus p n = p + 8 * n := Nat.mod_eq_of_lt fits

theorem upper_start : (b.upper above).1.start = b.start := by
  cases above with
  | nil => rfl
  | cons c above =>
    rw [Block.upper]
    split <;> rfl

theorem weight_upper (b : Block) (above : List Block) (x : Nat) :
    weight (((b.upper above).1 :: (b.upper above).2).map Block.span) x =
      weight ((b :: above).map Block.span) x := by
  cases above with
  | nil => rfl
  | cons c above =>
    rw [Block.upper]
    split
    · rename_i touch
      have join : Block.span ⟨b.start, b.size + c.size⟩ = ⟨b.start, c.stop⟩ := by
        simp only [Block.span, Block.stop, Span.mk.injEq, true_and] at touch ⊢
        omega
      have span : c.span = ⟨b.stop, c.stop⟩ := by
        rw [Block.span, touch]
      simp only [map_cons, join, span]
      refine (weight_join ?_ ?_ _ x).symm
      · unfold Block.stop
        omega
      · unfold Block.stop at touch ⊢
        omega
    · rfl

theorem weight_lower (p b : Block) (xs : List Block) (x : Nat) :
    weight ((p.lower b ++ xs).map Block.span) x = weight ((p :: b :: xs).map Block.span) x := by
  rw [Block.lower]
  split
  · rename_i touch
    have join : Block.span ⟨p.start, p.size + b.size⟩ = ⟨p.start, b.stop⟩ := by
      simp only [Block.span, Block.stop, Span.mk.injEq, true_and] at touch ⊢
      omega
    have span : b.span = ⟨p.stop, b.stop⟩ := by
      rw [Block.span, touch]
    simp only [singleton_append, map_cons, join, span]
    refine (weight_join ?_ ?_ _ x).symm
    · unfold Block.stop
      omega
    · unfold Block.stop at touch ⊢
      omega
  · rfl

/-- `joinUpper` sets the header of `b` for the list that begins with it. -/
theorem joinUpper_holds (holds : Holds h above e) (size : h.size b.start = b.size)
    (next : h.next p.start = first above e) (last : b.stop < 2 ^ 32) (isEnd : b.stop ≠ e)
    (fits : ∀ c ∈ above, c.stop < 2 ^ 32)
    (others : ∀ c ∈ above, c.start ≠ b.start) :
    Holds (h.joinUpper b.start p.start) ((b.upper above).1 :: (b.upper above).2) e ∧
      ∀ a, a ≠ b.start → (h.joinUpper b.start p.start).next a = h.next a ∧
        (h.joinUpper b.start p.start).size a = h.size a := by
  have touches : plus b.start (h.size b.start) = b.stop := by
    rw [size]
    exact plus_eq last
  unfold Heap.joinUpper
  rw [touches, next]
  cases above with
  | nil =>
    have same : first [] e = e := rfl
    rw [same, if_neg isEnd]
    refine ⟨holds_cons.mpr ⟨⟨by simp [Block.upper, first], by simpa [Block.upper] using size⟩, holds_nil⟩,
      fun a elsewhere => ?_⟩
    simp [elsewhere]
  | cons c above =>
    obtain ⟨⟨nextC, sizeC⟩, rest⟩ := holds_cons.mp holds
    have otherC := others c (mem_cons_self ..)
    have same : first (c :: above) e = c.start := rfl
    rw [same, Block.upper]
    split
    · rename_i touch
      have fitsC := fits c (mem_cons_self ..)
      have sum : b.size + c.size < 2 ^ 32 := by
        unfold Block.stop at touch fitsC
        omega
      rw [same] at next
      refine ⟨holds_cons.mpr ⟨⟨?_, ?_⟩, rest.congr fun d inside => ?_⟩, fun a elsewhere => ?_⟩
      · simp [next, nextC]
      · simpa [size, sizeC] using mod_eq_of_lt sum
      · have := others d (mem_cons_of_mem c inside)
        simp [this]
      · simp [elsewhere]
    · refine ⟨holds_cons.mpr ⟨⟨by simp [same], by simpa using size⟩, holds.congr fun d inside => ?_⟩,
        fun a elsewhere => ?_⟩
      · have := others d inside
        simp [this]
      · simp [elsewhere]

/-- `joinLower` sets the header of `p`. -/
theorem joinLower_holds (holds : Holds h (b :: above) e) (size : h.size p.start = p.size)
    (last : p.stop < 2 ^ 32) (fits : b.stop < 2 ^ 32)
    (others : ∀ c ∈ b :: above, c.start ≠ p.start) :
    Holds (h.joinLower b.start p.start) (p.lower b ++ above) e ∧
      ∀ a, a ≠ p.start → (h.joinLower b.start p.start).next a = h.next a ∧
        (h.joinLower b.start p.start).size a = h.size a := by
  have touches : plus p.start (h.size p.start) = p.stop := by
    rw [size]
    exact plus_eq last
  have otherB := others b (mem_cons_self ..)
  obtain ⟨⟨nextB, sizeB⟩, rest⟩ := holds_cons.mp holds
  unfold Heap.joinLower
  rw [touches, Block.lower]
  split
  · rename_i touch
    have sum : p.size + b.size < 2 ^ 32 := by
      unfold Block.stop at touch fits
      omega
    refine ⟨holds_cons.mpr ⟨⟨?_, ?_⟩, rest.congr fun d inside => ?_⟩, fun a elsewhere => ?_⟩
    · simp [nextB]
    · simpa [size, sizeB] using mod_eq_of_lt sum
    · have := others d (mem_cons_of_mem b inside)
      simp [this]
    · simp [elsewhere]
  · refine ⟨holds_cons.mpr ⟨⟨?_, by simpa using size⟩, holds.congr fun d inside => ?_⟩,
      fun a elsewhere => ?_⟩
    · simp [first]
    · have := others d inside
      simp [this]
    · simp [elsewhere]

theorem upper_sorted (sorted : above.Pairwise Block.Before) (order : ∀ c ∈ above, b.stop ≤ c.start) :
    ((b.upper above).1 :: (b.upper above).2).Pairwise Block.Before := by
  cases above with
  | nil => exact pairwise_singleton _ _
  | cons c above =>
    obtain ⟨aboveC, rest⟩ := pairwise_cons.mp sorted
    have orderC := order c (mem_cons_self ..)
    rw [Block.upper]
    split
    · rename_i touch
      refine pairwise_cons.mpr ⟨fun d inside => ?_, rest⟩
      have := aboveC d inside
      unfold Block.Before Block.stop at *
      dsimp only
      omega
    · rename_i gap
      refine pairwise_cons.mpr ⟨fun d inside => ?_, sorted⟩
      rcases mem_cons.mp inside with rfl | inside
      · exact lt_of_le_of_ne orderC gap
      · have := aboveC d inside
        change b.stop < d.start
        unfold Block.Before Block.stop at *
        omega

theorem lower_sorted (sorted : (b :: above).Pairwise Block.Before) (order : p.stop ≤ b.start) :
    (p.lower b ++ above).Pairwise Block.Before := by
  obtain ⟨aboveB, rest⟩ := pairwise_cons.mp sorted
  rw [Block.lower]
  split
  · rename_i touch
    refine pairwise_cons.mpr ⟨fun d inside => ?_, rest⟩
    have := aboveB d inside
    unfold Block.Before Block.stop at *
    dsimp only
    omega
  · rename_i gap
    refine pairwise_cons.mpr ⟨fun d inside => ?_, sorted⟩
    rcases mem_cons.mp inside with rfl | inside
    · exact lt_of_le_of_ne order gap
    · have := aboveB d inside
      unfold Block.Before Block.stop at *
      omega

theorem mem_of_mem_upper (inside : c ∈ (b.upper above).2) : c ∈ above := by
  cases above with
  | nil => exact inside
  | cons d above =>
    rw [Block.upper] at inside
    split at inside
    · exact mem_cons_of_mem d inside
    · exact inside

theorem le_upper_size : b.size ≤ (b.upper above).1.size := by
  cases above with
  | nil => exact le_refl _
  | cons d above =>
    rw [Block.upper]
    split
    · exact Nat.le_add_right ..
    · exact le_refl _

theorem upper_stop_le (stop : b.stop ≤ m) (stops : ∀ c ∈ above, c.stop ≤ m) :
    (b.upper above).1.stop ≤ m := by
  cases above with
  | nil => exact stop
  | cons d above =>
    rw [Block.upper]
    split
    · rename_i touch
      have := stops d (mem_cons_self ..)
      unfold Block.stop at *
      dsimp only
      omega
    · exact stop

/-- What `joinLower` leaves are `p`, perhaps enlarged, and perhaps `b`. -/
theorem mem_lower (inside : c ∈ p.lower b) :
    c = p ∨ (p.stop = b.start ∧ c.start = p.start ∧ b.size ≤ c.size) ∨ c = b := by
  rw [Block.lower] at inside
  split at inside
  · rename_i touch
    obtain rfl := mem_singleton.mp inside
    exact .inr (.inl ⟨touch, rfl, Nat.le_add_left ..⟩)
  · rcases mem_pair.mp inside with rfl | rfl
    · exact .inl rfl
    · exact .inr (.inr rfl)

theorem first_lower : first (p.lower b ++ xs) e = p.start := by
  rw [Block.lower]
  split <;> rfl

/-- A free block that is as large as the freed one. -/
theorem exists_mem_lower : ∃ c ∈ p.lower b, b.size ≤ c.size := by
  rw [Block.lower]
  split
  · exact ⟨_, mem_singleton_self _, Nat.le_add_left ..⟩
  · exact ⟨b, by simp, le_refl _⟩

end Lists

/-- The blocks of the free list, with `base` as the first one, and the blocks in use. -/
structure Sound (prog : Program) (h : Heap) (nodes live : List Block) : Prop where
  headed : nodes.head? = some prog.root
  holds : Holds h nodes prog.base
  sorted : nodes.Pairwise Block.Before
  freep : h.freep ∈ nodes.map Block.start
  proper : ∀ b ∈ nodes, b = prog.root ∨ 0 < b.size ∧ b.start % 8 = prog.start % 8
  inUse : ∀ b ∈ live, h.size b.start = b.size ∧ 0 < b.size ∧ b.start % 8 = prog.start % 8
  tiles : Tiles ((nodes ++ live).map Block.span) prog.start h.brk
  start_le : prog.start ≤ h.brk
  brk_lt : h.brk < 2 ^ 32

variable {a nu nunits : Nat} {grant : Nat → Int → Bool}

namespace Sound

variable {prog : Program} {h : Heap} {nodes live below above : List Block} {b p : Block} {c : Block}
  {fuel n prevp : Nat}

section

variable (sound : Sound prog h nodes live)
include sound

theorem inside (isBlock : b ∈ nodes ++ live) (proper : 0 < b.size) :
    prog.start ≤ b.start ∧ b.stop ≤ h.brk := by
  refine sound.tiles.inside (mem_map_of_mem isBlock) ?_
  change b.start < b.start + 8 * b.size
  omega

theorem root_le (isNode : b ∈ nodes) :
    b = prog.root ∨ prog.base < b.start := by
  obtain ⟨rest, rfl⟩ := head?_eq_some_iff.mp sound.headed
  rcases mem_cons.mp isNode with rfl | later
  · exact .inl rfl
  · exact .inr ((pairwise_cons.mp sound.sorted).1 b later)

/-- A live block is above the free ones that begin below it and below the others. -/
theorem apart (isNode : p ∈ nodes) (isLive : b ∈ live) :
    (p.start < b.start → p.stop ≤ b.start) ∧ (b.start < p.start → b.stop ≤ p.start) ∧
      p.start ≠ b.start := by
  have proper := (sound.inUse b isLive).2.1
  have region := sound.inside (mem_append_right _ isLive) proper
  rcases sound.proper p isNode with rfl | ⟨properP, -⟩
  · have := prog.base_below
    unfold Program.root Block.stop
    dsimp only
    omega
  · have apart := sound.tiles.apart
    rw [map_append, pairwise_append] at apart
    have := apart.2.2 p.span (mem_map_of_mem isNode) b.span (mem_map_of_mem isLive)
      (show p.start < p.start + 8 * p.size by omega) (show b.start < b.start + 8 * b.size by omega)
    unfold Span.Apart Block.span Block.stop at this
    unfold Block.stop
    dsimp only at this
    omega

end

/-- The free block after which the loop of `free` ends is the last one below the freed block. -/
theorem stops_iff (sound : Sound prog h (below ++ p :: above) live) (isLive : b ∈ live) :
    h.stops b.start p.start = true ↔ p.start < b.start ∧ ∀ c ∈ above, b.start < c.start := by
  have next := (holds_cons.mp (holds_append.mp sound.holds).2).1.1
  have isNode : p ∈ below ++ p :: above := by simp
  have region := sound.inside (mem_append_right _ isLive) (sound.inUse b isLive).2.1
  have root := prog.base_below
  have low : prog.base ≤ p.start := by
    rcases sound.root_le isNode with rfl | less
    · exact le_refl _
    · exact le_of_lt less
  simp only [Heap.stops, next, decide_eq_true_eq]
  cases above with
  | nil =>
    have same : first [] prog.base = prog.base := rfl
    rw [same]
    simp only [not_mem_nil, false_implies, implies_true, and_true]
    omega
  | cons c above =>
    have same : first (c :: above) prog.base = c.start := rfl
    obtain ⟨-, later, -⟩ := pairwise_append.mp sound.sorted
    obtain ⟨afterP, later⟩ := pairwise_cons.mp later
    have order := afterP c (mem_cons_self ..)
    have afterC := (pairwise_cons.mp later).1
    rw [same]
    unfold Block.Before Block.stop at *
    constructor
    · intro ends
      refine ⟨by omega, fun d inside => ?_⟩
      rcases mem_cons.mp inside with rfl | inside
      · omega
      · have := afterC d inside
        omega
    · rintro ⟨lower, upper⟩
      exact .inl ⟨lower, upper c (mem_cons_self ..)⟩

theorem live_apart (sound : Sound prog h nodes (b :: live)) (isLive : c ∈ live) :
    c.start ≠ b.start := by
  have apart := sound.tiles.apart
  rw [map_append, pairwise_append, map_cons, pairwise_cons] at apart
  have properB := (sound.inUse b (mem_cons_self ..)).2.1
  have properC := (sound.inUse c (mem_cons_of_mem b isLive)).2.1
  have := apart.2.1.1 c.span (mem_map_of_mem isLive)
    (show b.start < b.start + 8 * b.size by omega) (show c.start < c.start + 8 * c.size by omega)
  unfold Span.Apart Block.span Block.stop at this
  dsimp only at this
  omega

/-- A block in use joins the free list after `p`. -/
theorem link (sound : Sound prog h (below ++ p :: above) (b :: live)) (lower : p.start < b.start)
    (upper : ∀ c ∈ above, b.start < c.start) :
    Sound prog { (h.joinUpper b.start p.start).joinLower b.start p.start with freep := p.start }
      (below ++ (p.lower (b.upper above).1 ++ (b.upper above).2)) live := by
  have isLive : b ∈ b :: live := mem_cons_self ..
  have isNode : p ∈ below ++ p :: above := by simp
  have aboveNode : ∀ c ∈ above, c ∈ below ++ p :: above := fun c inside => by simp [inside]
  obtain ⟨sizeB, properB, alignedB⟩ := sound.inUse b isLive
  have regionB := sound.inside (mem_append_right _ isLive) properB
  obtain ⟨holdsBelow, holdsP⟩ := holds_append.mp sound.holds
  obtain ⟨⟨nextP, sizeP⟩, holdsAbove⟩ := holds_cons.mp holdsP
  obtain ⟨sortedBelow, sortedP, belowP⟩ := pairwise_append.mp sound.sorted
  obtain ⟨afterP, sortedAbove⟩ := pairwise_cons.mp sortedP
  have orderP : p.stop ≤ b.start := (sound.apart isNode isLive).1 lower
  have orderAbove : ∀ c ∈ above, b.stop ≤ c.start :=
    fun c inside => (sound.apart (aboveNode c inside) isLive).2.1 (upper c inside)
  have stopAbove : ∀ c ∈ above, c.stop ≤ h.brk := by
    intro c inside
    have low := upper c inside
    rcases sound.proper c (aboveNode c inside) with rfl | ⟨proper, -⟩
    · have := prog.base_below
      unfold Program.root at low
      dsimp only at low
      omega
    · exact (sound.inside (mem_append_left _ (aboveNode c inside)) proper).2
  have brk_lt := sound.brk_lt
  -- The header of `b`.
  obtain ⟨holds₁, same₁⟩ := joinUpper_holds (p := p) holdsAbove sizeB nextP (by omega)
    (by have := prog.base_below; unfold Block.stop; omega)
    (fun c inside => by have := stopAbove c inside; omega)
    fun c inside => ne_of_gt (upper c inside)
  have sorted₁ := upper_sorted sortedAbove orderAbove
  have start₁ : (b.upper above).1.start = b.start := upper_start
  have stop₁ : (b.upper above).1.stop ≤ h.brk := upper_stop_le regionB.2 stopAbove
  -- The header of `p`.
  have others : ∀ c ∈ (b.upper above).1 :: (b.upper above).2, c.start ≠ p.start := by
    intro c inside
    rcases mem_cons.mp inside with rfl | inside
    · rw [start₁]
      omega
    · have := upper c (mem_of_mem_upper inside)
      omega
  obtain ⟨holds₂, same₂⟩ := joinLower_holds (p := p) holds₁
    ((same₁ p.start (by omega)).2.trans sizeP) (by unfold Block.stop at *; omega) (by omega) others
  rw [start₁] at holds₂ same₂
  have sorted₂ := lower_sorted sorted₁ (by rw [start₁]; exact orderP)
  have unchanged : ∀ a, a ≠ b.start → a ≠ p.start →
      ((h.joinUpper b.start p.start).joinLower b.start p.start).next a = h.next a ∧
        ((h.joinUpper b.start p.start).joinLower b.start p.start).size a = h.size a := by
    intro a notB notP
    exact ⟨(same₂ a notP).1.trans (same₁ a notB).1, (same₂ a notP).2.trans (same₁ a notB).2⟩
  have brk : ((h.joinUpper b.start p.start).joinLower b.start p.start).brk = h.brk := by
    unfold Heap.joinLower Heap.joinUpper
    split <;> split <;> rfl
  have startLe : ∀ c ∈ p.lower (b.upper above).1 ++ (b.upper above).2, p.start ≤ c.start := by
    intro c inside
    rcases mem_append.mp inside with inside | inside
    · rcases mem_lower inside with rfl | ⟨-, same, -⟩ | rfl
      · exact le_refl _
      · exact le_of_eq same.symm
      · rw [start₁]
        omega
    · have := upper c (mem_of_mem_upper inside)
      omega
  have notRoot : p.stop = b.start → p ≠ prog.root := by
    rintro touch rfl
    have := prog.base_below
    unfold Program.root Block.stop at touch
    dsimp only at touch
    omega
  refine ⟨?_, ?_, ?_, ?_, ?_, ?_, ?_, ?_, ?_⟩
  · cases below with
    | nil =>
      have isRoot : p = prog.root := Option.some.inj sound.headed
      rw [Block.lower, start₁, if_neg fun touch => notRoot touch isRoot]
      exact sound.headed
    | cons c below => exact sound.headed
  · refine holds_append.mpr ⟨?_, holds₂⟩
    rw [first_lower]
    refine holdsBelow.congr fun c inside => ?_
    have := belowP c inside p (mem_cons_self ..)
    unfold Block.Before Block.stop at this
    exact unchanged c.start (by omega) (by omega)
  · refine pairwise_append.mpr ⟨sortedBelow, sorted₂, fun c isBelow d inside => ?_⟩
    exact lt_of_lt_of_le (belowP c isBelow p (mem_cons_self ..)) (startLe d inside)
  · simp only [map_append, mem_append]
    refine .inr (.inl ?_)
    rw [Block.lower]
    split <;> exact mem_cons_self ..
  · intro c inside
    rcases mem_append.mp inside with inside | inside
    · exact sound.proper c (mem_append_left _ inside)
    · rcases mem_append.mp inside with inside | inside
      · rcases mem_lower inside with rfl | ⟨touch, start, size⟩ | rfl
        · exact sound.proper c isNode
        · rw [start₁] at touch
          have aligned := ((sound.proper p isNode).resolve_left (notRoot touch)).2
          have grows : b.size ≤ (b.upper above).1.size := le_upper_size
          exact .inr ⟨by omega, by rw [start]; exact aligned⟩
        · have grows : b.size ≤ (b.upper above).1.size := le_upper_size
          exact .inr ⟨by omega, by rw [start₁]; exact alignedB⟩
      · exact sound.proper c (aboveNode c (mem_of_mem_upper inside))
  · intro c inside
    obtain ⟨size, rest⟩ := sound.inUse c (mem_cons_of_mem b inside)
    have notP := (sound.apart isNode (mem_cons_of_mem b inside)).2.2
    exact ⟨(unchanged c.start (sound.live_apart inside) notP.symm).2.trans size, rest⟩
  · change Tiles _ prog.start ((h.joinUpper b.start p.start).joinLower b.start p.start).brk
    rw [brk]
    refine sound.tiles.congr fun x => ?_
    have w₁ := weight_upper b above x
    have w₂ := weight_lower p (b.upper above).1 (b.upper above).2 x
    simp only [map_append, map_cons, weight_append, weight_cons] at w₁ w₂ ⊢
    omega
  · exact Nat.le_trans sound.start_le (le_of_eq brk.symm)
  · exact Nat.lt_of_le_of_lt (le_of_eq brk) sound.brk_lt

theorem exists_last {P : Block → Prop} {blocks : List Block} (some : ∃ b ∈ blocks, P b) :
    ∃ below p above, blocks = below ++ p :: above ∧ P p ∧ ∀ c ∈ above, ¬ P c := by
  induction blocks with
  | nil =>
    obtain ⟨b, inside, -⟩ := some
    cases inside
  | cons b blocks ih =>
    by_cases later : ∃ c ∈ blocks, P c
    · obtain ⟨below, p, above, rfl, holds, rest⟩ := ih later
      exact ⟨b :: below, p, above, rfl, holds, rest⟩
    · obtain ⟨c, inside, holds⟩ := some
      obtain rfl : c = b :=
        (mem_cons.mp inside).resolve_right fun inside => later ⟨c, inside, holds⟩
      exact ⟨[], c, blocks, rfl, holds, fun d inside holds => later ⟨d, inside, holds⟩⟩

theorem ring (sound : Sound prog h nodes live) :
    ∃ rest, nodes.map Block.start = prog.base :: rest ∧ Threaded h.next (prog.base :: rest) prog.base ∧
      rest.length + 1 = nodes.length := by
  obtain ⟨rest, rfl⟩ := head?_eq_some_iff.mp sound.headed
  exact ⟨rest.map Block.start, rfl, sound.holds.1, by simp⟩

/-- `free` ends, and the block has joined the free list. -/
theorem free (sound : Sound prog h nodes (b :: live)) (enough : nodes.length ≤ fuel) :
    ∃ nodes' h', h.free fuel (b.start + 8) = some h' ∧ Sound prog h' nodes' live ∧
      nodes'.length ≤ nodes.length + 1 ∧ ∃ c ∈ nodes', b.size ≤ c.size := by
  have isLive : b ∈ b :: live := mem_cons_self ..
  have proper := (sound.inUse b isLive).2.1
  have region := sound.inside (mem_append_right _ isLive) proper
  have brk_lt := sound.brk_lt
  have pointer : (b.start + 8 + 2 ^ 32 - 8) % 2 ^ 32 = b.start := by
    unfold Block.stop at region
    omega
  obtain ⟨rest, isRing, threaded, length⟩ := sound.ring
  have stops : ∃ a ∈ prog.base :: rest, h.stops b.start a = true := by
    have root : prog.root ∈ nodes := mem_of_head? sound.headed
    obtain ⟨below, p, above, rfl, lower, upper⟩ := exists_last
      (P := fun c => c.start < b.start) ⟨prog.root, root, by
        have := prog.base_below
        unfold Program.root
        dsimp only
        omega⟩
    refine ⟨p.start, ?_, (sound.stops_iff isLive).mpr ⟨lower, fun c inside => ?_⟩⟩
    · rw [← isRing]
      simp
    · have other := (sound.apart (p := c) (by simp [inside]) isLive).2.2
      have := upper c inside
      omega
  have start : h.freep ∈ prog.base :: rest := by
    rw [← isRing]
    exact sound.freep
  obtain ⟨a, isNode, stop, found⟩ := seek_ring threaded start stops (n := fuel) (by omega)
  rw [← isRing] at isNode
  obtain ⟨p, isBlock, rfl⟩ := mem_map.mp isNode
  obtain ⟨below, above, rfl⟩ := append_of_mem isBlock
  obtain ⟨lower, upper⟩ := (sound.stops_iff isLive).mp stop
  refine ⟨_, _, ?_, sound.link lower upper, ?_, ?_⟩
  · simp only [Heap.free, pointer, found, Option.bind_eq_bind, Option.bind_some]
  · have fewer : (b.upper above).2.length ≤ above.length := by
      cases above with
      | nil => exact le_refl _
      | cons c above =>
        rw [Block.upper]
        split <;> simp
    have two : (p.lower (b.upper above).1).length ≤ 2 := by
      rw [Block.lower]
      split <;> simp
    simp only [length_append, length_cons]
    omega
  · obtain ⟨c, inside, large⟩ := exists_mem_lower (p := p) (b := (b.upper above).1)
    refine ⟨c, ?_, Nat.le_trans le_upper_size large⟩
    simp [inside]

/-- The block after `p` is taken whole. -/
theorem take_whole (sound : Sound prog h (below ++ p :: c :: above) live) (proper : 0 < c.size) :
    Sound prog { h.setPtr p.start (h.next c.start) with freep := p.start } (below ++ p :: above)
      (c :: live) := by
  have isNode : c ∈ below ++ p :: c :: above := by simp
  obtain ⟨holdsBelow, holdsP⟩ := holds_append.mp sound.holds
  obtain ⟨⟨nextP, sizeP⟩, holdsC⟩ := holds_cons.mp holdsP
  obtain ⟨⟨nextC, sizeC⟩, holdsAbove⟩ := holds_cons.mp holdsC
  have sublist : (below ++ p :: above).Sublist (below ++ p :: c :: above) := by simp
  have starts : ∀ d ∈ below ++ above, d.start ≠ p.start := by
    obtain ⟨-, sortedP, belowP⟩ := pairwise_append.mp sound.sorted
    intro d inside
    rcases mem_append.mp inside with inside | inside
    · have := belowP d inside p (mem_cons_self ..)
      unfold Block.Before Block.stop at this
      omega
    · have := (pairwise_cons.mp sortedP).1 d (mem_cons_of_mem c inside)
      unfold Block.Before Block.stop at this
      omega
  have aligned : c.start % 8 = prog.start % 8 := by
    rcases sound.proper c isNode with rfl | ⟨-, aligned⟩
    · cases proper
    · exact aligned
  refine ⟨?_, ?_, sound.sorted.sublist sublist, by simp,
    fun d inside => sound.proper d (sublist.subset inside), ?_, ?_, sound.start_le, sound.brk_lt⟩
  · cases below with
    | nil => exact sound.headed
    | cons d below => exact sound.headed
  · refine holds_append.mpr ⟨holdsBelow.congr fun d inside => ?_, holds_cons.mpr ⟨⟨?_, ?_⟩,
      holdsAbove.congr fun d inside => ?_⟩⟩
    · have := starts d (mem_append_left _ inside)
      exact ⟨(h.next_setPtr ..).trans (if_neg this), h.size_setPtr ..⟩
    · exact ((h.next_setPtr ..).trans (if_pos rfl)).trans nextC
    · exact (h.size_setPtr ..).trans sizeP
    · have := starts d (mem_append_right _ inside)
      exact ⟨(h.next_setPtr ..).trans (if_neg this), h.size_setPtr ..⟩
  · intro d inside
    rcases mem_cons.mp inside with rfl | inside
    · exact ⟨(h.size_setPtr ..).trans sizeC, proper, aligned⟩
    · exact ⟨(h.size_setPtr ..).trans (sound.inUse d inside).1, (sound.inUse d inside).2⟩
  · refine sound.tiles.congr fun x => ?_
    simp only [map_append, map_cons, weight_append, weight_cons]
    omega

/-- The upper end of the block after `p` is taken. -/
theorem take_end (sound : Sound prog h (below ++ p :: c :: above) live) (pos : 0 < n)
    (less : n < c.size) :
    Sound prog { (h.setSize c.start (c.size - n)).setSize (c.start + 8 * (c.size - n)) n with
        freep := p.start }
      (below ++ p :: ⟨c.start, c.size - n⟩ :: above) (⟨c.start + 8 * (c.size - n), n⟩ :: live) := by
  have isNode : c ∈ below ++ p :: c :: above := by simp
  have aligned : c.start % 8 = prog.start % 8 := by
    rcases sound.proper c isNode with rfl | ⟨-, aligned⟩
    · cases less
    · exact aligned
  have ends : c.stop = c.start + 8 * (c.size - n) + 8 * n := by
    unfold Block.stop
    omega
  -- A header that is not in the span of the block is left alone.
  have size : ∀ a, a < c.start ∨ c.stop ≤ a →
      ((h.setSize c.start (c.size - n)).setSize (c.start + 8 * (c.size - n)) n).size a = h.size a := by
    intro a outside
    rw [Heap.size_setSize, if_neg (by omega), Heap.size_setSize, if_neg (by unfold Block.stop at *; omega)]
  have sizeC : ((h.setSize c.start (c.size - n)).setSize (c.start + 8 * (c.size - n)) n).size c.start =
      c.size - n := by
    rw [Heap.size_setSize, if_neg (by omega), Heap.size_setSize, if_pos rfl]
  have sorted := sound.sorted
  simp only [pairwise_append, pairwise_cons, forall_mem_cons] at sorted
  obtain ⟨sortedBelow, ⟨⟨pc, pAbove⟩, cAbove, sortedAbove⟩, belowRest⟩ := sorted
  have shorter : Block.stop ⟨c.start, c.size - n⟩ ≤ c.stop := by
    unfold Block.stop
    dsimp only
    omega
  refine ⟨?_, ⟨?_, ?_⟩, ?_, by simp, ?_, ?_, ?_, sound.start_le, sound.brk_lt⟩
  · cases below with
    | nil => exact sound.headed
    | cons d below => exact sound.headed
  · have threaded : Threaded h.next ((below ++ p :: c :: above).map Block.start) prog.base :=
      sound.holds.1
    simp only [map_append, map_cons] at threaded ⊢
    refine threaded.congr fun a _ => ?_
    exact (Heap.next_setSize ..).trans (Heap.next_setSize ..)
  · have old := sound.holds.2
    intro d inside
    simp only [mem_append, mem_cons] at inside old
    rcases inside with inside | rfl | rfl | inside
    · refine (size d.start (.inl ?_)).trans (old d (.inl inside))
      exact Nat.lt_of_le_of_lt (Nat.le_add_right ..) (belowRest d inside).2.1
    · refine (size d.start (.inl ?_)).trans (old d (.inr (.inl rfl)))
      exact Nat.lt_of_le_of_lt (Nat.le_add_right ..) pc
    · exact sizeC
    · refine (size d.start (.inr ?_)).trans (old d (.inr (.inr (.inr inside))))
      exact le_of_lt (cAbove d inside)
  · simp only [pairwise_append, pairwise_cons, forall_mem_cons]
    exact ⟨sortedBelow, ⟨⟨pc, pAbove⟩, fun d inside => Nat.lt_of_le_of_lt shorter (cAbove d inside),
      sortedAbove⟩, belowRest⟩
  · intro d inside
    have old := sound.proper d
    simp only [mem_append, mem_cons] at inside old
    rcases inside with inside | rfl | rfl | inside
    · exact old (.inl inside)
    · exact old (.inr (.inl rfl))
    · exact .inr ⟨Nat.sub_pos_of_lt less, aligned⟩
    · exact old (.inr (.inr (.inr inside)))
  · intro d inside
    rcases mem_cons.mp inside with rfl | inside
    · refine ⟨?_, pos, ?_⟩
      · exact (Heap.size_setSize ..).trans (if_pos rfl)
      · dsimp only
        omega
    · refine ⟨(size d.start ?_).trans (sound.inUse d inside).1, (sound.inUse d inside).2⟩
      have := sound.apart isNode inside
      omega
  · refine sound.tiles.congr fun x => ?_
    have lower : Block.span ⟨c.start, c.size - n⟩ = ⟨c.start, c.start + 8 * (c.size - n)⟩ := rfl
    have upper : Block.span ⟨c.start + 8 * (c.size - n), n⟩ = ⟨c.start + 8 * (c.size - n), c.stop⟩ := by
      rw [ends]
      rfl
    have join := weight_join (Nat.le_add_right c.start (8 * (c.size - n)))
      (show c.start + 8 * (c.size - n) ≤ c.stop by omega) [] x
    simp only [map_append, map_cons, weight_append, lower, upper]
    simp only [weight_cons, Block.span] at join ⊢
    omega

section

variable (sound : Sound prog h nodes live)
include sound

theorem take (isNode : prevp ∈ nodes.map Block.start)
    (pos : 0 < n) (large : n ≤ h.size (h.next prevp)) :
    ∃ a nodes' h', h.take prevp (h.next prevp) n = (a + 8, h') ∧
      Sound prog h' nodes' (⟨a, n⟩ :: live) := by
  obtain ⟨p, isBlock, rfl⟩ := mem_map.mp isNode
  obtain ⟨below, above, rfl⟩ := append_of_mem isBlock
  obtain ⟨-, holdsP⟩ := holds_append.mp sound.holds
  obtain ⟨⟨nextP, -⟩, holdsAbove⟩ := holds_cons.mp holdsP
  cases above with
  | nil =>
    -- The block after the last one is `base`, which is empty.
    have root : h.size prog.base = 0 := sound.holds.2 _ (mem_of_head? sound.headed)
    have same : first [] prog.base = prog.base := rfl
    rw [nextP, same, root] at large
    omega
  | cons c above =>
    have sizeC : h.size c.start = c.size := (holds_cons.mp holdsAbove).1.2
    have same : first (c :: above) prog.base = c.start := rfl
    have region := sound.inside (b := c) (by simp)
      (by rw [nextP, same, sizeC] at large; omega)
    have brk_lt := sound.brk_lt
    rw [nextP, same, sizeC] at large
    rw [nextP, same]
    unfold Block.stop at region
    by_cases whole : c.size = n
    · subst whole
      refine ⟨c.start, _, _, ?_, sound.take_whole pos⟩
      rw [Heap.take, if_pos sizeC, plus_eq (by omega)]
    · have less : n < c.size := by omega
      refine ⟨c.start + 8 * (c.size - n), _, _, ?_, sound.take_end pos less⟩
      rw [Heap.take, sizeC, if_neg whole]
      simp only [Heap.size_setSize, if_true]
      rw [plus_eq (p := c.start) (by omega), plus_eq (by omega)]

theorem start_pos (isNode : a ∈ nodes.map Block.start) : a ≠ 0 := by
  obtain ⟨b, isBlock, rfl⟩ := mem_map.mp isNode
  have := prog.base_pos
  rcases sound.root_le isBlock with rfl | above
  · exact ne_of_gt this
  · omega

theorem block_cases (isBlock : b ∈ nodes ++ live) :
    b = prog.root ∨ 0 < b.size ∧ b.start % 8 = prog.start % 8 := by
  rcases mem_append.mp isBlock with isNode | isLive
  · exact sound.proper b isNode
  · exact .inr (sound.inUse b isLive).2

/-- The break is the end of a block. -/
theorem brk_aligned : h.brk % 8 = prog.start % 8 := by
  by_cases empty : h.brk = prog.start
  · rw [empty]
  · have := sound.start_le
    obtain ⟨s, inside, lower, upper⟩ := sound.tiles.covers (x := h.brk - 1) (by omega) (by omega)
    obtain ⟨b, isBlock, rfl⟩ := mem_map.mp inside
    unfold Block.span Block.stop at lower upper
    dsimp only at lower upper
    rcases sound.block_cases isBlock with rfl | ⟨proper, aligned⟩
    · unfold Program.root at lower upper
      dsimp only at lower upper
      omega
    · have region := sound.inside isBlock proper
      unfold Block.stop at region
      omega

/-- What `sbrk` gives is a block in use. -/
theorem extend (pos : 0 < nu) (fits : h.brk + 8 * nu < 2 ^ 32) :
    Sound prog ({ h with brk := h.brk + 8 * nu }.setSize h.brk nu) nodes (⟨h.brk, nu⟩ :: live) := by
  have sizes : ∀ b ∈ nodes ++ live, ({ h with brk := h.brk + 8 * nu }.setSize h.brk nu).size b.start =
      h.size b.start := by
    intro b isBlock
    refine (Heap.size_setSize ..).trans (if_neg ?_)
    change b.start ≠ h.brk
    rcases sound.block_cases isBlock with rfl | ⟨proper, -⟩
    · have := prog.base_below
      have := sound.start_le
      unfold Program.root
      dsimp only
      omega
    · have region := sound.inside isBlock proper
      unfold Block.stop at region
      omega
  refine ⟨sound.headed, ⟨sound.holds.1.congr fun a _ => Heap.next_setSize .., fun b isNode => ?_⟩,
    sound.sorted, sound.freep, sound.proper, ?_, ?_, ?_, fits⟩
  · exact (sizes b (mem_append_left _ isNode)).trans (sound.holds.2 b isNode)
  · intro b inside
    rcases mem_cons.mp inside with rfl | inside
    · exact ⟨(Heap.size_setSize ..).trans (if_pos rfl), pos, sound.brk_aligned⟩
    · exact ⟨(sizes b (mem_append_right _ inside)).trans (sound.inUse b inside).1,
        (sound.inUse b inside).2⟩
  · refine (sound.tiles.cons sound.start_le (Nat.le_add_right ..)).congr fun x => ?_
    simp only [map_append, map_cons, weight_append, weight_cons, Block.span, Block.stop]
    omega
  · exact Nat.le_trans sound.start_le (Nat.le_add_right ..)

theorem morecore (grant : Nat → Int → Bool)
    (range : 8 * nu < 2 ^ 31) (enough : nodes.length ≤ fuel) :
    ∃ r h', h.morecore grant fuel nu = some (r, h') ∧
      (r = 0 ∧ h' = h ∨ r ≠ 0 ∧ r = h'.freep ∧ ∃ nodes', Sound prog h' nodes' live ∧
        nodes'.length ≤ nodes.length + 1 ∧ ∃ c ∈ nodes', nu ≤ c.size) := by
  obtain ⟨n, isMax, atLeast, pos, range⟩ : ∃ n, (if nu < 4096 then 4096 else nu) = n ∧ nu ≤ n ∧ 0 < n ∧
      8 * n < 2 ^ 31 := by
    split
    · exact ⟨_, rfl, by omega, by decide, by decide⟩
    · exact ⟨_, rfl, le_refl _, by omega, range⟩
  have request : Int.bmod (n * 8) (2 ^ 32) = (8 * n : Nat) := by
    unfold Int.bmod
    dsimp only
    split <;> omega
  unfold Heap.morecore
  simp only [isMax, request, Heap.sbrk]
  by_cases granted : grant h.brk (8 * n : Nat) ∧ 0 ≤ (h.brk : Int) + (8 * n : Nat) ∧
      (h.brk : Int) + (8 * n : Nat) < 2 ^ 32
  · have fits : h.brk + 8 * n < 2 ^ 32 := by
      have := granted.2.2
      omega
    have extended := sound.extend pos fits
    obtain ⟨nodes', h', run, sound', length, c, isNode, large⟩ := extended.free enough
    refine ⟨h'.freep, h', ?_, .inr ⟨sound'.start_pos sound'.freep, rfl, nodes', sound', length, c, isNode,
      Nat.le_trans atLeast large⟩⟩
    have address : h.brk ≠ 2 ^ 32 - 1 := by omega
    have toNat : ((h.brk : Int) + (8 * n : Nat)).toNat = h.brk + 8 * n := by omega
    rw [if_pos granted]
    simp only [address, if_false, toNat, plus_eq (p := h.brk) (n := 1) (by omega)]
    simp only [mul_one, run, Option.bind_eq_bind, Option.bind_some]
  · rw [if_neg granted]
    exact ⟨0, h, rfl, .inl ⟨rfl, rfl⟩⟩

end

/-- One round of the loop of `malloc` along the rest of the ring, up to `freep`: it takes a block, or all
are too small. -/
theorem search_round (ys : List Nat)
    (threaded : Threaded h.next (prevp :: ys) h.freep) (others : h.freep ∉ ys) :
    (∃ a ∈ prevp :: ys, nunits ≤ h.size (h.next a) ∧
      Heap.search grant nunits (ys.length + 1 + n) h prevp (h.next prevp) =
        some (h.take a (h.next a) nunits)) ∨ (∀ y ∈ h.freep :: ys, h.size y < nunits) ∧
      Heap.search grant nunits (ys.length + 1 + n) h prevp (h.next prevp) =
        (h.morecore grant n nunits).bind fun r =>
          if r.1 = 0 then some (0, r.2) else Heap.search grant nunits n r.2 r.1 (r.2.next r.1) := by
  induction ys generalizing prevp with
  | nil =>
    have next : h.next prevp = h.freep := threaded.1
    rw [length_nil, zero_add, add_comm 1 n, Heap.search]
    by_cases large : nunits ≤ h.size (h.next prevp)
    · exact .inl ⟨prevp, mem_cons_self .., large, if_pos large⟩
    · rw [if_neg large, if_pos next]
      rw [next] at large
      refine .inr ⟨fun y inside => ?_, rfl⟩
      obtain rfl := mem_singleton.mp inside
      omega
  | cons y ys ih =>
    have next : h.next prevp = y := threaded.1
    have fuel : (y :: ys).length + 1 + n = ys.length + 1 + n + 1 := by
      rw [length_cons]
      omega
    have notLast : h.freep ≠ y := fun same => others (same ▸ mem_cons_self ..)
    rw [fuel, Heap.search]
    by_cases large : nunits ≤ h.size (h.next prevp)
    · exact .inl ⟨prevp, mem_cons_self .., large, if_pos large⟩
    · rw [if_neg large, next, if_neg (Ne.symm notLast)]
      rw [next] at large
      rcases ih threaded.2 fun inside => others (mem_cons_of_mem y inside) with
        ⟨a, inside, found⟩ | ⟨small, more⟩
      · exact .inl ⟨a, mem_cons_of_mem prevp inside, found⟩
      · refine .inr ⟨fun z inside => ?_, more⟩
        rcases mem_cons.mp inside with rfl | inside
        · exact small _ (mem_cons_self ..)
        · rcases mem_cons.mp inside with rfl | inside
          · omega
          · exact small z (mem_cons_of_mem _ inside)

section

variable (sound : Sound prog h nodes live)
include sound

/-- The ring from `freep` on. -/
theorem entered :
    ∃ ys, Threaded h.next (h.freep :: ys) h.freep ∧ h.freep ∉ ys ∧ ys.length + 1 = nodes.length ∧
      ∀ a, a ∈ h.freep :: ys ↔ a ∈ nodes.map Block.start := by
  obtain ⟨rest, isRing, threaded, length⟩ := sound.ring
  have nodup : (nodes.map Block.start).Nodup := by
    rw [List.Nodup, pairwise_map]
    refine sound.sorted.imp fun {b c} before => ?_
    unfold Block.Before Block.stop at before
    omega
  have start := sound.freep
  rw [isRing] at start nodup ⊢
  obtain ⟨ys, entered, perm⟩ := threaded.enter start
  refine ⟨ys, entered, (nodup_cons.mp (perm.nodup_iff.mpr nodup)).1, ?_, fun a => perm.mem_iff⟩
  exact perm.length_eq.trans length

/-- The loop finds a block when there is one. -/
theorem search_found (grant : Nat → Int → Bool) (pos : 0 < n)
    (large : ∃ c ∈ nodes, n ≤ c.size) (enough : nodes.length ≤ fuel) :
    ∃ a nodes' h', Heap.search grant n fuel h h.freep (h.next h.freep) = some (a + 8, h') ∧
      Sound prog h' nodes' (⟨a, n⟩ :: live) := by
  obtain ⟨ys, threaded, others, length, same⟩ := sound.entered
  obtain ⟨m, rfl⟩ : ∃ m, fuel = ys.length + 1 + m := ⟨fuel - (ys.length + 1), by omega⟩
  rcases search_round ys threaded others with ⟨a, inside, large, found⟩ | ⟨small, -⟩
  · obtain ⟨b, nodes', h', taken, sound'⟩ := sound.take ((same a).mp inside) pos large
    exact ⟨b, nodes', h', found.trans (congrArg some taken), sound'⟩
  · obtain ⟨c, isNode, large⟩ := large
    have := small c.start ((same c.start).mpr (mem_map_of_mem isNode))
    rw [sound.holds.2 c isNode] at this
    omega

/-- The loop ends with a block, or with nothing when `sbrk` fails. -/
theorem search (grant : Nat → Int → Bool) (pos : 0 < n)
    (range : 8 * n < 2 ^ 31) (enough : 2 * nodes.length + 1 ≤ fuel) :
    ∃ r nodes' h', Heap.search grant n fuel h h.freep (h.next h.freep) = some (r, h') ∧
      (r = 0 ∧ Sound prog h' nodes' live ∨ ∃ a, r = a + 8 ∧ Sound prog h' nodes' (⟨a, n⟩ :: live)) := by
  obtain ⟨ys, threaded, others, length, same⟩ := sound.entered
  obtain ⟨m, rfl⟩ : ∃ m, fuel = ys.length + 1 + m := ⟨fuel - (ys.length + 1), by omega⟩
  rcases search_round ys threaded others with ⟨a, inside, large, found⟩ | ⟨-, more⟩
  · obtain ⟨b, nodes', h', taken, sound'⟩ := sound.take ((same a).mp inside) pos large
    exact ⟨b + 8, nodes', h', found.trans (congrArg some taken), .inr ⟨b, rfl, sound'⟩⟩
  · obtain ⟨r, h₁, got, refused | ⟨notNull, isFreep, nodes₁, sound₁, length₁, large⟩⟩ :
        ∃ r h', h.morecore grant m n = some (r, h') ∧ _ := sound.morecore grant range (by omega)
    · obtain ⟨rfl, rfl⟩ := refused
      refine ⟨0, nodes, h₁, ?_, .inl ⟨rfl, sound⟩⟩
      rw [more, got]
      rfl
    · subst isFreep
      obtain ⟨a, nodes', h', found, sound'⟩ : ∃ a nodes' h', Heap.search grant n m h₁ h₁.freep _ = _ ∧ _ :=
        sound₁.search_found grant pos large (by omega)
      refine ⟨a + 8, nodes', h', ?_, .inr ⟨a, rfl, sound'⟩⟩
      rw [more, got]
      exact (if_neg notNull).trans found

end

end Sound

namespace Heap

variable {grant : Nat → Int → Bool} {h h' : Heap} {n : Nat} {r : Nat × Heap}

theorem free_succ {ap : Nat} (run : h.free n ap = some h') : h.free (n + 1) ap = some h' := by
  simp only [free, Option.bind_eq_bind, Option.bind_eq_some_iff] at run ⊢
  obtain ⟨p, found, done⟩ := run
  exact ⟨p, seek_succ found, done⟩

theorem morecore_succ (run : h.morecore grant n nu = some r) :
    h.morecore grant (n + 1) nu = some r := by
  unfold morecore at run ⊢
  generalize (if nu < 4096 then 4096 else nu) = m at run ⊢
  dsimp only at run ⊢
  generalize h.sbrk grant (Int.bmod (m * 8) (2 ^ 32)) = answer at run ⊢
  by_cases failed : answer.1 = 2 ^ 32 - 1
  · rw [if_pos failed] at run ⊢
    exact run
  · rw [if_neg failed] at run ⊢
    obtain ⟨h₁, freed, done⟩ := Option.bind_eq_some_iff.mp run
    exact Option.bind_eq_some_iff.mpr ⟨h₁, free_succ freed, done⟩

theorem search_succ {prevp p : Nat} (run : search grant nunits n h prevp p = some r) :
    search grant nunits (n + 1) h prevp p = some r := by
  induction n generalizing h prevp p with
  | zero => cases run
  | succ n ih =>
    rw [search] at run ⊢
    split
    · rename_i large
      rwa [if_pos large] at run
    · rename_i small
      rw [if_neg small] at run
      split
      · rename_i last
        rw [if_pos last] at run
        obtain ⟨⟨q, h₁⟩, got, rest⟩ := Option.bind_eq_some_iff.mp run
        refine Option.bind_eq_some_iff.mpr ⟨⟨q, h₁⟩, morecore_succ got, ?_⟩
        dsimp only at rest ⊢
        split
        · rename_i null
          rwa [if_pos null] at rest
        · rename_i notNull
          rw [if_neg notNull] at rest
          exact ih rest
      · rename_i notLast
        rw [if_neg notLast] at run
        exact ih run

end Heap

/-- A loop that ends has one result, however long one waits. -/
theorem eq_of_succ {α : Type} {f : Nat → Option α} (succ : ∀ n x, f n = some x → f (n + 1) = some x)
    {x : α} (run : f m = some x) (le : m ≤ n) : f n = some x := by
  induction le with
  | refl => exact run
  | step _ ih => exact succ _ x ih

/-- The units `malloc` needs for a request. -/
def units (nbytes : Nat) : Nat := (nbytes + 7) / 8 + 1

/-- The heap with the blocks in use. -/
structure State where
  heap : Heap
  live : List Block

def State.start (prog : Program) (mem : Nat → Header) : State :=
  ⟨{ mem := mem, freep := 0, brk := prog.start }, []⟩

inductive Act
  | malloc (nbytes r : Nat)
  | free (b : Block)
  | store

/-- A program calls `malloc`, frees a block it has, or writes to its blocks. -/
inductive Step (prog : Program) : State → Act → State → Prop
  | malloc {s : State} {grant : Nat → Int → Bool} {nbytes fuel r : Nat} {h : Heap}
      (range : 8 * units nbytes < 2 ^ 31)
      (run : s.heap.malloc prog.base grant fuel nbytes = some (r, h)) :
      Step prog s (.malloc nbytes r)
        ⟨h, if r = 0 then s.live else ⟨r - 8, units nbytes⟩ :: s.live⟩
  | free {s : State} {b : Block} {fuel : Nat} {h : Heap} (isLive : b ∈ s.live)
      (run : s.heap.free fuel (b.start + 8) = some h) : Step prog s (.free b) ⟨h, s.live.erase b⟩
  | store {s : State} {mem : Nat → Header}
      (inside : ∀ a, (∀ b ∈ s.live, ¬ (b.start + 8 ≤ a ∧ a < b.stop)) → mem a = s.heap.mem a) :
      Step prog s .store ⟨{ s.heap with mem := mem }, s.live⟩

/-- Before the first call of `malloc` there is no list. -/
def Invariant (prog : Program) (s : State) : Prop :=
  (s.heap.freep = 0 ∧ s.live = [] ∧ s.heap.brk = prog.start) ∨ ∃ nodes, Sound prog s.heap nodes s.live

section Runs

variable {prog : Program} {s : State} {h : Heap} {nbytes : Nat} {nodes live : List Block}
  {mem : Nat → Header}

/-- The list that the first call of `malloc` sets up. -/
theorem sound_root (brk : h.brk = prog.start) :
    Sound prog { (h.setPtr prog.base prog.base).setSize prog.base 0 with freep := prog.base }
      [prog.root] [] := by
  refine ⟨rfl, holds_cons.mpr ⟨⟨?_, ?_⟩, holds_nil⟩, pairwise_singleton _ _,
    mem_singleton_self _, fun b inside => .inl (mem_singleton.mp inside), nofun, fun x => ?_,
    le_of_eq brk.symm, ?_⟩
  · exact (Heap.next_setSize ..).trans ((Heap.next_setPtr ..).trans (if_pos rfl))
  · exact (Heap.size_setSize ..).trans (if_pos rfl)
  · change weight [prog.root.span] x = if prog.start ≤ x ∧ x < h.brk then 1 else 0
    rw [weight_cons, weight_nil, if_neg, if_neg]
    · omega
    · unfold Program.root Block.span Block.stop
      dsimp only
      omega
  · change h.brk < 2 ^ 32
    rw [brk]
    exact prog.start_lt

/-- `malloc` ends, with a block or without. -/
theorem Invariant.malloc (inv : Invariant prog s) (grant : Nat → Int → Bool)
    (range : 8 * units nbytes < 2 ^ 31) :
    ∃ r h fuel, (∀ n, fuel ≤ n → s.heap.malloc prog.base grant n nbytes = some (r, h)) ∧
      ∃ nodes, r = 0 ∧ Sound prog h nodes s.live ∨
        ∃ a, r = a + 8 ∧ Sound prog h nodes (⟨a, units nbytes⟩ :: s.live) := by
  have nunits : (nbytes + 8 - 1) % 2 ^ 32 / 8 + 1 = units nbytes := by
    unfold units at range ⊢
    omega
  obtain ⟨h, nodes, sound, same⟩ : ∃ h nodes, Sound prog h nodes s.live ∧
      (if s.heap.freep = 0 then
        { (s.heap.setPtr prog.base prog.base).setSize prog.base 0 with freep := prog.base }
      else s.heap) = h := by
    rcases inv with ⟨null, live, brk⟩ | ⟨nodes, sound⟩
    · refine ⟨_, [prog.root], ?_, if_pos null⟩
      rw [live]
      exact sound_root brk
    · exact ⟨_, nodes, sound, if_neg (sound.start_pos sound.freep)⟩
  obtain ⟨r, nodes', h', run, outcome⟩ : ∃ r nodes' h', Heap.search grant (units nbytes) _ h _ _ = _ ∧ _ :=
    sound.search grant (succ_pos _) range (le_refl _)
  refine ⟨r, h', 2 * nodes.length + 1, fun n le => ?_, nodes', outcome⟩
  simp only [Heap.malloc, nunits, same]
  exact eq_of_succ (f := fun n => Heap.search grant (units nbytes) n h h.freep (h.next h.freep))
    (fun n x => Heap.search_succ) run le

/-- What a call of `malloc` that ends leaves behind. -/
theorem Invariant.malloc_outcome (inv : Invariant prog s) {fuel r : Nat}
    (range : 8 * units nbytes < 2 ^ 31)
    (run : s.heap.malloc prog.base grant fuel nbytes = some (r, h)) :
    ∃ nodes, r = 0 ∧ Sound prog h nodes s.live ∨
      ∃ a, r = a + 8 ∧ Sound prog h nodes (⟨a, units nbytes⟩ :: s.live) := by
  obtain ⟨r', h', fuel', ends, outcome⟩ := inv.malloc grant range
  have later := eq_of_succ (f := fun n => s.heap.malloc prog.base grant n nbytes)
    (fun n x => Heap.search_succ) run (le_max_left fuel fuel')
  have same : (r, h) = (r', h') :=
    Option.some.inj (later.symm.trans (ends _ (le_max_right fuel fuel')))
  cases same
  exact outcome

/-- `free` of a block in use ends. -/
theorem Invariant.free (inv : Invariant prog s) {b : Block} (isLive : b ∈ s.live) :
    ∃ h fuel, (∀ n, fuel ≤ n → s.heap.free n (b.start + 8) = some h) ∧
      ∃ nodes, Sound prog h nodes (s.live.erase b) := by
  rcases inv with ⟨-, live, -⟩ | ⟨nodes, sound⟩
  · rw [live] at isLive
    cases isLive
  · have perm := perm_cons_erase isLive
    have sound : Sound prog s.heap nodes (b :: s.live.erase b) :=
      { sound with
        inUse := fun c inside => sound.inUse c (perm.mem_iff.mpr inside)
        tiles := sound.tiles.congr fun x =>
          (weight_perm ((perm.append_left nodes).map Block.span) x).symm }
    obtain ⟨nodes', h, run, sound', -⟩ := sound.free (le_refl _)
    refine ⟨h, nodes.length, fun n le => ?_, nodes', sound'⟩
    exact eq_of_succ (f := fun n => s.heap.free n (b.start + 8)) (fun n x => Heap.free_succ) run le

/-- Neither block has a unit of the other. -/
def Block.Apart (b c : Block) : Prop := b.stop ≤ c.start ∨ c.stop ≤ b.start

theorem Sound.disjoint (sound : Sound prog h nodes live) :
    (nodes ++ live).Pairwise fun b c => 0 < b.size → 0 < c.size → b.Apart c := by
  refine (pairwise_map.mp sound.tiles.apart).imp fun {b c} apart properB properC => ?_
  exact apart (show b.start < b.start + 8 * b.size by omega) (show c.start < c.start + 8 * c.size by omega)

/-- Writing to the blocks in use leaves every header alone. -/
theorem Sound.store (sound : Sound prog h nodes live)
    (inside : ∀ a, (∀ b ∈ live, ¬ (b.start + 8 ≤ a ∧ a < b.stop)) → mem a = h.mem a) :
    Sound prog { h with mem := mem } nodes live := by
  have apart : ∀ b ∈ nodes ++ live, ∀ c ∈ live, ¬ (c.start + 8 ≤ b.start ∧ b.start < c.stop) := by
    intro b isBlock c isLive
    rcases mem_append.mp isBlock with isNode | isLive'
    · have := sound.apart isNode isLive
      unfold Block.stop at *
      omega
    · by_cases same : b = c
      · rw [same]
        omega
      · have properB := (sound.inUse b isLive').2.1
        have properC := (sound.inUse c isLive).2.1
        have symm : Std.Symm fun b c : Block => 0 < b.size → 0 < c.size → b.Apart c :=
          ⟨fun b c apart properC properB => Or.symm (apart properB properC)⟩
        have := sound.disjoint.forall isBlock (mem_append_right _ isLive) same properB properC
        unfold Block.Apart Block.stop at *
        omega
  have header : ∀ b ∈ nodes ++ live, mem b.start = h.mem b.start :=
    fun b isBlock => inside b.start (apart b isBlock)
  refine { sound with holds := sound.holds.congr fun b isNode => ?_, inUse := fun b isLive => ?_ }
  · have same := header b (mem_append_left _ isNode)
    exact ⟨congrArg Header.ptr same, congrArg Header.size same⟩
  · have same := header b (mem_append_right _ isLive)
    exact ⟨(congrArg Header.size same).trans (sound.inUse b isLive).1, (sound.inUse b isLive).2⟩

theorem Invariant.step {s' : State} {a : Act} (inv : Invariant prog s) (step : Step prog s a s') :
    Invariant prog s' := by
  cases step with
  | @malloc grant nbytes fuel r h range run =>
    obtain ⟨nodes, outcome⟩ := inv.malloc_outcome range run
    refine .inr ⟨nodes, ?_⟩
    rcases outcome with ⟨rfl, sound⟩ | ⟨a, rfl, sound⟩
    · exact sound
    · exact sound
  | @free b fuel h isLive run =>
    obtain ⟨h', fuel', ends, nodes, sound⟩ := inv.free isLive
    have same : h = h' := by
      have later := eq_of_succ (f := fun n => s.heap.free n (b.start + 8))
        (fun n x => Heap.free_succ) run (le_max_left fuel fuel')
      exact Option.some.inj (later.symm.trans (ends _ (le_max_right fuel fuel')))
    subst same
    exact .inr ⟨nodes, sound⟩
  | store inside =>
    rcases inv with ⟨null, live, brk⟩ | ⟨nodes, sound⟩
    · exact .inl ⟨null, live, brk⟩
    · exact .inr ⟨nodes, sound.store inside⟩

theorem Invariant.of_run {acts : List Act} (run : Lts.Run (Step prog) (.start prog mem) acts s) :
    Invariant prog s :=
  run.invariant (fun _ _ _ inv step => inv.step step) (.inl ⟨rfl, rfl, rfl⟩)

/-- The free list is a ring through `base` in address order, and the free and the live blocks are
disjoint and cover what `sbrk` has given. -/
structure Consistent (prog : Program) (h : Heap) (free live : List Block) : Prop where
  ring : Threaded h.next (prog.base :: free.map Block.start) prog.base
  ordered : (prog.base :: free.map Block.start).Pairwise (· < ·)
  entry : h.freep ∈ prog.base :: free.map Block.start
  sizes : h.size prog.base = 0 ∧ ∀ b ∈ free ++ live, h.size b.start = b.size
  disjoint : (free ++ live).Pairwise Block.Apart
  separate : ∀ b ∈ free, ∀ c ∈ free, b.stop ≠ c.start
  inside : ∀ b ∈ free ++ live, prog.start ≤ b.start ∧ b.start < b.stop ∧ b.stop ≤ h.brk
  covers : ∀ x, prog.start ≤ x → x < h.brk → ∃ b ∈ free ++ live, b.start ≤ x ∧ x < b.stop

/-- The pointer `r` is to a block of its own with `nbytes` bytes after the header. -/
def Serves (prog : Program) (h : Heap) (live : List Block) (r nbytes : Nat) : Prop :=
  ∃ b : Block, r = b.start + 8 ∧ r + nbytes ≤ b.stop ∧ prog.start ≤ b.start ∧ b.stop ≤ h.brk ∧
    h.size b.start = b.size ∧ ∀ c ∈ live, b.Apart c

theorem Sound.consistent (sound : Sound prog h nodes live) :
    ∃ free, Consistent prog h free live := by
  obtain ⟨free, rfl⟩ := head?_eq_some_iff.mp sound.headed
  obtain ⟨aboveRoot, sortedFree⟩ := pairwise_cons.mp sound.sorted
  have root : prog.root ∈ prog.root :: free := mem_cons_self ..
  have proper : ∀ b ∈ free ++ live, 0 < b.size := by
    intro b inside
    rcases mem_append.mp inside with isFree | isLive
    · rcases sound.proper b (mem_cons_of_mem _ isFree) with rfl | ⟨proper, -⟩
      · exact absurd (aboveRoot _ isFree) (lt_irrefl _)
      · exact proper
    · exact (sound.inUse b isLive).2.1
  refine ⟨free, sound.holds.1, ?_, sound.freep, ⟨sound.holds.2 _ root, fun b inside => ?_⟩, ?_, ?_, ?_, ?_⟩
  · refine (pairwise_map (f := Block.start) (l := prog.root :: free)).mpr ?_
    exact sound.sorted.imp fun before => Nat.lt_of_le_of_lt (Nat.le_add_right ..) before
  · rcases mem_append.mp inside with isFree | isLive
    · exact sound.holds.2 b (mem_cons_of_mem _ isFree)
    · exact (sound.inUse b isLive).1
  · refine (pairwise_cons.mp sound.disjoint).2.imp_of_mem fun {b c} isB isC apart => ?_
    exact apart (proper b isB) (proper c isC)
  · have symm : Std.Symm fun b c : Block => b.stop ≠ c.start ∧ c.stop ≠ b.start :=
      ⟨fun b c separate => ⟨separate.2, separate.1⟩⟩
    have all : ∀ b ∈ free, ∀ c ∈ free, b.stop ≠ c.start ∧ c.stop ≠ b.start := by
      refine List.Pairwise.forall_of_forall (fun b isFree => ?_) (sortedFree.imp fun {b c} before => ?_)
      · have := proper b (mem_append_left _ isFree)
        unfold Block.stop
        omega
      · unfold Block.Before Block.stop at *
        omega
    exact fun b isB c isC => (all b isB c isC).1
  · intro b inside
    have pos := proper b inside
    obtain ⟨lower, upper⟩ := sound.inside (mem_cons_of_mem _ inside) pos
    exact ⟨lower, show b.start < b.start + 8 * b.size by omega, upper⟩
  · intro x lower upper
    obtain ⟨s, isSpan, low, high⟩ := sound.tiles.covers lower upper
    obtain ⟨b, isBlock, rfl⟩ := mem_map.mp isSpan
    rcases mem_cons.mp isBlock with rfl | isBlock
    · exact absurd (Nat.lt_of_le_of_lt low high) (lt_irrefl _)
    · exact ⟨b, isBlock, low, high⟩

theorem Sound.serves (sound : Sound prog h nodes (⟨a, units nbytes⟩ :: live)) :
    Serves prog h live (a + 8) nbytes := by
  have isLive : (⟨a, units nbytes⟩ : Block) ∈ ⟨a, units nbytes⟩ :: live := mem_cons_self ..
  obtain ⟨size, proper, -⟩ := sound.inUse _ isLive
  obtain ⟨lower, upper⟩ := sound.inside (mem_append_right _ isLive) proper
  refine ⟨⟨a, units nbytes⟩, rfl, ?_, lower, upper, size, fun c isLive' => ?_⟩
  · unfold Block.stop units
    dsimp only
    omega
  · have apart := (pairwise_append.mp sound.disjoint).2.1
    exact (pairwise_cons.mp apart).1 c isLive' proper
      (sound.inUse c (mem_cons_of_mem _ isLive')).2.1

/-- In every run of `malloc`, `free` and stores to the blocks in use: the free list and the live blocks
are consistent, every call ends, and what `malloc` returns is null or serves the request. -/
theorem heap_consistent {mem : Nat → Header} {acts : List Act}
    (run : Lts.Run (Step prog) (.start prog mem) acts s) :
    ((s.heap.freep = 0 ∧ s.live = [] ∧ s.heap.brk = prog.start) ∨
      ∃ free, Consistent prog s.heap free s.live) ∧
    (∀ grant nbytes, 8 * units nbytes < 2 ^ 31 →
      ∃ r h fuel, (∀ n, fuel ≤ n → s.heap.malloc prog.base grant n nbytes = some (r, h)) ∧
        (r ≠ 0 → Serves prog h s.live r nbytes)) ∧
    ∀ b ∈ s.live, ∃ h fuel, ∀ n, fuel ≤ n → s.heap.free n (b.start + 8) = some h := by
  have inv := Invariant.of_run run
  refine ⟨?_, fun grant nbytes range => ?_, fun b isLive => ?_⟩
  · rcases inv with fresh | ⟨nodes, sound⟩
    · exact .inl fresh
    · exact .inr sound.consistent
  · obtain ⟨r, h, fuel, ends, nodes, outcome⟩ := inv.malloc grant range
    refine ⟨r, h, fuel, ends, fun notNull => ?_⟩
    rcases outcome with ⟨null, -⟩ | ⟨a, rfl, sound⟩
    · exact absurd null notNull
    · exact sound.serves
  · obtain ⟨h, fuel, ends, -⟩ := inv.free isLive
    exact ⟨h, fuel, ends⟩

/-- A program that asks for 100 bytes and may then free them. -/
theorem heap_consistent_one_block :
    ∃ prog : Program, ∃ s free, Lts.Run (Step prog) (.start prog fun _ => ⟨0, 0⟩) [.malloc 100 49048] s ∧
      s.live = [⟨49040, 14⟩] ∧ Consistent prog s.heap free s.live ∧
      ∃ h fuel, ∀ n, fuel ≤ n → s.heap.free n 49048 = some h := by
  let prog : Program := ⟨0x1000, 0x4000, by decide, by decide, by decide⟩
  have result : (Heap.malloc 0x1000 (fun _ _ => true) 4 ⟨fun _ => ⟨0, 0⟩, 0, 0x4000⟩ 100).map Prod.fst =
      some 49048 := by decide +kernel
  obtain ⟨⟨r, h⟩, run, same⟩ := Option.map_eq_some_iff.mp result
  dsimp only at same
  subst same
  have step : Step prog (.start prog fun _ => ⟨0, 0⟩) (.malloc 100 49048)
      ⟨h, if 49048 = 0 then [] else [⟨49048 - 8, units 100⟩]⟩ := .malloc (by decide) run
  have live : (if 49048 = 0 then [] else [(⟨49048 - 8, units 100⟩ : Block)]) = [⟨49040, 14⟩] := by decide
  rw [live] at step
  have steps : Lts.Run (Step prog) _ [.malloc 100 49048] _ := .snoc (.nil _) step
  obtain ⟨consistent, -, frees⟩ := heap_consistent steps
  obtain ⟨free, consistent⟩ := consistent.resolve_left fun fresh => by cases fresh.2.1
  have ends := frees _ (List.mem_singleton_self _)
  exact ⟨prog, _, free, steps, rfl, consistent, ends⟩

end Runs

end Xv6.Umalloc
