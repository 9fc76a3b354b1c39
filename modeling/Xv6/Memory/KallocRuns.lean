import Xv6.Memory.Kalloc

/-!
Whole runs of the page allocator.

A run starts from zeroed data and applies the allocator's entry points in any
order, the two initialisation calls of `main` at most once each. The history
records which pages were handed to `freerange` and which are currently out, by
the calls alone, so that the counts can be compared with it. References are
added to pages that are out; the count is a C `int`, and the results hold as
long as it does not overflow.
-/

namespace Xv6

open LinkChain List

inductive KOp where
  | kinit1
  | kinit2
  | kalloc
  | kfree (v : Nat)
  | incrementReferences (v : Nat)
  | decrementReferencesAndGetPrevVal (v : Nat)
  deriving DecidableEq, Repr

/-- The allocator with the pages ever passed to `freerange` and the pages that
`kalloc` returned and `kfree` has not taken back. -/
structure History where
  km : Kmem
  given : Finset Nat
  allocated : Finset Nat

def History.start : History := ⟨.zeroed, ∅, ∅⟩

/-- The pages `freerange(vstart, vend)` passes to `_kfree`. -/
def freerangeFrames (vstart vend : Nat) : Finset Nat :=
  (Finset.range (freerangeCount vstart vend)).image
    (fun j => frameOf (PGROUNDUP vstart + j * PGSIZE))

def History.step (cfg : Config) (h : History) : KOp → Res History
  | .kinit1 => do
    let km ← kinit1 cfg h.km
    .ok { h with
      km := km
      given := h.given ∪ freerangeFrames cfg.kernelEnd (P2V (4 * 1024 * 1024)) }
  | .kinit2 => do
    let km ← kinit2 cfg h.km
    .ok { h with
      km := km
      given := h.given ∪ freerangeFrames (P2V (4 * 1024 * 1024)) (P2V PHYSTOP) }
  | .kalloc =>
    match kalloc h.km with
    | (none, km) => .ok { h with km := km }
    | (some v, km) => .ok { h with km := km, allocated := insert (frameOf v) h.allocated }
  | .kfree v => do
    let km ← kfree cfg h.km v
    .ok { h with km := km, allocated := h.allocated.erase (frameOf v) }
  | .incrementReferences v => .ok { h with km := incrementReferences h.km v }
  | .decrementReferencesAndGetPrevVal v =>
    .ok { h with km := (decrementReferencesAndGetPrevVal h.km v).2 }

/-- Which calls may follow the calls `past`. With `bounded`, a reference is only
added while the count is below the largest `int`. -/
def History.Allowed (bounded : Bool) (past : List KOp) (h : History) : KOp → Prop
  | .kinit1 => .kinit1 ∉ past
  | .kinit2 => .kinit2 ∉ past
  | .kalloc => True
  | .kfree v => v < 2 ^ 32
  | .decrementReferencesAndGetPrevVal v => frameOf v < MAXPAGES
  | .incrementReferences v => frameOf v ∈ h.allocated ∧
      (bounded = true → h.km.ref (frameOf v) < 2 ^ 31 - 1)

/-- `Reaches cfg bounded past h`: the calls `past`, latest first, lead to `h`. -/
inductive Reaches (cfg : Config) (bounded : Bool) : List KOp → History → Prop
  | start : Reaches cfg bounded [] .start
  | step {past : List KOp} {h h' : History} {op : KOp} (before : Reaches cfg bounded past h)
      (allowed : h.Allowed bounded past op) (run : h.step cfg op = .ok h') :
      Reaches cfg bounded (op :: past) h'

/-- A continuation of a run in which no `kalloc` returns the address `v`. -/
inductive Avoids (cfg : Config) (bounded : Bool) (v : Nat) (past : List KOp) (h : History) :
    List KOp → History → Prop
  | refl : Avoids cfg bounded v past h past h
  | step {past' : List KOp} {h₁ h₂ : History} {op : KOp}
      (before : Avoids cfg bounded v past h past' h₁) (allowed : h₁.Allowed bounded past' op)
      (run : h₁.step cfg op = .ok h₂) (other : op = .kalloc → (kalloc h₁.km).1 ≠ some v) :
      Avoids cfg bounded v past h (op :: past') h₂

/-- What the calls so far guarantee. -/
structure HistoryOk (cfg : Config) (past : List KOp) (h : History) : Prop where
  kmem : ∃ free, KmemOk cfg h.km h.given free
  allocated : h.allocated = h.given.filter (fun f => h.km.ref f ≠ 0)
  early : ∀ f ∈ h.given, f < 1024 → .kinit1 ∈ past
  late : ∀ f ∈ h.given, 1024 ≤ f → .kinit2 ∈ past

variable {cfg : Config} {km : Kmem} {past : List KOp} {h : History} {v vstart vend : Nat}
  {given : Finset Nat} {free : List Nat} {km' : Kmem} {h' : History} {op : KOp} {past' : List KOp}

theorem badPage_frame (word : v < 2 ^ 32) (good : ¬ BadPage cfg v) :
    P2V (frameOf v * PGSIZE) = v ∧ frameOf v < MAXPAGES ∧ ¬ BadFrame cfg (frameOf v) := by
  unfold BadPage at good
  unfold BadFrame
  unfold P2V frameOf V2P MAXPAGES PHYSTOP KERNBASE PGSIZE at *
  omega

/-- One turn of `freerange` on a page that was not given before. -/
theorem KmemOk.push (ok : KmemOk cfg km given free) {f : Nat} (fresh : f ∉ given)
    (good : ¬ BadFrame cfg f) :
    KmemOk cfg (km.push f) (insert f given) (f :: free) ∧
      ∀ g, (km.push f).ref g = km.ref g := by
  have notFree : f ∉ free := fun h => fresh ((ok.mem_free f).mp h).1
  have same : ∀ g, (km.push f).ref g = km.ref g := by
    intro g
    rw [ref_push]
    split
    · rename_i h
      rw [h, ok.outside f fresh]
    · rfl
  refine ⟨⟨?_, nodup_cons.mpr ⟨notFree, ok.nodup⟩, ?_, ?_, ?_, ?_, ?_⟩, same⟩
  · change Chain (fun g => ((km.setRun f ⟨km.freelist, 0⟩).runArr g).next) (some f) (f :: free)
    rw [next_setRun]
    exact chain_push ok.chain notFree
  · intro g
    rw [same g, mem_cons, Finset.mem_insert, ok.mem_free g]
    by_cases h : g = f
    · subst h
      simp [ok.outside g fresh]
    · simp [h]
  · intro g
    rw [same g]
    exact ok.nonneg g
  · intro g hg
    rw [same g]
    exact ok.outside g (fun h => hg (Finset.mem_insert_of_mem h))
  · intro g hg
    rcases Finset.mem_insert.mp hg with rfl | old
    · exact good
    · exact ok.inside g old
  · simp only [same]
    rw [Finset.filter_insert, if_neg (by simp [ok.outside f fresh])]
    exact ok.occupied

theorem next_page (p j : Nat) : p + PGSIZE + j * PGSIZE = p + (j + 1) * PGSIZE := by
  unfold PGSIZE
  omega

theorem freerangeLoop_good (n : Nat) {p : Nat} (run : freerangeLoop cfg n km p = .ok km') :
    ∀ j < n, ¬ BadPage cfg (p + j * PGSIZE) := by
  induction n generalizing km p with
  | zero =>
    intro j hj
    omega
  | succ n ih =>
    simp only [freerangeLoop, Res.bind_ok, _kfree] at run
    obtain ⟨km₁, freed, run⟩ := run
    split at freed
    · cases freed
    · rename_i good
      intro j hj
      cases j with
      | zero => simpa using good
      | succ j =>
        rw [← next_page]
        exact ih run j (by omega)

theorem freerangeLoop_ok (n : Nat) {p : Nat} (ok : KmemOk cfg km given free)
    (word : p + n * PGSIZE < 2 ^ 32) (fresh : ∀ f ∈ given, ∀ j < n, frameOf (p + j * PGSIZE) ≠ f)
    (run : freerangeLoop cfg n km p = .ok km') :
    (∃ free', KmemOk cfg km'
      (given ∪ (Finset.range n).image (fun j => frameOf (p + j * PGSIZE))) free') ∧
      ∀ g, km'.ref g = km.ref g := by
  induction n generalizing km given free p with
  | zero =>
    cases run
    exact ⟨⟨free, by simpa using ok⟩, fun _ => rfl⟩
  | succ n ih =>
    have good : ¬ BadPage cfg p := by
      simpa using freerangeLoop_good _ run 0 (Nat.succ_pos n)
    simp only [freerangeLoop, Res.bind_ok, _kfree, if_neg good] at run
    obtain ⟨km₁, freed, run⟩ := run
    cases freed
    have here := badPage_frame (by unfold PGSIZE at *; omega) good
    have absent : frameOf p ∉ given := fun h => fresh _ h 0 (by omega) (by simp)
    -- Later pages of the range differ from the first one.
    have later : ∀ f ∈ insert (frameOf p) given, ∀ j < n,
        frameOf (p + PGSIZE + j * PGSIZE) ≠ f := by
      intro f hf j hj
      rcases Finset.mem_insert.mp hf with rfl | old
      · have := here.1
        unfold P2V frameOf V2P KERNBASE PGSIZE at *
        omega
      · have := fresh f old (j + 1) (by omega)
        rwa [next_page]
    obtain ⟨pushed, kept⟩ := ok.push absent here.2.2
    obtain ⟨⟨free', done⟩, rest⟩ := ih pushed (by unfold PGSIZE at *; omega) later run
    refine ⟨⟨free', ?_⟩, fun g => (rest g).trans (kept g)⟩
    have same : insert (frameOf p) given ∪
        (Finset.range n).image (fun j => frameOf (p + PGSIZE + j * PGSIZE)) =
        given ∪ (Finset.range (n + 1)).image (fun j => frameOf (p + j * PGSIZE)) := by
      rw [Finset.range_add_one', Finset.image_insert, Finset.map_eq_image,
        Finset.image_image, Finset.insert_union, Finset.union_insert, Nat.zero_mul,
        Nat.add_zero]
      simp only [next_page]
      rfl
    rw [← same]
    exact done

/-- The pages of `freerange(vstart, vend)` lie between the two addresses. -/
theorem freerangeFrames_bounds (word : vend < 2 ^ 32)
    (run : freerange cfg km vstart vend = .ok km') :
    ∀ f ∈ freerangeFrames vstart vend,
      PGROUNDUP vstart ≤ KERNBASE + f * PGSIZE ∧ KERNBASE + f * PGSIZE < vend := by
  intro f hf
  obtain ⟨j, hj, rfl⟩ := Finset.mem_image.mp hf
  rw [Finset.mem_range] at hj
  have good := freerangeLoop_good _ run j hj
  have inside : PGROUNDUP vstart + j * PGSIZE + PGSIZE ≤ vend := by
    unfold freerangeCount PGSIZE at hj
    unfold PGSIZE
    omega
  have := badPage_frame (by unfold PGSIZE at *; omega) good
  unfold P2V frameOf V2P MAXPAGES PHYSTOP KERNBASE PGSIZE at *
  omega

theorem freerange_ok (ok : KmemOk cfg km given free) (word : vend < 2 ^ 32)
    (fresh : ∀ f ∈ given, f ∉ freerangeFrames vstart vend)
    (run : freerange cfg km vstart vend = .ok km') :
    (∃ free', KmemOk cfg km' (given ∪ freerangeFrames vstart vend) free') ∧
      ∀ g, km'.ref g = km.ref g := by
  refine freerangeLoop_ok _ ok ?_ ?_ run
  · have : PGROUNDUP vstart < 2 ^ 32 := by
      unfold PGROUNDUP PGSIZE
      omega
    unfold freerangeCount PGSIZE
    omega
  · intro f hf j hj same
    exact fresh f hf (Finset.mem_image.mpr ⟨j, Finset.mem_range.mpr hj, same⟩)

/-- Giving the allocator pages it did not have leaves the pages that are out. -/
theorem filter_given_union {new : Finset Nat} (ok : KmemOk cfg km given free)
    (kept : ∀ g, km'.ref g = km.ref g) :
    (given ∪ new).filter (fun f => km'.ref f ≠ 0) = given.filter (fun f => km.ref f ≠ 0) := by
  ext f
  simp only [Finset.mem_filter, Finset.mem_union, kept f]
  refine ⟨?_, fun h => ⟨Or.inl h.1, h.2⟩⟩
  rintro ⟨hf, out⟩
  exact ⟨ok.given_of_ref out, out⟩

theorem historyOk_start (cfg : Config) : HistoryOk cfg [] .start where
  kmem := ⟨[], kmemOk_zeroed cfg⟩
  allocated := rfl
  early f h := by simp [History.start] at h
  late f h := by simp [History.start] at h

section

variable (ok : HistoryOk cfg past h)
include ok

theorem HistoryOk.kinit1 (first : .kinit1 ∉ past) (run : kinit1 cfg h.km = .ok km) :
    HistoryOk cfg (.kinit1 :: past) { h with
      km := km
      given := h.given ∪ freerangeFrames cfg.kernelEnd (P2V (4 * 1024 * 1024)) } := by
  obtain ⟨free, kmem⟩ := ok.kmem
  have low : ∀ f ∈ freerangeFrames cfg.kernelEnd (P2V (4 * 1024 * 1024)), f < 1024 := by
    intro f hf
    have := freerangeFrames_bounds (by decide) run f hf
    unfold P2V KERNBASE PGSIZE at this
    omega
  have fresh : ∀ f ∈ h.given, f ∉ freerangeFrames cfg.kernelEnd (P2V (4 * 1024 * 1024)) :=
    fun f hf new => first (ok.early f hf (low f new))
  obtain ⟨given, kept⟩ := freerange_ok kmem (by decide) fresh run
  refine ⟨given, ?_, fun _ _ _ => mem_cons_self .., ?_⟩
  · rw [ok.allocated, filter_given_union kmem kept]
  · intro f hf high
    rcases Finset.mem_union.mp hf with old | new
    · exact mem_cons_of_mem _ (ok.late f old high)
    · have := low f new
      omega

theorem HistoryOk.kinit2 (first : .kinit2 ∉ past) (run : kinit2 cfg h.km = .ok km) :
    HistoryOk cfg (.kinit2 :: past) { h with
      km := km
      given := h.given ∪ freerangeFrames (P2V (4 * 1024 * 1024)) (P2V PHYSTOP) } := by
  obtain ⟨free, kmem⟩ := ok.kmem
  have high : ∀ f ∈ freerangeFrames (P2V (4 * 1024 * 1024)) (P2V PHYSTOP), 1024 ≤ f := by
    intro f hf
    have := freerangeFrames_bounds (by decide) run f hf
    unfold PGROUNDUP P2V KERNBASE PGSIZE at this
    omega
  have fresh : ∀ f ∈ h.given, f ∉ freerangeFrames (P2V (4 * 1024 * 1024)) (P2V PHYSTOP) :=
    fun f hf new => first (ok.late f hf (high f new))
  obtain ⟨given, kept⟩ := freerange_ok kmem (by decide) fresh run
  refine ⟨given, ?_, ?_, fun _ _ _ => mem_cons_self ..⟩
  · rw [ok.allocated, filter_given_union kmem kept]
  · intro f hf low
    rcases Finset.mem_union.mp hf with old | new
    · exact mem_cons_of_mem _ (ok.early f old low)
    · have := high f new
      omega

/-- Calls that keep the set of given pages. -/
theorem HistoryOk.of_kmem (same : h'.given = h.given)
    (kmem : ∃ free, KmemOk cfg h'.km h'.given free)
    (allocated : h'.allocated = h.given.filter (fun f => h'.km.ref f ≠ 0)) :
    HistoryOk cfg (op :: past) h' where
  kmem := kmem
  allocated := by rw [allocated, same]
  early f hf low := mem_cons_of_mem _ (ok.early f (same ▸ hf) low)
  late f hf high := mem_cons_of_mem _ (ok.late f (same ▸ hf) high)

theorem HistoryOk.mem_allocated {f : Nat} :
    f ∈ h.allocated ↔ h.km.ref f ≠ 0 := by
  obtain ⟨free, kmem⟩ := ok.kmem
  rw [ok.allocated, Finset.mem_filter]
  exact ⟨And.right, fun out => ⟨kmem.given_of_ref out, out⟩⟩

end

theorem kfree_ok (run : kfree cfg km v = .ok km') :
    ¬ BadPage cfg v ∧ km.ref (frameOf v) = 1 ∧ km.release (frameOf v) = .ok km' := by
  unfold kfree at run
  split at run
  · cases run
  · rename_i good
    refine ⟨good, ?_, run⟩
    unfold Kmem.release at run
    split at run
    · cases run
    · rename_i last
      exact not_not.mp last

/-- A page `kalloc` returns was given to the allocator and is not out. -/
theorem HistoryOk.kalloc_some (ok : HistoryOk cfg past h) (run : kalloc h.km = (some v, km)) :
    (∃ free, KmemOk cfg km h.given free) ∧ frameOf v ∈ h.given ∧ h.km.ref (frameOf v) = 0 ∧
      (∀ f, km.ref f = if f = frameOf v then 1 else h.km.ref f) ∧
      P2V (frameOf v * PGSIZE) = v := by
  obtain ⟨free, kmem⟩ := ok.kmem
  unfold kalloc at run
  cases free with
  | nil =>
    rw [kmem.pop_nil] at run
    cases run
  | cons r rest =>
    obtain ⟨km', popped, kmem', refs⟩ := kmem.pop_cons
    rw [popped] at run
    obtain ⟨rfl, rfl⟩ : P2V (r * PGSIZE) = v ∧ km' = km := by simpa using run
    have isFree := (kmem.mem_free r).mp (mem_cons_self ..)
    have small := kmem.lt_maxpages isFree.1
    rw [frameOf_P2V (by unfold MAXPAGES PHYSTOP PGSIZE at small; omega)]
    exact ⟨⟨rest, kmem'⟩, isFree.1, isFree.2, refs, rfl⟩

theorem kalloc_none (run : kalloc km = (none, km')) : km' = km := by
  unfold kalloc at run
  split at run
  · cases run
    rfl
  · cases run

section

variable (ok : HistoryOk cfg past h)
include ok

theorem HistoryOk.kalloc (run : h.step cfg .kalloc = .ok h') :
    HistoryOk cfg (.kalloc :: past) h' := by
  unfold History.step at run
  cases result : Xv6.kalloc h.km with
  | mk page km =>
    cases page with
    | none =>
      have := kalloc_none result
      subst this
      simp only [result] at run
      cases run
      exact ok.of_kmem rfl ok.kmem ok.allocated
    | some v =>
      simp only [result] at run
      cases run
      obtain ⟨kmem, isGiven, isFree, refs, _⟩ := ok.kalloc_some result
      refine ok.of_kmem rfl kmem ?_
      change insert (frameOf v) h.allocated = _
      rw [ok.allocated]
      ext f
      simp only [Finset.mem_insert, Finset.mem_filter, refs f]
      by_cases same : f = frameOf v
      · simp [same, isGiven]
      · simp [same]

theorem HistoryOk.kfree (run : Xv6.kfree cfg h.km v = .ok km) :
    HistoryOk cfg (.kfree v :: past)
      { h with km := km, allocated := h.allocated.erase (frameOf v) } := by
  obtain ⟨free, kmem⟩ := ok.kmem
  obtain ⟨_, last, run⟩ := kfree_ok run
  obtain ⟨km', released, kmem', refs⟩ := kmem.release last
  cases run.symm.trans released
  refine ok.of_kmem rfl ⟨_, kmem'⟩ ?_
  change h.allocated.erase (frameOf v) = _
  rw [ok.allocated]
  ext f
  simp only [Finset.mem_erase, Finset.mem_filter, refs f]
  by_cases same : f = frameOf v
  · simp [same]
  · simp [same]

theorem HistoryOk.incrementReferences (out : frameOf v ∈ h.allocated)
    (bound : h.km.ref (frameOf v) < 2 ^ 31 - 1) :
    HistoryOk cfg (.incrementReferences v :: past)
      { h with km := Xv6.incrementReferences h.km v } := by
  obtain ⟨free, kmem⟩ := ok.kmem
  have held : 1 ≤ h.km.ref (frameOf v) := by
    have := kmem.nonneg (frameOf v)
    have := ok.mem_allocated.mp out
    omega
  obtain ⟨kmem', refs⟩ := kmem.incRef held bound
  refine ok.of_kmem rfl ⟨_, kmem'⟩ ?_
  rw [ok.allocated]
  refine Finset.filter_congr fun f _ => ?_
  change _ ↔ (h.km.incRef (frameOf v)).ref f ≠ 0
  rw [refs f]
  split
  · rename_i same
    subst same
    omega
  · rfl

theorem HistoryOk.decrementReferences :
    HistoryOk cfg (.decrementReferencesAndGetPrevVal v :: past)
      { h with km := (decrementReferencesAndGetPrevVal h.km v).2 } := by
  obtain ⟨free, kmem⟩ := ok.kmem
  obtain ⟨kmem', refs⟩ := kmem.decRef (frameOf v)
  refine ok.of_kmem rfl ⟨_, kmem'⟩ ?_
  rw [ok.allocated]
  refine Finset.filter_congr fun f _ => ?_
  change _ ↔ (h.km.decRef (frameOf v)).2.ref f ≠ 0
  rw [refs f]
  split
  · rename_i same
    obtain ⟨rfl, shared⟩ := same
    omega
  · rfl

/-- What one call preserves. -/
theorem HistoryOk.step (allowed : h.Allowed true past op) (run : h.step cfg op = .ok h') :
    HistoryOk cfg (op :: past) h' := by
  cases op with
  | kinit1 =>
    obtain ⟨km, called, done⟩ := Res.bind_ok.mp run
    cases done
    exact ok.kinit1 allowed called
  | kinit2 =>
    obtain ⟨km, called, done⟩ := Res.bind_ok.mp run
    cases done
    exact ok.kinit2 allowed called
  | kalloc => exact ok.kalloc run
  | kfree v =>
    obtain ⟨km, called, done⟩ := Res.bind_ok.mp run
    cases done
    exact ok.kfree called
  | incrementReferences v =>
    cases run
    exact ok.incrementReferences allowed.1 (allowed.2 rfl)
  | decrementReferencesAndGetPrevVal v =>
    cases run
    exact ok.decrementReferences

end

theorem Reaches.historyOk (reached : Reaches cfg true past h) : HistoryOk cfg past h := by
  induction reached with
  | start => exact historyOk_start cfg
  | step _ allowed run ih => exact ih.step allowed run

theorem Reaches.avoids {bounded : Bool} (reached : Reaches cfg bounded past h)
    (run : Avoids cfg bounded v past h past' h') :
    Reaches cfg bounded past' h' := by
  induction run with
  | refl => exact reached
  | step _ allowed run _ ih => exact .step ih allowed run

/-- Only a `kalloc` that returns a page makes its count positive again. -/
theorem HistoryOk.step_ref_zero (ok : HistoryOk cfg past h) (allowed : h.Allowed true past op)
    (run : h.step cfg op = .ok h') (page : P2V (frameOf v * PGSIZE) = v)
    (other : op = .kalloc → (Xv6.kalloc h.km).1 ≠ some v) (zero : h.km.ref (frameOf v) = 0) :
    h'.km.ref (frameOf v) = 0 := by
  obtain ⟨free, kmem⟩ := ok.kmem
  have free_of_zero : frameOf v ∉ h.allocated := fun out => ok.mem_allocated.mp out zero
  by_contra out
  have ok' := ok.step allowed run
  have isOut := ok'.mem_allocated.mpr out
  -- Membership in `allocated` only changes by the call itself.
  cases op with
  | kinit1 | kinit2 =>
    obtain ⟨km, called, done⟩ := Res.bind_ok.mp run
    cases done
    exact free_of_zero isOut
  | kalloc =>
    unfold History.step at run
    cases result : Xv6.kalloc h.km with
    | mk found km =>
      cases found with
      | none =>
        simp only [result] at run
        cases run
        exact free_of_zero isOut
      | some w =>
        simp only [result] at run
        cases run
        rcases Finset.mem_insert.mp isOut with same | old
        · have := (ok.kalloc_some result).2.2.2.2
          rw [← same, page] at this
          exact other rfl (by rw [result, this])
        · exact free_of_zero old
  | kfree w =>
    obtain ⟨km, called, done⟩ := Res.bind_ok.mp run
    cases done
    exact free_of_zero (Finset.mem_of_mem_erase isOut)
  | incrementReferences w | decrementReferencesAndGetPrevVal w =>
    cases run
    exact free_of_zero isOut

theorem Avoids.ref_zero (run : Avoids cfg true v past h past' h')
    (reached : Reaches cfg true past h) (page : P2V (frameOf v * PGSIZE) = v)
    (zero : h.km.ref (frameOf v) = 0) :
    h'.km.ref (frameOf v) = 0 := by
  induction run with
  | refl => exact zero
  | step before allowed run other ih =>
    exact (reached.avoids before).historyOk.step_ref_zero allowed run page other ih

/-- The soundness of the allocator after the calls `past`. -/
structure AllocatorSound (cfg : Config) (bounded : Bool) (past : List KOp) (h : History) :
    Prop where
  /-- The list ends, has no repetition, and holds the given pages with count 0. -/
  freelist : ∃ free, Chain (fun f => (h.km.runArr f).next) h.km.freelist free ∧ free.Nodup ∧
    (∀ f, f ∈ free ↔ f ∈ h.given ∧ h.km.ref f = 0) ∧
    getNumberOfFreePages h.km - free.length = MAXPAGES - h.given.card
  held : ∀ f ∈ h.given, h.km.ref f ≠ 0 → 1 ≤ h.km.ref f
  occupied : h.km.occupiedPages = h.allocated.card
  fresh : ∀ v km, kalloc h.km = (some v, km) → frameOf v ∉ h.allocated
  doubleFree : ∀ v h₁ past₂ h₂, v < 2 ^ 32 → h.step cfg (.kfree v) = .ok h₁ →
    Avoids cfg bounded v (.kfree v :: past) h₁ past₂ h₂ →
    kfree cfg h₂.km v = .error .kfreeRef

theorem HistoryOk.freelist (ok : HistoryOk cfg past h) :
    ∃ free, Chain (fun f => (h.km.runArr f).next) h.km.freelist free ∧ free.Nodup ∧
      (∀ f, f ∈ free ↔ f ∈ h.given ∧ h.km.ref f = 0) ∧
      getNumberOfFreePages h.km - free.length = MAXPAGES - h.given.card := by
  obtain ⟨free, kmem⟩ := ok.kmem
  refine ⟨free, kmem.chain, kmem.nodup, kmem.mem_free, ?_⟩
  have split := Finset.card_filter_add_card_filter_not (s := h.given) (fun f => h.km.ref f ≠ 0)
  have listed : (h.given.filter (fun f => ¬ h.km.ref f ≠ 0)) = free.toFinset := by
    ext f
    simp [kmem.mem_free]
  have small : h.given.card ≤ MAXPAGES := by
    have : h.given ⊆ Finset.range MAXPAGES := fun f hf => Finset.mem_range.mpr (kmem.lt_maxpages hf)
    simpa using Finset.card_le_card this
  rw [listed, toFinset_card_of_nodup kmem.nodup] at split
  unfold getNumberOfFreePages
  rw [kmem.occupied]
  unfold MAXPAGES PHYSTOP PGSIZE at *
  omega

/-- As long as no count overflows, the allocator is sound after every sequence
of calls. -/
theorem allocator_sound_of_bounded (cfg : Config) (past : List KOp) (h : History)
    (reached : Reaches cfg true past h) : AllocatorSound cfg true past h := by
  have ok := reached.historyOk
  obtain ⟨free, kmem⟩ := ok.kmem
  refine ⟨ok.freelist, ?_, ?_, ?_, ?_⟩
  · intro f _ out
    have := kmem.nonneg f
    omega
  · rw [kmem.occupied, ok.allocated]
  · intro v km run out
    exact ok.mem_allocated.mp out (ok.kalloc_some run).2.2.1
  · intro v h₁ past₂ h₂ word freed run
    have allowed : h.Allowed true past (.kfree v) := word
    have reached₁ := reached.step allowed freed
    simp only [History.step, Res.bind_ok] at freed
    obtain ⟨km, freed, done⟩ := freed
    cases done
    obtain ⟨good, last, released⟩ := kfree_ok freed
    obtain ⟨km', released', _, refs⟩ := kmem.release last
    cases released.symm.trans released'
    have zero := run.ref_zero reached₁ (badPage_frame word good).1 (by simp [refs])
    unfold kfree
    rw [if_neg good, Kmem.release, if_pos (by omega)]

/-- A kernel that leaves one page below 4 MB to the allocator. -/
def onePageKernel : Config where
  sel := .SCFIFO
  kernelEnd := 0x803FF000
  kernelData := 0x80108000

/-- That page after `kinit1`, and after the following `kalloc` with `n`
references in all. -/
def onePageFree : History := ⟨Kmem.zeroed.push 1023, {1023}, ∅⟩

def onePageOut (n : Int) : History :=
  ⟨⟨none, Function.update (fun _ => ⟨none, 0⟩) 1023 ⟨none, n⟩, 1⟩, {1023}, {1023}⟩

theorem onePage_kinit1 : History.start.step onePageKernel .kinit1 = .ok onePageFree := by
  have count : freerangeCount onePageKernel.kernelEnd (P2V (4 * 1024 * 1024)) = 1 := by decide
  have good : ¬ BadPage onePageKernel (PGROUNDUP onePageKernel.kernelEnd) := by decide
  have page : frameOf (PGROUNDUP onePageKernel.kernelEnd) = 1023 := by decide
  simp [History.step, kinit1, freerange, freerangeLoop, freerangeFrames, _kfree, count, good,
    page, History.start, onePageFree]

theorem onePage_kalloc : onePageFree.step onePageKernel .kalloc = .ok (onePageOut 1) := by
  simp [History.step, kalloc, Kmem.pop, onePageFree, onePageOut, Kmem.push, Kmem.setRun,
    Kmem.zeroed, frameOf_P2V]

theorem onePage_increment (n : Int) :
    (onePageOut n).step onePageKernel (.incrementReferences (P2V (1023 * PGSIZE))) =
      .ok (onePageOut (wrapInt (n + 1))) := by
  simp [History.step, incrementReferences, Kmem.incRef, Kmem.ref, Kmem.setRun, onePageOut,
    frameOf_P2V]

theorem onePage_reaches (bounded : Bool) :
    Reaches onePageKernel bounded [.kalloc, .kinit1] (onePageOut 1) :=
  .step (.step .start (by simp [History.Allowed]) onePage_kinit1) trivial onePage_kalloc

theorem allocator_sound_onePage :
    AllocatorSound onePageKernel true [.kalloc, .kinit1] (onePageOut 1) :=
  allocator_sound_of_bounded _ _ _ (onePage_reaches true)

theorem onePage_allowed (past : List KOp) (n : Int) :
    (onePageOut n).Allowed false past (.incrementReferences (P2V (1023 * PGSIZE))) := by
  simp [History.Allowed, frameOf_P2V, onePageOut]

/-- Up to the largest `int` the count is the number of references added. -/
theorem onePage_count (n : Nat) (bound : n < 2 ^ 31 - 1) :
    ∃ past, Reaches onePageKernel false past (onePageOut (n + 1)) := by
  induction n with
  | zero => exact ⟨_, onePage_reaches false⟩
  | succ n ih =>
    obtain ⟨past, reached⟩ := ih (by omega)
    have added := onePage_increment (n + 1)
    rw [wrapInt_of_mem (by omega) (by omega)] at added
    exact ⟨_, .step reached (onePage_allowed _ _) (by push_cast; exact added)⟩

/-- One more reference makes the count negative. -/
theorem allocator_unsound_of_overflow :
    ¬ ∀ cfg past h, Reaches cfg false past h → AllocatorSound cfg false past h := by
  intro sound
  obtain ⟨past, reached⟩ := onePage_count (2 ^ 31 - 2) (by decide)
  have overflow := reached.step (onePage_allowed _ _) (onePage_increment _)
  have := (sound _ _ _ overflow).held 1023 (by simp [onePageOut])
  have count : (onePageOut (wrapInt ((2 ^ 31 - 2 : Nat) + 1 + 1))).km.ref 1023 = -(2 ^ 31) := by
    simp [onePageOut, Kmem.ref, wrapInt]
  rw [count] at this
  exact absurd (this (by decide)) (by decide)

end Xv6
