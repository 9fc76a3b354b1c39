import Xv6.Memory.Params
import Xv6.Library.LinkChain

/-!
The physical page allocator: `kalloc.c`.

Pages are identified by their index in `runArr`, that is by physical page
number. The C entry points take kernel virtual addresses; each is given in that
form and, for callers that hold a page number, in the form the address
conversion leaves. Every operation runs under `kmem.lock` and is one step.
-/

namespace Xv6

open LinkChain

/-- `struct run`: the free-list link and reference count of one page. -/
structure Run where
  next : Option Nat
  ref : Int

/-- `kmem` and `occupiedPages`. -/
structure Kmem where
  freelist : Option Nat
  runArr : Nat → Run
  occupiedPages : Int

/-- Zeroed kernel data, before `kinit1`. -/
def Kmem.zeroed : Kmem := ⟨none, fun _ => ⟨none, 0⟩, 0⟩

/-- The index `V2P(v) / PGSIZE` into `runArr`. -/
def frameOf (v : Nat) : Nat := V2P v / PGSIZE

def Kmem.ref (km : Kmem) (f : Nat) : Int := (km.runArr f).ref

def Kmem.setRun (km : Kmem) (f : Nat) (r : Run) : Kmem :=
  { km with runArr := Function.update km.runArr f r }

/-- Put a page in front of the free list with count 0. -/
def Kmem.push (km : Kmem) (f : Nat) : Kmem :=
  { km.setRun f ⟨km.freelist, 0⟩ with freelist := some f }

/-- The range and alignment test at the start of `kfree` and `_kfree`. -/
def BadPage (cfg : Config) (v : Nat) : Prop :=
  v % PGSIZE ≠ 0 ∨ v < cfg.kernelEnd ∨ PHYSTOP ≤ V2P v

instance (cfg : Config) (v : Nat) : Decidable (BadPage cfg v) :=
  inferInstanceAs (Decidable (_ ∨ _ ∨ _))

/-- The part of `kfree` that runs under the lock. -/
def Kmem.release (km : Kmem) (f : Nat) : Res Kmem :=
  if km.ref f ≠ 1 then .error .kfreeRef
  else .ok { km.push f with occupiedPages := km.occupiedPages - 1 }

def kfree (cfg : Config) (km : Kmem) (v : Nat) : Res Kmem :=
  if BadPage cfg v then .error .kfree else km.release (frameOf v)

def _kfree (cfg : Config) (km : Kmem) (v : Nat) : Res Kmem :=
  if BadPage cfg v then .error .kfree else .ok (km.push (frameOf v))

/-- Take the first page off the free list. -/
def Kmem.pop (km : Kmem) : Option (Nat × Kmem) :=
  match km.freelist with
  | none => none
  | some r =>
    some (r, { km.setRun r { km.runArr r with ref := 1 } with
      freelist := (km.runArr r).next
      occupiedPages := km.occupiedPages + 1 })

def kalloc (km : Kmem) : Option Nat × Kmem :=
  match km.pop with
  | none => (none, km)
  | some (r, km') => (some (P2V (r * PGSIZE)), km')

/-- The result is a `uint`. -/
def getNumberOfFreePages (km : Kmem) : Int := (MAXPAGES - km.occupiedPages) % 2 ^ 32

def Kmem.incRef (km : Kmem) (f : Nat) : Kmem :=
  km.setRun f { km.runArr f with ref := wrapInt (km.ref f + 1) }

def incrementReferences (km : Kmem) (v : Nat) : Kmem := km.incRef (frameOf v)

def Kmem.decRef (km : Kmem) (f : Nat) : Int × Kmem :=
  (km.ref f,
    if 1 < km.ref f then km.setRun f { km.runArr f with ref := km.ref f - 1 } else km)

def decrementReferencesAndGetPrevVal (km : Kmem) (v : Nat) : Int × Kmem :=
  km.decRef (frameOf v)

/-- `for (; p + PGSIZE <= vend; p += PGSIZE) _kfree(p)`, for `n` pages. -/
def freerangeLoop (cfg : Config) : Nat → Kmem → Nat → Res Kmem
  | 0, km, _ => .ok km
  | n + 1, km, p => do
    let km ← _kfree cfg km p
    freerangeLoop cfg n km (p + PGSIZE)

/-- How many pages `freerange` frees. -/
def freerangeCount (vstart vend : Nat) : Nat := (vend - PGROUNDUP vstart) / PGSIZE

def freerange (cfg : Config) (km : Kmem) (vstart vend : Nat) : Res Kmem :=
  freerangeLoop cfg (freerangeCount vstart vend) km (PGROUNDUP vstart)

def kinit1 (cfg : Config) (km : Kmem) : Res Kmem :=
  freerange cfg km cfg.kernelEnd (P2V (4 * 1024 * 1024))

def kinit2 (cfg : Config) (km : Kmem) : Res Kmem :=
  freerange cfg km (P2V (4 * 1024 * 1024)) (P2V PHYSTOP)

/-- `BadPage` of the address `P2V(f * PGSIZE)`, in terms of the page number. -/
def BadFrame (cfg : Config) (f : Nat) : Prop :=
  KERNBASE + f * PGSIZE < cfg.kernelEnd ∨ MAXPAGES ≤ f

instance (cfg : Config) (f : Nat) : Decidable (BadFrame cfg f) :=
  inferInstanceAs (Decidable (_ ∨ _))

/-- `kfree(P2V(f * PGSIZE))`. -/
def Kmem.freeFrame (cfg : Config) (km : Kmem) (f : Nat) : Res Kmem :=
  if BadFrame cfg f then .error .kfree else km.release f

variable {f : Nat}

theorem frameOf_P2V (h : f < 2 ^ 20) : frameOf (P2V (f * PGSIZE)) = f := by
  unfold frameOf V2P P2V KERNBASE PGSIZE
  omega

@[simp] theorem ref_setRun (km : Kmem) (f g : Nat) (r : Run) :
    (km.setRun f r).ref g = if g = f then r.ref else km.ref g := by
  unfold Kmem.ref Kmem.setRun
  by_cases h : g = f
  · subst h
    simp
  · simp [h]

@[simp] theorem ref_push (km : Kmem) (f g : Nat) :
    (km.push f).ref g = if g = f then 0 else km.ref g :=
  ref_setRun km f g _

/-- The state of the allocator when `given` has been handed to it and `free` is
its free list. -/
structure KmemOk (cfg : Config) (km : Kmem) (given : Finset Nat) (free : List Nat) : Prop where
  chain : Chain (fun f => (km.runArr f).next) km.freelist free
  nodup : free.Nodup
  mem_free : ∀ f, f ∈ free ↔ f ∈ given ∧ km.ref f = 0
  nonneg : ∀ f, 0 ≤ km.ref f
  outside : ∀ f, f ∉ given → km.ref f = 0
  inside : ∀ f, f ∈ given → ¬ BadFrame cfg f
  occupied : km.occupiedPages = (given.filter (fun f => km.ref f ≠ 0)).card

variable {km : Kmem} {cfg : Config} {given : Finset Nat} {free : List Nat}

theorem KmemOk.given_of_ref (ok : KmemOk cfg km given free) (h : km.ref f ≠ 0) :
    f ∈ given := by
  by_contra absent
  exact h (ok.outside f absent)

theorem KmemOk.lt_maxpages (ok : KmemOk cfg km given free) (h : f ∈ given) :
    f < MAXPAGES := by
  have := ok.inside f h
  unfold BadFrame at this
  omega

theorem kmemOk_zeroed (cfg : Config) : KmemOk cfg .zeroed ∅ [] where
  chain := rfl
  nodup := List.nodup_nil
  mem_free f := by simp
  nonneg f := le_refl _
  outside f _ := rfl
  inside f h := by simp at h
  occupied := rfl

/-- The links of `km.setRun` as a function update. -/
theorem next_setRun (km : Kmem) (f : Nat) (r : Run) :
    (fun g => ((km.setRun f r).runArr g).next) =
      Function.update (fun g => (km.runArr g).next) f r.next := by
  funext g
  by_cases h : g = f
  · subst h
    simp [Kmem.setRun]
  · simp [Kmem.setRun, h]

theorem chain_setRun {head : Option Nat} {r : Run}
    (h : Chain (fun g => (km.runArr g).next) head free)
    (keep : f ∉ free ∨ r.next = (km.runArr f).next) :
    Chain (fun g => ((km.setRun f r).runArr g).next) head free := by
  rw [next_setRun]
  rcases keep with fresh | same
  · exact chain_update h fresh _
  · rw [same, Function.update_eq_self]
    exact h

/-- `pop` fails exactly on the empty list. -/
theorem KmemOk.pop_nil (ok : KmemOk cfg km given []) : km.pop = none := by
  have : km.freelist = none := ok.chain
  simp [Kmem.pop, this]

theorem KmemOk.pop_cons {r : Nat} {rest : List Nat} (ok : KmemOk cfg km given (r :: rest)) :
    ∃ km', km.pop = some (r, km') ∧ KmemOk cfg km' given rest ∧
      ∀ f, km'.ref f = if f = r then 1 else km.ref f := by
  have head : km.freelist = some r := ok.chain.1
  have isFree := (ok.mem_free r).mp (List.mem_cons_self ..)
  have refs : ∀ f, (km.setRun r { km.runArr r with ref := 1 }).ref f =
      if f = r then 1 else km.ref f := fun f => ref_setRun km r f _
  have fresh : r ∉ rest := (List.nodup_cons.mp ok.nodup).1
  refine ⟨{ km.setRun r { km.runArr r with ref := 1 } with
      freelist := (km.runArr r).next
      occupiedPages := km.occupiedPages + 1 }, by simp only [Kmem.pop, head],
    ⟨?_, (List.nodup_cons.mp ok.nodup).2, ?_, ?_, ?_, ok.inside, ?_⟩, refs⟩
  · exact chain_setRun ok.chain.2 (Or.inr rfl)
  · intro f
    have old := ok.mem_free f
    change _ ↔ f ∈ given ∧ (km.setRun r { km.runArr r with ref := 1 }).ref f = 0
    rw [refs f]
    by_cases h : f = r
    · subst h
      simp [fresh]
    · rw [if_neg h, ← old]
      simp [h]
  · intro f
    change 0 ≤ (km.setRun r { km.runArr r with ref := 1 }).ref f
    rw [refs f]
    split
    · decide
    · exact ok.nonneg f
  · intro f hf
    change (km.setRun r { km.runArr r with ref := 1 }).ref f = 0
    rw [refs f, if_neg (ne_of_mem_of_not_mem isFree.1 hf).symm]
    exact ok.outside f hf
  · have grown : given.filter (fun f => (km.setRun r { km.runArr r with ref := 1 }).ref f ≠ 0) =
        insert r (given.filter (fun f => km.ref f ≠ 0)) := by
      ext f
      rw [Finset.mem_filter, refs f, Finset.mem_insert, Finset.mem_filter]
      by_cases h : f = r
      · subst h
        simp [isFree.1]
      · simp [h]
    have absent : r ∉ given.filter (fun f => km.ref f ≠ 0) := by
      simp [isFree.2]
    change km.occupiedPages + 1 = ((given.filter
      (fun f => (km.setRun r { km.runArr r with ref := 1 }).ref f ≠ 0)).card : Int)
    rw [grown, Finset.card_insert_of_notMem absent, ok.occupied]
    push_cast
    rfl

section

variable (ok : KmemOk cfg km given free)
include ok

/-- Changing a positive count to another positive count touches nothing else. -/
theorem KmemOk.setRef (held : 1 ≤ km.ref f) {n : Int} (pos : 1 ≤ n) :
    KmemOk cfg (km.setRun f { km.runArr f with ref := n }) given free := by
  have refs : ∀ g, (km.setRun f { km.runArr f with ref := n }).ref g =
      if g = f then n else km.ref g := fun g => ref_setRun km f g _
  have zero : ∀ g, (km.setRun f { km.runArr f with ref := n }).ref g = 0 ↔ km.ref g = 0 := by
    intro g
    rw [refs g]
    split
    · rename_i same
      subst same
      omega
    · rfl
  refine ⟨chain_setRun ok.chain (Or.inr rfl), ok.nodup, ?_, ?_, ?_, ok.inside, ?_⟩
  · intro g
    rw [zero g]
    exact ok.mem_free g
  · intro g
    rw [refs g]
    split
    · omega
    · exact ok.nonneg g
  · intro g hg
    rw [zero g]
    exact ok.outside g hg
  · simp only [ne_eq, zero]
    exact ok.occupied

theorem KmemOk.incRef (held : 1 ≤ km.ref f) (bound : km.ref f < 2 ^ 31 - 1) :
    KmemOk cfg (km.incRef f) given free ∧
      ∀ g, (km.incRef f).ref g = if g = f then km.ref f + 1 else km.ref g := by
  have same : wrapInt (km.ref f + 1) = km.ref f + 1 := wrapInt_of_mem (by omega) (by omega)
  unfold Kmem.incRef
  rw [same]
  exact ⟨ok.setRef held (by omega), fun g => ref_setRun km f g _⟩

theorem KmemOk.decRef (f : Nat) :
    KmemOk cfg (km.decRef f).2 given free ∧
      ∀ g, (km.decRef f).2.ref g =
        if g = f ∧ 1 < km.ref f then km.ref f - 1 else km.ref g := by
  unfold Kmem.decRef
  by_cases shared : 1 < km.ref f
  · simp only [shared, if_true, and_true]
    exact ⟨ok.setRef (by omega) (by omega), fun g => ref_setRun km f g _⟩
  · simp only [shared, if_false, and_false, implies_true, and_true]
    exact ok

/-- Pushing a held page that has just lost its last reference. -/
theorem KmemOk.release (last : km.ref f = 1) :
    ∃ km', km.release f = .ok km' ∧ KmemOk cfg km' given (f :: free) ∧
      ∀ g, km'.ref g = if g = f then 0 else km.ref g := by
  have isGiven : f ∈ given := ok.given_of_ref (by omega)
  have fresh : f ∉ free := fun h => by have := ((ok.mem_free f).mp h).2; omega
  refine ⟨{ km.push f with occupiedPages := km.occupiedPages - 1 }, by
    simp [Kmem.release, last], ⟨?_, ?_, ?_, ?_, ?_, ok.inside, ?_⟩, ref_push km f⟩
  · change Chain (fun g => ((km.setRun f ⟨km.freelist, 0⟩).runArr g).next) (some f) (f :: free)
    rw [next_setRun]
    exact chain_push ok.chain fresh
  · exact List.nodup_cons.mpr ⟨fresh, ok.nodup⟩
  · intro g
    change _ ↔ g ∈ given ∧ (km.push f).ref g = 0
    rw [ref_push]
    by_cases h : g = f
    · subst h
      simp [isGiven]
    · have := ok.mem_free g
      simp [h, this]
  · intro g
    change 0 ≤ (km.push f).ref g
    rw [ref_push]
    split
    · exact le_refl _
    · exact ok.nonneg g
  · intro g hg
    change (km.push f).ref g = 0
    rw [ref_push, if_neg (ne_of_mem_of_not_mem isGiven hg).symm]
    exact ok.outside g hg
  · have shrunk : given.filter (fun g => (km.push f).ref g ≠ 0) =
        (given.filter (fun g => km.ref g ≠ 0)).erase f := by
      ext g
      rw [Finset.mem_filter, ref_push, Finset.mem_erase, Finset.mem_filter]
      by_cases h : g = f <;> simp [h]
    have present : f ∈ given.filter (fun g => km.ref g ≠ 0) := by
      simp [isGiven, last]
    have pos := Finset.card_pos.mpr ⟨f, present⟩
    change km.occupiedPages - 1 = ((given.filter (fun g => (km.push f).ref g ≠ 0)).card : Int)
    rw [shrunk, Finset.card_erase_of_mem present, ok.occupied]
    omega

theorem KmemOk.freeFrame (last : km.ref f = 1) :
    ∃ km', km.freeFrame cfg f = .ok km' ∧ KmemOk cfg km' given (f :: free) ∧
      ∀ g, km'.ref g = if g = f then 0 else km.ref g := by
  have isGiven : f ∈ given := ok.given_of_ref (by omega)
  obtain ⟨km', released, rest⟩ := ok.release last
  exact ⟨km', by simp [Kmem.freeFrame, ok.inside f isGiven, released], rest⟩

end

end Xv6
