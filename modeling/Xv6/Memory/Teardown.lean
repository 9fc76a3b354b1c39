import Xv6.Memory.Exhaustion

/-!
What tearing down a range of pages does to reference counts.

`deallocuvm` gives up one reference for every entry it finds in use, present or not.
For a swapped-out page that reference was given up at eviction already, and the frame
number in the entry is whatever happens to be there now.
-/

namespace Xv6

open Finset Pte

/-- The effect on a count of
`if (decrementReferencesAndGetPrevVal(v) == 1) kfree(v)`. -/
def dropRef (r : Int) : Int := if 1 < r then r - 1 else if r = 1 then 0 else r

theorem dropRef_iterate (n : Nat) (r : Int) :
    dropRef^[n] r = if r ≤ n then min r 0 else r - n := by
  induction n generalizing r with
  | zero =>
    simp only [Function.iterate_zero, id_eq]
    split <;> omega
  | succ n ih =>
    rw [Function.iterate_succ_apply, ih, dropRef]
    split_ifs <;> omega

/-- Entries that `deallocuvm` acts on. -/
def Pte.inUse (pte : Pte) : Bool := pte.p || pte.pg

/-- The entries of swapped-out pages. -/
def Pte.swapped (pte : Pte) : Bool := !pte.p && pte.pg

/-- The chosen entries from address `a` up to `oldsz` that name the frame. -/
def entriesIn (dir : PageDir) (chosen : Pte → Bool) (a oldsz f : Nat) : Finset Nat :=
  (Finset.range (oldsz / PGSIZE + 1)).filter fun page =>
    a ≤ page * PGSIZE ∧ page * PGSIZE < oldsz ∧ chosen (pteAt dir page) = true ∧
      (pteAt dir page).frame = f

variable {dir : PageDir} {chosen : Pte → Bool} {oldsz f a : Nat}

theorem mem_entriesIn {page : Nat} : page ∈ entriesIn dir chosen a oldsz f ↔
      a ≤ page * PGSIZE ∧ page * PGSIZE < oldsz ∧ chosen (pteAt dir page) = true ∧
        (pteAt dir page).frame = f := by
  rw [entriesIn, mem_filter, mem_range]
  refine and_iff_right_of_imp fun h => ?_
  unfold PGSIZE at *
  omega

theorem entriesIn_past (f : Nat) (past : ¬ a < oldsz) : entriesIn dir chosen a oldsz f = ∅ := by
  rw [eq_empty_iff_forall_notMem]
  intro page hit
  have := mem_entriesIn.mp hit
  omega

/-- An entry in use is present or swapped out. -/
theorem card_inUse (dir : PageDir) (a oldsz f : Nat) :
    (entriesIn dir Pte.inUse a oldsz f).card =
      (entriesIn dir Pte.p a oldsz f).card + (entriesIn dir Pte.swapped a oldsz f).card := by
  rw [← card_union_of_disjoint]
  · congr 1
    ext page
    simp only [mem_union, mem_entriesIn, inUse, Pte.swapped]
    cases (pteAt dir page).p <;> cases (pteAt dir page).pg <;> simp
  · rw [disjoint_left]
    intro page present swapped
    simp only [mem_entriesIn, Pte.swapped] at present swapped
    simp [present.2.2.1] at swapped

namespace Kernel

variable {cfg : Config} {k k' : Kernel} {me : ProcNo} {d : Nat}

theorem dropFrame_refs (run : k.dropFrame cfg f = .ok k') :
    (∀ g, k'.kmem.ref g = if g = f then dropRef (k.kmem.ref f) else k.kmem.ref g) ∧
      k'.dirs = k.dirs := by
  unfold dropFrame at run
  simp only [Kmem.decRef] at run
  split at run
  · rename_i last
    have same : ¬ 1 < k.kmem.ref f := by omega
    rw [if_neg same] at run
    simp only [kfree, Kmem.freeFrame, Kmem.release, Res.bind_ok] at run
    obtain ⟨km, freed, done⟩ := run
    split at freed
    · cases freed
    · split at freed
      · cases freed
      · cases freed
        cases done
        refine ⟨fun g => ?_, rfl⟩
        change (k.kmem.push f).ref g = _
        rw [ref_push, last]
        rfl
  · rename_i notLast
    cases run
    refine ⟨fun g => ?_, rfl⟩
    change Kmem.ref (if 1 < k.kmem.ref f then _ else _) g = _
    unfold dropRef
    split
    · rw [ref_setRun]
    · split
      · rename_i same
        rw [same]
      · rfl

/-- One turn of the loop: an entry in use is cleared and costs its frame a reference. -/
theorem deallocPage_refs {pte : Pte} (walk : walkpgdir (k.dirs d) a = some pte)
    (run : k.deallocPage cfg me d a pte = .ok k') : (∀ g, k'.kmem.ref g =
      if pte.inUse = true ∧ g = pte.frame then dropRef (k.kmem.ref g) else k.kmem.ref g) ∧
      ∀ page, page ≠ pageOf a → pteAt (k'.dirs d) page = pteAt (k.dirs d) page := by
  unfold deallocPage at run
  split at run
  · rename_i either
    have inUse : pte.inUse = true := by simpa [inUse] using either
    split at run
    · cases run
    · simp only [Res.bind_ok] at run
      obtain ⟨k₁, dropped, done⟩ := run
      cases done
      obtain ⟨refs, dirs⟩ := dropFrame_refs dropped
      obtain ⟨sameKmem, _, sameDirs, _⟩ := releaseMeta_cases k₁ me d a
      refine ⟨fun g => ?_, fun page other => ?_⟩
      · rw [setPte_kmem, sameKmem, refs g]
        by_cases here : g = pte.frame
        · simp [inUse, here]
        · simp [here]
      · rw [setPte_dirs_self, sameDirs, dirs, pteAt_setPte walk, if_neg other]
  · rename_i neither
    cases run
    have notInUse : pte.inUse = false := by simpa [inUse] using neither
    exact ⟨fun g => by simp [notInUse], fun _ _ => rfl⟩

theorem deallocLoop_refs (n : Nat) (low : oldsz ≤ KERNBASE)
    (aligned : a % PGSIZE = 0) (run : deallocLoop cfg me d oldsz n k a = .ok k') (f : Nat) :
    k'.kmem.ref f = dropRef^[(entriesIn (k.dirs d) Pte.inUse a oldsz f).card] (k.kmem.ref f) := by
  refine (deallocLoop_rule (E := fun _ => True) (P := fun _ _ => True) (R := fun a k k' => k'.kmem.ref f =
      dropRef^[(entriesIn (k.dirs d) inUse a oldsz f).card] (k.kmem.ref f))
    low ?_ ?_ ?_ n aligned (.inr trivial) trivial).of_ok run
  · intro a k past _
    rw [entriesIn_past f (by omega)]
    rfl
  · intro a b k inside further none_here _
    refine ⟨trivial, fun rest => ?_⟩
    rw [rest]
    congr 2
    ext page
    simp only [mem_entriesIn]
    refine ⟨fun h => ⟨by omega, h.2⟩, fun h => ⟨?_, h.2⟩⟩
    by_contra before
    rw [none_here page ⟨h.1, by omega⟩] at h
    simp [inUse, zero] at h
  · intro a k pte inside here walk _
    refine (Outcome.sat_true _).attach.weaken fun k₁ ran => ⟨trivial, fun rest => ?_⟩
    obtain ⟨refs, entries⟩ := deallocPage_refs walk ran.1
    have entry := walkpgdir_eq_some walk
    rw [rest, refs f]
    -- The entry of this page, if it names the frame, and the later ones.
    have later : ∀ page, page ∈ entriesIn (k₁.dirs d) inUse (a + PGSIZE) oldsz f ↔
        page ≠ pageOf a ∧ page ∈ entriesIn (k.dirs d) inUse a oldsz f := by
      intro page
      have address := (here (pageOf a)).mp rfl
      simp only [mem_entriesIn, ne_eq, here page]
      by_cases same : page * PGSIZE = a
      · unfold PGSIZE at *
        omega
      · rw [entries page (fun eq => same ((here page).mp eq))]
        unfold PGSIZE at *
        constructor
        · rintro ⟨after, rest⟩
          exact ⟨same, by omega, rest⟩
        · rintro ⟨_, from', rest⟩
          exact ⟨by omega, rest⟩
    by_cases hit : pte.inUse = true ∧ f = pte.frame
    · have first : pageOf a ∈ entriesIn (k.dirs d) inUse a oldsz f := by
        rw [mem_entriesIn, (here (pageOf a)).mp rfl, entry]
        exact ⟨le_refl a, inside, hit.1, hit.2.symm⟩
      have all : entriesIn (k.dirs d) inUse a oldsz f =
          insert (pageOf a) (entriesIn (k₁.dirs d) inUse (a + PGSIZE) oldsz f) := by
        ext page
        rw [mem_insert, later page]
        by_cases same : page = pageOf a
        · simp [same, first]
        · simp [same]
      rw [if_pos hit, all, card_insert_of_notMem (fun h => ((later _).mp h).1 rfl),
        Function.iterate_succ_apply]
    · have all : entriesIn (k.dirs d) inUse a oldsz f =
          entriesIn (k₁.dirs d) inUse (a + PGSIZE) oldsz f := by
        ext page
        rw [later page, iff_and_self]
        rintro isIn rfl
        have := mem_entriesIn.mp isIn
        rw [entry] at this
        exact hit ⟨this.2.2.1, this.2.2.2.symm⟩
      rw [if_neg hit, all]

/-- How many present entries of the range map the frame. -/
def mappedIn (dir : PageDir) (newsz oldsz f : Nat) : Nat :=
  if newsz < oldsz then (entriesIn dir Pte.p (PGROUNDUP newsz) oldsz f).card else 0

/-- The first process has page 0 swapped out. Its old frame 1006 now belongs to the
second process. -/
def reused : Kernel :=
  { Kernel.zeroed with
    kmem := .layout sharersHeld.dropLast 2000 1
    dirs := fun d =>
      if d = 1000 then .single 1002 fun page =>
        if page = 0 then { w := true, u := true, pg := true, frame := 1006 } else .zero
      else if d = 1001 then .single 1003 fun page =>
        if page = 0 then { p := true, w := true, u := true, frame := 1006 } else .zero
      else .zeroed }

end Kernel

end Xv6
