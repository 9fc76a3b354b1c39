import Xv6.Memory.ImageSteps

/-!
Tearing down a directory, whoever owns the frames it names: `deallocuvm` returns on every
directory whose entries name frames, and touches no other frame.
-/

namespace Xv6

open Outcome

theorem getPagePgdirIndex_some {pmds : Slot → Pmd} {d va : Nat} {i : Slot}
    (found : getPagePgdirIndex pmds d va = some i) : (pmds i).pgdir = d ∧ (pmds i).va = va := by
  have := List.find?_some found
  simpa only [decide_eq_true_eq] using this

namespace Kernel

/-- The pages of `d` in `range` are gone, and nothing else has changed. -/
structure Dismantled (cfg : Config) (d : Nat) (range : Nat → Prop) (k k' : Kernel) : Prop where
  intact : Stocked cfg k'.kmem 0
  inside : ∀ n, range n → pteAt (k'.dirs d) n = (pteAt (k.dirs d) n).cleared
  outside : ∀ n, ¬ range n → pteAt (k'.dirs d) n = pteAt (k.dirs d) n
  untouched : ∀ g, (∀ n, range n → (pteAt (k.dirs d) n).Names → (pteAt (k.dirs d) n).frame ≠ g) →
    k'.mem g = k.mem g

section

variable {cfg : Config} {k k₁ k' : Kernel} {me : ProcNo} {d : Nat} {range range' : Nat → Prop}

theorem Dismantled.of_zero (intact : Stocked cfg k.kmem 0)
    (zero : ∀ n, range n → pteAt (k.dirs d) n = .zero) : Dismantled cfg d range k k where
  intact := intact
  inside n hit := by
    rw [zero n hit]
    rfl
  outside _ _ := rfl
  untouched _ _ := rfl

theorem Dismantled.trans {range'' : Nat → Prop} (first : Dismantled cfg d range k k₁)
    (second : Dismantled cfg d range' k₁ k') (both : ∀ n, range'' n ↔ range n ∨ range' n)
    (apart : ∀ n, range n → ¬ range' n) : Dismantled cfg d range'' k k' where
  intact := second.intact
  inside n hit := by
    rcases (both n).mp hit with hit | hit
    · rw [second.outside n (apart n hit), first.inside n hit]
    · rw [second.inside n hit, first.outside n (fun h => apart n h hit)]
  outside n miss := by
    rw [second.outside n (fun h => miss ((both n).mpr (.inr h))),
      first.outside n (fun h => miss ((both n).mpr (.inl h)))]
  untouched g far := by
    refine (second.untouched g fun n hit => ?_).trans
      (first.untouched g fun n hit => far n ((both n).mpr (.inl hit)))
    rw [first.outside n (fun h => apart n h hit)]
    exact far n ((both n).mpr (.inr hit))

theorem deallocPage_dismantled (intact : Stocked cfg k.kmem 0) {a : Nat} {pte : Pte}
    (walk : walkpgdir (k.dirs d) a = some pte) (frame : pte.Names → pte.frame ≠ 0) :
    Sat (fun _ => False) (Dismantled cfg d (· = pageOf a) k) (k.deallocPage cfg me d a pte) := by
  have entry := walkpgdir_eq_some walk
  unfold deallocPage
  split
  · rename_i names
    rw [if_neg (frame (by simpa [Pte.Names] using names))]
    obtain ⟨km, mem, dropped, intact', -, same⟩ := dropFrame_image pte.frame intact
    rw [dropped, Res.ok_bind]
    obtain ⟨sameKmem, sameMem, sameDirs, _⟩ :=
      releaseMeta_cases { k with kmem := km, mem := mem } me d a
    have dirs := setPte_dirs (releaseMeta { k with kmem := km, mem := mem } me d a) d a .zero
    rw [sameDirs] at dirs
    refine .ok ⟨?_, fun n here => ?_, fun n other => ?_, fun g far => ?_⟩
    · rw [setPte_kmem, sameKmem]
      exact intact'
    · rw [dirs, Function.update_self, pteAt_setPte walk, if_pos here, here, entry, Pte.cleared,
        if_pos names]
    · rw [dirs, Function.update_self, pteAt_setPte walk, if_neg other]
    · rw [setPte_mem, sameMem]
      have other : g ≠ pte.frame := fun same => far (pageOf a) rfl
        (by rw [entry]; simpa [Pte.Names] using names) (by rw [entry, same])
      exact same g other
  · rename_i neither
    refine .ok ⟨intact, fun n here => ?_, fun _ _ => rfl, fun _ _ => rfl⟩
    rw [here, entry, Pte.cleared, if_neg neither]

theorem deallocLoop_dismantled {oldsz : Nat} (n : Nat) {a : Nat} (intact : Stocked cfg k.kmem 0)
    (low : oldsz ≤ KERNBASE) (aligned : a % PGSIZE = 0)
    (turns : oldsz ≤ a + n * PGSIZE)
    (frames : ∀ page, a ≤ page * PGSIZE ∧ page * PGSIZE < oldsz →
      (pteAt (k.dirs d) page).Names → (pteAt (k.dirs d) page).frame ≠ 0) :
    Sat (fun _ => False)
      (Dismantled cfg d (fun page => a ≤ page * PGSIZE ∧ page * PGSIZE < oldsz) k)
      (deallocLoop cfg me d oldsz n k a) := by
  refine deallocLoop_rule (P := fun a k => Stocked cfg k.kmem 0 ∧
      ∀ page, a ≤ page * PGSIZE ∧ page * PGSIZE < oldsz →
        (pteAt (k.dirs d) page).Names → (pteAt (k.dirs d) page).frame ≠ 0)
    (R := fun a => Dismantled cfg d (fun page => a ≤ page * PGSIZE ∧ page * PGSIZE < oldsz))
    low ?_ ?_ ?_ n aligned (.inl turns) ⟨intact, frames⟩
  · exact fun past ⟨intact, _⟩ => .of_zero intact fun page hit => by omega
  · intro a b k inside further none_here ⟨intact, frames⟩
    refine ⟨⟨intact, fun page hit => frames page (by omega)⟩, fun rest => ?_⟩
    have skipped : Dismantled cfg d (fun page => a ≤ page * PGSIZE ∧ page * PGSIZE < oldsz ∧
        page * PGSIZE < b) k k := .of_zero intact fun page hit => none_here page (by omega)
    exact skipped.trans rest (fun page => by omega) fun page => by omega
  · intro a k pte inside here walk ⟨intact, frames⟩
    have entry := walkpgdir_eq_some walk
    have address := (here (pageOf a)).mp rfl
    refine (deallocPage_dismantled intact walk (entry ▸ frames (pageOf a) (by omega))).weaken
      fun k₁ first => ?_
    unfold PGSIZE at *
    refine ⟨⟨first.intact, fun page hit => ?_⟩,
      fun rest => first.trans rest (fun page => ?_) fun page hit => ?_⟩
    · rw [first.outside page (by rw [here]; omega)]
      exact frames page (by omega)
    · rw [here page]
      omega
    · rw [here page] at hit
      omega

theorem deallocuvm_dismantled {oldsz newsz : Nat} (intact : Stocked cfg k.kmem 0)
    (low : oldsz ≤ KERNBASE)
    (frames : ∀ page, InRange newsz oldsz page → (pteAt (k.dirs d) page).Names →
      (pteAt (k.dirs d) page).frame ≠ 0) :
    Sat (fun _ => False) (fun r => Dismantled cfg d (InRange newsz oldsz) k r.2)
      (k.deallocuvm cfg me d oldsz newsz) := by
  unfold deallocuvm
  split
  · rename_i order
    exact .ok (.of_zero intact fun page hit => absurd hit.1 (by omega))
  · rename_i order
    have range : InRange newsz oldsz =
        fun page => PGROUNDUP newsz ≤ page * PGSIZE ∧ page * PGSIZE < oldsz := by
      funext page
      simp only [InRange, eq_iff_iff]
      omega
    rw [range] at frames ⊢
    have enough : oldsz ≤ PGROUNDUP newsz + (oldsz / PGSIZE + 1) * PGSIZE := by
      unfold PGSIZE
      omega
    exact (deallocLoop_dismantled _ intact low (PGROUNDUP_aligned newsz) enough
      frames).bind fun k' done => .ok done

end

end Kernel

end Xv6
