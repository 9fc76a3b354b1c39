import Xv6.Memory.Permissions

/-!
A swap-in for which no frame is left.

`onPageFaultPG` records the page as resident before it asks for a frame, and returns without undoing
that when there is none. In the exchange of two pages the only copy of the page has been overwritten
by then. What is lost is stated against what the caller would need to try again.
-/

namespace Xv6

open Outcome

section Metadata

variable {m m' : Paging} {sel : Selection} {i : Slot}

theorem enqueue_same {e : HeapP} (run : m.enqueue e = .ok m') : SamePages m m' := by
  unfold Paging.enqueue at run
  split at run
  · cases run
    exact .setQueue m _
  · cases run

theorem insertPageToPrioQueue_same (run : insertPageToPrioQueue sel m i = .ok m') :
    SamePages m m' := by
  have removed : SamePages m (if (findInHeap m.queue i.val).1.index ≠ -1 then
      Paging.dequeue { m with queue := (findInHeap m.queue i.val).2 } i.val
      else { m with queue := (findInHeap m.queue i.val).2 }) := by
    split <;> exact .setQueue m _
  unfold insertPageToPrioQueue at run
  cases sel with
  | NONE =>
    cases run
    exact removed
  | NFUA | LAPA => exact (removed.trans (.setAge _ i _)).trans (enqueue_same run)
  | SCFIFO | AQ => exact removed.trans (enqueue_same run)

theorem increaseAgeAt_same {n : Nat} (run : increaseAgeAt m n = .ok m') : SamePages m m' := by
  unfold increaseAgeAt at run
  dsimp only at run
  split at run
  · cases run
    exact .refl m
  · split at run
    · split at run
      · split at run
        · cases run
          exact (SamePages.setAge m _ _).trans (.setQueue _ _)
        · cases run
      · cases run
        exact .refl m
    · cases run

theorem increaseProcAge_same (run : increaseProcAge m = .ok m') : SamePages m m' := by
  unfold increaseProcAge at run
  have kept : Sat (fun _ => True) (SamePages m)
      ((List.range MAX_PRIO_ARR).foldlM increaseAgeAt m) := by
    refine Sat.foldlM _ (fun m₁ n _ sofar => ?_) (.refl m)
    cases turn : increaseAgeAt m₁ n with
    | error e => exact .error trivial
    | ok m₂ => exact .ok (sofar.trans (increaseAgeAt_same turn))
  exact kept.of_ok run

/-- Choosing a victim changes at most the priorities of the queue. -/
theorem getVictimIndex_queue (sel : Selection) (m : Paging) :
    (getVictimIndex sel m).2 = { m with queue := (getVictimIndex sel m).2.queue } := by
  cases sel with
  | NONE =>
    unfold getVictimIndex
    dsimp only
    split <;> rfl
  | NFUA | LAPA | SCFIFO =>
    unfold getVictimIndex
    dsimp only
    split <;> rfl
  | AQ =>
    unfold getVictimIndex
    dsimp only
    split
    · rfl
    · unfold decAqValues
      split <;> rfl

theorem decAqValues_index (m : Paging) (index : Int) :
    (peekHeap (decAqValues m index).queue.array).index = (peekHeap m.queue.array).index := by
  unfold decAqValues
  split
  · rfl
  · simp only [peekHeap, entryAt, List.getD_eq_getElem?_getD, List.getElem?_mapIdx]
    cases m.queue.array[0]? with
    | none => rfl
    | some e =>
      simp only [Option.map_some, Option.getD_some]
      split <;> rfl

/-- The victim is a resident page, whatever the build. -/
theorem Accounted.victim_resident (acc : Accounted m) (chosen : (getVictimIndex sel m).1 = i.val) :
    i ∈ occupied m.ramPmd := by
  have front : m.queue.size ≠ 0 → (peekHeap m.queue.array).index = i.val →
      i ∈ occupied m.ramPmd := by
    intro nonempty index
    obtain ⟨j, taken, same⟩ := acc.queued.live_slot (peekHeap_mem (Nat.pos_of_ne_zero nonempty))
    obtain rfl : i = j := Fin.ext (by omega)
    exact taken
  cases sel with
  | NONE =>
    unfold getVictimIndex at chosen
    dsimp only at chosen
    split at chosen
    · simp only at chosen
      omega
    · rename_i j found
      obtain rfl : j = i := Fin.ext (by simpa using chosen)
      exact mem_occupied.mpr (getPageIndexDefault_some found).1
  | NFUA | LAPA | SCFIFO =>
    unfold getVictimIndex at chosen
    dsimp only at chosen
    split at chosen
    · simp only at chosen
      omega
    · exact front (by assumption) chosen
  | AQ =>
    unfold getVictimIndex at chosen
    dsimp only at chosen
    split at chosen
    · simp only at chosen
      omega
    · rw [decAqValues_index] at chosen
      exact front (by assumption) chosen

end Metadata

namespace Kernel

variable {x : Int} {swapIndex : Option Slot} {i : Slot} {pte : Pte}

section Pieces

variable {cfg : Config} {k k' : Kernel} {me : ProcNo} {d : Nat}

/-- A frame is free afterwards if one was before or this was the last reference to it. -/
theorem dropFrame_freelist {f : Nat} (run : k.dropFrame cfg f = .ok k') :
    k'.kmem.freelist = none ↔ k.kmem.freelist = none ∧ k.kmem.ref f ≠ 1 := by
  unfold dropFrame at run
  dsimp only at run
  split at run
  · rename_i last
    simp only [kfree, Res.bind_ok] at run
    obtain ⟨km, freed, run⟩ := run
    cases run
    unfold Kmem.freeFrame Kmem.release at freed
    split at freed
    · cases freed
    · split at freed
      · cases freed
      · cases freed
        have single : k.kmem.ref f = 1 := last
        simp [Kmem.push, single]
  · rename_i more
    cases run
    have several : k.kmem.ref f ≠ 1 := more
    simp only [decRef_freelist, several, ne_eq, not_false_eq_true, and_true]

/-- What `pageToSwapFile` leaves behind when it returns. -/
structure PagedOut (me : ProcNo) (d : Nat) (k k' : Kernel) (i j : Slot) (pte : Pte) : Prop where
  walk : walkpgdir (k.dirs d) ((k.proc me).paging.ramPmd i).va = some pte
  paging : (k'.proc me).paging = (k.proc me).paging.pageOut i j
  pgdir : (k'.proc me).pgdir = (k.proc me).pgdir
  dirs : k'.dirs = Function.update k.dirs d (Xv6.setPte (k.dirs d) ((k.proc me).paging.ramPmd i).va
    { pte with p := false, pg := true })
  freelist : k'.kmem.freelist = none ↔ k.kmem.freelist = none ∧ k.kmem.ref pte.frame ≠ 1

theorem pageToSwapFile_cases (run : k.pageToSwapFile cfg me x swapIndex d = .ok k') :
    ∃ i j pte, x = (i : Slot).val ∧ swapIndex = some j ∧ PagedOut me d k k' i j pte := by
  by_cases slots : ∃ (i : Slot) (j : Slot), x = i.val ∧ swapIndex = some j
  · obtain ⟨i, j, rfl, rfl⟩ := slots
    rw [pageToSwapFile_eq, Res.bind_ok] at run
    obtain ⟨-, -, run⟩ := run
    split at run
    · cases run
    · rename_i pte walk
      split at run
      · cases run
      · rename_i file _
        rw [Res.bind_ok] at run
        obtain ⟨k₁, dropped, run⟩ := run
        cases run
        have still := (dropFrame_still pte.frame).of_ok dropped
        have dirs := (dropFrame_dirs pte.frame).of_ok dropped
        refine ⟨i, j, pte, rfl, rfl, walk, ?_, ?_, ?_, ?_⟩
        · simp [still.proc, pagedOut]
        · simp [still.proc, pagedOut]
        · rw [setPte_dirs, dirs, pagedOut]
        · have freed := dropFrame_freelist dropped
          exact freed
  · -- Without both slots the call fails.
    unfold pageToSwapFile at run
    rw [Res.bind_ok] at run
    obtain ⟨-, -, run⟩ := run
    dsimp only at run
    split at run
    · cases run
    · cases swapIndex with
      | none => cases run
      | some j =>
        simp only [Res.bind_ok] at run
        obtain ⟨i, slot, -⟩ := run
        exact absurd ⟨i, j, (ramSlot_sat x).of_ok slot, rfl⟩ slots

/-- A page that was not present is not present after the eviction of any page. -/
theorem PagedOut.absent {j : Slot} (out : PagedOut me d k k' i j pte) {page : Nat}
    (absent : (pteAt (k.dirs d) page).p = false) : (pteAt (k'.dirs d) page).p = false := by
  rw [out.dirs, Function.update_self, pteAt_setPte out.walk]
  split
  · rfl
  · exact absent

/-- A page that has been mapped is present. -/
theorem mapPage_present {va f : Nat} {perm : Pte} (aligned : va % PGSIZE = 0) (word : va < 2 ^ 32)
    (run : k.mappages cfg d va PGSIZE f perm = .ok (true, k')) :
    (pteAt (k'.dirs d) (pageOf va)).p = true := by
  obtain ⟨k₁, -, -, mapped⟩ := mapPage_cases aligned word run
  obtain ⟨pte, walk, -, rfl⟩ := mapped rfl
  rw [setPte_dirs_self, pteAt_setPte walk, if_pos rfl]

end Pieces

/-- The page `va1` of the process is in one slot of the swap file and nowhere else. -/
structure SwappedOnce (k : Kernel) (me : ProcNo) (va1 : Nat) : Prop where
  absent : (pteAt (k.dirs (k.proc me).pgdir) (pageOf va1)).p = false
  unique : ∀ j ∈ occupied (k.proc me).paging.swapPmd, ((k.proc me).paging.swapPmd j).va = va1 →
    ∀ j' ∈ occupied (k.proc me).paging.swapPmd, ((k.proc me).paging.swapPmd j').va = va1 → j = j'
  resident : ∀ i ∈ occupied (k.proc me).paging.ramPmd, ((k.proc me).paging.ramPmd i).va ≠ va1

instance (k : Kernel) (me : ProcNo) (va1 : Nat) : Decidable (k.SwappedOnce me va1) :=
  decidable_of_iff ((pteAt (k.dirs (k.proc me).pgdir) (pageOf va1)).p = false ∧
    (∀ j ∈ occupied (k.proc me).paging.swapPmd, ((k.proc me).paging.swapPmd j).va = va1 →
      ∀ j' ∈ occupied (k.proc me).paging.swapPmd, ((k.proc me).paging.swapPmd j').va = va1 →
        j = j') ∧
    ∀ i ∈ occupied (k.proc me).paging.ramPmd, ((k.proc me).paging.ramPmd i).va ≠ va1)
    ⟨fun ⟨absent, unique, resident⟩ => ⟨absent, unique, resident⟩,
      fun once => ⟨once.absent, once.unique, once.resident⟩⟩

/-- Nothing is lost: the metadata agree, an occupied slot has the page with its contents, and a fault
with a frame at hand succeeds. -/
structure Intact (cfg : Config) (me : ProcNo) (va1 : Nat) (k k' : Kernel) : Prop where
  accounted : Accounted (k'.proc me).paging
  recorded : ∃ j ∈ occupied (k'.proc me).paging.swapPmd, ((k'.proc me).paging.swapPmd j).va = va1 ∧
    ∀ j₀ ∈ occupied (k.proc me).paging.swapPmd, ((k.proc me).paging.swapPmd j₀).va = va1 →
      ∀ buffer, k'.readSwap me buffer ((k'.proc me).paging.swapPmd j).offset =
        k.readSwap me buffer ((k.proc me).paging.swapPmd j₀).offset
  again : ∀ km : Kmem, km.freelist ≠ none →
    ∃ k'', onPageFaultPG cfg { k' with kmem := km } me va1 = .ok k''

/-- The frame of the page that would be evicted. -/
def victimFrame (cfg : Config) (k : Kernel) (me : ProcNo) : Option Nat :=
  match ramSlot (getVictimIndex cfg.sel (k.proc me).paging).1 with
  | .ok i => (walkpgdir (k.dirs (k.proc me).pgdir) ((k.proc me).paging.ramPmd i).va).map Pte.frame
  | .error _ => none

/-- A frame is free, or a page has to be evicted and its frame is not shared. -/
def FrameAtHand (cfg : Config) (k : Kernel) (me : ProcNo) : Prop :=
  k.kmem.freelist ≠ none ∨ ((k.proc me).paging.pagesInMemory = MAX_PSYC_PAGES ∧
    ∃ f ∈ victimFrame cfg k me, k.kmem.ref f = 1)

section Failure

variable {cfg : Config} {k k' : Kernel} {me : ProcNo} {va1 : Nat}

theorem swapIn_outcome (aligned : va1 % PGSIZE = 0) (low : va1 < KERNBASE)
    (run : k.swapIn cfg me va1 = .ok k') :
    (k.kmem.freelist ≠ none → (pteAt (k'.dirs (k.proc me).pgdir) (pageOf va1)).p = true) ∧
      (k.kmem.freelist = none → k'.dirs = k.dirs ∧
        ∃ i ∉ occupied (k.proc me).paging.ramPmd,
          occupied (k'.proc me).paging.ramPmd = insert i (occupied (k.proc me).paging.ramPmd) ∧
          (k'.proc me).paging.pagesInMemory = (k.proc me).paging.pagesInMemory) := by
  have word : va1 < 2 ^ 32 := by
    unfold KERNBASE at low
    omega
  unfold swapIn at run
  split at run
  · cases run
  · rename_i j _
    simp only [Res.bind_ok] at run
    obtain ⟨m₁, aged, run⟩ := run
    have same₁ := increaseProcAge_same aged
    split at run
    · cases run
    · rename_i i found
      simp only [Res.bind_ok] at run
      obtain ⟨m₂, inserted, ⟨r, k₁⟩, taken, run⟩ := run
      have same₂ := insertPageToPrioQueue_same inserted
      obtain ⟨dirs, proc, empty, -⟩ := kalloc_cases taken
      cases r with
      | none =>
        cases run
        refine ⟨fun some => absurd (empty.mp rfl) some, fun _ => ⟨dirs, i, ?_, ?_, ?_⟩⟩
        · have vacant := (getPageIndexDefault_some found).1
          rw [same₁.ramPmd i] at vacant
          simpa [Paging.setSwap] using vacant
        · rw [proc, record_proc, setPaging_self, same₂.resident]
          simp [Paging.occupy, Paging.setRam, occupied_update, same₁.resident, Paging.setSwap]
        · rw [proc, record_proc, setPaging_self]
          exact same₂.pagesInMemory.trans same₁.pagesInMemory
      | some f =>
        refine ⟨fun _ => ?_, fun none => by cases empty.mpr none⟩
        simp only [Res.bind_ok] at run
        obtain ⟨⟨b, k₂⟩, mapped, run⟩ := run
        cases b with
        | false => cases run
        | true =>
          simp only [Res.bind_ok] at run
          obtain ⟨page, -, run⟩ := run
          cases run
          have present := mapPage_present aligned word mapped
          exact present

theorem swapPages_outcome (aligned : va1 % PGSIZE = 0)
    (low : va1 < KERNBASE) (found : ∀ j, swapIndex = some j → ((k.proc me).paging.swapPmd j).va = va1)
    (run : k.swapPages cfg me x swapIndex (k.proc me).pgdir = .ok k') :
    ∃ i j pte, x = (i : Slot).val ∧ swapIndex = some j ∧
      walkpgdir (k.dirs (k.proc me).pgdir) ((k.proc me).paging.ramPmd i).va = some pte ∧
      (k.kmem.freelist ≠ none ∨ k.kmem.ref pte.frame = 1 →
        (pteAt (k'.dirs (k.proc me).pgdir) (pageOf va1)).p = true) ∧
      (k.kmem.freelist = none → k.kmem.ref pte.frame ≠ 1 →
        (∀ page, (pteAt (k.dirs (k.proc me).pgdir) page).p = false →
          (pteAt (k'.dirs (k.proc me).pgdir) page).p = false) ∧
        (k'.proc me).paging.swapPmd = Function.update (k.proc me).paging.swapPmd j
          (((k.proc me).paging.swapPmd j).paged ((k.proc me).paging.ramPmd i) j)) := by
  have word : va1 < 2 ^ 32 := by
    unfold KERNBASE at low
    omega
  unfold swapPages at run
  split at run
  · cases run
  · rename_i j
    split at run
    · cases run
    · simp only [Res.bind_ok] at run
      obtain ⟨page, -, k₁, paged, m₁, aged, i', slot, m₂, inserted, ⟨r, k₂⟩, taken, run⟩ := run
      obtain ⟨i, j', pte, rfl, here, out⟩ := pageToSwapFile_cases paged
      cases here
      rw [ramSlot_val, Except.ok.injEq] at slot
      subst slot
      have same₁ := increaseProcAge_same aged
      have same₂ := insertPageToPrioQueue_same inserted
      obtain ⟨dirs, proc, empty, -⟩ := kalloc_cases taken
      have empty : r = none ↔ k.kmem.freelist = none ∧ k.kmem.ref pte.frame ≠ 1 :=
        empty.trans out.freelist
      refine ⟨i, j, pte, rfl, rfl, out.walk, fun atHand => ?_, fun none shared => ?_⟩
      · cases r with
        | none =>
          obtain ⟨none, shared⟩ := empty.mp rfl
          rcases atHand with some | single
          · exact absurd none some
          · exact absurd single shared
        | some f =>
          simp only [Res.bind_ok] at run
          obtain ⟨⟨b, k₃⟩, mapped, run⟩ := run
          cases b with
          | false => cases run
          | true =>
            cases run
            have va : (m₂.ramPmd i).va = va1 := by
              rw [same₂.ramPmd i]
              simp only [Paging.setRam, Function.update_self]
              exact found j rfl
            have pgdir : (k₂.proc me).pgdir = (k.proc me).pgdir := by
              rw [proc, record_proc, setPaging_self]
              exact out.pgdir
            rw [va] at mapped
            have present := mapPage_present aligned word mapped
            rw [← pgdir]
            exact present
      · cases r with
        | some f => cases empty.mpr ⟨none, shared⟩
        | none =>
          cases run
          refine ⟨fun page absent => ?_, ?_⟩
          · rw [dirs]
            exact out.absent absent
          · rw [proc, record_proc, setPaging_self]
            simp only [same₂.swapPmd, Paging.setRam, same₁.swapPmd, out.paging, pageOut_eq]

theorem frameAtHand_iff (full : (k.proc me).paging.pagesInMemory = MAX_PSYC_PAGES)
    (chosen : (getVictimIndex cfg.sel (k.proc me).paging).1 = i.val)
    (walk : walkpgdir (k.dirs (k.proc me).pgdir) ((k.proc me).paging.ramPmd i).va = some pte) :
    FrameAtHand cfg k me ↔ k.kmem.freelist ≠ none ∨ k.kmem.ref pte.frame = 1 := by
  have frame : victimFrame cfg k me = some pte.frame := by
    rw [victimFrame, chosen, ramSlot_val]
    simp only [walk, Option.map_some]
  simp only [FrameAtHand, full, frame, Option.mem_some_iff, exists_eq_left', true_and]

/-- A page recorded as resident without being counted. -/
theorem not_accounted {m m' : Paging} (acc : m.pagesInMemory = (occupied m.ramPmd).card)
    (vacant : i ∉ occupied m.ramPmd) (filled : occupied m'.ramPmd = insert i (occupied m.ramPmd))
    (counter : m'.pagesInMemory = m.pagesInMemory) : ¬ Accounted m' := by
  intro acc'
  have wrong := acc'.pagesInMemory
  rw [filled, Finset.card_insert_of_notMem vacant, counter, acc] at wrong
  omega

variable (aligned : va1 % PGSIZE = 0) (low : va1 < KERNBASE) (acc : Accounted (k.proc me).paging)
  (once : k.SwappedOnce me va1)
include aligned low acc once

/-- There is room in memory. -/
theorem swapIn_intact_iff
    (room : (k.proc me).paging.pagesInMemory ≠ MAX_PSYC_PAGES)
    (run : k.swapIn cfg me va1 = .ok k') :
    ((pteAt (k'.dirs (k.proc me).pgdir) (pageOf va1)).p = false → Intact cfg me va1 k k') ↔
      FrameAtHand cfg k me := by
  obtain ⟨present, lost⟩ := swapIn_outcome aligned low run
  have atHand : FrameAtHand cfg k me ↔ k.kmem.freelist ≠ none :=
    ⟨fun holds => holds.resolve_right fun evicts => room evicts.1, .inl⟩
  rw [atHand]
  constructor
  · intro intact none
    obtain ⟨dirs, i, vacant, filled, counter⟩ := lost none
    refine not_accounted acc.pagesInMemory vacant filled counter (intact ?_).accounted
    rw [dirs]
    exact once.absent
  · intro some absent
    rw [present some] at absent
    cases absent

/-- A page is evicted first. -/
theorem evict_intact_iff {k₁ : Kernel}
    (full : (k.proc me).paging.pagesInMemory = MAX_PSYC_PAGES)
    (evicted : k.evict cfg me (k.proc me).pgdir = .ok k₁) (run : k₁.swapIn cfg me va1 = .ok k') :
    ((pteAt (k'.dirs (k.proc me).pgdir) (pageOf va1)).p = false → Intact cfg me va1 k k') ↔
      FrameAtHand cfg k me := by
  have queue := getVictimIndex_queue cfg.sel (k.proc me).paging
  have ram : (getVictimIndex cfg.sel (k.proc me).paging).2.ramPmd = (k.proc me).paging.ramPmd := by
    rw [queue]
  unfold evict at evicted
  obtain ⟨i, j, pte, chosen, -, out⟩ := pageToSwapFile_cases evicted
  have walk := out.walk
  have pgdir := out.pgdir
  have paging := out.paging
  simp only [setPaging_self, setPaging_dirs, ram] at walk pgdir paging
  have freelist : k₁.kmem.freelist = none ↔
    k.kmem.freelist = none ∧ k.kmem.ref pte.frame ≠ 1 := out.freelist
  obtain ⟨present, lost⟩ := swapIn_outcome aligned low run
  rw [pgdir] at present
  rw [frameAtHand_iff full chosen walk]
  constructor
  · intro intact
    by_contra none
    push Not at none
    obtain ⟨dirs, i', vacant, filled, counter⟩ := lost (freelist.mpr none)
    refine not_accounted ?_ vacant filled counter (intact ?_).accounted
    · have resident := acc.victim_resident chosen
      have pos := Finset.card_pos.mpr ⟨i, resident⟩
      have before := acc.pagesInMemory
      rw [paging, pageOut_resident, ram, Finset.card_erase_of_mem resident, pageOut_eq, queue]
      simp only
      omega
    · rw [dirs]
      exact out.absent once.absent
  · intro atHand absent
    have some : k₁.kmem.freelist ≠ none := by
      rw [Ne, freelist]
      rintro ⟨none, shared⟩
      rcases atHand with some | single
      · exact some none
      · exact shared single
    rw [present some] at absent
    cases absent

/-- The file is full as well, and the page changes places with the victim. -/
theorem swapPages_intact_iff
    (full : (k.proc me).paging.pagesInMemory = MAX_PSYC_PAGES)
    (run : (k.setPaging me (getVictimIndex cfg.sel (k.proc me).paging).2).swapPages cfg me
      (getVictimIndex cfg.sel (k.proc me).paging).1
      (getPageIndexDefault (getVictimIndex cfg.sel (k.proc me).paging).2.swapPmd true va1)
      (k.proc me).pgdir = .ok k') :
    ((pteAt (k'.dirs (k.proc me).pgdir) (pageOf va1)).p = false → Intact cfg me va1 k k') ↔
      FrameAtHand cfg k me := by
  have queue := getVictimIndex_queue cfg.sel (k.proc me).paging
  have ram : (getVictimIndex cfg.sel (k.proc me).paging).2.ramPmd = (k.proc me).paging.ramPmd := by
    rw [queue]
  have swap : (getVictimIndex cfg.sel (k.proc me).paging).2.swapPmd = (k.proc me).paging.swapPmd := by
    rw [queue]
  rw [swap] at run
  have slot : ∀ j, getPageIndexDefault (k.proc me).paging.swapPmd true va1 = some j →
      j ∈ occupied (k.proc me).paging.swapPmd ∧ ((k.proc me).paging.swapPmd j).va = va1 := by
    intro j found
    have notClean : va1 ≠ CLEAN_VA := by
      unfold KERNBASE at low
      unfold CLEAN_VA
      omega
    have here := getPageIndexDefault_some found
    exact ⟨mem_occupied.mpr here.1, here.2.resolve_left notClean⟩
  obtain ⟨i, j, pte, chosen, found, walk, present, lost⟩ := swapPages_outcome
    (k := k.setPaging me (getVictimIndex cfg.sel (k.proc me).paging).2) aligned low
    (fun j found => by
      rw [setPaging_self]
      simp only [swap]
      exact (slot j found).2) (by simpa only [setPaging_self] using run)
  simp only [setPaging_self, setPaging_dirs, setPaging_kmem, ram, swap] at walk present lost
  rw [frameAtHand_iff full chosen walk]
  constructor
  · intro intact
    by_contra none
    push Not at none
    obtain ⟨kept, moved⟩ := lost none.1 none.2
    obtain ⟨j', taken, va, -⟩ := (intact (kept _ once.absent)).recorded
    obtain ⟨isIn, here⟩ := slot j found
    rw [mem_occupied, moved] at taken
    rw [moved] at va
    by_cases same : j' = j
    · subst same
      rw [Function.update_self] at va
      exact once.resident i (acc.victim_resident chosen) va
    · rw [Function.update_of_ne same] at taken va
      exact same (once.unique j' (mem_occupied.mpr taken) va j isIn here)
  · intro atHand absent
    rw [present atHand] at absent
    cases absent

end Failure

/-- When `onPageFaultPG` returns without having brought the page in, nothing is lost only if a frame
was at hand all along: that is, something is lost whenever `kalloc` fails. -/
theorem swap_in_intact_iff (cfg : Config) {k k' : Kernel} {me : ProcNo} {va1 : Nat}
    (aligned : va1 % PGSIZE = 0) (low : va1 < KERNBASE) (acc : Accounted (k.proc me).paging)
    (once : k.SwappedOnce me va1) (run : k.onPageFaultPG cfg me va1 = .ok k') :
    ((pteAt (k'.dirs (k.proc me).pgdir) (pageOf va1)).p = false → Intact cfg me va1 k k') ↔
      FrameAtHand cfg k me := by
  unfold onPageFaultPG at run
  dsimp only at run
  split at run
  · cases run
  · split at run
    · rename_i full
      split at run
      · exact swapPages_intact_iff aligned low acc once full run
      · simp only [Res.bind_ok] at run
        obtain ⟨k₁, evicted, run⟩ := run
        exact evict_intact_iff aligned low acc once full evicted run
    · rename_i room
      exact swapIn_intact_iff aligned low acc once room run

/-- A process of 17 pages on 16 frames gives one page back. Its page 0 is in the swap file, and one
frame is free. -/
def swappedOut : Res Kernel := do
  let (_, k) ← (lone 16).growproc (layoutConfig .SCFIFO) 1 (17 * PGSIZE)
  let (_, k) ← k.growproc (layoutConfig .SCFIFO) 1 (-PGSIZE)
  .ok k

/-- The process touches page 0 while a frame is free. -/
theorem swap_in_intact_swappedOut :
    ∃ k k', swappedOut = .ok k ∧ k.onPageFaultPG (layoutConfig .SCFIFO) 1 0 = .ok k' ∧
      ((pteAt (k'.dirs (k.proc 1).pgdir) (pageOf 0)).p = false →
        Intact (layoutConfig .SCFIFO) 1 0 k k') := by
  obtain ⟨k, built, checked⟩ := exists_ok_of_any (x := swappedOut)
    (p := fun k => decide (Accounted (k.proc 1).paging ∧ k.SwappedOnce 1 0 ∧
      k.kmem.freelist ≠ none) && (k.onPageFaultPG (layoutConfig .SCFIFO) 1 0).toOption.any
        fun _ => true)
    (by decide +kernel)
  obtain ⟨before, returns⟩ := Bool.and_eq_true_iff.mp checked
  obtain ⟨acc, once, free⟩ := of_decide_eq_true before
  obtain ⟨k', run, -⟩ := exists_ok_of_any returns
  exact ⟨k, k', built, run, (swap_in_intact_iff (layoutConfig .SCFIFO) (by decide) (by decide) acc once
    run).mpr (.inl free)⟩

/-- A pipe takes the last frame, the process touches page 0, and the pipe is closed. -/
def faultWithoutFrame : Res (Kernel × Kernel × Kernel) := do
  let k ← swappedOut
  let (pipe, k) ← k.kalloc (layoutConfig .SCFIFO)
  let k₁ ← k.onPageFaultPG (layoutConfig .SCFIFO) 1 0
  let k₂ ← k₁.kfree (layoutConfig .SCFIFO) (pipe.getD 0)
  .ok (k, k₁, k₂)

/-- Page 0 is in no slot of the file any more, and the process has a page more than it counts; when
the frame is free again, touching the page is fatal. -/
theorem swap_in_loses_page :
    ∃ k k₁ k₂, faultWithoutFrame = .ok (k, k₁, k₂) ∧
      (Accounted (k.proc 1).paging ∧ k.SwappedOnce 1 0 ∧
        ∃ j ∈ occupied (k.proc 1).paging.swapPmd, ((k.proc 1).paging.swapPmd j).va = 0) ∧
      (¬ Accounted (k₁.proc 1).paging ∧ occupied (k₁.proc 1).paging.swapPmd = ∅) ∧
      k₂.kmem.freelist ≠ none ∧
      k₂.onPageFaultPG (layoutConfig .SCFIFO) 1 0 = .error .faultNotInSwap := by
  obtain ⟨⟨k, k₁, k₂⟩, run, checked⟩ := exists_ok_of_any (x := faultWithoutFrame)
    (p := fun r => decide ((Accounted (r.1.proc 1).paging ∧ r.1.SwappedOnce 1 0 ∧
        ∃ j ∈ occupied (r.1.proc 1).paging.swapPmd, ((r.1.proc 1).paging.swapPmd j).va = 0) ∧
      (¬ Accounted (r.2.1.proc 1).paging ∧ occupied (r.2.1.proc 1).paging.swapPmd = ∅) ∧
      r.2.2.kmem.freelist ≠ none) &&
        decide (((r.2.2.onPageFaultPG (layoutConfig .SCFIFO) 1 0).map fun _ => ()) =
          .error .faultNotInSwap))
    (by decide +kernel)
  obtain ⟨states, fatal⟩ := Bool.and_eq_true_iff.mp checked
  obtain ⟨before, after, free⟩ := of_decide_eq_true states
  refine ⟨k, k₁, k₂, run, before, after, free, ?_⟩
  have fatal := of_decide_eq_true fatal
  simp only at fatal
  cases outcome : k₂.onPageFaultPG (layoutConfig .SCFIFO) 1 0 with
  | ok k₃ => simp [outcome, Except.map] at fatal
  | error e =>
    rw [outcome] at fatal
    simpa [Except.map] using fatal

end Kernel

end Xv6
