import Xv6.Memory.CowAccounts

/-!
Page faults and samplings against the owners of frames.

A sampling, and a user access, change accessed bits only. A copy-on-write fault
either takes over the frame, copies it, or finds no memory; the last outcome is
stated as it is, with the count of the frame already lowered.
-/

namespace Xv6

open Ledger

namespace Kernel

/-- Entries of the directory `d` differ in their accessed bits only. -/
structure Touched (me : ProcNo) (d : Nat) (k k' : Kernel) : Prop where
  kmem : k'.kmem = k.kmem
  mem : k'.mem = k.mem
  dirs : ∀ e, e ≠ d → k'.dirs e = k.dirs e
  entries : ∀ page, ∃ a, pteAt (k'.dirs d) page = { pteAt (k.dirs d) page with a := a }
  tables : ∀ j, tableAt (k'.dirs d) j = tableAt (k.dirs d) j
  frame : Frame me k k'

variable {me : ProcNo} {k k' : Kernel} {d : Nat}

theorem Touched.of_same (d : Nat) (kmem : k'.kmem = k.kmem) (mem : k'.mem = k.mem)
    (dirs : k'.dirs = k.dirs) (frame : Frame me k k') :
    Touched me d k k' where
  kmem := kmem
  mem := mem
  dirs _ _ := by rw [dirs]
  entries page := ⟨(pteAt (k.dirs d) page).a, by rw [dirs]⟩
  tables _ := by rw [dirs]
  frame := frame

theorem Touched.refl (me : ProcNo) (d : Nat) (k : Kernel) : Touched me d k k :=
  .of_same d rfl rfl rfl (.refl me k)

theorem Touched.trans {k₁ : Kernel} (first : Touched me d k k₁) (second : Touched me d k₁ k') :
    Touched me d k k' where
  kmem := second.kmem.trans first.kmem
  mem := second.mem.trans first.mem
  dirs e other := (second.dirs e other).trans (first.dirs e other)
  entries page := by
    obtain ⟨a, first⟩ := first.entries page
    obtain ⟨a', second⟩ := second.entries page
    exact ⟨a', by rw [second, first]⟩
  tables j := (second.tables j).trans (first.tables j)
  frame := first.frame.trans second.frame

theorem Touched.setPte {va : Nat} {pte : Pte} (walk : walkpgdir (k.dirs d) va = some pte)
    (a : Bool) :
    Touched me d k (k.setPte d va { pte with a := a }) where
  kmem := rfl
  mem := rfl
  dirs _ other := setPte_dirs_other _ _ _ other
  entries page := by
    rw [setPte_dirs_self, pteAt_setPte walk]
    split
    · rename_i here
      rw [here, walkpgdir_eq_some walk]
      exact ⟨a, rfl⟩
    · exact ⟨(pteAt (k.dirs d) page).a, rfl⟩
  tables j := by rw [setPte_dirs_self, tableAt_setPte]
  frame := .of_proc rfl rfl rfl

theorem Touched.cells (touched : Touched me d k k') (L X : Finset Nat) :
    cells k'.dirs L X = cells k.dirs L X := by
  funext c
  cases c with
  | user e page =>
    by_cases same : e = d
    · subst same
      obtain ⟨a, entry⟩ := touched.entries page
      simp only [Xv6.cells, entry]
      rfl
    · simp [Xv6.cells, touched.dirs e same]
  | tab e j =>
    by_cases same : e = d
    · subst same
      simp [Xv6.cells, touched.tables j]
    · simp [Xv6.cells, touched.dirs e same]
  | _ => rfl

section Faults

variable {cfg : Config} {k k' : Kernel} {reserved : Set Nat} {L X : Finset Nat} {me : ProcNo}
  {d : Nat}

theorem updatePage_touched {pageNum : Int}
    (run : updatePageInPriorityQueue cfg me k pageNum = .ok k') :
    Touched me (k.proc me).pgdir k k' := by
  simp only [updatePageInPriorityQueue, Res.bind_ok] at run
  obtain ⟨i, _, run⟩ := run
  split at run
  · cases run
  · rename_i pte walk
    simp only [Res.bind_ok] at run
    obtain ⟨m, _, done⟩ := run
    cases done
    have first : Touched me (k.proc me).pgdir k (k.setPaging me m) :=
      .of_same _ rfl rfl rfl (Frame.setPaging me k m)
    have second : Touched me (k.proc me).pgdir (k.setPaging me m)
        ((k.setPaging me m).setPte (k.proc me).pgdir
          ((k.proc me).paging.ramPmd i).va { pte with a := false }) :=
      Touched.setPte (k := k.setPaging me m) walk false
    exact (first.trans second).trans (.of_same _ rfl rfl rfl (.of_proc rfl rfl rfl))

/-- A sampling changes accessed bits and metadata of the process only. -/
theorem sampling_touched (run : k.updatePagesInPriorityQueue cfg me = .ok k') :
    Touched me (k.proc me).pgdir k k' := by
  unfold updatePagesInPriorityQueue at run
  split at run
  · cases run
    exact .refl me _ _
  · generalize sampleOrder cfg.sel (k.proc me).paging = order at run
    induction order generalizing k with
    | nil =>
      cases run
      exact .refl me _ _
    | cons i order ih =>
      simp only [List.foldlM_cons, Res.bind_ok] at run
      obtain ⟨k₁, first, run⟩ := run
      have one := updatePage_touched first
      have pid : ¬ (k₁.proc me).pid ≤ 2 := by rwa [one.frame.mine.pid]
      have rest := ih pid run
      rw [one.frame.mine.pgdir] at rest
      exact one.trans rest

/-- The outcomes of a copy-on-write fault on a present page. -/
inductive CowFault (me : ProcNo) (d page : Nat) (k k' : Kernel) : Prop
  /-- The process is the only owner and may write. -/
  | kept (alone : k.kmem.ref (pteAt (k.dirs d) page).frame = 1)
      (kmem : k'.kmem = k.kmem) (mem : k'.mem = k.mem)
      (entry : pteAt (k'.dirs d) page = { pteAt (k.dirs d) page with w := true, cow := false })
  /-- The process gets a copy in the frame `f`. -/
  | copied (f : Nat) (shared : 1 < k.kmem.ref (pteAt (k.dirs d) page).frame)
      (memory : k.kmem.freelist ≠ none) (free : k.kmem.ref f = 0)
      (refs : ∀ g, k'.kmem.ref g = if g = f then 1
        else if g = (pteAt (k.dirs d) page).frame then k.kmem.ref g - 1 else k.kmem.ref g)
      (copy : k'.mem f = k.mem (pteAt (k.dirs d) page).frame)
      (mem : ∀ g, g ≠ f → k'.mem g = k.mem g)
      (entry : pteAt (k'.dirs d) page =
        { pteAt (k.dirs d) page with frame := f, w := true, cow := false })

/-- The fault ran out of memory: the process is killed, its reference not counted
any more. -/
def CowFailed (cfg : Config) (me : ProcNo) (d page : Nat) (k k' : Kernel) : Prop :=
  1 < k.kmem.ref (pteAt (k.dirs d) page).frame ∧ k.kmem.freelist = none ∧
    cfg.excluded .outOfMemory = false ∧
    k' = { k with kmem := (k.kmem.decRef (pteAt (k.dirs d) page).frame).2 }.kill me

theorem decRef_freelist (km : Kmem) (f : Nat) : (km.decRef f).2.freelist = km.freelist := by
  unfold Kmem.decRef
  simp only
  split
  · rfl
  · rfl

theorem decRef_pop {km : Kmem} {f : Nat} :
    (km.decRef f).2.pop = none ↔ km.freelist = none := by
  rw [← decRef_freelist km f]
  unfold Kmem.pop
  cases (km.decRef f).2.freelist <;> simp

theorem onPageFaultCow_cases {va1 : Nat} (owns : Owns cfg k.kmem reserved (cells k.dirs L X))
    (live : d ∈ L) (mine : (k.proc me).pgdir = d) (low : pageOf va1 < USERPAGES)
    (present : (pteAt (k.dirs d) (pageOf va1)).p = true)
    (run : k.onPageFaultCow cfg me va1 = .ok k') :
    (CowFault me d (pageOf va1) k k' ∧ Owns cfg k'.kmem reserved (cells k'.dirs L X) ∧
      (∀ e, e ≠ d → k'.dirs e = k.dirs e) ∧
      (∀ page, page ≠ pageOf va1 → pteAt (k'.dirs d) page = pteAt (k.dirs d) page) ∧
      k'.proc = k.proc ∧ k'.nextpid = k.nextpid ∧ k'.initproc = k.initproc) ∨
      CowFailed cfg me d (pageOf va1) k k' := by
  unfold onPageFaultCow at run
  rw [mine] at run
  simp only at run
  split at run
  · cases run
  · rename_i pte walk
    have entry := walkpgdir_eq_some walk
    rw [entry] at present
    have held : cells k.dirs L X (.user d (pageOf va1)) = some pte.frame :=
      cells_user.mpr ⟨live, low, by rw [entry]; exact present, by rw [entry]⟩
    have pos := owns.balanced.ref_pos held
    split at run
    case isTrue shared =>
      change 1 < k.kmem.ref pte.frame at shared
      simp only [Res.bind_ok] at run
      obtain ⟨⟨page, k₁⟩, allocated, run⟩ := run
      cases page with
      | none =>
        right
        obtain ⟨same, empty, notExcluded⟩ := kalloc_none allocated
        rw [same] at run
        cases run
        rw [CowFailed, entry]
        exact ⟨shared, decRef_pop.mp empty, notExcluded, rfl⟩
      | some f =>
        left
        obtain ⟨km, popped, rfl⟩ := kalloc_some allocated
        cases run
        obtain ⟨given, free, ok⟩ := owns.kmem
        have lowered := (ok.decRef pte.frame).2
        have owns₁ := owns.decRef held shared
        obtain ⟨zero, refs, acquire⟩ := owns₁.pop popped
        have owns₂ := acquire (.user d (pageOf va1)) (Function.update_self ..)
        rw [Function.update_idem] at owns₂
        have other : f ≠ pte.frame := by
          rintro rfl
          rw [lowered] at zero
          simp [shared] at zero
          omega
        have isFree : k.kmem.ref f = 0 := by
          rw [lowered, if_neg (fun h => other h.1)] at zero
          exact zero
        refine ⟨?_, ?_, ?_, ?_, rfl, rfl, rfl⟩
        · refine .copied f (by rw [entry]; exact shared) ?_ isFree ?_ ?_ ?_ ?_
          · intro empty
            have popped : (k.kmem.decRef pte.frame).2.pop = some (f, km) := popped
            rw [decRef_pop.mpr empty] at popped
            cases popped
          · intro g
            rw [entry, setPte_kmem, fill_kmem]
            change km.ref g = _
            rw [refs g]
            split
            · rfl
            · rw [lowered]
              by_cases here : g = pte.frame
              · simp [here, shared]
              · simp [here]
          · rw [entry, setPte_mem, fill_mem_self]
          · intro g otherFrame
            rw [setPte_mem, fill_mem_other _ _ otherFrame]
          · rw [setPte_dirs_self, fill_dirs, entry, ← present]
            exact (pteAt_setPte walk _).trans (if_pos rfl)
        · rw [setPte_kmem, setPte_dirs, fill_dirs]
          refine (congrArg (Owns cfg km reserved) ?_).mpr owns₂
          exact cells_setPte k.dirs L X live low walk
        · intro e otherDir
          rw [setPte_dirs_other _ _ _ otherDir]
          rfl
        · intro page otherPage
          rw [setPte_dirs_self, fill_dirs]
          exact (pteAt_setPte walk _).trans (if_neg otherPage)
    case isFalse notShared =>
      change ¬ 1 < k.kmem.ref pte.frame at notShared
      left
      cases run
      have same : (k.kmem.decRef pte.frame).2 = k.kmem := by
        unfold Kmem.decRef
        exact if_neg notShared
      refine ⟨.kept ?_ ?_ rfl ?_, ?_, ?_, ?_, rfl, rfl, rfl⟩
      · rw [entry]
        omega
      · rw [setPte_kmem]
        exact same
      · rw [setPte_dirs_self, pteAt_setPte walk, if_pos rfl, entry]
      · rw [setPte_kmem, setPte_dirs, cells_setPte _ L X live low walk]
        change Owns cfg (k.kmem.decRef pte.frame).2 reserved _
        rw [same]
        apply owns.update_same
        rw [held]
        simp [Pte.mapped, present]
      · intro e otherDir
        rw [setPte_dirs_other _ _ _ otherDir]
      · intro page otherPage
        rw [setPte_dirs_self, pteAt_setPte walk, if_neg otherPage]

end Faults

end Kernel

end Xv6
