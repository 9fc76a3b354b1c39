import Xv6.Memory.ImageFaults
import Xv6.Memory.Dismantle
import Xv6.Memory.KernelMap
import Xv6.Memory.Permissions

/-!
`wait` and `wait2` free the page table of a zombie child in the context of the parent, and `deallocuvm`
edits the metadata of the process that calls it: it releases the entry that carries the directory and
the address of the page it frees. The entries of a process that was forked and has not called `exec`
carry the directory of its parent. When that directory is freed, its frame may become the directory of a
child of the process, and then the pages of the child are taken for its own.
-/

namespace Xv6

open Outcome

/-- The entry for the page at `va` of the directory `d` is found, and it is occupied. -/
def Finds (pmds : Slot → Pmd) (d va : Nat) : Prop :=
  ∃ i, getPagePgdirIndex pmds d va = some i ∧ (pmds i).occupied = true

namespace Paging

/-- `deallocuvm` has an entry to release for the page. -/
def Recorded (m : Paging) (d va : Nat) : Prop := Finds m.ramPmd d va ∨ Finds m.swapPmd d va

/-- The number of pages the metadata counts. -/
def counted (m : Paging) : Int := m.pagesInMemory + m.pagesInSwapfile

theorem releaseRam_cases (m : Paging) (d va : Nat) :
    m.releaseRam d va = m ∧ ¬ Finds m.ramPmd d va ∨
      (m.releaseRam d va).counted = m.counted - 1 ∧ Finds m.ramPmd d va := by
  unfold releaseRam Finds
  cases found : getPagePgdirIndex m.ramPmd d va with
  | none => exact .inl ⟨rfl, nofun⟩
  | some i =>
    cases taken : (m.ramPmd i).occupied with
    | false => exact .inl ⟨by simp [taken], by simp [taken]⟩
    | true =>
      refine .inr ⟨?_, i, rfl, taken⟩
      simp only [taken, if_true, counted, setRam, dequeue]
      omega

theorem releaseSwap_cases (m : Paging) (d va : Nat) :
    m.releaseSwap d va = m ∧ ¬ Finds m.swapPmd d va ∨
      (m.releaseSwap d va).counted = m.counted - 1 ∧ Finds m.swapPmd d va := by
  unfold releaseSwap Finds
  cases found : getPagePgdirIndex m.swapPmd d va with
  | none => exact .inl ⟨rfl, nofun⟩
  | some i =>
    cases taken : (m.swapPmd i).occupied with
    | false => exact .inl ⟨by simp [taken], by simp [taken]⟩
    | true =>
      refine .inr ⟨?_, i, rfl, taken⟩
      simp only [taken, if_true, counted, setSwap]
      omega

theorem releaseRam_swapPmd (m : Paging) (d va : Nat) : (m.releaseRam d va).swapPmd = m.swapPmd := by
  unfold releaseRam
  split
  · rfl
  · split <;> rfl

/-- A page is released if it is recorded, and that shows in the counts. -/
theorem release_cases (m : Paging) (d va : Nat) :
    m.release d va = m ∧ ¬ m.Recorded d va ∨
      (m.release d va).counted < m.counted ∧ m.Recorded d va := by
  have ram := m.releaseRam_cases d va
  have swap := (m.releaseRam d va).releaseSwap_cases d va
  rw [releaseRam_swapPmd] at swap
  unfold release Recorded
  rcases swap with ⟨same', notSwap⟩ | ⟨less', isSwap⟩
  · rw [same']
    rcases ram with ⟨same, notRam⟩ | ⟨less, isRam⟩
    · exact .inl ⟨same, by simp [notRam, notSwap]⟩
    · exact .inr ⟨by omega, .inl isRam⟩
  · refine .inr ⟨?_, .inr isSwap⟩
    rcases ram with ⟨same, -⟩ | ⟨less, -⟩
    · rw [same] at less' ⊢
      omega
    · omega

end Paging

namespace Kernel

variable {cfg : Config} {k k₁ k' : Kernel} {me child : ProcNo} {d : Nat}

/-- Some page of `d` in the range is recorded in the metadata of `me`. -/
def Disturbs (k : Kernel) (me : ProcNo) (d a oldsz : Nat) : Prop :=
  ∃ page, a ≤ page * PGSIZE ∧ page * PGSIZE < oldsz ∧ (pteAt (k.dirs d) page).Names ∧
    (k.proc me).paging.Recorded d (page * PGSIZE)

/-- How the metadata differ after pages have been freed. -/
def Edited (me : ProcNo) (disturbs : Prop) (k k' : Kernel) : Prop :=
  (¬ disturbs ∧ (k'.proc me).paging = (k.proc me).paging) ∨
    (disturbs ∧ (k'.proc me).paging.counted < (k.proc me).paging.counted)

theorem Edited.unchanged_iff {disturbs : Prop} (edited : Edited me disturbs k k') :
    (k'.proc me).paging = (k.proc me).paging ↔ ¬ disturbs := by
  rcases edited with ⟨calm, same⟩ | ⟨disturbs, less⟩
  · exact iff_of_true same calm
  · refine iff_of_false (fun same => ?_) (not_not.mpr disturbs)
    rw [same] at less
    exact Int.lt_irrefl _ less

/-- One page is freed. -/
theorem deallocPage_edited {a : Nat} {pte : Pte} (pages : 2 < (k.proc me).pid)
    (walk : walkpgdir (k.dirs d) a = some pte) :
    Sat (fun _ => True) (fun k' => Edited me (pte.Names ∧ (k.proc me).paging.Recorded d a) k k' ∧
        (k'.proc me).pid = (k.proc me).pid ∧
        ∀ page, page ≠ pageOf a → pteAt (k'.dirs d) page = pteAt (k.dirs d) page)
      (k.deallocPage cfg me d a pte) := by
  unfold deallocPage
  split
  · rename_i names
    have names : pte.Names := by simpa [Pte.Names] using names
    split
    · exact .error trivial
    · refine ((dropFrame_still pte.frame).values.and (dropFrame_dirs pte.frame)).bind
        fun k₁ dropped => .ok ?_
      obtain ⟨still, dirs⟩ := dropped
      simp only [releaseMeta, still.proc, if_pos pages]
      refine ⟨?_, by simp [still.proc], fun page other => ?_⟩
      · simp only [Edited, names, true_and, setPte_proc, setPaging_self]
        exact ((k.proc me).paging.release_cases d a).imp And.symm And.symm
      · simp only [setPte_dirs_self, setPaging_dirs, dirs]
        rw [pteAt_setPte walk, if_neg other]
  · rename_i neither
    exact .ok ⟨.inl ⟨fun both => neither (by simpa [Pte.Names] using both.1), rfl⟩, rfl, fun _ _ => rfl⟩

theorem Edited.congr {P Q : Prop} (edited : Edited me P k k') (same : P ↔ Q) : Edited me Q k k' := by
  unfold Edited at *
  rwa [← same]

/-- What is left of the range matters as long as nothing has been found. -/
theorem Edited.trans {P Q R : Prop} (first : Edited me P k k₁) (rest : Edited me Q k₁ k') (now : P → R)
    (later : ¬ P → (k₁.proc me).paging = (k.proc me).paging → (Q ↔ R)) : Edited me R k k' := by
  rcases first with ⟨calm, same⟩ | ⟨disturbs, less⟩
  · unfold Edited at *
    rwa [← later calm same, ← same]
  · refine .inr ⟨now disturbs, ?_⟩
    rcases rest with ⟨-, same⟩ | ⟨-, less'⟩
    · rw [same]
      exact less
    · exact Int.lt_trans less' less

theorem deallocLoop_edited {oldsz : Nat} (turns : Nat) {a : Nat} (low : oldsz ≤ KERNBASE)
    (aligned : a % PGSIZE = 0) (pages : 2 < (k.proc me).pid) :
    Sat (fun _ => True) (fun k' => Edited me (Disturbs k me d a oldsz) k k')
      (deallocLoop cfg me d oldsz turns k a) := by
  refine deallocLoop_rule (P := fun _ k => 2 < (k.proc me).pid)
    (R := fun a k => Edited me (Disturbs k me d a oldsz) k) low ?_ ?_ ?_ turns aligned (.inr trivial)
    pages
  · refine fun past _ => .inl ⟨?_, rfl⟩
    rintro ⟨page, from', upto, -⟩
    omega
  · intro a b k inside further none_here pages
    refine ⟨pages, fun rest => rest.congr ⟨?_, ?_⟩⟩
    · rintro ⟨page, from', rest⟩
      exact ⟨page, by omega, rest⟩
    · rintro ⟨page, from', upto, names, rest⟩
      refine ⟨page, ?_, upto, names, rest⟩
      by_contra early
      rw [none_here page (by omega)] at names
      simp [Pte.Names, Pte.zero] at names
  · intro a k pte inside here walk pages
    have entry := walkpgdir_eq_some walk
    have address := (here (pageOf a)).mp rfl
    refine (deallocPage_edited pages walk).weaken fun k₁ edited => ?_
    obtain ⟨first, pid, others⟩ := edited
    refine ⟨by rwa [pid], fun rest => first.trans rest (fun found => ?_) fun calm same => ⟨?_, ?_⟩⟩
    · exact ⟨pageOf a, by omega, by omega, by rw [entry]; exact found.1, by rw [address]; exact found.2⟩
    · rintro ⟨page, from', upto, names, recorded⟩
      rw [others page (by rw [Ne, here]; unfold PGSIZE at *; omega)] at names
      rw [same] at recorded
      exact ⟨page, by omega, upto, names, recorded⟩
    · rintro ⟨page, from', upto, names, recorded⟩
      have later : page ≠ pageOf a := by
        rintro rfl
        rw [entry] at names
        rw [address] at recorded
        exact calm ⟨names, recorded⟩
      refine ⟨page, ?_, upto, by rwa [others page later], by rwa [same]⟩
      rw [Ne, here] at later
      unfold PGSIZE at *
      omega

/-- The frame of the directory is gone; the metadata are edited for its pages. -/
theorem freevm_edited (pages : 2 < (k.proc me).pid) :
    Sat (fun _ => True) (fun k' => Edited me (Disturbs k me d 0 KERNBASE) k k')
      (k.freevm cfg me d) := by
  unfold freevm
  split
  · exact .error trivial
  · have first : PGROUNDUP 0 = 0 := by decide
    unfold deallocuvm
    rw [if_neg (by decide), first]
    refine Sat.bind (P := fun r => Edited me (Disturbs k me d 0 KERNBASE) k r.2)
      ((deallocLoop_edited _ (Nat.le_refl _) (by decide) pages).bind fun k₁ edited => .ok edited)
      fun r edited => ?_
    refine (freeTables_still d _).values.bind fun k₂ freed => ?_
    refine (kfree_still d).values.weaken fun k' still => ?_
    have proc : k'.proc = r.2.proc := still.proc.trans freed.proc
    unfold Edited
    rw [proc]
    exact edited

theorem reap_edited {r : Int} (pages : 2 < (k.proc me).pid) (other : child ≠ me)
    (run : k.reap cfg me child = .ok (r, k')) :
    Edited me (Disturbs k me (k.proc child).pgdir 0 KERNBASE) k k' := by
  unfold reap at run
  obtain ⟨k₁, dropped, run⟩ := Res.bind_ok.mp run
  obtain ⟨k₂, freed, run⟩ := Res.bind_ok.mp run
  cases run
  have still := (dropFrame_still (k.proc child).kstack).of_ok dropped
  have dirs := (dropFrame_dirs (k.proc child).kstack).of_ok dropped
  have edited := (freevm_edited (by rw [still.proc]; exact pages)).of_ok freed
  unfold Edited Disturbs at *
  rw [setProc_other _ _ other.symm]
  rwa [still.proc, dirs] at edited

/-- The child that the scan of `wait` finds. -/
def zombieChild (k : Kernel) (me : ProcNo) : Option ProcNo :=
  (List.finRange NPROC).find? fun s => (k.proc s).parent = some me ∧ (k.proc s).state = .ZOMBIE

/-- What `wait2` reports about a child. -/
structure Statistics where
  memoryPages : Int
  swapPages : Int
  pageFaults : Int
  pagedOut : Int

/-- One scan of `wait2`; `none` means that the process goes to sleep. -/
def wait2 (cfg : Config) (k : Kernel) (me : ProcNo) : Res (Option (Int × Option Statistics) × Kernel) :=
  match k.zombieChild me with
  | some child => do
    let p := k.proc child
    let (pid, k) ← k.reap cfg me child
    .ok (some (pid, some ⟨p.paging.pagesInMemory, p.paging.pagesInSwapfile, p.pagefaults,
      p.pagedout⟩), k)
  | none =>
    if (∀ s, (k.proc s).parent ≠ some me) ∨ (k.proc me).killed then .ok (some (-1, none), k)
    else .ok (none, k)

theorem wait_reaps {r : Option Int} (run : k.wait cfg me = .ok (r, k')) :
    (k.zombieChild me = none ∧ k' = k) ∨
      ∃ child pid, k.zombieChild me = some child ∧ k.reap cfg me child = .ok (pid, k') := by
  change (match k.zombieChild me with | some child => _ | none => _) = _ at run
  cases found : k.zombieChild me with
  | none =>
    rw [found] at run
    simp only at run
    split at run <;> cases run <;> exact .inl ⟨rfl, rfl⟩
  | some child =>
    rw [found] at run
    obtain ⟨⟨pid, k₁⟩, reaped, done⟩ := Res.bind_ok.mp run
    cases done
    exact .inr ⟨child, pid, rfl, reaped⟩

theorem wait2_reaps {r : Option (Int × Option Statistics)} (run : k.wait2 cfg me = .ok (r, k')) :
    (k.zombieChild me = none ∧ k' = k) ∨
      ∃ child pid, k.zombieChild me = some child ∧ k.reap cfg me child = .ok (pid, k') := by
  unfold wait2 at run
  cases found : k.zombieChild me with
  | none =>
    rw [found] at run
    simp only at run
    split at run <;> cases run <;> exact .inl ⟨rfl, rfl⟩
  | some child =>
    rw [found] at run
    obtain ⟨⟨pid, k₁⟩, reaped, done⟩ := Res.bind_ok.mp run
    cases done
    exact .inr ⟨child, pid, rfl, reaped⟩

/-- The metadata a forked process has from its parent, whose directory was in frame 2001. -/
def orphanPaging : Paging :=
  let m := { Paging.zeroed.reset.occupy 0 0 2001 with pagesInMemory := 1 }
  (insertPageToPrioQueue .SCFIFO m 0).toOption.getD m

/-- A process of pid 4 whose parent has exited and been reaped. The directory of the parent is among the
`n` free frames. -/
def orphan (n : Nat) : Kernel :=
  { Kernel.zeroed with
    kmem := .layout (pairHeld .zero sharedPte) 2000 n
    dirs := fun d =>
      if d = 1000 then .single 1002 (firstPage .zero)
      else if d = 1001 then .single 1003 (firstPage sharedPte) else .zeroed
    proc := fun s =>
      if s = 0 then
        { Proc.zeroed with pgdir := 1000, kstack := 1004, state := .SLEEPING, pid := 1 }
      else if s = 1 then
        { Proc.zeroed with
          sz := PGSIZE, pgdir := 1001, kstack := 1005, state := .RUNNING, pid := 4, parent := some 0
          swapFile := some .empty, paging := orphanPaging }
      else .zeroed
    nextpid := 5 }

/-- `wait` and `wait2` leave the metadata of the parent alone if and only if they record no page of the
child's directory. -/
theorem reaping_keeps_paging_iff (running : (k.proc me).state = .RUNNING) (pages : 2 < (k.proc me).pid)
    (run : (∃ r, k.wait cfg me = .ok (r, k')) ∨ ∃ r, k.wait2 cfg me = .ok (r, k')) :
    (k'.proc me).paging = (k.proc me).paging ↔
      ∀ child, k.zombieChild me = some child → ∀ page, page < USERPAGES →
        (pteAt (k.dirs (k.proc child).pgdir) page).Names →
          ¬ (k.proc me).paging.Recorded (k.proc child).pgdir (page * PGSIZE) := by
  have reaps : (k.zombieChild me = none ∧ k' = k) ∨
      ∃ child pid, k.zombieChild me = some child ∧ k.reap cfg me child = .ok (pid, k') := by
    rcases run with ⟨r, run⟩ | ⟨r, run⟩
    · exact wait_reaps run
    · exact wait2_reaps run
  rcases reaps with ⟨none, rfl⟩ | ⟨child, pid, found, reaped⟩
  · simp [none]
  · have isZombie := List.find?_some found
    simp only [decide_eq_true_eq] at isZombie
    have other : child ≠ me := by
      rintro rfl
      rw [running] at isZombie
      cases isZombie.2
    rw [(reap_edited pages other reaped).unchanged_iff]
    simp only [found, Option.some.injEq, forall_eq', Disturbs, not_exists, not_and, Nat.zero_le,
      forall_const]
    refine forall_congr' fun page => ?_
    have low : page * PGSIZE < KERNBASE ↔ page < USERPAGES := by
      unfold USERPAGES KERNBASE PGSIZE
      omega
    rw [low]

/-- The process whose parent is gone and its zombie child, which shares its page. -/
def bereaved : Kernel :=
  { orphan 8 with
    kmem := .layout (pairHeld .zero sharedPte ++
      [(.dir 1007, 1007), (.tab 1007 0, 1008), (.one 1009, 1009), (.user 1007 0, 1006)]) 2000 8
    dirs := fun d =>
      if d = 1007 then .single 1008 (firstPage sharedPte) else (orphan 8).dirs d
    proc := fun s =>
      if s = 2 then
        { Proc.zeroed with
          sz := PGSIZE, pgdir := 1007, kstack := 1009, state := .ZOMBIE, pid := 5, parent := some 1
          swapFile := some .empty, paging := orphanPaging }
      else (orphan 8).proc s }

/-- The parent's entries carry the directory 2001, and the child's is 1007. -/
theorem reaping_keeps_paging_bereaved :
    ∃ k', bereaved.wait ampleConfig 1 = .ok (some 5, k') ∧
      (k'.proc 1).paging = (bereaved.proc 1).paging := by
  obtain ⟨⟨r, k'⟩, run, done⟩ := exists_ok_of_any (x := bereaved.wait ampleConfig 1)
    (p := fun r => decide (r.1 = some 5)) (by decide +kernel)
  have done : r = some 5 := of_decide_eq_true done
  subst done
  refine ⟨k', run, (reaping_keeps_paging_iff rfl (by decide) (.inl ⟨_, run⟩)).mpr ?_⟩
  intro child found page low names recorded
  have isChild : bereaved.zombieChild 1 = some 2 := by decide +kernel
  obtain rfl : child = 2 := Option.some.inj (found.symm.trans isChild)
  have elsewhere : ∀ i, ((bereaved.proc 1).paging.ramPmd i).pgdir ≠ 1007 ∧
      ((bereaved.proc 1).paging.swapPmd i).pgdir ≠ 1007 := by decide
  rcases recorded with ⟨i, found, -⟩ | ⟨i, found, -⟩
  · have same := List.find?_some found
    simp only [decide_eq_true_eq] at same
    exact (elsewhere i).1 same.1
  · have same := List.find?_some found
    simp only [decide_eq_true_eq] at same
    exact (elsewhere i).2 same.1

/-- The process whose parent is gone forks, its child exits, and it waits. -/
def orphanReaps : Res (Int × Kernel × Kernel × Option Int × Kernel) := do
  let (r, k₁) ← (orphan 3000).fork ampleConfig 1
  let k₂ ← k₁.exit 2
  let (r', k₃) ← k₂.wait ampleConfig 1
  .ok (r, k₁, k₂, r', k₃)

/-- The child is given the directory of the process's parent, and `wait` releases the entry of a page the
process still has. -/
theorem reaping_disturbs_orphan :
    ∃ np r k₁ k₂ r' k₃, (orphan 3000).fork ampleConfig 1 = .ok (r, k₁) ∧ k₁.exit np = .ok k₂ ∧
      k₂.wait ampleConfig 1 = .ok (r', k₃) ∧ (k₃.proc 1).paging ≠ (k₂.proc 1).paging := by
  obtain ⟨⟨r, k₁, k₂, r', k₃⟩, run, changed⟩ := exists_ok_of_any (x := orphanReaps)
    (p := fun (_, _, k₂, _, k₃) => decide (((k₃.proc 1).paging.ramPmd 0).occupied ≠
      ((k₂.proc 1).paging.ramPmd 0).occupied)) (by
      unfold orphanReaps fork cowuvm
      rw [setupkvm_eq_byTables]
      decide +kernel)
  simp only [orphanReaps, Res.bind_ok] at run
  obtain ⟨⟨r, k₁⟩, forks, k₂, exits, ⟨r', k₃⟩, waits, same⟩ := run
  cases same
  refine ⟨2, r, k₁, k₂, r', k₃, forks, exits, waits, fun unchanged => ?_⟩
  have changed := of_decide_eq_true changed
  rw [unchanged] at changed
  exact changed rfl

end Kernel

end Xv6
