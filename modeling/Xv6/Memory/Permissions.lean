import Xv6.Library.Lts
import Xv6.Memory.Locality
import Xv6.Memory.Layout

/-!
Permission bits of pages that are swapped out and brought back.

An eviction leaves `PTE_U` and `PTE_W` in the entry, but a swap-in maps the page anew with both bits
set. So every entry either carries its bits on or is a fresh mapping, and this relation composes
along any run of evictions and faults.
-/

namespace Xv6

open Outcome

/-- The bits are carried on, and the page has not become present. -/
structure Pte.Carries (old new : Pte) : Prop where
  u : new.u = old.u
  w : new.w = old.w
  p : new.p = true → old.p = true
  cow : new.cow = old.cow

/-- A mapping with `PTE_W | PTE_U`. -/
structure Pte.Fresh (new : Pte) : Prop where
  u : new.u = true
  w : new.w = true
  cow : new.cow = false

def Pte.Follows (old new : Pte) : Prop := old.Carries new ∨ new.Fresh

theorem Pte.Follows.refl (pte : Pte) : pte.Follows pte := .inl ⟨rfl, rfl, id, rfl⟩

variable {old new : Pte}

theorem Pte.Follows.trans {mid : Pte} (first : old.Follows mid) (second : mid.Follows new) :
    old.Follows new := by
  rcases second with carries | renewed
  · rcases first with carries' | renewed
    · exact .inl ⟨carries.u.trans carries'.u, carries.w.trans carries'.w,
        fun present => carries'.p (carries.p present), carries.cow.trans carries'.cow⟩
    · exact .inr ⟨carries.u.trans renewed.u, carries.w.trans renewed.w,
        carries.cow.trans renewed.cow⟩
  · exact .inr renewed

theorem Pte.Follows.cow (follows : old.Follows new) (unshared : old.cow = false) : new.cow = false := by
  rcases follows with carries | renewed
  · exact carries.cow.trans unshared
  · exact renewed.cow

/-- A page that has become present is mapped anew. -/
theorem Pte.Follows.renewed (follows : old.Follows new) (absent : old.p = false)
    (present : new.p = true) : new.Fresh := by
  rcases follows with carries | renewed
  · have wrong := carries.p present
    rw [absent] at wrong
    cases wrong
  · exact renewed

/-- Once mapped anew, a page keeps both bits. -/
theorem Pte.Fresh.follows (renewed : old.Fresh) (follows : old.Follows new) : new.Fresh := by
  rcases follows with carries | again
  · exact ⟨carries.u.trans renewed.u, carries.w.trans renewed.w, carries.cow.trans renewed.cow⟩
  · exact again

namespace Kernel

/-- Each entry of the directory `d` follows from the one before. -/
def Permits (d : Nat) (k k' : Kernel) : Prop :=
  ∀ page, (pteAt (k.dirs d) page).Follows (pteAt (k'.dirs d) page)

section Permits

variable {cfg : Config} {k k₁ k' : Kernel} {me : ProcNo} {d : Nat}

theorem Permits.of_dirs (dirs : k'.dirs = k.dirs) : Permits d k k' := by
  intro page
  rw [dirs]
  exact .refl _

theorem Permits.refl (d : Nat) (k : Kernel) : Permits d k k := .of_dirs rfl

theorem Permits.trans (first : Permits d k k₁) (second : Permits d k₁ k') : Permits d k k' :=
  fun page => (first page).trans (second page)

/-- A change of one entry, in any directory. -/
theorem Permits.setPte {c va : Nat} (walk : walkpgdir (k.dirs c) va = some old)
    (follows : old.Follows new) : Permits d k (k.setPte c va new) := by
  intro page
  by_cases same : d = c
  · subst same
    rw [setPte_dirs_self, pteAt_setPte walk]
    split
    · rename_i here
      rw [here, walkpgdir_eq_some walk]
      exact follows
    · exact .refl _
  · rw [setPte_dirs_other _ _ _ same]
    exact .refl _

theorem kalloc_permits (d : Nat) : Sat (fun _ => True) (fun r => Permits d k r.2) (k.kalloc cfg) := by
  unfold kalloc
  split
  · exact (sat_true _).bind fun _ _ => .ok (.refl d k)
  · exact .ok (.of_dirs rfl)

theorem dropFrame_dirs (f : Nat) :
    Sat (fun _ => True) (fun k' => k'.dirs = k.dirs) (k.dropFrame cfg f) := by
  unfold dropFrame kfree
  dsimp only
  split
  · exact (sat_true _).bind fun _ _ => .ok rfl
  · exact .ok rfl

theorem walkpgdirAlloc_permits (d c va : Nat) :
    Sat (fun _ => True) (fun r => Permits d k r.2) (k.walkpgdirAlloc cfg c va) := by
  unfold walkpgdirAlloc
  split
  · exact .ok (.refl d k)
  · rename_i absent
    refine Sat.bind (P := fun r => r.2.dirs = k.dirs) ?_ fun r same => ?_
    · unfold kalloc
      split
      · exact (sat_true _).bind fun _ _ => .ok rfl
      · exact .ok rfl
    · obtain ⟨r, k₁⟩ := r
      cases r with
      | none => exact .ok (.of_dirs same)
      | some f =>
        have same : k₁.dirs = k.dirs := same
        refine .ok fun page => ?_
        by_cases here : d = c
        · subst here
          simp only [Function.update_self, same, pteAt_addTable absent]
          exact .refl _
        · simp only [Function.update_of_ne here, same]
          exact .refl _

theorem mappagesLoop_permits (d c n a pa : Nat) :
    Sat (fun _ => True) (fun r => Permits d k r.2) (mappagesLoop cfg c .user n k a pa) := by
  induction n generalizing k a pa with
  | zero => exact .ok (.refl d k)
  | succ n ih =>
    unfold mappagesLoop
    refine (walkpgdirAlloc_permits d c a).bind fun r first => ?_
    obtain ⟨found, k₁⟩ := r
    cases found with
    | false => exact .ok first
    | true =>
      dsimp only
      split
      · exact .error trivial
      · split
        · exact .error trivial
        · rename_i pte walk _
          have renewed : Pte.Fresh { Pte.user with p := true, frame := pa } := ⟨rfl, rfl, rfl⟩
          have both := first.trans (.setPte walk (.inr renewed))
          exact (ih _ _).weaken fun _ later => both.trans later

theorem mappages_permits (d c va size pa : Nat) :
    Sat (fun _ => True) (fun r => Permits d k r.2) (k.mappages cfg c va size pa .user) :=
  mappagesLoop_permits d c _ _ _

theorem pageToSwapFile_permits (d : Nat) (x : Int) (j : Option Slot) (c : Nat) :
    Sat (fun _ => True) (Permits d k) (k.pageToSwapFile cfg me x j c) := by
  unfold pageToSwapFile
  refine (sat_true _).bind fun _ _ => ?_
  split
  · exact .error trivial
  · cases j with
    | none => exact .error trivial
    | some j' =>
      refine (sat_true _).bind fun i _ => ?_
      dsimp only
      split
      · exact .error trivial
      · rename_i pte walk
        refine Sat.bind (P := fun k₁ => k₁.dirs = k.dirs) ?_ fun k₁ written => ?_
        · unfold writeSwap
          split
          · exact .error trivial
          · exact .ok rfl
        · refine (dropFrame_dirs _).bind fun k₂ dropped => ?_
          have first : Permits d k k₂ := .of_dirs (dropped.trans written)
          have walk₂ : walkpgdir (k₂.dirs c) ((k.proc me).paging.ramPmd i).va = some pte := by
            rw [dropped, written]
            simpa using walk
          refine .ok (first.trans ?_)
          simp only [setProc_self]
          exact .setPte walk₂ (.inl ⟨rfl, rfl, nofun, rfl⟩)

theorem updatePageInPriorityQueue_permits (d : Nat) (x : Int) :
    Sat (fun _ => True) (Permits d k) (updatePageInPriorityQueue cfg me k x) := by
  unfold updatePageInPriorityQueue
  refine (sat_true _).bind fun i _ => ?_
  dsimp only
  split
  · exact .error trivial
  · rename_i pte walk
    refine (sat_true _).bind fun m _ => .ok ?_
    have cleared : Permits d k ((k.setPaging me m).setPte (k.proc me).pgdir _ { pte with a := false }) :=
      .setPte (k := k.setPaging me m) walk (.inl ⟨rfl, rfl, id, rfl⟩)
    exact cleared.trans (.of_dirs rfl)

theorem updatePagesInPriorityQueue_permits (d : Nat) :
    Sat (fun _ => True) (Permits d k) (k.updatePagesInPriorityQueue cfg me) := by
  unfold updatePagesInPriorityQueue
  split
  · exact .ok (.refl d k)
  · refine Sat.foldlM _ (fun k₁ x _ sofar => ?_) (.refl d k)
    exact (updatePageInPriorityQueue_permits d x).weaken fun _ later => sofar.trans later

theorem evict_permits (d c : Nat) : Sat (fun _ => True) (Permits d k) (k.evict cfg me c) := by
  unfold evict
  exact (pageToSwapFile_permits d _ _ c).weaken fun _ later => later

theorem swapPages_permits (d : Nat) (x : Int) (j : Option Slot) (c : Nat) :
    Sat (fun _ => True) (Permits d k) (k.swapPages cfg me x j c) := by
  unfold swapPages
  split
  · exact .error trivial
  · split
    · exact .error trivial
    · refine (sat_true _).bind fun page _ => ?_
      refine (pageToSwapFile_permits d x _ c).bind fun k₁ out => ?_
      refine (sat_true _).bind fun m _ => ?_
      refine (sat_true _).bind fun i _ => ?_
      refine (sat_true _).bind fun m' _ => ?_
      refine (kalloc_permits d).bind fun r taken => ?_
      obtain ⟨r, k₂⟩ := r
      have first : Permits d k k₂ := Permits.trans out taken
      cases r with
      | none => exact .ok first
      | some f =>
        refine (mappages_permits d _ _ PGSIZE f).bind fun r mapped => ?_
        obtain ⟨done, k₃⟩ := r
        cases done with
        | false => exact .error trivial
        | true => exact .ok (first.trans mapped)

theorem swapIn_permits (d va1 : Nat) : Sat (fun _ => True) (Permits d k) (k.swapIn cfg me va1) := by
  unfold swapIn
  split
  · exact .error trivial
  · refine (sat_true _).bind fun m _ => ?_
    split
    · exact .error trivial
    · refine (sat_true _).bind fun m' _ => ?_
      refine (kalloc_permits d).bind fun r taken => ?_
      obtain ⟨r, k₁⟩ := r
      cases r with
      | none => exact .ok taken
      | some f =>
        refine (mappages_permits d _ _ PGSIZE f).bind fun r mapped => ?_
        obtain ⟨done, k₂⟩ := r
        cases done with
        | false => exact .error trivial
        | true => exact (sat_true _).bind fun page _ => .ok (Permits.trans taken mapped)

theorem onPageFaultPG_permits (d va1 : Nat) :
    Sat (fun _ => True) (Permits d k) (k.onPageFaultPG cfg me va1) := by
  unfold onPageFaultPG
  dsimp only
  split
  · exact .error trivial
  · split
    · split
      · exact (swapPages_permits d _ _ _).weaken fun _ later => later
      · refine (evict_permits d _).bind fun k₁ out => ?_
        exact (swapIn_permits d va1).weaken fun _ later => out.trans later
    · exact swapIn_permits d va1

/-- No page of the process is shared, as long as it has not forked. -/
def Unshared (k : Kernel) (me : ProcNo) : Prop :=
  ∀ page < USERPAGES, (pteAt (k.dirs (k.proc me).pgdir) page).cow = false

/-- It is enough to look at the page tables there are. -/
theorem unshared_iff : k.Unshared me ↔ ∀ j < USERPAGES / NPDENTRIES,
    ∀ table ∈ k.dirs (k.proc me).pgdir j, ∀ i < NPDENTRIES, (table.pte i).cow = false := by
  unfold Unshared USERPAGES NPDENTRIES KERNBASE PGSIZE
  constructor
  · intro unshared j low table found i low'
    have own := unshared (j * 1024 + i) (by omega)
    have dirIndex : (j * 1024 + i) / 1024 = j := by omega
    have tabIndex : (j * 1024 + i) % 1024 = i := by omega
    rw [pteAt, dirIndex, Option.mem_def.mp found, tabIndex] at own
    exact own
  · intro tables page low
    unfold pteAt
    cases found : k.dirs (k.proc me).pgdir (page / 1024) with
    | none => rfl
    | some table => exact tables _ (by omega) table found _ (by omega)

instance (k : Kernel) (me : ProcNo) : Decidable (k.Unshared me) :=
  decidable_of_iff (∀ j < USERPAGES / NPDENTRIES,
      ((k.dirs (k.proc me).pgdir j).all fun table =>
        decide (∀ i < NPDENTRIES, (table.pte i).cow = false)) = true) <| by
    rw [unshared_iff]
    refine forall_congr' fun j => forall_congr' fun _ => ?_
    cases k.dirs (k.proc me).pgdir j <;> simp

theorem onPageFault_permits (va : Nat) (unshared : k.Unshared me) :
    Sat (fun _ => True) (fun k' => (k'.proc me).pgdir = (k.proc me).pgdir ∧
      Permits (k.proc me).pgdir k k') (k.onPageFault cfg me va) := by
  unfold onPageFault
  refine (updatePagesInPriorityQueue_frame.and
    (updatePagesInPriorityQueue_permits (k.proc me).pgdir).values).bind fun k₁ sampled => ?_
  obtain ⟨frame, permits⟩ := sampled
  have pgdir : (k₁.proc me).pgdir = (k.proc me).pgdir := by
    simpa using frame.mine.pgdir
  have permits : Permits (k.proc me).pgdir k k₁ := permits
  have killed : ((k₁.kill me).proc me).pgdir = (k.proc me).pgdir ∧
      Permits (k.proc me).pgdir k (k₁.kill me) := by
    refine ⟨?_, permits⟩
    rw [kill, setProc_self]
    exact pgdir
  dsimp only
  split
  · exact .ok killed
  · rename_i low
    split
    · exact .ok killed
    · rename_i pte walk
      rw [pgdir] at walk
      have own : pte.cow = false := by
        rw [← walkpgdir_eq_some walk, pageOf_PGROUNDDOWN]
        exact (permits _).cow (unshared _ (pageOf_low (Nat.not_le.mp low)))
      simp only [own, Bool.false_eq_true, if_false]
      split
      · refine ((onPageFaultPG_frame _).and (onPageFaultPG_permits (k.proc me).pgdir _).values).weaken ?_
        rintro k' ⟨frame', permits'⟩
        exact ⟨frame'.mine.pgdir.trans pgdir, permits.trans permits'⟩
      · exact .ok killed

end Permits

/-- What moves pages between memory and the swap file. -/
inductive SwapOp where
  | evict
  | fault (va : Nat)

def SwapStep (cfg : Config) (me : ProcNo) (k : Kernel) : SwapOp → Kernel → Prop
  | .evict, k' => k.evict cfg me (k.proc me).pgdir = .ok k'
  | .fault va, k' => k.onPageFault cfg me va = .ok k'

section Runs

variable {cfg : Config} {k k' : Kernel} {me : ProcNo} {op : SwapOp} {ops : List SwapOp}

theorem SwapStep.permits (unshared : k.Unshared me) (step : SwapStep cfg me k op k') :
    (k'.proc me).pgdir = (k.proc me).pgdir ∧ Permits (k.proc me).pgdir k k' := by
  cases op with
  | evict =>
    have evicted : k.evict cfg me (k.proc me).pgdir = .ok k' := step
    have frame := (evict_frame _).of_ok evicted
    exact ⟨frame.mine.pgdir, (evict_permits _ _).of_ok evicted⟩
  | fault va => exact (onPageFault_permits va unshared).of_ok step

theorem Unshared.permits (unshared : k.Unshared me) (pgdir : (k'.proc me).pgdir = (k.proc me).pgdir)
    (permits : Permits (k.proc me).pgdir k k') : k'.Unshared me := by
  intro page low
  rw [pgdir]
  exact (permits page).cow (unshared page low)

theorem swapRun_permits (unshared : k.Unshared me) (run : Lts.Run (SwapStep cfg me) k ops k') :
    k'.Unshared me ∧ (k'.proc me).pgdir = (k.proc me).pgdir ∧ Permits (k.proc me).pgdir k k' := by
  refine run.invariant (I := fun k' => k'.Unshared me ∧ (k'.proc me).pgdir = (k.proc me).pgdir ∧
    Permits (k.proc me).pgdir k k') ?_ ⟨unshared, rfl, .refl _ k⟩
  rintro k₁ op k₂ ⟨unshared₁, pgdir, permits⟩ step
  obtain ⟨pgdir', permits'⟩ := step.permits unshared₁
  refine ⟨unshared₁.permits pgdir' permits', pgdir'.trans pgdir, permits.trans ?_⟩
  rw [← pgdir]
  exact permits'

end Runs

/-- The permissions of a page of a process that has not forked, before it is evicted and after it was
brought back, with any evictions and faults around: they are the same exactly when the page could
be read and written before. -/
theorem swapping_keeps_permissions_iff (cfg : Config) {me : ProcNo} {k k₁ k₂ k₃ : Kernel}
    {before after : List SwapOp} {op : SwapOp} {page : Nat} (unshared : k.Unshared me)
    (run₁ : Lts.Run (SwapStep cfg me) k before k₁)
    (out : (pteAt (k₁.dirs (k.proc me).pgdir) page).p = false) (step : SwapStep cfg me k₁ op k₂)
    (back : (pteAt (k₂.dirs (k.proc me).pgdir) page).p = true)
    (run₂ : Lts.Run (SwapStep cfg me) k₂ after k₃) :
    ((pteAt (k₃.dirs (k.proc me).pgdir) page).u = (pteAt (k.dirs (k.proc me).pgdir) page).u ∧
        (pteAt (k₃.dirs (k.proc me).pgdir) page).w = (pteAt (k.dirs (k.proc me).pgdir) page).w) ↔
      (pteAt (k.dirs (k.proc me).pgdir) page).u = true ∧
        (pteAt (k.dirs (k.proc me).pgdir) page).w = true := by
  obtain ⟨unshared₁, pgdir₁, -⟩ := swapRun_permits unshared run₁
  obtain ⟨pgdir₂, permits₂⟩ := step.permits unshared₁
  have unshared₂ := unshared₁.permits pgdir₂ permits₂
  obtain ⟨-, -, permits₃⟩ := swapRun_permits unshared₂ run₂
  rw [pgdir₂, pgdir₁] at permits₃
  rw [pgdir₁] at permits₂
  have renewed := ((permits₂ page).renewed out back).follows (permits₃ page)
  rw [renewed.u, renewed.w]
  exact ⟨fun same => ⟨same.1.symm, same.2.symm⟩, fun set => ⟨set.1.symm, set.2.symm⟩⟩

/-- A process of 17 pages, the second of which lies below its stack and is closed to it as `exec`
does; the first page has been evicted. -/
def guarded : Res Kernel := do
  let (_, k) ← (lone 40).growproc (layoutConfig .SCFIFO) 1 (3 * PGSIZE)
  let k ← k.clearpteu (k.proc 1).pgdir PGSIZE
  let (_, k) ← k.growproc (layoutConfig .SCFIFO) 1 (14 * PGSIZE)
  .ok k

/-- The process touches its first page, which costs it the page below its stack, and then that one. -/
def guardFaults : Res (Kernel × Kernel × Kernel) := do
  let k ← guarded
  let k₁ ← k.onPageFault (layoutConfig .SCFIFO) 1 0
  let k₂ ← k₁.onPageFault (layoutConfig .SCFIFO) 1 PGSIZE
  .ok (k, k₁, k₂)

set_option maxRecDepth 2000 in
theorem guardFaults_run : ∃ k k₁ k₂, guarded = .ok k ∧ k.Unshared 1 ∧
    SwapStep (layoutConfig .SCFIFO) 1 k (.fault 0) k₁ ∧
    SwapStep (layoutConfig .SCFIFO) 1 k₁ (.fault PGSIZE) k₂ ∧
    (k.access 1 PGSIZE false = none ∧ (pteAt (k.dirs (k.proc 1).pgdir) 1).p = true ∧
      (pteAt (k₁.dirs (k.proc 1).pgdir) 1).p = false ∧ (k₂.access 1 PGSIZE true).isSome) ∧
    pteAt (k.dirs (k.proc 1).pgdir) 0 = { w := true, u := true, pg := true, frame := 2000 } ∧
    (pteAt (k₁.dirs (k.proc 1).pgdir) 0).p = true := by
  obtain ⟨⟨k, k₁, k₂⟩, run, checked⟩ := exists_ok_of_any (x := guardFaults)
    (p := fun r => decide (r.1.Unshared 1 ∧
      (r.1.access 1 PGSIZE false = none ∧ (pteAt (r.1.dirs (r.1.proc 1).pgdir) 1).p = true ∧
        (pteAt (r.2.1.dirs (r.1.proc 1).pgdir) 1).p = false ∧ (r.2.2.access 1 PGSIZE true).isSome) ∧
      pteAt (r.1.dirs (r.1.proc 1).pgdir) 0 = { w := true, u := true, pg := true, frame := 2000 } ∧
      (pteAt (r.2.1.dirs (r.1.proc 1).pgdir) 0).p = true))
    (by decide +kernel)
  obtain ⟨unshared, guard, first⟩ := of_decide_eq_true checked
  obtain ⟨k', built, k₁', fault₁, k₂', fault₂, same⟩ : ∃ k', guarded = .ok k' ∧ ∃ k₁',
      k'.onPageFault (layoutConfig .SCFIFO) 1 0 = .ok k₁' ∧ ∃ k₂',
      k₁'.onPageFault (layoutConfig .SCFIFO) 1 PGSIZE = .ok k₂' ∧
        Except.ok (k', k₁', k₂') = (Except.ok (k, k₁, k₂) : Res _) := by
    simpa only [guardFaults, Res.bind_ok] using run
  cases same
  exact ⟨k, k₁, k₂, built, unshared, fault₁, fault₂, guard, first⟩

/-- The first page can be read and written after it has been brought back, as before. -/
theorem swapping_keeps_permissions_guarded :
    ∃ k k₁, guarded = .ok k ∧ SwapStep (layoutConfig .SCFIFO) 1 k (.fault 0) k₁ ∧
      (pteAt (k₁.dirs (k.proc 1).pgdir) 0).u = (pteAt (k.dirs (k.proc 1).pgdir) 0).u ∧
      (pteAt (k₁.dirs (k.proc 1).pgdir) 0).w = (pteAt (k.dirs (k.proc 1).pgdir) 0).w := by
  obtain ⟨k, k₁, _, built, unshared, step, -, -, entry, back⟩ := guardFaults_run
  refine ⟨k, k₁, built, step, (swapping_keeps_permissions_iff (layoutConfig .SCFIFO) unshared (.nil k)
    ?_ step back (.nil k₁)).mpr ?_⟩
  · rw [entry]
  · rw [entry]
    exact ⟨rfl, rfl⟩

/-- The page below the stack is evicted and brought back, and from then on the process can read and
write it. -/
theorem swapping_opens_guard_page :
    ∃ k k₁ k₂, guarded = .ok k ∧ k.Unshared 1 ∧ k.access 1 PGSIZE false = none ∧
      (pteAt (k.dirs (k.proc 1).pgdir) 1).p = true ∧
      SwapStep (layoutConfig .SCFIFO) 1 k (.fault 0) k₁ ∧
      (pteAt (k₁.dirs (k.proc 1).pgdir) 1).p = false ∧
      SwapStep (layoutConfig .SCFIFO) 1 k₁ (.fault PGSIZE) k₂ ∧
      (k₂.access 1 PGSIZE true).isSome := by
  obtain ⟨k, k₁, k₂, built, unshared, step₁, step₂, ⟨closed, present, out, opened⟩, -⟩ := guardFaults_run
  exact ⟨k, k₁, k₂, built, unshared, closed, present, step₁, out, step₂, opened⟩

end Kernel

end Xv6
