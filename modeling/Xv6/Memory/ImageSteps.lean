import Xv6.Memory.Image
import Xv6.Memory.FaultAccounts

/-!
The pager on an image: sampling, eviction, allocation and swap-in.

Each function leaves the image of the process as it was, up to the page it adds. A sampling and
an eviction return whatever the amount of free memory.
-/

namespace Xv6

open Function Outcome

variable {n : Nat}

theorem pageOf_mul (low : n < 2 ^ 20) : pageOf (n * PGSIZE) = n := by
  unfold pageOf PGSIZE
  omega

theorem page_ne_clean (n : Nat) : n * PGSIZE ≠ CLEAN_VA := by
  unfold PGSIZE CLEAN_VA
  omega

/-- The entry names a frame. -/
def Pte.Names (pte : Pte) : Prop := pte.p = true ∨ pte.pg = true

/-- Ages do not matter to the resident half. -/
theorem ram_of_samePages {km : Kmem} {mem : Nat → Page} {pte : Nat → Pte} {m m' : Paging}
    {P : Nat → Prop} {img : Nat → Page} (half : RamHalf km mem pte m.ramPmd P img) (same : SamePages m m') :
    RamHalf km mem pte m'.ramPmd P img :=
  half.of_records (half.records.of_same (fun i => by rw [same.ramPmd i])
    fun i => by rw [same.ramPmd i])

namespace Kernel

/-- The pages below `c` of the directory `d` are managed by the metadata of `me` and have
the contents `img`. -/
structure Image (cfg : Config) (k : Kernel) (me : ProcNo) (d c : Nat) (img : Nat → Page) :
    Prop where
  accounted : Accounted (k.proc me).paging
  intact : Stocked cfg k.kmem 0
  ram : RamHalf k.kmem k.mem (pteAt (k.dirs d)) (k.proc me).paging.ramPmd
    (fun n => n < c ∧ (pteAt (k.dirs d) n).p = true) img
  file : ∃ file, (k.proc me).swapFile = some file ∧
    SwapHalf file (pteAt (k.dirs d)) (k.proc me).paging.swapPmd
      (fun n => n < c ∧ (pteAt (k.dirs d) n).p = false) img
  above : ∀ n, c ≤ n → n < USERPAGES →
    (pteAt (k.dirs d) n).p = false ∧ (pteAt (k.dirs d) n).pg = false
  frames : ∀ n, n < c → ¬ BadFrame cfg (pteAt (k.dirs d) n).frame
  small : c ≤ USERPAGES

section

variable {cfg : Config} {k : Kernel} {me : ProcNo} {d c : Nat} {img : Nat → Page}

/-- The pages of an image are in memory or marked. -/
theorem Image.names (image : Image cfg k me d c img) (low : n < c) : (pteAt (k.dirs d) n).Names := by
  cases present : (pteAt (k.dirs d) n).p with
  | true => exact .inl present
  | false =>
    obtain ⟨file, _, half⟩ := image.file
    exact .inr (half.marked n ⟨low, present⟩)

theorem Image.walk (image : Image cfg k me d c img) (low : n < c) :
    walkpgdir (k.dirs d) (n * PGSIZE) = some (pteAt (k.dirs d) n) := by
  have page : pageOf (n * PGSIZE) = n := pageOf_mul (by
    have := image.small
    unfold USERPAGES KERNBASE PGSIZE at this
    omega)
  have nonzero : pteAt (k.dirs d) (pageOf (n * PGSIZE)) ≠ .zero := by
    rw [page]
    intro zero
    have names := image.names low
    rw [zero] at names
    exact absurd names (by simp [Pte.Names, Pte.zero])
  rw [walkpgdir_of_pteAt nonzero, page]

end

/-- What a sampling leaves behind. -/
structure Sampled (me : ProcNo) (k k' : Kernel) : Prop where
  touched : Touched me (k.proc me).pgdir k k'
  proc : ∃ m, k'.proc me = { k.proc me with paging := m } ∧
    SamePages (k.proc me).paging m ∧ Accounted m

variable {va : Nat}

section Sampling

variable {cfg : Config} {k k' : Kernel} {me : ProcNo} {d c : Nat} {img : Nat → Page}

/-- The directory of the process has page tables for its resident pages. -/
def Walks (k : Kernel) (me : ProcNo) : Prop :=
  ∀ i ∈ occupied (k.proc me).paging.ramPmd,
    walkpgdir (k.dirs (k.proc me).pgdir) ((k.proc me).paging.ramPmd i).va ≠ none

theorem walkpgdir_ne_none {dir : PageDir} : walkpgdir dir va ≠ none ↔ tableAt dir (PDX va) ≠ none := by
  unfold walkpgdir tableAt
  cases dir (PDX va) <;> simp

theorem sampleOne_ok (build : cfg.sel.Queued) (acc : Accounted (k.proc me).paging) {i : Slot}
    (taken : i ∈ occupied (k.proc me).paging.ramPmd) (walks : Walks k me) :
    ∃ k', updatePageInPriorityQueue cfg me k i.val = .ok k' ∧ Sampled me k k' := by
  obtain ⟨pte, walk⟩ := Option.ne_none_iff_exists'.mp (walks i taken)
  obtain ⟨m, run, same, acc'⟩ := updatePage_accounted build
    (fun va => (walkpgdir (k.dirs (k.proc me).pgdir) va).map Pte.a) pte.a acc taken
  have done : updatePageInPriorityQueue cfg me k i.val = .ok (((k.setPaging me m).setPte
      (k.proc me).pgdir ((k.proc me).paging.ramPmd i).va { pte with a := false }).record
        (.sampled me ((k.proc me).paging.ramPmd i).va pte.a)) := by
    simp only [updatePageInPriorityQueue, ramSlot_val, Res.ok_bind, walk, run]
  refine ⟨_, done, updatePage_touched done, m, ?_, same, acc'⟩
  simp only [record_proc, setPte_proc, setPaging_self]

theorem Sampled.refl (acc : Accounted (k.proc me).paging) : Sampled me k k :=
  ⟨.refl me _ k, _, rfl, .refl _, acc⟩

section

variable (sampled : Sampled me k k')
include sampled

theorem Sampled.accounted : Accounted (k'.proc me).paging := by
  obtain ⟨m, proc, _, acc⟩ := sampled.proc
  rw [proc]
  exact acc

theorem Sampled.same :
    SamePages (k.proc me).paging (k'.proc me).paging := by
  obtain ⟨m, proc, same, _⟩ := sampled.proc
  rw [proc]
  exact same

theorem Sampled.pgdir : (k'.proc me).pgdir = (k.proc me).pgdir := sampled.touched.frame.mine.pgdir

theorem Sampled.walks (walks : Walks k me) : Walks k' me := by
  intro i taken
  rw [sampled.same.resident] at taken
  have found := walks i taken
  rw [sampled.pgdir, sampled.same.ramPmd i]
  rw [walkpgdir_ne_none] at found ⊢
  rw [sampled.touched.tables]
  exact found

end

theorem Sampled.trans {k₁ : Kernel} (first : Sampled me k k₁) (second : Sampled me k₁ k') :
    Sampled me k k' := by
  obtain ⟨m₁, proc₁, same₁, _⟩ := first.proc
  obtain ⟨m₂, proc₂, same₂, acc₂⟩ := second.proc
  have touched := second.touched
  rw [first.pgdir] at touched
  refine ⟨first.touched.trans touched, m₂, by rw [proc₂, proc₁], ?_, acc₂⟩
  rw [proc₁] at same₂
  exact same₁.trans same₂

theorem sampling_ok (build : cfg.sel.Queued) (acc : Accounted (k.proc me).paging)
    (walks : Walks k me) :
    ∃ k', k.updatePagesInPriorityQueue cfg me = .ok k' ∧ Sampled me k k' := by
  unfold updatePagesInPriorityQueue
  split
  · exact ⟨k, rfl, .refl acc⟩
  · have visits : ∀ x ∈ sampleOrder cfg.sel (k.proc me).paging,
        ∃ i ∈ occupied (k.proc me).paging.ramPmd, x = i.val :=
      fun x => sampleOrder_resident build acc
    revert visits
    generalize sampleOrder cfg.sel (k.proc me).paging = order
    intro visits
    induction order generalizing k with
    | nil => exact ⟨k, rfl, .refl acc⟩
    | cons x order ih =>
      obtain ⟨i, taken, rfl⟩ := visits x (List.mem_cons_self ..)
      obtain ⟨k₁, run, sampled⟩ := sampleOne_ok build acc taken walks
      obtain ⟨k₂, run', sampled'⟩ := ih sampled.accounted (sampled.walks walks)
        (by rw [sampled.touched.frame.mine.pid]; assumption)
        (fun x listed => by
          rw [sampled.same.resident]
          exact visits x (List.mem_cons_of_mem _ listed))
      refine ⟨k₂, ?_, sampled.trans sampled'⟩
      rw [List.foldlM_cons, run]
      exact run'

/-- Entries of every directory keep all but their accessed bits. -/
theorem Sampled.entry (sampled : Sampled me k k') (e page : Nat) :
    ∃ a, pteAt (k'.dirs e) page = { pteAt (k.dirs e) page with a := a } := by
  by_cases same : e = (k.proc me).pgdir
  · subst same
    exact sampled.touched.entries page
  · rw [sampled.touched.dirs e same]
    exact ⟨_, rfl⟩

theorem Sampled.image (sampled : Sampled me k k') (image : Image cfg k me d c img) :
    Image cfg k' me d c img := by
  obtain ⟨m, proc, same, acc⟩ := sampled.proc
  obtain ⟨file, stored, half⟩ := image.file
  have entry : ∀ n, (pteAt (k'.dirs d) n).p = (pteAt (k.dirs d) n).p ∧
      (pteAt (k'.dirs d) n).pg = (pteAt (k.dirs d) n).pg ∧
      (pteAt (k'.dirs d) n).frame = (pteAt (k.dirs d) n).frame := by
    intro n
    obtain ⟨a, entry⟩ := sampled.entry d n
    rw [entry]
    exact ⟨rfl, rfl, rfl⟩
  refine ⟨by rw [proc]; exact acc, by rw [sampled.touched.kmem]; exact image.intact, ?_,
    ⟨file, by rw [proc]; exact stored, ?_⟩, fun n high low => ?_, fun n low => ?_, image.small⟩
  · rw [proc, sampled.touched.kmem, sampled.touched.mem]
    refine ((ram_of_samePages image.ram same).of_same (fun n _ => ⟨(entry n).1, (entry n).2.2⟩)
      (fun n holds => ⟨image.ram.used n holds, rfl⟩) fun _ _ => rfl).congr fun n => ?_
    rw [(entry n).1]
  · rw [proc]
    simp only [same.swapPmd]
    refine (half.of_same (fun n _ => ⟨(entry n).1, (entry n).2.1⟩) fun _ _ => rfl).congr fun n => ?_
    rw [(entry n).1]
  · rw [(entry n).1, (entry n).2.1]
    exact image.above n high low
  · rw [(entry n).2.2]
    exact image.frames n low

end Sampling

section Primitives

variable {cfg : Config} {k : Kernel} {d : Nat}

/-- Dropping a reference to a frame changes no other frame. -/
theorem dropFrame_image (f : Nat) (intact : Stocked cfg k.kmem 0) :
    ∃ km mem, k.dropFrame cfg f = .ok { k with kmem := km, mem := mem } ∧ Stocked cfg km 0 ∧
      (∀ g, g ≠ f → km.ref g = k.kmem.ref g) ∧ ∀ g, g ≠ f → mem g = k.mem g := by
  obtain ⟨given, free, ok, _⟩ := intact
  obtain ⟨ok', refs⟩ := ok.decRef f
  unfold dropFrame
  by_cases last : k.kmem.ref f = 1
  · have same : (k.kmem.decRef f).2 = k.kmem := by simp [Kmem.decRef, last]
    obtain ⟨km, freed, ok'', refs'⟩ := ok.freeFrame last
    refine ⟨km, update k.mem f .junk, ?_, ⟨given, _, ok'', Nat.zero_le _⟩,
      fun g other => ?_, fun g other => update_of_ne other ..⟩
    · rw [if_pos (show (k.kmem.decRef f).1 = 1 from last), same]
      simp only [kfree, freed, Res.ok_bind]
    · rw [refs', if_neg other]
  · refine ⟨(k.kmem.decRef f).2, k.mem, ?_, ⟨given, free, ok', Nat.zero_le _⟩,
      fun g other => ?_, fun _ _ => rfl⟩
    · rw [if_neg (show ¬ (k.kmem.decRef f).1 = 1 from last)]
    · rw [refs, if_neg (fun h => other h.1)]

/-- Entries of `d` in `inside` are new, and page tables are added where they were missing. -/
structure Extends (cfg : Config) (d : Nat) (inside : Nat → Prop) (k k' : Kernel) : Prop where
  state : ∃ km dirs, k' = { k with kmem := km, dirs := dirs }
  intact : Stocked cfg k'.kmem 0
  refs : ∀ g, k.kmem.ref g ≠ 0 → k'.kmem.ref g = k.kmem.ref g
  outside : ∀ x, ¬ inside x → pteAt (k'.dirs d) x = pteAt (k.dirs d) x

theorem Extends.refl (inside : Nat → Prop) (intact : Stocked cfg k.kmem 0) :
    Extends cfg d inside k k :=
  ⟨⟨k.kmem, k.dirs, rfl⟩, intact, fun _ _ => rfl, fun _ _ => rfl⟩

variable {inside : Nat → Prop} {k' : Kernel}

theorem Extends.mono {inside' : Nat → Prop}
    (first : Extends cfg d inside k k') (more : ∀ x, inside x → inside' x) :
    Extends cfg d inside' k k' :=
  ⟨first.state, first.intact, first.refs, fun x out => first.outside x fun h => out (more x h)⟩

theorem Extends.setPte (first : Extends cfg d inside k k')
    {old : Pte} (pte : Pte) (walk : walkpgdir (k'.dirs d) va = some old)
    (hit : inside (pageOf va)) : Extends cfg d inside k (k'.setPte d va pte) where
  state := by
    obtain ⟨_, _, rfl⟩ := first.state
    exact ⟨_, _, rfl⟩
  intact := first.intact
  refs := first.refs
  outside x out := by
    rw [setPte_dirs_self, pteAt_setPte walk, if_neg]
    · exact first.outside x out
    · rintro rfl
      exact out hit

theorem walkpgdirAlloc_extends (intact : Stocked cfg k.kmem 0) (va : Nat) :
    Sat (fun _ => True) (fun r => Extends cfg d (fun _ => False) k r.2)
      (k.walkpgdirAlloc cfg d va) := by
  unfold walkpgdirAlloc
  cases table : k.dirs d (PDX va) with
  | some t => exact .ok (.refl _ intact)
  | none =>
    obtain ⟨given, free, ok, _⟩ := intact
    unfold kalloc
    cases free with
    | nil =>
      rw [ok.pop_nil]
      refine Sat.bind (P := fun r => r = (none, k)) ((sat_true _).bind fun _ _ => .ok rfl)
        fun r full => ?_
      subst full
      exact .ok (.refl _ ⟨given, [], ok, Nat.zero_le _⟩)
    | cons f rest =>
      obtain ⟨km, pop, ok', refs⟩ := ok.pop_cons
      have isFree := ((ok.mem_free f).mp (List.mem_cons_self ..)).2
      rw [pop]
      refine .ok ⟨⟨km, _, rfl⟩, ⟨given, rest, ok', Nat.zero_le _⟩, fun g used => ?_, fun x _ => ?_⟩
      · rw [refs, if_neg]
        rintro rfl
        exact used isFree
      · simp only [update_self]
        exact pteAt_addTable table f x

/-- The page `n` of `d` is mapped to `f`. -/
structure Mapped (cfg : Config) (d n f : Nat) (perm : Pte) (k k' : Kernel) : Prop extends
    Extends cfg d (· = n) k k' where
  entry : pteAt (k'.dirs d) n = { perm with p := true, frame := f }

theorem Mapped.entries {f : Nat} {perm : Pte} (mapped : Mapped cfg d n f perm k k')
    (x : Nat) : pteAt (k'.dirs d) x =
      if x = n then { perm with p := true, frame := f } else pteAt (k.dirs d) x := by
  split
  · rename_i here
    rw [here]
    exact mapped.entry
  · rename_i elsewhere
    exact mapped.outside x elsewhere

end Primitives

/-- Page `n` of `d` has gone from slot `i` in memory to slot `j` of the file. -/
structure MovedOut (cfg : Config) (me : ProcNo) (d n : Nat) (i j : Slot) (k k' : Kernel) :
    Prop where
  mine : (k'.proc me).paging = (k.proc me).paging.pageOut i j
  intact : Stocked cfg k'.kmem 0
  entry : ∀ x, pteAt (k'.dirs d) x =
    if x = n then { pteAt (k.dirs d) n with p := false, pg := true } else pteAt (k.dirs d) x

/-- Entries keep their frames, and no page becomes present. -/
def Lasting (d : Nat) (k k' : Kernel) : Prop :=
  ∀ x, (pteAt (k'.dirs d) x).frame = (pteAt (k.dirs d) x).frame ∧
    ((pteAt (k'.dirs d) x).p = true → (pteAt (k.dirs d) x).p = true)

section Eviction

variable {cfg : Config} {k k' : Kernel} {me : ProcNo} {d c n : Nat} {img : Nat → Page}
  {P Q : Nat → Prop} {i j : Slot} {file : File}

/-- The slot `j` may be the one of a page that has been read already. -/
theorem pageToSwapFile_image (swaps : cfg.excluded .eviction = false) (intact : Stocked cfg k.kmem 0)
    (stored : (k.proc me).swapFile = some file)
    (ram : RamHalf k.kmem k.mem (pteAt (k.dirs d)) (k.proc me).paging.ramPmd P img)
    {vacant : Pmd} (isVacant : vacant.occupied = false)
    (swap : SwapHalf file (pteAt (k.dirs d)) (update (k.proc me).paging.swapPmd j vacant) Q img)
    (inside : j.val * PGSIZE ≤ file.size) (taken : i ∈ occupied (k.proc me).paging.ramPmd)
    (va : ((k.proc me).paging.ramPmd i).va = n * PGSIZE) (low : n < USERPAGES) :
    Sat (fun _ => False) (fun k' => MovedOut cfg me d n i j k k' ∧
        RamHalf k'.kmem k'.mem (pteAt (k'.dirs d)) ((k.proc me).paging.pageOut i j).ramPmd
          (fun x => P x ∧ x ≠ n) img ∧
        ∃ file', (k'.proc me).swapFile = some file' ∧ SwapHalf file' (pteAt (k'.dirs d))
          ((k.proc me).paging.pageOut i j).swapPmd (fun x => Q x ∨ x = n) img)
      (k.pageToSwapFile cfg me i.val (some j) d) := by
  have page : pageOf (n * PGSIZE) = n := pageOf_mul (by
    unfold USERPAGES KERNBASE PGSIZE at low
    omega)
  have holds : P n := by
    obtain ⟨x, va', holds⟩ := ram.records.page i taken
    rwa [page_inj (va.symm.trans va')]
  have present := ram.present n holds
  have walk : walkpgdir (k.dirs d) (n * PGSIZE) = some (pteAt (k.dirs d) n) := by
    have nonzero : pteAt (k.dirs d) (pageOf (n * PGSIZE)) ≠ .zero := by
      rw [page]
      intro zero
      rw [zero] at present
      exact absurd present (by decide)
    rw [walkpgdir_of_pteAt nonzero, page]
  rw [pageToSwapFile_eq, va, walk, stored, show cfg.meet .eviction = .ok () by
    simp [Config.meet, swaps], Res.ok_bind]
  obtain ⟨km, mem, dropped, intact', refs, same⟩ :=
    dropFrame_image (k := k.pagedOut me i j (pteAt (k.dirs d) n) file) (pteAt (k.dirs d) n).frame
      intact
  simp only [dropped, Res.ok_bind]
  have entry : ∀ x, pteAt (Xv6.setPte (k.dirs d) (n * PGSIZE)
      { pteAt (k.dirs d) n with p := false, pg := true }) x =
      if x = n then { pteAt (k.dirs d) n with p := false, pg := true } else pteAt (k.dirs d) x := by
    intro x
    rw [pteAt_setPte walk, page]
  have elsewhere : ∀ x, x ≠ n → pteAt (Xv6.setPte (k.dirs d) (n * PGSIZE)
      { pteAt (k.dirs d) n with p := false, pg := true }) x = pteAt (k.dirs d) x := fun x other => by
    rw [entry, if_neg other]
  have now : ((k.pagedOut me i j (pteAt (k.dirs d) n) file).proc me).swapFile =
      some (writeToSwapFile file (k.mem (pteAt (k.dirs d) n).frame) (j.val * PGSIZE)).2 := by
    simp only [pagedOut, update_self]
  refine .ok ⟨⟨?_, intact', fun x => ?_⟩, ?_, ?_⟩
  · simp only [setPte_proc, pagedOut, update_self]
  · rw [setPte_dirs_self]
    exact entry x
  · rw [setPte_dirs_self, pageOut_eq]
    refine (ram.remove taken va (initPmd ((k.proc me).paging.ramPmd i)) rfl).of_same
      (fun x stays => ?_) (fun x stays => ?_) fun _ _ => rfl
    · rw [show (k.pagedOut me i j (pteAt (k.dirs d) n) file).dirs = k.dirs from rfl,
        elsewhere x stays.2]
      exact ⟨rfl, rfl⟩
    · have other : (pteAt (k.dirs d) x).frame ≠ (pteAt (k.dirs d) n).frame :=
        fun eq => stays.2 (ram.apart x n stays.1 holds eq)
      refine ⟨?_, same _ other⟩
      rw [show (setPte _ d (n * PGSIZE) _).kmem = km from rfl, refs _ other]
      exact ram.used x stays.1
  · refine ⟨(writeToSwapFile file (k.mem (pteAt (k.dirs d) n).frame) (j.val * PGSIZE)).2, now, ?_⟩
    rw [setPte_dirs_self, pageOut_eq]
    have moved : SwapHalf file (pteAt (Xv6.setPte (k.dirs d) (n * PGSIZE)
        { pteAt (k.dirs d) n with p := false, pg := true }))
        (update (k.proc me).paging.swapPmd j vacant) Q img := by
      refine swap.of_same (fun x marked => ?_) fun _ _ => rfl
      rw [elsewhere x]
      · exact ⟨rfl, rfl⟩
      · rintro rfl
        have := swap.absent x marked
        rw [present] at this
        cases this
    have image := ram.contents n holds
    have free : j ∉ occupied (update (k.proc me).paging.swapPmd j vacant) := by
      simp [isVacant]
    have added := moved.add free (((k.proc me).paging.swapPmd j).paged
      ((k.proc me).paging.ramPmd i) j) rfl va rfl (fun marked => by
        have := swap.absent n marked
        rw [present] at this
        cases this) (by rw [entry, if_pos rfl]) (by rw [entry, if_pos rfl])
      (stored_write file (img n) j inside)
    rw [update_idem, ← image] at added
    exact added

theorem evict_image (build : cfg.sel.Queued) (swaps : cfg.excluded .eviction = false)
    (image : Image cfg k me d c img)
    (some' : 0 < (k.proc me).paging.pagesInMemory)
    (room : (k.proc me).paging.pagesInSwapfile < MAX_PSYC_PAGES) :
    Sat (fun _ => False) (fun k' => Image cfg k' me d c img ∧
        (k'.proc me).paging.pagesInMemory = (k.proc me).paging.pagesInMemory - 1 ∧ Lasting d k k')
      (k.evict cfg me d) := by
  have acc := image.accounted
  obtain ⟨file, stored, half⟩ := image.file
  have nonempty : (occupied (k.proc me).paging.ramPmd).Nonempty := by
    rw [acc.pagesInMemory] at some'
    exact Finset.card_pos.mp (by omega)
  obtain ⟨i, taken, victim, _⟩ := acc.victim build nonempty
  rw [acc.pagesInSwapfile] at room
  obtain ⟨j, found⟩ := exists_vacant (Int.ofNat_lt.mp room)
  have isVacant := (getPageIndexDefault_some found).1
  have vacant : j ∉ occupied (k.proc me).paging.swapPmd := by simp [isVacant]
  have same : k.setPaging me (k.proc me).paging = k := by
    simp [setPaging, setProc]
  obtain ⟨n, va, low, present⟩ := image.ram.records.page i taken
  simp only [evict, victim, same, found]
  have swap := half
  rw [← update_eq_self j (k.proc me).paging.swapPmd] at swap
  refine (pageToSwapFile_image swaps image.intact stored image.ram isVacant swap
    (half.vacant_inside found) taken va (Nat.lt_of_lt_of_le low image.small)).weaken
    fun k' out => ?_
  obtain ⟨moved, ram, file', stored', swap'⟩ := out
  have entry : ∀ x, x ≠ n → pteAt (k'.dirs d) x = pteAt (k.dirs d) x := fun x other => by
    rw [moved.entry, if_neg other]
  have gone : (pteAt (k'.dirs d) n).p = false := by rw [moved.entry, if_pos rfl]
  refine ⟨⟨?_, moved.intact, ?_, ⟨file', stored', ?_⟩, fun x high small => ?_, fun x small => ?_,
    image.small⟩, ?_, fun x => ?_⟩
  · rw [moved.mine]
    exact acc.pageOut taken vacant
  · rw [moved.mine]
    refine ram.congr fun x => ?_
    by_cases here : x = n
    · subst here
      simp [gone]
    · simp [entry x here, here]
  · rw [moved.mine]
    refine swap'.congr fun x => ?_
    by_cases here : x = n
    · subst here
      simp [gone, low]
    · simp [entry x here, here]
  · rw [entry x (by omega)]
    exact image.above x high small
  · by_cases here : x = n
    · subst here
      rw [moved.entry, if_pos rfl]
      exact image.frames x low
    · rw [entry x here]
      exact image.frames x small
  · rw [moved.mine]
    rfl
  · rw [moved.entry]
    split
    · rename_i here
      rw [here]
      exact ⟨rfl, by simp⟩
    · exact ⟨rfl, id⟩

end Eviction

end Kernel

end Xv6
