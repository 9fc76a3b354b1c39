import Xv6.Memory.ImageSteps

/-!
Pages that come into memory: growth by `allocuvm` and the page faults on swapped-out pages.

The counters of the metadata add up to the number of pages of the image, so that an image
below the limit has a vacant slot wherever one is looked for.
-/

namespace Xv6

open Finset Function Outcome

variable {pmds : Slot → Pmd} {P : Nat → Prop}

theorem Records.card [DecidablePred P]
    (records : Records pmds P) (c : Nat) (bounded : ∀ n, P n → n < c) :
    (occupied pmds).card = ((Finset.range c).filter P).card := by
  have page : ∀ i ∈ occupied pmds, P ((pmds i).va / PGSIZE) ∧
      (pmds i).va / PGSIZE * PGSIZE = (pmds i).va := by
    intro i taken
    obtain ⟨n, va, holds⟩ := records.page i taken
    rw [va, Nat.mul_div_cancel n (by decide)]
    exact ⟨holds, rfl⟩
  refine card_bij (fun i _ => (pmds i).va / PGSIZE) (fun i taken => ?_)
    (fun i taken j taken' same => ?_) fun n holds => ?_
  · have holds := (page i taken).1
    exact mem_filter.mpr ⟨mem_range.mpr (bounded _ holds), holds⟩
  · refine records.once i taken j taken' ?_
    rw [← (page i taken).2, same, (page j taken').2]
  · obtain ⟨i, taken, va⟩ := records.every n (mem_filter.mp holds).2
    exact ⟨i, taken, by rw [va, Nat.mul_div_cancel n (by decide)]⟩

namespace Kernel

section

variable {cfg : Config} {k k₁ k' : Kernel} {me : ProcNo} {d c c' n f : Nat} {img : Nat → Page}

theorem Image.total (image : Image cfg k me d c img) :
    (k.proc me).paging.pagesInMemory + (k.proc me).paging.pagesInSwapfile = c := by
  obtain ⟨file, _, half⟩ := image.file
  have resident := image.ram.records.card c fun _ holds => holds.1
  have swapped := half.records.card c fun _ holds => holds.1
  have split := card_filter_add_card_filter_not (s := Finset.range c)
    (fun n => (pteAt (k.dirs d) n).p = true)
  have in' : (Finset.range c).filter (fun n => n < c ∧ (pteAt (k.dirs d) n).p = true) =
      (Finset.range c).filter (fun n => (pteAt (k.dirs d) n).p = true) :=
    filter_congr fun n inside => by simp [mem_range.mp inside]
  have out : (Finset.range c).filter (fun n => n < c ∧ (pteAt (k.dirs d) n).p = false) =
      (Finset.range c).filter (fun n => ¬ (pteAt (k.dirs d) n).p = true) :=
    filter_congr fun n inside => by simp [mem_range.mp inside]
  rw [in'] at resident
  rw [out] at swapped
  rw [image.accounted.pagesInMemory, image.accounted.pagesInSwapfile, resident, swapped]
  rw [card_range] at split
  omega

theorem Image.walks (image : Image cfg k me d c img) (own : (k.proc me).pgdir = d) :
    Walks k me := by
  intro i taken
  obtain ⟨n, va, low, present⟩ := image.ram.records.page i taken
  rw [va, own, image.walk low]
  simp

theorem makeRoom_image (build : cfg.sel.Queued) (swaps : cfg.excluded .eviction = false)
    (image : Image cfg k me d c img) (own : (k.proc me).pgdir = d) (fits : c < MAX_TOTAL_PAGES) :
    Sat (fun _ => False) (fun k' => Image cfg k' me d c img ∧
        (k'.proc me).paging.pagesInMemory < MAX_PSYC_PAGES ∧ Lasting d k k')
      (k.makeRoom cfg me d) := by
  have total := image.total
  have inMemory := image.accounted.inMemory_le
  simp only [MAX_PSYC_PAGES, MAX_TOTAL_PAGES] at fits inMemory
  unfold makeRoom
  rw [if_neg build.paged]
  split
  · rename_i full
    simp only [MAX_PSYC_PAGES] at full
    rw [if_neg (by simp only [MAX_PSYC_PAGES, MAX_TOTAL_PAGES]; omega)]
    obtain ⟨k₁, run, sampled⟩ := sampling_ok build image.accounted (image.walks own)
    rw [run, Res.ok_bind]
    have inMemory' := sampled.same.pagesInMemory
    have inSwapfile' := sampled.same.pagesInSwapfile
    refine (evict_image build swaps (sampled.image image) (by omega)
      (by simp only [MAX_PSYC_PAGES]; omega)).weaken fun k' out => ?_
    obtain ⟨image', fewer, lasting⟩ := out
    refine ⟨image', ?_, fun x => ?_⟩
    · simp only [MAX_PSYC_PAGES]
      omega
    · obtain ⟨a, entry⟩ := sampled.entry d x
      have kept := lasting x
      rw [entry] at kept
      exact kept
  · rename_i room
    exact .ok ⟨image, by omega, fun _ => ⟨rfl, id⟩⟩

/-- Page `n` of `d` has come into the new frame `f`. -/
structure CameIn (cfg : Config) (d n f : Nat) (page : Page) (k k' : Kernel) : Prop where
  intact : Stocked cfg k'.kmem 0
  fresh : k.kmem.ref f = 0
  used : k'.kmem.ref f ≠ 0
  refs : ∀ g, k.kmem.ref g ≠ 0 → k'.kmem.ref g = k.kmem.ref g
  here : k'.mem f = page
  mem : ∀ g, g ≠ f → k'.mem g = k.mem g
  entry : ∀ x, pteAt (k'.dirs d) x =
    if x = n then { Pte.user with p := true, frame := f } else pteAt (k.dirs d) x
  still : Still k k'

theorem CameIn.of_mapped {km : Kmem} {page : Page} (fresh : k.kmem.ref f = 0)
    (taken : km.ref f = 1) (others : ∀ g, g ≠ f → km.ref g = k.kmem.ref g)
    (mapped : Mapped cfg d n f .user ({ k with kmem := km }.fill f page) k') :
    CameIn cfg d n f page k k' := by
  obtain ⟨km', dirs, rfl⟩ := mapped.state
  have inUse : km.ref f ≠ 0 := by
    rw [taken]
    decide
  refine ⟨mapped.intact, fresh, ?_, fun g used => ?_, update_self ..,
    fun g other => update_of_ne other .., mapped.entries, ⟨rfl, rfl, rfl, rfl⟩⟩
  · have kept : km'.ref f = km.ref f := mapped.refs f inUse
    simp only [kept]
    exact inUse
  · have other : g ≠ f := fun same => used (same ▸ fresh)
    have kept : km'.ref g = km.ref g := mapped.refs g (by
      simp only [fill_kmem]
      rw [others g other]
      exact used)
    simp only [kept]
    exact others g other

/-- The new page joins the resident half. -/
theorem CameIn.ram {i : Slot} {img' : Nat → Page} (came : CameIn cfg d n f (img' n) k k')
    (half : RamHalf k.kmem k.mem (pteAt (k.dirs d)) pmds P img) (vacant : i ∉ occupied pmds)
    (pmd : Pmd) (taken : pmd.occupied = true) (va : pmd.va = n * PGSIZE) (fresh : ¬ P n)
    (same : ∀ x, P x → img' x = img x) : RamHalf k'.kmem k'.mem (pteAt (k'.dirs d)) (update pmds i pmd)
      (fun x => P x ∨ x = n) img' := by
  have elsewhere : ∀ x, P x → pteAt (k'.dirs d) x = pteAt (k.dirs d) x := by
    intro x holds
    rw [came.entry, if_neg]
    rintro rfl
    exact fresh holds
  have other : ∀ x, P x → (pteAt (k.dirs d) x).frame ≠ f := fun x holds eq =>
    half.used x holds (eq ▸ came.fresh)
  have here : pteAt (k'.dirs d) n = { Pte.user with p := true, frame := f } := by
    rw [came.entry, if_pos rfl]
  have kept : RamHalf k'.kmem k'.mem (pteAt (k'.dirs d)) pmds P img' := by
    refine half.of_same (fun x holds => ?_) (fun x holds => ?_) same
    · rw [elsewhere x holds]
      exact ⟨rfl, rfl⟩
    · refine ⟨?_, came.mem _ (other x holds)⟩
      rw [came.refs _ (half.used x holds)]
      exact half.used x holds
  refine kept.add vacant pmd taken va fresh ?_ ?_ ?_ fun x holds => ?_
  · rw [here]
  · rw [here]
    exact came.used
  · rw [here]
    exact came.here
  · rw [elsewhere x holds, here]
    exact other x holds

theorem Image.of_parts {m : Paging} {file : File} (mine : (k.proc me).paging = m)
    (stored : (k.proc me).swapFile = some file) (acc : Accounted m)
    (intact : Stocked cfg k.kmem 0)
    (ram : RamHalf k.kmem k.mem (pteAt (k.dirs d)) m.ramPmd
      (fun n => n < c ∧ (pteAt (k.dirs d) n).p = true) img)
    (swap : SwapHalf file (pteAt (k.dirs d)) m.swapPmd
      (fun n => n < c ∧ (pteAt (k.dirs d) n).p = false) img)
    (above : ∀ n, c ≤ n → n < USERPAGES →
      (pteAt (k.dirs d) n).p = false ∧ (pteAt (k.dirs d) n).pg = false)
    (frames : ∀ n, n < c → ¬ BadFrame cfg (pteAt (k.dirs d) n).frame)
    (small : c ≤ USERPAGES) : Image cfg k me d c img := by
  subst mine
  exact ⟨acc, intact, ram, ⟨file, stored, swap⟩, above, frames, small⟩

/-- The new page is recorded. -/
theorem trackPage_image (build : cfg.sel.Queued) (image : Image cfg k me d c img)
    (room : (k.proc me).paging.pagesInMemory < MAX_PSYC_PAGES) (low : c < USERPAGES)
    (good : ¬ BadFrame cfg f) (came : CameIn cfg d c f .zeroed k k₁) :
    ∃ k', k₁.trackPage cfg me d (c * PGSIZE) = .ok k' ∧
      Image cfg k' me d (c + 1) (update img c .zeroed) := by
  have proc : k₁.proc = k.proc := came.still.proc
  obtain ⟨i, m', found, run, same, acc'⟩ := image.accounted.track build room (c * PGSIZE) d
  have vacant : i ∉ occupied (k.proc me).paging.ramPmd := by
    simp [(getPageIndexDefault_some found).1]
  simp only [trackPage, if_neg build.paged, proc, found, run, Res.ok_bind]
  have elsewhere : ∀ x, x ≠ c → pteAt (k₁.dirs d) x = pteAt (k.dirs d) x := fun x other => by
    rw [came.entry, if_neg other]
  have here : (pteAt (k₁.dirs d) c).p = true := by rw [came.entry, if_pos rfl]
  have small : ∀ x, x ≠ c → (x < c + 1 ↔ x < c) := fun x other => by omega
  have ram : RamHalf k₁.kmem k₁.mem (pteAt (k₁.dirs d)) m'.ramPmd
      (fun x => x < c + 1 ∧ (pteAt (k₁.dirs d) x).p = true) (update img c .zeroed) := by
    have zero : update img c .zeroed c = .zeroed := update_self ..
    rw [← zero] at came
    have joined := came.ram image.ram vacant { (k.proc me).paging.ramPmd i with
      va := c * PGSIZE, pgdir := d, occupied := true } rfl rfl (fun holds => by omega)
      fun x holds => update_of_ne (by omega) ..
    refine (ram_of_samePages joined same).congr fun x => ?_
    by_cases last : x = c
    · subst last
      simp [here]
    · simp [elsewhere x last, last, small x last]
  obtain ⟨file, stored, half⟩ := image.file
  have swap : SwapHalf file (pteAt (k₁.dirs d)) m'.swapPmd
      (fun x => x < c + 1 ∧ (pteAt (k₁.dirs d) x).p = false) (update img c .zeroed) := by
    rw [same.swapPmd]
    have kept : SwapHalf file (pteAt (k₁.dirs d)) (k.proc me).paging.swapPmd
        (fun x => x < c ∧ (pteAt (k.dirs d) x).p = false) (update img c .zeroed) := by
      refine half.of_same (fun x holds => ?_) fun x holds => update_of_ne (by omega) ..
      rw [elsewhere x (by omega)]
      exact ⟨rfl, rfl⟩
    refine kept.congr fun x => ?_
    by_cases last : x = c
    · subst last
      simp [here]
    · simp [elsewhere x last, small x last]
  refine ⟨_, rfl, .of_parts ?_ ?_ acc' came.intact ram swap (fun x high below => ?_)
    (fun x below => ?_) low⟩
  · rw [record_proc, setPaging_self]
  · rw [record_proc, setPaging_self, proc]
    exact stored
  · rw [record_dirs, setPaging_dirs, elsewhere x (by omega)]
    exact image.above x (by omega) below
  · rw [record_dirs, setPaging_dirs]
    by_cases last : x = c
    · rw [came.entry, if_pos last]
      exact good
    · rw [elsewhere x last]
      exact image.frames x (by omega)

end

end Kernel

/-- An image of `c` pages, followed by zeros. -/
def grown (img : Nat → Page) (c : Nat) : Nat → Page := fun n => if n < c then img n else .zeroed

/-- The number of pages of an address space. -/
def pagesOf (sz : Nat) : Nat := (sz + PGSIZE - 1) / PGSIZE

namespace Kernel

section Growth

variable {cfg : Config} {k : Kernel} {me : ProcNo} {d c : Nat} {img img' : Nat → Page}

theorem Image.congr (image : Image cfg k me d c img) (same : ∀ n, n < c → img' n = img n) :
    Image cfg k me d c img' := by
  obtain ⟨file, stored, half⟩ := image.file
  refine .of_parts rfl stored image.accounted image.intact ?_ ?_ image.above image.frames image.small
  · exact image.ram.of_same (fun _ _ => ⟨rfl, rfl⟩) (fun n holds => ⟨image.ram.used n holds, rfl⟩)
      fun n holds => same n holds.1
  · exact half.of_same (fun _ _ => ⟨rfl, rfl⟩) fun n holds => same n holds.1

end Growth

end Kernel

end Xv6
