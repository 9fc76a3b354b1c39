import Xv6.Memory.ImageFaults
import Xv6.Memory.Dismantle
import Xv6.Memory.SwapInFailure

/-!
`growproc` against what it is for: a call that returns 0 has changed the size by `n`, and one that
returns -1 has changed neither the size nor what any page holds.

A page of a process is in memory, on the swap file, or absent, and `contents` reads it wherever it is.
Growing adds pages one by one and evicts others on the way; when a frame is missing, the pages added so
far are given back. What has to be known for that is that no old page is in a frame that a new page
names, be it as its own or as the one it was evicted from.
-/

namespace Xv6

open Function Nat Outcome Paging

variable {sz : Nat}

theorem PGROUNDUP_eq (low : sz ≤ KERNBASE) : PGROUNDUP sz = pagesOf sz * PGSIZE := by
  unfold PGROUNDUP pagesOf PGSIZE
  unfold KERNBASE at low
  omega

variable {newsz n oldsz : Nat}

theorem inRange_iff (low : newsz ≤ KERNBASE) :
    Kernel.InRange newsz oldsz n ↔ pagesOf newsz ≤ n ∧ n < pagesOf oldsz := by
  unfold Kernel.InRange
  rw [PGROUNDUP_eq low]
  unfold pagesOf PGSIZE
  omega

/-- Where the swap file has the page at `va`. -/
def Paging.swapOffset (m : Paging) (va : Nat) : Option Nat :=
  (getPageIndexDefault m.swapPmd true va).map fun j => (m.swapPmd j).offset

variable {a : Nat}

/-- Releasing one page does not change where the others are. -/
theorem Paging.release_swapOffset (m : Paging) (d : Nat) (other : n * PGSIZE ≠ a) :
    (m.release d a).swapOffset (n * PGSIZE) = m.swapOffset (n * PGSIZE) := by
  have ram : (m.releaseRam d a).swapPmd = m.swapPmd := by
    unfold releaseRam
    split
    · rfl
    · split <;> rfl
  unfold release releaseSwap
  split
  · rw [swapOffset, ram, swapOffset]
  · rename_i j found
    split
    · have isA := (getPagePgdirIndex_some found).2
      rw [ram] at isA
      have missed : (m.swapPmd j).va ≠ n * PGSIZE := by
        rw [isA]
        exact other.symm
      have lookup : getPageIndexDefault (update m.swapPmd j (initPmd (m.swapPmd j))) true
          (n * PGSIZE) = getPageIndexDefault m.swapPmd true (n * PGSIZE) := by
        unfold getPageIndexDefault
        congr 1
        funext l
        by_cases here : l = j
        · subst here
          simp only [update_self, initPmd, missed, or_false]
          simpa using fun _ => page_ne_clean n
        · simp [update_of_ne here]
      simp only [swapOffset, setSwap, ram, lookup]
      refine Option.map_congr fun l hit => ?_
      have here : l ≠ j := by
        rintro rfl
        exact missed ((getPageIndexDefault_some hit).2.resolve_left (page_ne_clean n))
      rw [update_of_ne here]
    · rw [swapOffset, ram, swapOffset]

namespace Kernel

/-- What the process has in its page `n`. -/
def contents (k : Kernel) (me : ProcNo) (n : Nat) : Option Page :=
  let pte := pteAt (k.dirs (k.proc me).pgdir) n
  if pte.p then some (k.mem pte.frame)
  else if pte.pg then do
    let file ← (k.proc me).swapFile
    let off ← (k.proc me).paging.swapOffset (n * PGSIZE)
    return filePage file off
  else none

section

variable {cfg : Config} {k k₁ k' : Kernel} {me : ProcNo} {d c n : Nat} {img : Nat → Page}

theorem Image.contents (image : Image cfg k me (k.proc me).pgdir c img) (low : n < c) :
    k.contents me n = some (img n) := by
  unfold Kernel.contents
  cases present : (pteAt (k.dirs (k.proc me).pgdir) n).p with
  | true => simp [present, image.ram.contents n ⟨low, present⟩]
  | false =>
    obtain ⟨file, stored, half⟩ := image.file
    obtain ⟨j, taken, found, va⟩ := half.records.found ⟨low, present⟩ (page_ne_clean n)
    simp [present, half.marked n ⟨low, present⟩, stored, swapOffset, found, half.offset j taken,
      half.contents j taken n va]

theorem contents_eq_none (unnamed : ¬ (pteAt (k.dirs (k.proc me).pgdir) n).Names) :
    k.contents me n = none := by
  obtain ⟨absent, unmarked⟩ := not_or.mp unnamed
  simp [Kernel.contents, absent, unmarked]

/-- The page is where it was. -/
theorem contents_congr (pgdir : (k'.proc me).pgdir = (k.proc me).pgdir)
    (swapFile : (k'.proc me).swapFile = (k.proc me).swapFile)
    (entry : pteAt (k'.dirs (k.proc me).pgdir) n = pteAt (k.dirs (k.proc me).pgdir) n)
    (frame : (pteAt (k.dirs (k.proc me).pgdir) n).p = true →
      k'.mem (pteAt (k.dirs (k.proc me).pgdir) n).frame = k.mem (pteAt (k.dirs (k.proc me).pgdir) n).frame)
    (offset : (k'.proc me).paging.swapOffset (n * PGSIZE) =
      (k.proc me).paging.swapOffset (n * PGSIZE)) :
    k'.contents me n = k.contents me n := by
  unfold Kernel.contents
  rw [pgdir, entry, swapFile, offset]
  cases present : (pteAt (k.dirs (k.proc me).pgdir) n).p with
  | true => simp [present, frame present]
  | false => simp [present]

/-- Deallocation from `a` on leaves the swap file as it is, and where it has the pages before. -/
theorem deallocLoop_swapOffset (turns : Nat) (low : oldsz ≤ KERNBASE)
    (aligned : a % PGSIZE = 0) (before : n * PGSIZE < a) :
    Sat (fun _ => True) (fun k' => (k'.proc me).swapFile = (k.proc me).swapFile ∧
        (k'.proc me).paging.swapOffset (n * PGSIZE) = (k.proc me).paging.swapOffset (n * PGSIZE))
      (deallocLoop cfg me d oldsz turns k a) := by
  refine deallocLoop_rule (P := fun a _ => n * PGSIZE < a)
    (R := fun _ k k' => (k'.proc me).swapFile = (k.proc me).swapFile ∧
      (k'.proc me).paging.swapOffset (n * PGSIZE) = (k.proc me).paging.swapOffset (n * PGSIZE))
    low (fun _ _ => ⟨rfl, rfl⟩) (fun _ further _ before => ⟨lt_trans before further, id⟩) ?_
    turns aligned (.inr trivial) before
  intro a k pte _ _ _ before
  have freed : Sat (fun _ => True) (fun k' => (k'.proc me).swapFile = (k.proc me).swapFile ∧
      (k'.proc me).paging.swapOffset (n * PGSIZE) =
        (k.proc me).paging.swapOffset (n * PGSIZE)) (k.deallocPage cfg me d a pte) := by
    unfold deallocPage
    split
    · split
      · exact .error trivial
      · refine (dropFrame_still pte.frame).values.bind fun k₁ still => .ok ?_
        unfold releaseMeta
        split
        · have kept := (k.proc me).paging.release_swapOffset d (Nat.ne_of_lt before)
          simpa [still.proc] using kept
        · simp [still.proc]
    · exact .ok ⟨rfl, rfl⟩
  exact freed.weaken fun k₁ first => ⟨by omega, fun rest =>
    ⟨rest.1.trans first.1, rest.2.trans first.2⟩⟩

theorem names_cleared (pte : Pte) : ¬ pte.cleared.Names := by
  unfold Pte.cleared Pte.Names
  split
  · simp [Pte.zero]
  · rename_i neither
    exact neither

section Shrinking

variable {oldsz newsz r : Nat}

theorem deallocuvm_outcome (linked : cfg.Linked) (intact : Stocked cfg k.kmem 0) (low : oldsz ≤ KERNBASE)
    (good : ∀ x, x < pagesOf oldsz → (pteAt (k.dirs d) x).Names → ¬ BadFrame cfg (pteAt (k.dirs d) x).frame)
    (run : k.deallocuvm cfg me d oldsz newsz = .ok (r, k')) :
    Dismantled cfg d (InRange newsz oldsz) k k' := by
  refine (deallocuvm_dismantled intact low fun x range names => ?_).of_ok run
  refine linked.frame_pos (good x ?_ names)
  have inside := range.2.2
  unfold pagesOf PGSIZE at *
  omega

/-- What is below the new size is kept if it is not in a frame that goes. -/
theorem deallocuvm_contents (low : oldsz ≤ KERNBASE) (own : (k.proc me).pgdir = d)
    (torn : Dismantled cfg d (InRange newsz oldsz) k k') (below : n < pagesOf newsz)
    (alone : (pteAt (k.dirs d) n).p = true → ∀ x, InRange newsz oldsz x → (pteAt (k.dirs d) x).Names →
      (pteAt (k.dirs d) x).frame ≠ (pteAt (k.dirs d) n).frame)
    (run : k.deallocuvm cfg me d oldsz newsz = .ok (r, k')) :
    k'.contents me n = k.contents me n := by
  subst own
  unfold deallocuvm at run
  split at run
  · cases run
    rfl
  · obtain ⟨k₁, loop, same⟩ := Res.bind_ok.mp run
    cases same
    have small : newsz ≤ KERNBASE := by omega
    have before : n * PGSIZE < PGROUNDUP newsz := by
      rw [PGROUNDUP_eq small]
      exact mul_lt_mul_of_pos_right below (by decide)
    obtain ⟨swapFile, offset⟩ := (deallocLoop_swapOffset _ low (PGROUNDUP_aligned newsz) before).of_ok loop
    have outside : ¬ InRange newsz oldsz n := fun range => by have := range.2.1; omega
    have frame := ((frame_survives me k).deallocLoop (.refl me k) ..).of_ok loop
    exact contents_congr frame.mine.pgdir swapFile
      (torn.outside n outside) (fun present => torn.untouched _ (alone present)) offset

end Shrinking

section Adding

theorem kalloc_outcome (intact : Stocked cfg k.kmem 0) :
    Sat (fun _ => True) (fun r => r = (none, k) ∨ ∃ f km, r = (some f, { k with kmem := km }) ∧
        Stocked cfg km 0 ∧ ¬ BadFrame cfg f ∧ k.kmem.ref f = 0 ∧ km.ref f = 1 ∧
        ∀ g, g ≠ f → km.ref g = k.kmem.ref g) (k.kalloc cfg) := by
  obtain ⟨given, free, ok, _⟩ := intact
  unfold kalloc
  cases free with
  | nil =>
    rw [ok.pop_nil]
    exact (sat_true _).bind fun _ _ => .ok (.inl rfl)
  | cons f rest =>
    have isFree := (ok.mem_free f).mp (List.mem_cons_self ..)
    obtain ⟨km, pop, ok', refs⟩ := ok.pop_cons
    rw [pop]
    refine .ok (.inr ⟨f, km, rfl, ⟨given, rest, ok', zero_le _⟩, ok.inside f isFree.1, isFree.2, ?_,
      fun g other => ?_⟩)
    · rw [refs, if_pos rfl]
    · rw [refs, if_neg other]

theorem mapPage_outcome (intact : Stocked cfg k.kmem 0) (low : n < USERPAGES)
    (absent : (pteAt (k.dirs d) n).p = false) (f : Nat) (perm : Pte) :
    Sat (fun _ => True) (fun r => (r.1 = true → Mapped cfg d n f perm k r.2) ∧
        (r.1 = false → Extends cfg d (fun _ => False) k r.2))
      (k.mappages cfg d (n * PGSIZE) PGSIZE f perm) := by
  have aligned : n * PGSIZE % PGSIZE = 0 := mul_mod_left n PGSIZE
  have word : n * PGSIZE < 2 ^ 32 := by
    unfold USERPAGES KERNBASE PGSIZE at low
    unfold PGSIZE
    omega
  have page : pageOf (n * PGSIZE) = n := pageOf_mul (by
    unfold USERPAGES KERNBASE PGSIZE at low
    omega)
  unfold mappages
  simp only [PGROUNDDOWN_aligned aligned, PGROUNDDOWN_last aligned word]
  rw [Nat.add_sub_cancel_left, Nat.mod_self, Nat.zero_div]
  simp only [mappagesLoop]
  refine (walkpgdirAlloc_extends intact (n * PGSIZE)).bind fun r extends' => ?_
  obtain ⟨found, k₁⟩ := r
  cases found with
  | false => exact .ok ⟨by simp, fun _ => extends'⟩
  | true =>
    dsimp only at extends' ⊢
    split
    · exact .error trivial
    · rename_i pte walk
      have same := walkpgdir_eq_some walk
      rw [page, extends'.outside n id] at same
      have vacant : ¬ pte.p = true := by
        rw [← same, absent]
        decide
      rw [if_neg vacant]
      have begun : Extends cfg d (· = n) k k₁ := extends'.mono fun _ => False.elim
      refine .ok ⟨fun _ => ⟨begun.setPte _ walk page, ?_⟩, by simp⟩
      rw [setPte_dirs_self, pteAt_setPte walk, if_pos page.symm]

/-- The state in which `allocuvm` gives up: at most frames that were free have been touched. -/
structure Spent (cfg : Config) (d : Nat) (k k' : Kernel) : Prop where
  intact : Stocked cfg k'.kmem 0
  entries : ∀ x, pteAt (k'.dirs d) x = pteAt (k.dirs d) x
  proc : k'.proc = k.proc
  mem : ∀ g, k.kmem.ref g ≠ 0 → k'.mem g = k.mem g

/-- A page is added, or the pages from `oldsz` on are given back. -/
theorem addPage_outcome (intact : Stocked cfg k.kmem 0) (low : c < USERPAGES)
    (absent : (pteAt (k.dirs d) c).p = false) (oldsz newsz : Nat) :
    Sat (fun _ => True) (fun r =>
        (r.1 = true → ∃ f k₁, ¬ BadFrame cfg f ∧ CameIn cfg d c f .zeroed k k₁ ∧
          k₁.trackPage cfg me d (c * PGSIZE) = .ok r.2) ∧
        (r.1 = false → ∃ k₁ k₂ x, Spent cfg d k k₁ ∧
          k₁.deallocuvm cfg me d newsz oldsz = .ok (x, k₂) ∧
          (r.2 = k₂ ∨ ∃ f, k.kmem.ref f = 0 ∧ k₂.kfree cfg f = .ok r.2)))
      (k.addPage cfg me d oldsz newsz (c * PGSIZE)) := by
  unfold addPage
  refine (kalloc_outcome intact).bind fun r allocated => ?_
  rcases allocated with rfl | ⟨f, km, rfl, intact₁, good, fresh, taken, others⟩
  · dsimp only
    refine (sat_true _).attach.bind fun ⟨x, k₂⟩ undone => .ok ⟨nofun, fun _ => ?_⟩
    exact ⟨k, k₂, x, ⟨intact, fun _ => rfl, rfl, fun _ _ => rfl⟩, undone.1, .inl rfl⟩
  · dsimp only
    refine (mapPage_outcome (k := { k with kmem := km }.fill f .zeroed) intact₁ low absent f
      .user).bind fun ⟨done, k₁⟩ mapped => ?_
    cases done with
    | true =>
      have came := CameIn.of_mapped fresh taken others (mapped.1 rfl)
      refine (sat_true _).attach.bind fun k₂ tracked => .ok ⟨fun _ => ?_, nofun⟩
      exact ⟨f, k₁, good, came, tracked.1⟩
    | false =>
      have extends' : Extends cfg d (fun _ => False) ({ k with kmem := km }.fill f .zeroed) k₁ :=
        mapped.2 rfl
      refine (sat_true _).attach.bind fun ⟨x, k₂⟩ undone => ?_
      refine (sat_true _).attach.bind fun k₃ freed => .ok ⟨nofun, fun _ => ?_⟩
      refine ⟨k₁, k₂, x, ⟨extends'.intact, fun x => extends'.outside x id, ?_, fun g used => ?_⟩,
        undone.1, .inr ⟨f, fresh, freed.1⟩⟩
      · obtain ⟨_, _, rfl⟩ := extends'.state
        rfl
      · obtain ⟨_, _, rfl⟩ := extends'.state
        have other : g ≠ f := by
          rintro rfl
          exact used fresh
        exact update_of_ne other ..

theorem kfree_state {f : Nat} (run : k.kfree cfg f = .ok k') :
    k'.dirs = k.dirs ∧ k'.proc = k.proc ∧ ∀ g, g ≠ f → k'.mem g = k.mem g := by
  obtain ⟨km, -, same⟩ := Res.bind_ok.mp run
  cases same
  exact ⟨rfl, rfl, fun g other => update_of_ne other ..⟩

/-- Recording a page is a matter of the metadata. -/
theorem trackPage_state (run : k.trackPage cfg me d a = .ok k') :
    k'.kmem = k.kmem ∧ k'.mem = k.mem ∧ k'.dirs = k.dirs ∧
      ∃ m, k'.proc me = { k.proc me with paging := m } := by
  unfold trackPage at run
  split at run
  · cases run
    exact ⟨rfl, rfl, rfl, _, rfl⟩
  · split at run
    · cases run
    · obtain ⟨m, -, same⟩ := Res.bind_ok.mp run
      cases same
      exact ⟨rfl, rfl, rfl, m, by simp⟩

end Adding

/-- The process has its pages below `c`, in memory or on the swap file, and no others. -/
structure Laid (cfg : Config) (k : Kernel) (me : ProcNo) (d c : Nat) : Prop where
  intact : Stocked cfg k.kmem 0
  own : (k.proc me).pgdir = d
  names : ∀ x, x < c → (pteAt (k.dirs d) x).Names
  above : ∀ x, c ≤ x → x < USERPAGES → ¬ (pteAt (k.dirs d) x).Names
  good : ∀ x, x < c → ¬ BadFrame cfg (pteAt (k.dirs d) x).frame
  used : ∀ x, x < c → (pteAt (k.dirs d) x).p = true → k.kmem.ref (pteAt (k.dirs d) x).frame ≠ 0

/-- No page below `start` is in a frame that a later page names. -/
def Alone (k : Kernel) (d start c : Nat) : Prop :=
  ∀ o, o < start → (pteAt (k.dirs d) o).p = true → ∀ x, start ≤ x → x < c →
    (pteAt (k.dirs d) x).frame ≠ (pteAt (k.dirs d) o).frame

theorem Image.laid (image : Image cfg k me d c img) (own : (k.proc me).pgdir = d) :
    Laid cfg k me d c where
  intact := image.intact
  own := own
  names _ low := image.names low
  above x high low := by
    obtain ⟨absent, unmarked⟩ := image.above x high low
    simp [Pte.Names, absent, unmarked]
  good := image.frames
  used x low present := image.ram.used x ⟨low, present⟩

/-- A process that does not page. -/
structure Unpaged (cfg : Config) (k : Kernel) (me : ProcNo) (d c : Nat) (img : Nat → Page) : Prop
    extends Laid cfg k me d c where
  unpaged : cfg.sel = .NONE ∨ (k.proc me).swapFile = none
  present : ∀ x, x < c → (pteAt (k.dirs d) x).p = true
  contents : ∀ x, x < c → k.mem (pteAt (k.dirs d) x).frame = img x

section Undoing

variable {oldsz newsz x : Nat}

/-- After a failed addition the process has what it had below `oldsz`, and nothing else. -/
theorem Laid.undone (linked : cfg.Linked) (laid : Laid cfg k me d c)
    (alone : Alone k d (pagesOf oldsz) c) (low : newsz ≤ KERNBASE) (order : oldsz ≤ newsz)
    (most : pagesOf oldsz ≤ c) (few : c ≤ pagesOf newsz) (spent : Spent cfg d k k₁)
    (run : k₁.deallocuvm cfg me d newsz oldsz = .ok (x, k')) :
    (k'.proc me).pgdir = d ∧ (∀ n, n < pagesOf oldsz → pteAt (k'.dirs d) n = pteAt (k.dirs d) n) ∧
      ∀ n, n < USERPAGES → k'.contents me n = if n < pagesOf oldsz then k.contents me n else none := by
  have within : ∀ x, x < USERPAGES → (pteAt (k.dirs d) x).Names → x < c := fun x page names =>
    Nat.lt_of_not_le fun high => laid.above x high page names
  have userPage : ∀ x, x < pagesOf newsz → x < USERPAGES := by
    intro x
    unfold pagesOf USERPAGES KERNBASE PGSIZE at *
    omega
  have own : (k₁.proc me).pgdir = d := by rw [spent.proc, laid.own]
  have torn := deallocuvm_outcome linked spent.intact low (fun x below names => by
    rw [spent.entries] at names ⊢
    exact laid.good x (within x (userPage x below) names)) run
  have range : ∀ n, InRange oldsz newsz n ↔ pagesOf oldsz ≤ n ∧ n < pagesOf newsz :=
    fun n => inRange_iff (order.trans low)
  have own' : (k'.proc me).pgdir = d := by
    rw [((deallocuvm_frame ..).of_ok run).mine.pgdir, own]
  refine ⟨own', fun n below => ?_, fun n page => ?_⟩
  · rw [torn.outside n (by rw [range]; omega), spent.entries]
  · by_cases below : n < pagesOf oldsz
    · rw [if_pos below]
      have kept : k'.contents me n = k₁.contents me n := by
        refine deallocuvm_contents low own torn below (fun present x inside names => ?_) run
        rw [spent.entries] at present names ⊢
        rw [spent.entries]
        obtain ⟨late, early⟩ := (range x).mp inside
        exact alone n below present x late (within x (userPage x early) names)
      rw [kept]
      refine contents_congr (by rw [spent.proc]) (by rw [spent.proc]) ?_ (fun present => ?_)
        (by rw [spent.proc])
      · rw [laid.own, spent.entries]
      · rw [laid.own] at present ⊢
        exact spent.mem _ (laid.used n (by omega) present)
    · rw [if_neg below]
      refine contents_eq_none ?_
      rw [own']
      by_cases inside : InRange oldsz newsz n
      · rw [torn.inside n inside]
        exact names_cleared _
      · rw [torn.outside n inside, spent.entries]
        refine laid.above n ?_ page
        rw [range] at inside
        omega

theorem Laid.addPage_failed (linked : cfg.Linked) (laid : Laid cfg k me d c)
    (alone : Alone k d (pagesOf oldsz) c) (low : newsz ≤ KERNBASE) (order : oldsz ≤ newsz)
    (most : pagesOf oldsz ≤ c) (few : c < pagesOf newsz)
    (run : k.addPage cfg me d oldsz newsz (c * PGSIZE) = .ok (false, k')) (page : n < USERPAGES) :
    k'.contents me n = if n < pagesOf oldsz then k.contents me n else none := by
  have small : c < USERPAGES := by
    unfold pagesOf USERPAGES KERNBASE PGSIZE at *
    omega
  have vacant : (pteAt (k.dirs d) c).p = false := by
    by_contra present
    exact laid.above c (le_refl c) small (.inl (by simpa using present))
  obtain ⟨k₁, k₂, x, spent, undone, rest⟩ :=
    ((addPage_outcome laid.intact small vacant oldsz newsz).of_ok run).2 rfl
  obtain ⟨own, entries, contents⟩ :=
    laid.undone linked alone low order most (le_of_lt few) spent undone
  rcases rest with rfl | ⟨f, free, freed⟩
  · exact contents n page
  · obtain ⟨dirs, proc, mem⟩ := kfree_state freed
    rw [← contents n page]
    refine contents_congr (by rw [proc]) (by rw [proc]) (by rw [dirs]) (fun present => ?_) (by rw [proc])
    refine mem _ fun same => ?_
    rw [own] at present same
    by_cases below : n < pagesOf oldsz
    · rw [entries n below] at present same
      exact laid.used n (by omega) present (same ▸ free)
    · have nothing := contents n page
      simp [below, Kernel.contents, own, present] at nothing

end Undoing

section Growing

variable {start f oldsz newsz : Nat}

theorem Alone.lasting (alone : Alone k d start c) (lasting : Lasting d k k') : Alone k' d start c := by
  intro o early present x late below
  rw [(lasting x).1, (lasting o).1]
  exact alone o early ((lasting o).2 present) x late below

theorem Alone.added (alone : Alone k d start c) (laid : Laid cfg k me d c) (le : start ≤ c)
    (came : CameIn cfg d c f .zeroed k k₁) (dirs : k'.dirs = k₁.dirs) : Alone k' d start (c + 1) := by
  intro o early present x late below
  rw [dirs, came.entry, if_neg (by omega)] at present
  rw [dirs, came.entry, came.entry, if_neg (show o ≠ c by omega)]
  split
  · rintro same
    exact laid.used o (by omega) present (same ▸ came.fresh)
  · exact alone o early present x late (by omega)

/-- The new page of a process that does not page. -/
theorem Unpaged.added (unpaged : Unpaged cfg k me d c img) (good : ¬ BadFrame cfg f)
    (came : CameIn cfg d c f .zeroed k k₁) (tracked : k₁.trackPage cfg me d (c * PGSIZE) = .ok k') :
    Unpaged cfg k' me d (c + 1) (update img c .zeroed) := by
  obtain ⟨kmem, mem, dirs, m, proc⟩ := trackPage_state tracked
  rw [came.still.proc] at proc
  have last : pteAt (k'.dirs d) c = { Pte.user with p := true, frame := f } := by
    rw [dirs, came.entry, if_pos rfl]
  have elsewhere : ∀ x, x ≠ c → pteAt (k'.dirs d) x = pteAt (k.dirs d) x := fun x other => by
    rw [dirs, came.entry, if_neg other]
  have present : ∀ x, x < c + 1 → (pteAt (k'.dirs d) x).p = true := by
    intro x below
    by_cases here : x = c
    · rw [here, last]
    · rw [elsewhere x here]
      exact unpaged.present x (by omega)
  refine ⟨⟨?_, ?_, fun x below => .inl (present x below), fun x high page => ?_, fun x below => ?_,
    fun x below _ => ?_⟩, ?_, present, fun x below => ?_⟩
  · rw [kmem]
    exact came.intact
  · rw [proc]
    exact unpaged.own
  · rw [elsewhere x (by omega)]
    exact unpaged.above x (by omega) page
  · by_cases here : x = c
    · rw [here, last]
      exact good
    · rw [elsewhere x here]
      exact unpaged.good x (by omega)
  · by_cases here : x = c
    · rw [here, last, kmem]
      exact came.used
    · have used := unpaged.used x (by omega) (unpaged.present x (by omega))
      rw [elsewhere x here, kmem, came.refs _ used]
      exact used
  · rw [proc]
    exact unpaged.unpaged
  · rw [mem]
    by_cases here : x = c
    · rw [here, last, update_self]
      exact came.here
    · have used := unpaged.used x (by omega) (unpaged.present x (by omega))
      have other : (pteAt (k.dirs d) x).frame ≠ f := fun same => used (same ▸ came.fresh)
      rw [elsewhere x here, update_of_ne here, came.mem _ other]
      exact unpaged.contents x (by omega)

theorem updatePagesInPriorityQueue_swapFile :
    Sat (fun _ => True) (fun k' => (k'.proc me).swapFile = (k.proc me).swapFile)
      (k.updatePagesInPriorityQueue cfg me) := by
  unfold updatePagesInPriorityQueue
  split
  · exact .ok rfl
  · refine Sat.foldlM _ (fun k₁ x _ sofar => ?_) rfl
    unfold updatePageInPriorityQueue
    refine (sat_true _).bind fun i _ => ?_
    dsimp only
    split
    · exact .error trivial
    · exact (sat_true _).bind fun m _ => .ok (by simpa using sofar)

/-- There is nothing to evict to without a swap file. -/
theorem evict_without_file (file : (k.proc me).swapFile = none) :
    Sat (fun _ => True) (fun _ => False) (k.evict cfg me d) := by
  unfold evict pageToSwapFile
  refine (sat_true _).bind fun _ _ => ?_
  dsimp only
  split
  · exact .error trivial
  · split
    · exact .error trivial
    · refine (sat_true _).bind fun i _ => ?_
      split
      · exact .error trivial
      · unfold writeSwap
        simp only [record_proc, setPaging_self, setProc_self, file, Res.error_bind]
        exact .error trivial

/-- A process that does not page evicts nothing. -/
theorem Unpaged.makeRoom (unpaged : Unpaged cfg k me d c img) :
    Sat (fun _ => True) (fun k' => k' = k) (k.makeRoom cfg me d) := by
  unfold Kernel.makeRoom
  split
  · exact .ok rfl
  · rename_i build
    split
    · split
      · exact .error trivial
      · refine updatePagesInPriorityQueue_swapFile.bind fun k₁ same => ?_
        have file := unpaged.unpaged.resolve_left build
        exact (evict_without_file (same.trans file)).weaken fun _ impossible => impossible.elim
    · exact .ok rfl

/-- The pages below `c` hold `img`: the process pages and its metadata are in order, or it does not
page. -/
inductive Sorted (cfg : Config) (k : Kernel) (me : ProcNo) (d c : Nat) (img : Nat → Page) : Prop
  | paged (build : cfg.sel.Queued) (own : (k.proc me).pgdir = d) (image : Image cfg k me d c img)
  | unpaged (unpaged : Unpaged cfg k me d c img)

section

variable (sorted : Sorted cfg k me d c img)
include sorted

theorem Sorted.laid : Laid cfg k me d c := by
  cases sorted with
  | paged _ own image => exact image.laid own
  | unpaged unpaged => exact unpaged.toLaid

theorem Sorted.contents (low : n < c) :
    k.contents me n = some (img n) := by
  cases sorted with
  | paged _ own image =>
    subst own
    exact image.contents low
  | unpaged unpaged =>
    obtain rfl := unpaged.own
    simp [Kernel.contents, unpaged.present n low, unpaged.contents n low]

theorem Sorted.congr {img' : Nat → Page}
    (same : ∀ x, x < c → img' x = img x) : Sorted cfg k me d c img' := by
  cases sorted with
  | paged build own image => exact .paged build own (image.congr same)
  | unpaged unpaged =>
    exact .unpaged ⟨unpaged.toLaid, unpaged.unpaged, unpaged.present, fun x below =>
      (unpaged.contents x below).trans (same x below).symm⟩

end

theorem Image.makeRoom_full (image : Image cfg k me d c img) (build : cfg.sel.Queued)
    (full : ¬ c < MAX_TOTAL_PAGES) : Sat (fun _ => True) (fun _ => False) (k.makeRoom cfg me d) := by
  have total := image.total
  have inMemory := image.accounted.inMemory_le
  have inSwapfile := image.accounted.inSwapfile_le
  simp only [MAX_PSYC_PAGES, MAX_TOTAL_PAGES] at full inMemory inSwapfile
  unfold makeRoom
  simp only [MAX_PSYC_PAGES, MAX_TOTAL_PAGES]
  rw [if_neg build.paged, if_pos (by omega), if_pos (by omega)]
  exact .error trivial

/-- How an addition to the pages from `pagesOf oldsz` to `c` ends. -/
def Ended (cfg : Config) (me : ProcNo) (d oldsz c : Nat) (img : Nat → Page) (r : Bool × Kernel) : Prop :=
  (r.1 = true → Sorted cfg r.2 me d c (grown img (pagesOf oldsz)) ∧ Alone r.2 d (pagesOf oldsz) c) ∧
    (r.1 = false → ∀ n, n < USERPAGES →
      r.2.contents me n = if n < pagesOf oldsz then some (img n) else none)

theorem grown_update (img : Nat → Page) (le : start ≤ c) :
    update (grown img start) c .zeroed = grown img start :=
  update_eq_iff.mpr ⟨(if_neg (by omega)).symm, fun _ _ => rfl⟩

section

variable (linked : cfg.Linked) (sorted : Sorted cfg k me d c (grown img (pagesOf oldsz)))
  (alone : Alone k d (pagesOf oldsz) c) (low : newsz ≤ KERNBASE) (order : oldsz ≤ newsz)
  (most : pagesOf oldsz ≤ c) (few : c < pagesOf newsz)
include linked sorted alone low order most few

theorem Sorted.addPage_failed
    (run : k.addPage cfg me d oldsz newsz (c * PGSIZE) = .ok (false, k')) (page : n < USERPAGES) :
    k'.contents me n = if n < pagesOf oldsz then some (img n) else none := by
  rw [sorted.laid.addPage_failed linked alone low order most few run page]
  split
  · rename_i below
    rw [sorted.contents (by omega), grown, if_pos below]
  · rfl

theorem allocPage_ended (free : ∀ i, cfg.excluded i = false) :
    Sat (fun _ => True) (Ended cfg me d oldsz (c + 1) img)
      (k.allocPage cfg me d oldsz newsz (c * PGSIZE)) := by
  have small : c < USERPAGES := by
    unfold pagesOf USERPAGES KERNBASE PGSIZE at *
    omega
  unfold allocPage
  cases sorted with
  | unpaged unpaged =>
    refine unpaged.makeRoom.bind fun k₁ same => ?_
    subst same
    have vacant := unpaged.above c (le_refl c) small
    have vacant : (pteAt (k₁.dirs d) c).p = false := by simpa using (not_or.mp vacant).1
    refine (addPage_outcome unpaged.intact small vacant oldsz newsz).attach.weaken fun r done => ?_
    obtain ⟨run, added, -⟩ := done
    obtain ⟨b, k'⟩ := r
    refine ⟨fun success => ?_, fun failure n page => ?_⟩
    · obtain ⟨f, k₂, good, came, tracked⟩ := added success
      have next := unpaged.added good came tracked
      rw [grown_update img most] at next
      exact ⟨.unpaged next, alone.added unpaged.toLaid most came (trackPage_state tracked).2.2.1⟩
    · have failure : b = false := failure
      subst failure
      exact Sorted.addPage_failed linked (.unpaged unpaged) alone low order most few run page
  | paged build own image =>
    by_cases fits : c < MAX_TOTAL_PAGES
    · refine ((makeRoom_image build (free .eviction) image own fits).mono (fun _ => False.elim)
        fun _ => id).attach.bind fun k₁ made => ?_
      obtain ⟨run₁, image₁, room, lasting⟩ := made
      have own₁ : (k₁.proc me).pgdir = d := by rw [((makeRoom_frame d).of_ok run₁).mine.pgdir, own]
      have alone₁ := alone.lasting lasting
      have vacant := (image₁.above c (le_refl c) small).1
      refine (addPage_outcome image₁.intact small vacant oldsz newsz).attach.weaken fun r done => ?_
      obtain ⟨run, added, -⟩ := done
      obtain ⟨b, k'⟩ := r
      refine ⟨fun success => ?_, fun failure n page => ?_⟩
      · obtain ⟨f, k₂, good, came, tracked⟩ := added success
        obtain ⟨k₃, run₃, image'⟩ := trackPage_image build image₁ room small good came
        rw [tracked] at run₃
        cases run₃
        rw [grown_update img most] at image'
        have own' : (k'.proc me).pgdir = d := by
          rw [((trackPage_frame ..).of_ok tracked).mine.pgdir, came.still.proc, own₁]
        exact ⟨.paged build own' image',
          alone₁.added (image₁.laid own₁) most came (trackPage_state tracked).2.2.1⟩
      · have failure : b = false := failure
        subst failure
        exact Sorted.addPage_failed linked (.paged build own₁ image₁) alone₁ low order most few run page
    · exact (image.makeRoom_full build fits).bind fun _ impossible => impossible.elim

end

theorem allocLoop_ended (turns : Nat) (linked : cfg.Linked) (free : ∀ i, cfg.excluded i = false)
    (sorted : Sorted cfg k me d c (grown img (pagesOf oldsz)))
    (alone : Alone k d (pagesOf oldsz) c) (low : newsz ≤ KERNBASE) (order : oldsz ≤ newsz)
    (most : pagesOf oldsz ≤ c) (few : c + turns ≤ pagesOf newsz) :
    Sat (fun _ => True) (Ended cfg me d oldsz (c + turns) img)
      (allocLoop cfg me d oldsz newsz turns k (c * PGSIZE)) := by
  induction turns generalizing k c with
  | zero => exact .ok ⟨fun _ => ⟨sorted, alone⟩, by simp⟩
  | succ turns ih =>
    unfold allocLoop
    refine (allocPage_ended linked sorted alone low order most (by omega) free).bind
      fun r first => ?_
    obtain ⟨b, k₁⟩ := r
    cases b with
    | false => exact .ok ⟨by simp, first.2⟩
    | true =>
      obtain ⟨sorted₁, alone₁⟩ := first.1 rfl
      have rest := ih sorted₁ alone₁ (by omega) (by omega)
      rwa [succ_mul, add_right_comm, add_assoc c] at rest

end Growing

/-- A growth below `KERNBASE` ends with all new pages or with none. -/
theorem allocuvm_ended {r : Nat} (linked : cfg.Linked)
    (free : ∀ i, cfg.excluded i = false) (sorted : Sorted cfg k me d (pagesOf oldsz) img)
    (low : newsz < KERNBASE) (order : oldsz < newsz)
    (run : k.allocuvm cfg me d oldsz newsz = .ok (r, k')) :
    r = newsz ∧ Laid cfg k' me d (pagesOf newsz) ∨
      r = 0 ∧ ∀ n, n < USERPAGES → k'.contents me n = k.contents me n := by
  have first : PGROUNDUP oldsz = pagesOf oldsz * PGSIZE := PGROUNDUP_eq (by omega)
  have turns : (newsz + PGSIZE - 1 - pagesOf oldsz * PGSIZE) / PGSIZE =
      pagesOf newsz - pagesOf oldsz := by
    unfold pagesOf PGSIZE
    omega
  have more : pagesOf oldsz ≤ pagesOf newsz := by
    unfold pagesOf PGSIZE
    omega
  have all : pagesOf oldsz + (pagesOf newsz - pagesOf oldsz) = pagesOf newsz := by omega
  unfold allocuvm at run
  simp only [if_neg (not_le.mpr low), if_neg (not_lt.mpr (le_of_lt order)), first, turns] at run
  obtain ⟨⟨b, k₁⟩, loop, same⟩ := Res.bind_ok.mp run
  have begun : Sorted cfg k me d (pagesOf oldsz) (grown img (pagesOf oldsz)) :=
    sorted.congr fun n below => if_pos below
  have ended := (allocLoop_ended (pagesOf newsz - pagesOf oldsz) linked free begun
    (fun o early _ x late below => absurd late (by omega)) (le_of_lt low)
    (le_of_lt order) (le_refl _) (by omega)).of_ok loop
  rw [all] at ended
  cases b with
  | true =>
    cases same
    exact .inl ⟨rfl, (ended.1 rfl).1.laid⟩
  | false =>
    cases same
    refine .inr ⟨rfl, fun n page => ?_⟩
    rw [ended.2 rfl n page]
    split
    · rename_i below
      exact (sorted.contents below).symm
    · rename_i above
      have unnamed := sorted.laid.above n (by omega) page
      rw [contents_eq_none]
      rw [sorted.laid.own]
      exact unnamed

/-- What `growproc` is for. -/
def ResizedBy (me : ProcNo) (n : Int) (k : Kernel) (r : Int) (k' : Kernel) : Prop :=
  (r = 0 → ((k'.proc me).sz : Int) = (k.proc me).sz + n ∧ ∀ x, x < USERPAGES →
    ((pteAt (k'.dirs (k'.proc me).pgdir) x).Names ↔ x * PGSIZE < PGROUNDUP (k'.proc me).sz)) ∧
  (r = -1 → (k'.proc me).sz = (k.proc me).sz ∧ ∀ x, x < USERPAGES →
    k'.contents me x = k.contents me x)

section Outcomes

variable {z : Int} {r : Int}

theorem growproc_cases (run : k.growproc cfg me z = .ok (r, k')) :
    ∃ sz k₁, k.resize cfg me z = .ok (sz, k₁) ∧
      (z ≠ 0 ∧ sz = 0 ∧ r = -1 ∧ k' = k₁ ∨
        ¬ (z ≠ 0 ∧ sz = 0) ∧ r = 0 ∧ k' = k₁.setProc me { k₁.proc me with sz := sz }) := by
  unfold growproc at run
  obtain ⟨⟨sz, k₁⟩, resized, done⟩ := Res.bind_ok.mp run
  refine ⟨sz, k₁, resized, ?_⟩
  dsimp only at done
  split at done
  · rename_i failed
    cases done
    exact .inl ⟨failed.1, failed.2, rfl, rfl⟩
  · rename_i succeeded
    cases done
    exact .inr ⟨succeeded, rfl, rfl⟩

theorem resizedBy_of_names (own : (k₁.proc me).pgdir = d) (low : sz ≤ KERNBASE)
    (exact : (sz : Int) = (k.proc me).sz + z)
    (names : ∀ x, x < USERPAGES → ((pteAt (k₁.dirs d) x).Names ↔ x < pagesOf sz)) :
    ResizedBy me z k 0 (k₁.setProc me { k₁.proc me with sz := sz }) := by
  refine ⟨fun _ => ⟨by simpa using exact, fun x page => ?_⟩, nofun⟩
  simp only [setProc_self, setProc_dirs, own, PGROUNDUP_eq low]
  rw [Nat.mul_lt_mul_right (by decide)]
  exact names x page

theorem Laid.names_iff (laid : Laid cfg k me d c) (x : Nat) (page : x < USERPAGES) :
    (pteAt (k.dirs d) x).Names ↔ x < c :=
  ⟨fun names => Nat.lt_of_not_le fun high => laid.above x high page names, laid.names x⟩

theorem growproc_grows (linked : cfg.Linked) (free : ∀ i, cfg.excluded i = false)
    (low : (k.proc me).sz < KERNBASE)
    (sorted : Sorted cfg k me (k.proc me).pgdir (pagesOf (k.proc me).sz) img) (more : 0 < z)
    (word : z < 2 ^ 31) (run : k.growproc cfg me z = .ok (r, k')) : ResizedBy me z k r k' := by
  have exact : ((target (k.proc me).sz z : Nat) : Int) = (k.proc me).sz + z := by
    unfold target KERNBASE at *
    omega
  obtain ⟨sz, k₁, resized, done⟩ := growproc_cases run
  simp only [resize, if_pos more] at resized
  have frame := (allocuvm_frame ..).of_ok resized
  by_cases high : KERNBASE ≤ target (k.proc me).sz z
  · unfold allocuvm at resized
    rw [if_pos high] at resized
    cases resized
    obtain ⟨-, -, rfl, rfl⟩ := done.resolve_right (by omega)
    exact ⟨by simp, fun _ => ⟨rfl, fun _ _ => rfl⟩⟩
  · rcases allocuvm_ended linked free sorted (by omega) (by omega) resized with
      ⟨rfl, laid⟩ | ⟨rfl, same⟩
    · obtain ⟨-, rfl, rfl⟩ := done.resolve_left (by omega)
      exact resizedBy_of_names laid.own (by omega) exact laid.names_iff
    · obtain ⟨-, -, rfl, rfl⟩ := done.resolve_right (by omega)
      exact ⟨by simp, fun _ => ⟨frame.mine.sz, same⟩⟩

/-- The size goes down and the pages above it with it. -/
theorem deallocuvm_names (linked : cfg.Linked) (low : oldsz ≤ KERNBASE)
    (laid : Laid cfg k me d (pagesOf oldsz)) (order : newsz < oldsz)
    (run : k.deallocuvm cfg me d oldsz newsz = .ok (sz, k₁)) : sz = newsz ∧ (k₁.proc me).pgdir = d ∧
      ∀ x, x < USERPAGES → ((pteAt (k₁.dirs d) x).Names ↔ x < pagesOf newsz) := by
  have torn := deallocuvm_outcome linked laid.intact low (fun x below _ => laid.good x below) run
  have range : ∀ x, InRange newsz oldsz x ↔ pagesOf newsz ≤ x ∧ x < pagesOf oldsz :=
    fun x => inRange_iff (by omega)
  have fewer : pagesOf newsz ≤ pagesOf oldsz := by
    unfold pagesOf PGSIZE
    omega
  refine ⟨?_, by rw [((deallocuvm_frame ..).of_ok run).mine.pgdir, laid.own], fun x page => ?_⟩
  · unfold deallocuvm at run
    rw [if_neg (by omega)] at run
    obtain ⟨_, _, same⟩ := Res.bind_ok.mp run
    cases same
    rfl
  · by_cases gone : InRange newsz oldsz x
    · rw [torn.inside x gone]
      rw [range] at gone
      exact iff_of_false (names_cleared _) (by omega)
    · rw [torn.outside x gone, laid.names_iff x page]
      rw [range] at gone
      omega

end Outcomes

theorem layoutConfig_linked (sel : Selection) : (layoutConfig sel).Linked := .of_layout rfl rfl

/-- The lone process has no pages. -/
theorem lone_image (sel : Selection) {free : Nat} (few : free ≤ 100) (img : Nat → Page) :
    Image (layoutConfig sel) (lone free) 1 1001 0 img := by
  have entry : ∀ x, pteAt ((lone free).dirs 1001) x = .zero := by
    intro x
    change pteAt (.single 1003 fun _ => .zero) x = .zero
    rw [pteAt_single, ite_self]
  have stocked : Stocked (layoutConfig sel) (lone free).kmem 0 := by
    obtain ⟨given, ok⟩ : ∃ given, KmemOk (layoutConfig sel) (.layout loneHeld 2000 free) given _ :=
      kmemOk_low rfl (by omega) (by decide)
    exact ⟨given, _, ok, zero_le _⟩
  have vacantRam : occupied ((lone free).proc 1).paging.ramPmd = ∅ := by
    change occupied Paging.zeroed.reset.ramPmd = ∅
    decide
  have vacantSwap : occupied ((lone free).proc 1).paging.swapPmd = ∅ := by
    change occupied Paging.zeroed.reset.swapPmd = ∅
    decide
  have noRam : ∀ i, i ∉ occupied ((lone free).proc 1).paging.ramPmd := by simp [vacantRam]
  have noSwap : ∀ j, j ∉ occupied ((lone free).proc 1).paging.swapPmd := by simp [vacantSwap]
  have noPage : ∀ {x : Nat} {P : Prop}, ¬ (x < 0 ∧ P) := fun holds => not_lt_zero _ holds.1
  refine ⟨?_, stocked, ?_, ⟨.empty, rfl, ?_⟩, fun x _ _ => by simp [entry, Pte.zero], nofun,
    zero_le _⟩
  · change Accounted Paging.zeroed.reset
    decide
  · exact ⟨⟨fun i taken => absurd taken (noRam i), fun _ holds => (noPage holds).elim,
      fun i taken => absurd taken (noRam i)⟩, fun _ holds => (noPage holds).elim,
      fun _ holds => (noPage holds).elim, fun _ holds => (noPage holds).elim,
      fun _ _ holds => (noPage holds).elim⟩
  · exact ⟨⟨fun j taken => absurd taken (noSwap j), fun _ holds => (noPage holds).elim,
      fun j taken => absurd taken (noSwap j)⟩, fun _ holds => (noPage holds).elim,
      fun _ holds => (noPage holds).elim, fun j taken => absurd taken (noSwap j),
      fun j taken => absurd taken (noSwap j), fun j taken => absurd taken (noSwap j)⟩

end

end Kernel

end Xv6
