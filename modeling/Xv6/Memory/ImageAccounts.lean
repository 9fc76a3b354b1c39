import Xv6.Memory.VmAccounts

/-!
Building address spaces: what `setupkvm`, `allocuvm`, `cowuvm` and the
copy-on-write fault do to the owners of frames and to page contents.

As in the teardown lemmas, each result is about a successful call from a state
whose counts balance. Where the allocator runs dry inside a call, the result says
that the counts balance all the same, except for the copy-on-write fault.
-/

namespace Xv6

open Function Ledger

/-- The linker script puts the kernel's data above its text and below `PHYSTOP`. -/
structure Config.Ok (cfg : Config) : Prop where
  data_low : KERNLINK < cfg.kernelData
  data_high : cfg.kernelData < KERNBASE + PHYSTOP

/-- The linker script aligns the kernel's data, and the kernel lies above `KERNBASE`, so that
the frame 0 is never handed out. -/
structure Config.Linked (cfg : Config) : Prop extends cfg.Ok where
  aligned : cfg.kernelData % PGSIZE = 0
  above : KERNBASE < cfg.kernelEnd

variable {cfg : Config}

/-- A kernel whose data begin at 0x80108000 and that ends at 0x80115000. -/
theorem Config.Linked.of_layout (kernelData : cfg.kernelData = 0x80108000)
    (kernelEnd : cfg.kernelEnd = 0x80115000) : cfg.Linked where
  data_low := by rw [kernelData]; decide
  data_high := by rw [kernelData]; decide
  aligned := by rw [kernelData]; decide
  above := by rw [kernelEnd]; decide

theorem Config.Linked.frame_pos (linked : cfg.Linked) {f : Nat} (good : ¬ BadFrame cfg f) :
    f ≠ 0 := by
  rintro rfl
  refine good (.inl ?_)
  rw [Nat.zero_mul]
  exact linked.above

namespace Kernel

section Setup

variable {cfg : Config} {k k' : Kernel} {reserved : Set Nat} {L X : Finset Nat} {me : ProcNo}
  {d : Nat} {k₁ : Kernel} {perm : Pte} {b : Bool}

/-- The kernel half of a directory is closed to user code. -/
def Supervisor (dir : PageDir) : Prop := ∀ page, USERPAGES ≤ page → (pteAt dir page).u = false

/-- What mapping kernel addresses into the directory `d` leaves alone. -/
structure KernelMapped (d : Nat) (k k' : Kernel) : Prop where
  rest : ∃ km dirs, k' = { k with kmem := km, dirs := dirs }
  dirs : ∀ e, e ≠ d → k'.dirs e = k.dirs e
  user : ∀ page, page < USERPAGES → pteAt (k'.dirs d) page = pteAt (k.dirs d) page
  kernel : Supervisor (k.dirs d) → Supervisor (k'.dirs d)
  refs : ∀ f, k.kmem.ref f ≠ 0 → k'.kmem.ref f = k.kmem.ref f

theorem KernelMapped.refl (d : Nat) (k : Kernel) : KernelMapped d k k :=
  ⟨⟨k.kmem, k.dirs, rfl⟩, fun _ _ => rfl, fun _ _ => rfl, fun h => h, fun _ _ => rfl⟩

theorem KernelMapped.trans (first : KernelMapped d k k₁) (second : KernelMapped d k₁ k') :
    KernelMapped d k k' where
  rest := by
    obtain ⟨_, _, rfl⟩ := first.rest
    obtain ⟨km, dirs, rfl⟩ := second.rest
    exact ⟨km, dirs, rfl⟩
  dirs e other := (second.dirs e other).trans (first.dirs e other)
  user page low := (second.user page low).trans (first.user page low)
  kernel closed := second.kernel (first.kernel closed)
  refs f used := by
    have same := first.refs f used
    rw [← same]
    exact second.refs f (same ▸ used)

theorem mappagesLoop_kernel (n : Nat) {a pa : Nat}
    (owns : Owns cfg k.kmem reserved (cells k.dirs L X)) (live : d ∈ L) (high : KERNBASE ≤ a)
    (top : a + n * PGSIZE ≤ 2 ^ 32) (closed : perm.u = false)
    (run : mappagesLoop cfg d perm n k a pa = .ok (b, k')) :
    KernelMapped d k k' ∧ Owns cfg k'.kmem reserved (cells k'.dirs L X) ∧
      (b = false → cfg.excluded .outOfMemory = false) := by
  induction n generalizing k a pa with
  | zero =>
    cases run
    exact ⟨.refl d _, owns, by simp⟩
  | succ n ih =>
    simp only [mappagesLoop, Res.bind_ok] at run
    obtain ⟨⟨found, k₁⟩, walked, run⟩ := run
    obtain ⟨km, dir, rfl, owns₁, entries, _, failed, refs⟩ := walkpgdirAlloc_owns owns live walked
    have made : KernelMapped d k { k with kmem := km, dirs := update k.dirs d dir } :=
      ⟨⟨_, _, rfl⟩, fun e other => update_of_ne other .., fun page _ => by
        simp only [update_self]
        exact entries page, fun isClosed page above => by
        simp only [update_self]
        rw [entries page]
        exact isClosed page above, refs⟩
    cases found with
    | false =>
      cases run
      exact ⟨made, owns₁, failed⟩
    | true =>
      simp only at run
      split at run
      · cases run
      · rename_i pte walk
        split at run
        · cases run
        · have above : USERPAGES ≤ pageOf a := by
            unfold USERPAGES pageOf KERNBASE PGSIZE at *
            omega
          have stored : ∀ new : Pte, new.u = false → KernelMapped d k
              (setPte { k with kmem := km, dirs := update k.dirs d dir } d a new) := by
            intro new isClosed
            refine made.trans ⟨⟨_, _, rfl⟩, fun e other => setPte_dirs_other _ _ _ other, ?_, ?_,
              fun _ _ => rfl⟩
            · intro page low
              rw [setPte_dirs_self, pteAt_setPte walk, if_neg (by omega)]
            · intro before page high
              rw [setPte_dirs_self, pteAt_setPte walk]
              split
              · exact isClosed
              · exact before page high
          rcases Nat.eq_zero_or_pos n with rfl | more
          · cases run
            refine ⟨stored _ closed, ?_, by simp⟩
            rw [setPte_dirs, cells_setPte_high _ L X above walk]
            exact owns₁
          · rw [Nat.mod_eq_of_lt (by unfold PGSIZE at *; omega)] at run
            obtain ⟨mapped, owns', failed'⟩ := ih (by
              rw [setPte_dirs, cells_setPte_high _ L X above walk]
              exact owns₁) (by omega) (by unfold PGSIZE at *; omega) run
            exact ⟨(stored { perm with p := true, frame := pa } closed).trans mapped, owns',
              failed'⟩

theorem mappages_kernel {va size pa : Nat} (owns : Owns cfg k.kmem reserved (cells k.dirs L X))
    (live : d ∈ L) (high : KERNBASE ≤ va) (pos : 0 < size) (top : va + size ≤ 2 ^ 32)
    (closed : perm.u = false) (run : k.mappages cfg d va size pa perm = .ok (b, k')) :
    KernelMapped d k k' ∧ Owns cfg k'.kmem reserved (cells k'.dirs L X) ∧
      (b = false → cfg.excluded .outOfMemory = false) := by
  refine mappagesLoop_kernel _ owns live ?_ ?_ closed run
  · unfold PGROUNDDOWN KERNBASE PGSIZE at *
    omega
  · unfold PGROUNDDOWN KERNBASE PGSIZE at *
    omega

theorem mapKernel_owns (l : List Kmap) (owns : Owns cfg k.kmem reserved (cells k.dirs L X))
    (live : d ∈ L) (above : ∀ e ∈ l, KERNBASE ≤ e.virt ∧
      0 < (e.physEnd + 2 ^ 32 - e.physStart) % 2 ^ 32 ∧
      e.virt + (e.physEnd + 2 ^ 32 - e.physStart) % 2 ^ 32 ≤ 2 ^ 32)
    (run : mapKernel cfg d l k = .ok (b, k')) :
    KernelMapped d k k' ∧ Owns cfg k'.kmem reserved (cells k'.dirs L X) ∧
      (b = false → cfg.excluded .outOfMemory = false) := by
  induction l generalizing k with
  | nil =>
    cases run
    exact ⟨.refl d _, owns, by simp⟩
  | cons e l ih =>
    simp only [mapKernel, Res.bind_ok] at run
    obtain ⟨⟨found, k₁⟩, mapped, run⟩ := run
    obtain ⟨high, pos, top⟩ := above e (List.mem_cons_self ..)
    obtain ⟨first, owns₁, failed⟩ := mappages_kernel owns live high pos top rfl mapped
    cases found with
    | false =>
      cases run
      exact ⟨first, owns₁, failed⟩
    | true =>
      obtain ⟨second, owns', failed'⟩ :=
        ih owns₁ (fun e he => above e (List.mem_cons_of_mem _ he)) run
      exact ⟨first.trans second, owns', failed'⟩

theorem kmap_above (ok : cfg.Ok) : ∀ e ∈ kmap cfg, KERNBASE ≤ e.virt ∧
    0 < (e.physEnd + 2 ^ 32 - e.physStart) % 2 ^ 32 ∧
    e.virt + (e.physEnd + 2 ^ 32 - e.physStart) % 2 ^ 32 ≤ 2 ^ 32 := by
  have low := ok.data_low
  have high := ok.data_high
  unfold KERNLINK KERNBASE EXTMEM at low
  unfold KERNBASE PHYSTOP at high
  simp only [kmap, List.mem_cons, List.not_mem_nil, or_false]
  rintro e (rfl | rfl | rfl | rfl)
  all_goals
    simp only [V2P, KERNLINK, KERNBASE, EXTMEM, PHYSTOP, DEVSPACE]
    omega

/-- A directory `setupkvm` has just made. -/
structure NewDir (d : Nat) (L X : Finset Nat) (k k' : Kernel) : Prop where
  fresh : d ∉ L ∧ d ∉ X
  rest : ∃ km dirs, k' = { k with kmem := km, dirs := dirs }
  dirs : ∀ e, e ≠ d → k'.dirs e = k.dirs e
  user : ∀ page, page < USERPAGES → pteAt (k'.dirs d) page = .zero
  kernel : Supervisor (k'.dirs d)
  refs : ∀ f, k.kmem.ref f ≠ 0 → k'.kmem.ref f = k.kmem.ref f

theorem setupkvm_cases {r : Option Nat} (run : k.setupkvm cfg me = .ok (r, k')) :
    (r = none ∧ k.kalloc cfg = .ok (none, k')) ∨
      ∃ d k₁ b k₂, k.kalloc cfg = .ok (some d, k₁) ∧
        mapKernel cfg d (kmap cfg) { k₁ with dirs := update k₁.dirs d .zeroed } = .ok (b, k₂) ∧
        ((b = true ∧ r = some d ∧ k' = k₂) ∨
          (b = false ∧ r = none ∧ k₂.freevm cfg me d = .ok k')) := by
  simp only [setupkvm, Res.bind_ok] at run
  obtain ⟨⟨page, k₁⟩, allocated, run⟩ := run
  cases page with
  | none =>
    cases run
    exact Or.inl ⟨rfl, allocated⟩
  | some d =>
    right
    simp only [if_neg (show ¬ DEVSPACE < P2V PHYSTOP by decide), Res.bind_ok] at run
    obtain ⟨⟨b, k₂⟩, mapped, run⟩ := run
    refine ⟨d, k₁, b, k₂, allocated, mapped, ?_⟩
    cases b with
    | true =>
      cases run
      exact Or.inl ⟨rfl, rfl, rfl⟩
    | false =>
      simp only [Res.bind_ok] at run
      obtain ⟨k₃, freed, done⟩ := run
      cases done
      exact Or.inr ⟨rfl, rfl, freed⟩

/-- The page for a new directory, and its kernel mappings whether or not memory
suffices for them. -/
theorem newDir_owns {k₂ : Kernel} (ok : cfg.Ok) (owns : Owns cfg k.kmem reserved (cells k.dirs L X))
    (allocated : k.kalloc cfg = .ok (some d, k₁))
    (mapped : mapKernel cfg d (kmap cfg) { k₁ with dirs := update k₁.dirs d .zeroed } =
      .ok (b, k₂)) :
    NewDir d L X k k₂ ∧ Owns cfg k₂.kmem reserved (cells k₂.dirs (insert d L) X) ∧
      (b = false → cfg.excluded .outOfMemory = false) := by
  obtain ⟨km, popped, rfl⟩ := kalloc_some allocated
  obtain ⟨zero, refs, acquire⟩ := owns.pop popped
  have fresh := owns.fresh zero
  have owns₁ := acquire (.dir d) (by simp [cells, fresh.1])
  rw [← cells_newDir k.dirs L X fresh.1] at owns₁
  obtain ⟨rest, owns₂, failed⟩ := mapKernel_owns (k := { k with
    kmem := km, dirs := update k.dirs d .zeroed }) _ owns₁
    (Finset.mem_insert_self d L) (kmap_above ok) mapped
  refine ⟨⟨fresh, ?_, ?_, ?_, ?_, ?_⟩, owns₂, failed⟩
  · obtain ⟨km', dirs', rfl⟩ := rest.rest
    exact ⟨km', dirs', rfl⟩
  · intro e other
    rw [rest.dirs e other]
    exact update_of_ne other ..
  · intro page low
    rw [rest.user page low]
    simp
  · apply rest.kernel
    intro page _
    simp [Pte.zero]
  · intro f used
    have other : f ≠ d := by
      rintro rfl
      exact used zero
    have same : km.ref f = k.kmem.ref f := by rw [refs f, if_neg other]
    rw [← same]
    exact rest.refs f (by simpa [same] using used)

theorem setupkvm_some (ok : cfg.Ok) (owns : Owns cfg k.kmem reserved (cells k.dirs L X))
    (run : k.setupkvm cfg me = .ok (some d, k')) :
    NewDir d L X k k' ∧ Owns cfg k'.kmem reserved (cells k'.dirs (insert d L) X) := by
  rcases setupkvm_cases run with ⟨impossible, _⟩ | ⟨e, k₁, b, k₂, allocated, mapped, outcome⟩
  · cases impossible
  · rcases outcome with ⟨_, same, rfl⟩ | ⟨_, impossible, _⟩
    · cases same
      obtain ⟨new, owns', _⟩ := newDir_owns ok owns allocated mapped
      exact ⟨new, owns'⟩
    · cases impossible

theorem setupkvm_none (ok : cfg.Ok) (owns : Owns cfg k.kmem reserved (cells k.dirs L X))
    (run : k.setupkvm cfg me = .ok (none, k')) :
    Owns cfg k'.kmem reserved (cells k'.dirs L X) ∧ (∀ e ∈ L, k'.dirs e = k.dirs e) ∧
      Frame me k k' ∧ cfg.excluded .outOfMemory = false := by
  rcases setupkvm_cases run with ⟨_, empty⟩ | ⟨d, k₁, b, k₂, allocated, mapped, outcome⟩
  · obtain ⟨rfl, _, notExcluded⟩ := kalloc_none empty
    exact ⟨owns, fun _ _ => rfl, .refl me _, notExcluded⟩
  · rcases outcome with ⟨_, impossible, _⟩ | ⟨failed, _, freed⟩
    · cases impossible
    · obtain ⟨new, owns₂, notExcluded⟩ := newDir_owns ok owns allocated mapped
      obtain ⟨owns', dirs, _, frame⟩ := freevm_owns owns₂ (Finset.mem_insert_self d L)
        (fun page low _ paged => by rw [new.user page low] at paged; cases paged) freed
      rw [Finset.erase_insert new.fresh.1] at owns'
      refine ⟨owns', ?_, ?_, notExcluded failed⟩
      · intro e live
        have other : e ≠ d := ne_of_mem_of_not_mem live new.fresh.1
        rw [dirs e other, new.dirs e other]
      · obtain ⟨km, dirs, rfl⟩ := new.rest
        exact ⟨frame.others, frame.mine, frame.nextpid, frame.initproc⟩

end Setup

/-- The directory `d` gets new zeroed user pages in `range`. -/
structure Extended (me : ProcNo) (d : Nat) (range : Nat → Prop) (k k' : Kernel) : Prop where
  dirs : ∀ e, e ≠ d → k'.dirs e = k.dirs e
  inside : ∀ page, range page → ∃ f, pteAt (k'.dirs d) page = { Pte.user with p := true, frame := f } ∧
    k.kmem.ref f = 0 ∧ k'.kmem.ref f = 1 ∧ k'.mem f = .zeroed
  outside : ∀ page, ¬ range page → pteAt (k'.dirs d) page = pteAt (k.dirs d) page
  keeps : ∀ f, k.kmem.ref f ≠ 0 → k'.kmem.ref f = k.kmem.ref f ∧ k'.mem f = k.mem f
  frame : Frame me k k'

variable {range : Nat → Prop} {me : ProcNo} {k k' : Kernel}

theorem Extended.refl (me : ProcNo) (d : Nat) (k : Kernel) (none_here : ∀ page, ¬ range page) :
    Extended me d range k k where
  dirs _ _ := rfl
  inside page hit := absurd hit (none_here page)
  outside _ _ := rfl
  keeps _ _ := ⟨rfl, rfl⟩
  frame := .refl me k

theorem Extended.trans {d : Nat} {range' range'' : Nat → Prop} {k₁ : Kernel}
    (first : Extended me d range k k₁) (second : Extended me d range' k₁ k')
    (both : ∀ page, range'' page ↔ range page ∨ range' page)
    (apart : ∀ page, range page → ¬ range' page) : Extended me d range'' k k' where
  dirs e other := (second.dirs e other).trans (first.dirs e other)
  inside page hit := by
    rcases (both page).mp hit with hit | hit
    · obtain ⟨f, entry, free, used, zero⟩ := first.inside page hit
      obtain ⟨kept, same⟩ := second.keeps f (by omega)
      exact ⟨f, by rw [second.outside page (apart page hit), entry], free, kept.trans used,
        same.trans zero⟩
    · obtain ⟨f, entry, free, used, zero⟩ := second.inside page hit
      refine ⟨f, entry, ?_, used, zero⟩
      by_contra inUse
      exact inUse ((first.keeps f inUse).1.symm.trans free)
  outside page miss := by
    rw [second.outside page (fun h => miss ((both page).mpr (Or.inr h))),
      first.outside page (fun h => miss ((both page).mpr (Or.inl h)))]
  keeps f used := by
    obtain ⟨kept, same⟩ := first.keeps f used
    obtain ⟨kept', same'⟩ := second.keeps f (by rwa [kept])
    exact ⟨kept'.trans kept, same'.trans same⟩
  frame := first.frame.trans second.frame

/-- A growth that ran out of memory: the pages in `range` are gone. -/
structure Undone (me : ProcNo) (d : Nat) (range : Nat → Prop) (k k' : Kernel) : Prop where
  dirs : ∀ e, e ≠ d → k'.dirs e = k.dirs e
  inside : ∀ page, range page → pteAt (k'.dirs d) page = .zero ∨
    pteAt (k'.dirs d) page = (pteAt (k.dirs d) page).cleared
  outside : ∀ page, ¬ range page → pteAt (k'.dirs d) page = pteAt (k.dirs d) page
  frame : Frame me k k'

theorem Torn.undone {d : Nat} (torn : Torn me d range k k') : Undone me d range k k' :=
  ⟨torn.dirs, fun page hit => Or.inr (torn.inside page hit), torn.outside, torn.frame⟩

section Growth

variable {cfg : Config} {k k' : Kernel} {reserved : Set Nat} {L X : Finset Nat} {me : ProcNo}
  {d : Nat} {a oldsz newsz : Nat} {range : Nat → Prop}

theorem trackPage_cases (run : k.trackPage cfg me d a = .ok k') :
    k'.kmem = k.kmem ∧ k'.mem = k.mem ∧ k'.dirs = k.dirs ∧ Frame me k k' := by
  unfold trackPage at run
  split at run
  · cases run
    exact ⟨rfl, rfl, rfl, .refl me _⟩
  · split at run
    · cases run
    · simp only [Res.bind_ok] at run
      obtain ⟨m, _, done⟩ := run
      cases done
      have frame := Frame.setPaging me k m
      exact ⟨rfl, rfl, rfl, ⟨frame.others, frame.mine, frame.nextpid, frame.initproc⟩⟩

/-- A frame the kernel holds becomes a user page. -/
theorem mapHeld_owns {f va : Nat} {old p : Pte}
    (owns : Owns cfg k.kmem reserved (cells k.dirs L (insert f X))) (fresh : f ∉ X)
    (live : d ∈ L) (low : pageOf va < USERPAGES) (walk : walkpgdir (k.dirs d) va = some old)
    (vacant : old.p = false) :
    Owns cfg k.kmem reserved
      (cells (k.setPte d va { p with p := true, frame := f }).dirs L X) := by
  have entry := walkpgdir_eq_some walk
  have vacantCell : cells k.dirs L (insert f X) (.user d (pageOf va)) = none := by
    simp [cells, entry, Pte.mapped, vacant]
  have moved := owns.move (cells_one (Finset.mem_insert_self f X)) vacantCell (fun h => h)
  rw [← cells_one_erase, Finset.erase_insert fresh] at moved
  rw [setPte_dirs, cells_setPte k.dirs L X live low walk]
  exact moved

theorem addPage_true (owns : Owns cfg k.kmem reserved (cells k.dirs L X)) (live : d ∈ L)
    (aligned : a % PGSIZE = 0) (low : a < KERNBASE)
    (run : k.addPage cfg me d oldsz newsz a = .ok (true, k')) :
    Extended me d (· = pageOf a) k k' ∧ Owns cfg k'.kmem reserved (cells k'.dirs L X) := by
  simp only [addPage, Res.bind_ok] at run
  obtain ⟨⟨page, k₁⟩, allocated, run⟩ := run
  cases page with
  | none =>
    simp only [Res.bind_ok] at run
    obtain ⟨_, _, done⟩ := run
    cases done
  | some f =>
    obtain ⟨km, popped, rfl⟩ := kalloc_some allocated
    obtain ⟨zero, refs, fresh, owns₁⟩ := owns.popOne popped
    simp only [Res.bind_ok] at run
    obtain ⟨⟨found, k₂⟩, mapped, run⟩ := run
    cases found with
    | false =>
      simp only [Res.bind_ok] at run
      obtain ⟨_, _, _, _, done⟩ := run
      cases done
    | true =>
      simp only [Res.bind_ok] at run
      obtain ⟨k₃, tracked, done⟩ := run
      cases done
      obtain ⟨k₁, walked, _, stored⟩ := mapPage_cases aligned
        (by unfold KERNBASE at low; omega) mapped
      obtain ⟨old, walk, vacant, rfl⟩ := stored rfl
      obtain ⟨km', dir, rfl, owns₂, entries, _, _, refs'⟩ :=
        walkpgdirAlloc_owns (k := fill { k with kmem := km } f .zeroed) owns₁ live walked
      have owns₃ := mapHeld_owns (p := .user) owns₂ fresh live (pageOf_low low) walk vacant
      obtain ⟨sameKmem, sameMem, sameDirs, frame⟩ := trackPage_cases tracked
      rw [sameKmem, sameDirs]
      refine ⟨⟨?_, ?_, ?_, ?_, ?_⟩, owns₃⟩
      · intro e other
        rw [sameDirs, setPte_dirs_other _ _ _ other]
        exact update_of_ne other ..
      · rintro page rfl
        refine ⟨f, ?_, zero, ?_, ?_⟩
        · rw [sameDirs, setPte_dirs_self, pteAt_setPte walk, if_pos rfl]
        · rw [sameKmem, setPte_kmem]
          change km'.ref f = 1
          rw [refs' f (by simp [refs])]
          simp [refs]
        · rw [sameMem, setPte_mem]
          exact fill_mem_self ..
      · intro page other
        rw [sameDirs, setPte_dirs_self, pteAt_setPte walk, if_neg other]
        simpa using entries page
      · intro g used
        have other : g ≠ f := by
          rintro rfl
          exact used zero
        have kept : km.ref g = k.kmem.ref g := by rw [refs g, if_neg other]
        rw [sameKmem, sameMem, setPte_kmem, setPte_mem]
        refine ⟨?_, fill_mem_other _ _ other⟩
        change km'.ref g = _
        rw [refs' g (by simpa [kept] using used)]
        exact kept
      · exact ⟨frame.others, frame.mine, frame.nextpid, frame.initproc⟩

/-- No entry in `range` belongs to a swapped-out page. -/
def NoneSwapped (k : Kernel) (d : Nat) (range : Nat → Prop) : Prop :=
  ∀ page, range page → (pteAt (k.dirs d) page).pg = true → (pteAt (k.dirs d) page).p = true

theorem NoneSwapped.staleFree (plain : NoneSwapped k d range) :
    StaleFree k d range := by
  intro page hit absent paged
  have := plain page hit paged
  simp [this] at absent

theorem addPage_false (owns : Owns cfg k.kmem reserved (cells k.dirs L X)) (live : d ∈ L)
    (aligned : a % PGSIZE = 0) (low : a < KERNBASE) (top : newsz ≤ KERNBASE)
    (plain : NoneSwapped k d (InRange oldsz newsz))
    (run : k.addPage cfg me d oldsz newsz a = .ok (false, k')) :
    Undone me d (InRange oldsz newsz) k k' ∧ Owns cfg k'.kmem reserved (cells k'.dirs L X) ∧
      cfg.excluded .outOfMemory = false := by
  simp only [addPage, Res.bind_ok] at run
  obtain ⟨⟨page, k₁⟩, allocated, run⟩ := run
  cases page with
  | none =>
    obtain ⟨same, _, notExcluded⟩ := kalloc_none allocated
    simp only [Res.bind_ok] at run
    obtain ⟨⟨r, k₂⟩, dealloc, done⟩ := run
    rw [same] at dealloc
    cases done
    obtain ⟨torn, owns'⟩ := deallocuvm_torn owns live top plain.staleFree dealloc
    exact ⟨torn.undone, owns', notExcluded⟩
  | some f =>
    obtain ⟨km, popped, rfl⟩ := kalloc_some allocated
    obtain ⟨zero, refs, fresh, owns₁⟩ := owns.popOne popped
    simp only [Res.bind_ok] at run
    obtain ⟨⟨found, k₂⟩, mapped, run⟩ := run
    cases found with
    | true =>
      simp only [Res.bind_ok] at run
      obtain ⟨_, _, done⟩ := run
      cases done
    | false =>
      simp only [Res.bind_ok] at run
      obtain ⟨⟨r, k₃⟩, dealloc, k₄, freed, done⟩ := run
      cases done
      obtain ⟨k₁, walked, same, _⟩ := mapPage_cases aligned
        (by unfold KERNBASE at low; omega) mapped
      obtain rfl := same rfl
      obtain ⟨km', dir, rfl, owns₂, entries, _, failed, _⟩ :=
        walkpgdirAlloc_owns (k := fill { k with kmem := km } f .zeroed) owns₁ live walked
      have before : ∀ page, pteAt (update k.dirs d dir d) page =
          pteAt (k.dirs d) page := by
        intro page
        rw [update_self]
        exact entries page
      obtain ⟨torn, owns₃⟩ := deallocuvm_torn owns₂ live top (NoneSwapped.staleFree (by
        intro page hit
        simp only [fill_dirs, before]
        exact plain page hit)) dealloc
      obtain ⟨km'', mem'', rfl, owns', _⟩ := kfree_owns owns₃
        (cells_one (Finset.mem_insert_self f X)) freed
      rw [← cells_one_erase, Finset.erase_insert fresh] at owns'
      refine ⟨⟨?_, ?_, ?_, ?_⟩, owns', failed rfl⟩
      · intro e other
        exact (torn.dirs e other).trans (update_of_ne other ..)
      · intro page hit
        right
        have := torn.inside page hit
        rw [fill_dirs, before page] at this
        exact this
      · intro page miss
        have := torn.outside page miss
        rw [fill_dirs, before page] at this
        exact this
      · exact ⟨torn.frame.others, torn.frame.mine, torn.frame.nextpid, torn.frame.initproc⟩

/-- Without eviction there is nothing to make room for. -/
theorem makeRoom_quiet (quiet : cfg.excluded .eviction = true)
    (run : k.makeRoom cfg me d = .ok k') : k' = k := by
  unfold makeRoom at run
  split at run
  · cases run
    rfl
  · split at run
    · split at run
      · cases run
      · simp only [Res.bind_ok] at run
        obtain ⟨k₁, _, evicted⟩ := run
        simp [evict, pageToSwapFile, Config.meet, quiet] at evicted
    · cases run
      rfl

theorem Extended.noneSwapped {range' : Nat → Prop} (ext : Extended me d range k k')
    (plain : NoneSwapped k d range') : NoneSwapped k' d range' := by
  intro page inRange paged
  by_cases hit : range page
  · obtain ⟨f, entry, _⟩ := ext.inside page hit
    rw [entry]
  · rw [ext.outside page hit] at paged ⊢
    exact plain page inRange paged

/-- The growth loop without eviction, from a page on. -/
theorem allocLoop_quiet (quiet : cfg.excluded .eviction = true) (n : Nat) {b : Bool}
    (owns : Owns cfg k.kmem reserved (cells k.dirs L X)) (live : d ∈ L) (aligned : a % PGSIZE = 0)
    (low : a + n * PGSIZE < newsz + PGSIZE) (top : newsz ≤ KERNBASE) (start : PGROUNDUP oldsz ≤ a)
    (order : oldsz < newsz ∨ n = 0) (plain : NoneSwapped k d (InRange oldsz newsz))
    (run : allocLoop cfg me d oldsz newsz n k a = .ok (b, k')) :
    Owns cfg k'.kmem reserved (cells k'.dirs L X) ∧
      (b = true → Extended me d
        (fun page => a ≤ page * PGSIZE ∧ page * PGSIZE < a + n * PGSIZE) k k') ∧
      (b = false → Undone me d (InRange oldsz newsz) k k' ∧
        cfg.excluded .outOfMemory = false) := by
  induction n generalizing k a with
  | zero =>
    cases run
    refine ⟨owns, fun _ => .refl me d _ (fun page hit => by omega), by simp⟩
  | succ n ih =>
    simp only [allocLoop, allocPage, Res.bind_ok] at run
    obtain ⟨⟨added, k₂⟩, ⟨k₁, room, adding⟩, run⟩ := run
    obtain rfl := makeRoom_quiet quiet room
    have isLow : a < KERNBASE := by
      unfold PGSIZE at low
      omega
    cases added with
    | false =>
      cases run
      obtain ⟨undone, owns', failed⟩ := addPage_false owns live aligned isLow top plain adding
      exact ⟨owns', by simp, fun _ => ⟨undone, failed⟩⟩
    | true =>
      obtain ⟨ext, owns₁⟩ := addPage_true owns live aligned isLow adding
      have here : ∀ page, page = pageOf a ↔ page * PGSIZE = a := by
        intro page
        unfold pageOf KERNBASE PGSIZE at *
        omega
      obtain ⟨owns', grown, failed⟩ := ih owns₁ (by unfold PGSIZE at *; omega)
        (by unfold PGSIZE at *; omega) (by omega) (by omega) (ext.noneSwapped plain) run
      refine ⟨owns', fun h => ext.trans (grown h) ?_ ?_, fun h => ?_⟩
      · intro page
        rw [here page]
        unfold PGSIZE at *
        omega
      · intro page hit
        rw [here page] at hit
        unfold PGSIZE at *
        omega
      · obtain ⟨undone, notExcluded⟩ := failed h
        refine ⟨⟨?_, ?_, ?_, ext.frame.trans undone.frame⟩, notExcluded⟩
        · intro e other
          exact (undone.dirs e other).trans (ext.dirs e other)
        · intro page hit
          rcases undone.inside page hit with zero | cleared
          · exact Or.inl zero
          · by_cases new : page = pageOf a
            · obtain ⟨f, entry, _⟩ := ext.inside page new
              left
              rw [cleared, entry]
              rfl
            · right
              rw [cleared, ext.outside page new]
        · intro page miss
          rw [undone.outside page miss, ext.outside]
          intro new
          apply miss
          refine ⟨by omega, ?_, ?_⟩
          · rw [(here page).mp new]
            exact start
          · rw [(here page).mp new]
            unfold PGSIZE at *
            omega

/-- The outcomes of `allocuvm` without eviction. -/
inductive Allocated (cfg : Config) (me : ProcNo) (d oldsz newsz : Nat) (k k' : Kernel) :
    Nat → Prop
  | tooLarge (high : KERNBASE ≤ newsz) (same : k' = k) : Allocated cfg me d oldsz newsz k k' 0
  | smaller (low : newsz < KERNBASE) (order : newsz < oldsz) (same : k' = k) :
      Allocated cfg me d oldsz newsz k k' oldsz
  | grown (low : newsz < KERNBASE) (order : oldsz ≤ newsz)
      (ext : Extended me d (InRange oldsz newsz) k k') : Allocated cfg me d oldsz newsz k k' newsz
  | failed (low : newsz < KERNBASE) (order : oldsz ≤ newsz)
      (notExcluded : cfg.excluded .outOfMemory = false)
      (undone : Undone me d (InRange oldsz newsz) k k') : Allocated cfg me d oldsz newsz k k' 0

theorem allocuvm_quiet {r : Nat} (quiet : cfg.excluded .eviction = true)
    (owns : Owns cfg k.kmem reserved (cells k.dirs L X)) (live : d ∈ L)
    (plain : newsz < KERNBASE → NoneSwapped k d (InRange oldsz newsz))
    (run : k.allocuvm cfg me d oldsz newsz = .ok (r, k')) :
    Owns cfg k'.kmem reserved (cells k'.dirs L X) ∧ Allocated cfg me d oldsz newsz k k' r := by
  unfold allocuvm at run
  split at run
  case isTrue high =>
    cases run
    exact ⟨owns, .tooLarge high rfl⟩
  case isFalse low =>
    have low : newsz < KERNBASE := by omega
    split at run
    case isTrue order =>
      cases run
      exact ⟨owns, .smaller low order rfl⟩
    case isFalse order =>
      have order : oldsz ≤ newsz := by omega
      have roundup : oldsz ≤ PGROUNDUP oldsz ∧ PGROUNDUP oldsz < oldsz + PGSIZE := by
        unfold PGROUNDUP KERNBASE PGSIZE at *
        omega
      have aligned := PGROUNDUP_aligned oldsz
      simp only [Res.bind_ok] at run
      obtain ⟨⟨b, k₁⟩, loop, run⟩ := run
      obtain ⟨owns', grown, failed⟩ := allocLoop_quiet quiet _ owns live aligned
        (by unfold PGSIZE at *; omega) (by omega) (Nat.le_refl _)
        (by unfold PGSIZE at *; omega) (plain low) loop
      cases b with
      | true =>
        cases run
        refine ⟨owns', .grown low order ?_⟩
        have range : InRange oldsz newsz = fun page => PGROUNDUP oldsz ≤ page * PGSIZE ∧
            page * PGSIZE < PGROUNDUP oldsz +
              (newsz + PGSIZE - 1 - PGROUNDUP oldsz) / PGSIZE * PGSIZE := by
          funext page
          unfold InRange
          apply propext
          generalize PGROUNDUP oldsz = a at *
          unfold PGSIZE at *
          omega
        rw [range]
        exact grown rfl
      | false =>
        cases run
        obtain ⟨undone, notExcluded⟩ := failed rfl
        exact ⟨owns', .failed low order notExcluded undone⟩

end Growth

end Kernel

end Xv6
