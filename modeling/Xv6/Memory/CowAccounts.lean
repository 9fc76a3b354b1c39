import Xv6.Memory.ImageAccounts

/-!
Copy-on-write: what `cowuvm` and the copy-on-write fault do to the owners of
frames and to page contents.

`cowuvm` maps a page into the child before it counts the new reference, so the
counts balance again only at the end of each turn of its loop.
-/

namespace Xv6

open Finset Function Ledger

/-- A shared entry: read-only and copy-on-write. -/
def Pte.shared (pte : Pte) : Pte :=
  if pte.p then { pte with w := false, cow := true } else pte

namespace Kernel

/-- The pages in `range` of the directory `d` are shared with `c`. -/
structure CowShared (d c : Nat) (range : Nat → Prop) (k k' : Kernel) : Prop where
  rest : ∃ km dirs, k' = { k with kmem := km, dirs := dirs }
  dirs : ∀ e, e ≠ d → e ≠ c → k'.dirs e = k.dirs e
  parent : ∀ page, range page → pteAt (k'.dirs d) page = (pteAt (k.dirs d) page).shared
  child : ∀ page, range page → pteAt (k'.dirs c) page = (pteAt (k.dirs d) page).shared
  inUse : ∀ page, range page → (pteAt (k.dirs d) page).p ∨ (pteAt (k.dirs d) page).pg
  outside : ∀ page, ¬ range page → pteAt (k'.dirs d) page = pteAt (k.dirs d) page ∧
    pteAt (k'.dirs c) page = pteAt (k.dirs c) page
  refs : ∀ f, k.kmem.ref f ≠ 0 → k'.kmem.ref f ≠ 0

variable {range : Nat → Prop}

theorem CowShared.refl (d c : Nat) (k : Kernel)
    (none_here : ∀ page, ¬ range page) : CowShared d c range k k where
  rest := ⟨k.kmem, k.dirs, rfl⟩
  dirs _ _ _ := rfl
  parent page hit := absurd hit (none_here page)
  child page hit := absurd hit (none_here page)
  inUse page hit := absurd hit (none_here page)
  outside _ _ := ⟨rfl, rfl⟩
  refs _ used := used

theorem CowShared.trans {d c : Nat} {range' range'' : Nat → Prop} {k k₁ k' : Kernel}
    (first : CowShared d c range k k₁) (second : CowShared d c range' k₁ k')
    (both : ∀ page, range'' page ↔ range page ∨ range' page)
    (apart : ∀ page, range page → ¬ range' page) : CowShared d c range'' k k' where
  rest := by
    obtain ⟨_, _, rfl⟩ := first.rest
    obtain ⟨km, dirs, rfl⟩ := second.rest
    exact ⟨km, dirs, rfl⟩
  dirs e notD notC := (second.dirs e notD notC).trans (first.dirs e notD notC)
  parent page hit := by
    rcases (both page).mp hit with hit | hit
    · rw [(second.outside page (apart page hit)).1, first.parent page hit]
    · rw [second.parent page hit, (first.outside page (fun h => apart page h hit)).1]
  child page hit := by
    rcases (both page).mp hit with hit | hit
    · rw [(second.outside page (apart page hit)).2, first.child page hit]
    · rw [second.child page hit, (first.outside page (fun h => apart page h hit)).1]
  inUse page hit := by
    rcases (both page).mp hit with hit | hit
    · exact first.inUse page hit
    · rw [← (first.outside page (fun h => apart page h hit)).1]
      exact second.inUse page hit
  outside page miss := by
    have miss₁ : ¬ range page := fun h => miss ((both page).mpr (Or.inl h))
    have miss₂ : ¬ range' page := fun h => miss ((both page).mpr (Or.inr h))
    exact ⟨(second.outside page miss₂).1.trans (first.outside page miss₁).1,
      (second.outside page miss₂).2.trans (first.outside page miss₁).2⟩
  refs f used := second.refs f (first.refs f used)

section Sharing

variable {cfg : Config} {k k' : Kernel} {reserved : Set Nat} {L X : Finset Nat} {me : ProcNo}
  {d c : Nat}

/-- A page is mapped at most once per directory and page number. -/
theorem ref_le_card (owns : Owns cfg k.kmem reserved (cells k.dirs L X)) {page f : Nat}
    (held : cells k.dirs L X (.user d page) = some f) :
    k.kmem.ref f ≤ (L.card * USERPAGES : Nat) := by
  have live := (cells_user.mp held).1
  have some_dir : 0 < L.card := card_pos.mpr ⟨d, live⟩
  by_cases single : k.kmem.ref f ≤ 1
  · have : 0 < L.card * USERPAGES := Nat.mul_pos some_dir (by decide)
    omega
  · -- Exclusive holders have a count of one, so all holders are user entries.
    have covered : holders (cells k.dirs L X) f ⊆
        ((L ×ˢ Finset.range USERPAGES).image (fun x => Cell.user x.1 x.2) : Finset Cell) := by
      intro x hx
      have notAlone : ¬ x.Exclusive := fun h => by
        have := owns.balanced.alone x f h hx
        omega
      cases x with
      | user e i =>
        obtain ⟨live', low, _⟩ := cells_user.mp hx
        simp only [coe_image, Set.mem_image, mem_coe, mem_product, mem_range]
        exact ⟨(e, i), ⟨live', low⟩, rfl⟩
      | _ => exact absurd trivial notAlone
    have bound := Set.ncard_le_ncard covered (finite_toSet _)
    rw [Set.ncard_coe_finset] at bound
    have small := card_image_le (s := L ×ˢ Finset.range USERPAGES) (f := fun x => Cell.user x.1 x.2)
    rw [card_product, card_range] at small
    rw [owns.balanced.counted f (owns.balanced.not_reserved held)]
    unfold count
    omega

/-- The entry of a present page keeps its frame when it is shared. -/
theorem mapped_shared (pte : Pte) : pte.shared.mapped = pte.mapped := by
  unfold Pte.shared Pte.mapped
  split <;> simp_all

variable {i : Nat} {b : Bool}

theorem cowPage_cases (run : k.cowPage cfg d c i = .ok (b, k')) :
    ∃ old k₂, walkpgdir (k.dirs d) i = some old ∧ (old.p ∨ old.pg) ∧
      (k.setPte d i old.shared).mappages cfg c i PGSIZE old.shared.frame old.shared = .ok (b, k₂) ∧
      (b = false → k' = k₂) ∧
      (b = true → (old.p = true ∧ k' = { k₂ with kmem := k₂.kmem.incRef old.frame }) ∨
        (old.p = false ∧ ∃ copy, walkpgdir (k₂.dirs c) i = some copy ∧
          k' = k₂.setPte c i { copy with p := false })) := by
  unfold cowPage at run
  split at run
  · cases run
  · rename_i old walk
    split at run
    · cases run
    · rename_i inUse
      have inUse : old.p ∨ old.pg := by
        by_contra neither
        exact inUse (by simpa using neither)
      obtain ⟨⟨found, k₂⟩, mapped, run⟩ := Res.bind_ok.mp run
      change (k.setPte d i old.shared).mappages cfg c i PGSIZE old.shared.frame old.shared = _ at mapped
      cases found with
      | false =>
        cases run
        exact ⟨old, _, walk, inUse, mapped, fun _ => rfl, by simp⟩
      | true =>
        change (if old.shared.p then _ else _) = _ at run
        by_cases present : old.p
        · have shared : old.shared = { old with w := false, cow := true } := by
            simp [Pte.shared, present]
          simp only [shared, present, if_true] at run
          cases run
          exact ⟨old, k₂, walk, inUse, mapped, by simp, fun _ => Or.inl ⟨present, rfl⟩⟩
        · have shared : old.shared = old := by simp [Pte.shared, present]
          simp only [shared, present] at run
          simp only [Bool.false_eq_true, if_false] at run
          split at run
          · cases run
          · rename_i copy walk'
            cases run
            exact ⟨old, k₂, walk, inUse, mapped, by simp,
              fun _ => Or.inr ⟨by simpa using present, copy, walk', rfl⟩⟩

/-- The parent's entry changes its permissions only. -/
theorem cells_shared {old : Pte} (live : d ∈ L) (low : pageOf i < USERPAGES)
    (walk : walkpgdir (k.dirs d) i = some old) :
    cells (k.setPte d i old.shared).dirs L X = cells k.dirs L X := by
  rw [setPte_dirs, cells_setPte k.dirs L X live low walk, mapped_shared, update_eq_self_iff]
  simp [cells, live, low, walkpgdir_eq_some walk]

theorem cowPage_true (owns : Owns cfg k.kmem reserved (cells k.dirs L X))
    (parent : d ∈ L) (child : c ∈ L) (apart : c ≠ d) (few : L.card ≤ NPROC + 1)
    (aligned : i % PGSIZE = 0) (low : i < KERNBASE)
    (run : k.cowPage cfg d c i = .ok (true, k')) :
    CowShared d c (· = pageOf i) k k' ∧ Owns cfg k'.kmem reserved (cells k'.dirs L X) := by
  obtain ⟨old, k₂, walk, inUse, mapped, _, outcome⟩ := cowPage_cases run
  have entry := walkpgdir_eq_some walk
  have isLow := pageOf_low low
  have owns₁ : Owns cfg (k.setPte d i old.shared).kmem reserved
      (cells (k.setPte d i old.shared).dirs L X) := by
    rw [cells_shared parent isLow walk]
    exact owns
  obtain ⟨k₁, walked, _, stored⟩ := mapPage_cases aligned (by unfold KERNBASE at low; omega) mapped
  obtain ⟨vacant, walk', absent, rfl⟩ := stored rfl
  obtain ⟨km, dir, made, owns₂, entries, _, _, refs⟩ := walkpgdirAlloc_owns owns₁ child walked
  have dirs₁ : ∀ e, e ≠ c → k₁.dirs e = (k.setPte d i old.shared).dirs e := by
    intro e other
    rw [made]
    exact update_of_ne other ..
  have childEntries : ∀ page, pteAt (k₁.dirs c) page = pteAt (k.dirs c) page := by
    intro page
    rw [made]
    simp only [update_self]
    rw [entries page, setPte_dirs_other _ _ _ apart]
  -- Both outcomes leave the shared entry in the child.
  have result : ∀ k' : Kernel, (∃ km dirs, k' = { k with kmem := km, dirs := dirs }) →
      (∀ e, e ≠ c → k'.dirs e = k₁.dirs e) →
      (∀ page, pteAt (k'.dirs c) page =
        if page = pageOf i then old.shared else pteAt (k.dirs c) page) →
      (∀ f, k.kmem.ref f ≠ 0 → k'.kmem.ref f ≠ 0) → CowShared d c (· = pageOf i) k k' := by
    intro k' rest dirs shared used
    refine ⟨rest, ?_, ?_, ?_, ?_, ?_, used⟩
    · intro e notD notC
      rw [dirs e notC, dirs₁ e notC, setPte_dirs_other _ _ _ notD]
    · rintro page rfl
      rw [dirs d apart.symm, dirs₁ d apart.symm, setPte_dirs_self, pteAt_setPte walk, if_pos rfl,
        entry]
    · rintro page rfl
      rw [shared, if_pos rfl, entry]
    · rintro page rfl
      rw [entry]
      exact inUse
    · intro page other
      rw [dirs d apart.symm, dirs₁ d apart.symm, setPte_dirs_self, pteAt_setPte walk,
        if_neg other, shared, if_neg other]
      exact ⟨rfl, rfl⟩
  have kmem₁ : k₁.kmem = km := by rw [made]
  rw [← kmem₁] at owns₂ refs
  have vacantCell : cells k₁.dirs L X (.user c (pageOf i)) = none := by
    simp [cells, walkpgdir_eq_some walk', Pte.mapped, absent]
  rcases outcome rfl with ⟨present, rfl⟩ | ⟨notPresent, copy, walk'', rfl⟩
  · have sharedEntry : ({ old.shared with p := true, frame := old.shared.frame } : Pte) =
        old.shared := by
      simp [Pte.shared, present]
    have frame : old.shared.frame = old.frame := by simp [Pte.shared, present]
    have held : cells k₁.dirs L X (.user d (pageOf i)) = some old.frame := by
      rw [cells_user, dirs₁ d apart.symm, setPte_dirs_self, pteAt_setPte walk, if_pos rfl]
      exact ⟨parent, isLow, by simp [Pte.shared, present], frame⟩
    have bound : k₁.kmem.ref old.frame < 2 ^ 31 - 1 := by
      have := ref_le_card owns₂ held
      unfold USERPAGES KERNBASE PGSIZE NPROC at *
      omega
    have owns₃ := owns₂.incRef held (fun h => h) vacantCell (fun h => h) bound
    refine ⟨result _ ?_ ?_ ?_ ?_, ?_⟩
    · rw [made]
      exact ⟨_, _, rfl⟩
    · intro e other
      exact setPte_dirs_other _ _ _ other
    · intro page
      change pteAt ((k₁.setPte c i _).dirs c) page = _
      rw [setPte_dirs_self, pteAt_setPte walk', sharedEntry, childEntries]
    · intro f used
      change (k₁.kmem.incRef old.frame).ref f ≠ 0
      obtain ⟨given, free, ok⟩ := owns₂.kmem
      rw [(ok.incRef (owns₂.balanced.ref_pos held) bound).2 f]
      have kept := refs f used
      have nonneg := ok.nonneg old.frame
      split
      · omega
      · rw [kept]
        exact used
    · change Owns cfg (k₁.kmem.incRef old.frame) reserved (cells (k₁.setPte c i _).dirs L X)
      rw [setPte_dirs, cells_setPte k₁.dirs L X child isLow walk', sharedEntry, mapped_shared]
      simpa [Pte.mapped, present] using owns₃
  · have shared : old.shared = old := by simp [Pte.shared, notPresent]
    rw [setPte_dirs_self, walkpgdir_setPte walk'] at walk''
    cases walk''
    have copyEntry : ({ old.shared with p := false, frame := old.shared.frame } : Pte) = old := by
      rw [shared]
      cases old
      simp_all
    have walk₂ : walkpgdir ((k₁.setPte c i
        { old.shared with p := true, frame := old.shared.frame }).dirs c) i =
        some { old.shared with p := true, frame := old.shared.frame } := by
      rw [setPte_dirs_self]
      exact walkpgdir_setPte walk'
    refine ⟨result _ ?_ ?_ ?_ ?_, ?_⟩
    · rw [made]
      exact ⟨_, _, rfl⟩
    · intro e other
      rw [setPte_dirs_other _ _ _ other, setPte_dirs_other _ _ _ other]
    · intro page
      rw [setPte_dirs_self, pteAt_setPte walk₂, setPte_dirs_self, pteAt_setPte walk', childEntries]
      split
      · rw [shared] at copyEntry ⊢
        exact copyEntry
      · rfl
    · intro f used
      rw [setPte_kmem, setPte_kmem, refs f used]
      exact used
    · rw [setPte_kmem, setPte_kmem, setPte_dirs, cells_setPte _ L X child isLow walk₂,
        setPte_dirs, cells_setPte k₁.dirs L X child isLow walk', update_idem]
      exact owns₂.update_same (by rw [vacantCell]; rfl)

/-- A loop of `cowuvm` that ran out of memory: the child is left with some shared
entries, the parent with some entries turned copy-on-write. -/
structure CowPartly (d c : Nat) (k k' : Kernel) : Prop where
  rest : ∃ km dirs, k' = { k with kmem := km, dirs := dirs }
  dirs : ∀ e, e ≠ d → e ≠ c → k'.dirs e = k.dirs e
  parent : ∀ page, pteAt (k'.dirs d) page = pteAt (k.dirs d) page ∨
    pteAt (k'.dirs d) page = (pteAt (k.dirs d) page).shared
  child : ∀ page, pteAt (k'.dirs c) page = pteAt (k.dirs c) page ∨
    pteAt (k'.dirs c) page = (pteAt (k.dirs d) page).shared

theorem cowPage_false (owns : Owns cfg k.kmem reserved (cells k.dirs L X))
    (parent : d ∈ L) (child : c ∈ L) (apart : c ≠ d) (aligned : i % PGSIZE = 0)
    (low : i < KERNBASE) (run : k.cowPage cfg d c i = .ok (false, k')) :
    CowPartly d c k k' ∧ Owns cfg k'.kmem reserved (cells k'.dirs L X) ∧
      cfg.excluded .outOfMemory = false := by
  obtain ⟨old, k₂, walk, inUse, mapped, same, _⟩ := cowPage_cases run
  obtain rfl := same rfl
  have entry := walkpgdir_eq_some walk
  have isLow := pageOf_low low
  have owns₁ : Owns cfg (k.setPte d i old.shared).kmem reserved
      (cells (k.setPte d i old.shared).dirs L X) := by
    rw [cells_shared parent isLow walk]
    exact owns
  obtain ⟨k₁, walked, same, _⟩ := mapPage_cases aligned (by unfold KERNBASE at low; omega) mapped
  obtain rfl := same rfl
  obtain ⟨km, dir, rfl, owns₂, entries, _, failed, _⟩ := walkpgdirAlloc_owns owns₁ child walked
  refine ⟨⟨⟨_, _, rfl⟩, ?_, ?_, ?_⟩, owns₂, failed rfl⟩
  · intro e notD notC
    exact (update_of_ne notC ..).trans (setPte_dirs_other _ _ _ notD)
  · intro page
    simp only [update_of_ne apart.symm, setPte_dirs_self]
    rw [pteAt_setPte walk]
    split
    · rename_i here
      right
      rw [here, entry]
    · exact Or.inl rfl
  · intro page
    left
    simp only [update_self]
    rw [entries page, setPte_dirs_other _ _ _ apart]

theorem shared_shared (pte : Pte) : pte.shared.shared = pte.shared := by
  unfold Pte.shared
  split <;> simp_all

theorem CowShared.partly {k₁ : Kernel} (first : CowShared d c range k k₁)
    (second : CowPartly d c k₁ k') : CowPartly d c k k' where
  rest := by
    obtain ⟨_, _, rfl⟩ := first.rest
    obtain ⟨km, dirs, rfl⟩ := second.rest
    exact ⟨km, dirs, rfl⟩
  dirs e notD notC := (second.dirs e notD notC).trans (first.dirs e notD notC)
  parent page := by
    by_cases hit : range page
    · have := second.parent page
      rw [first.parent page hit, shared_shared, or_self] at this
      exact Or.inr this
    · have := second.parent page
      rwa [(first.outside page hit).1] at this
  child page := by
    by_cases hit : range page
    · have := second.child page
      rw [first.child page hit, first.parent page hit, shared_shared, or_self] at this
      exact Or.inr this
    · have := second.child page
      rwa [(first.outside page hit).1, (first.outside page hit).2] at this

theorem cowLoop_owns (n : Nat)
    (owns : Owns cfg k.kmem reserved (cells k.dirs L X)) (parent : d ∈ L) (child : c ∈ L)
    (apart : c ≠ d) (few : L.card ≤ NPROC + 1) (aligned : i % PGSIZE = 0)
    (low : i + n * PGSIZE ≤ KERNBASE) (run : cowLoop cfg d c n k i = .ok (b, k')) :
    Owns cfg k'.kmem reserved (cells k'.dirs L X) ∧ (b = true → CowShared d c
        (fun page => i ≤ page * PGSIZE ∧ page * PGSIZE < i + n * PGSIZE) k k') ∧
      (b = false → CowPartly d c k k' ∧ cfg.excluded .outOfMemory = false) := by
  induction n generalizing k i with
  | zero =>
    cases run
    exact ⟨owns, fun _ => .refl d c _ (fun page hit => by omega), by simp⟩
  | succ n ih =>
    simp only [cowLoop, Res.bind_ok] at run
    obtain ⟨⟨shared, k₁⟩, first, run⟩ := run
    have isLow : i < KERNBASE := by
      unfold PGSIZE at low
      omega
    cases shared with
    | false =>
      cases run
      obtain ⟨partly, owns', failed⟩ := cowPage_false owns parent child apart aligned isLow first
      exact ⟨owns', by simp, fun _ => ⟨partly, failed⟩⟩
    | true =>
      obtain ⟨one, owns₁⟩ := cowPage_true owns parent child apart few aligned isLow first
      have here : ∀ page, page = pageOf i ↔ page * PGSIZE = i := by
        intro page
        unfold pageOf KERNBASE PGSIZE at *
        omega
      obtain ⟨owns', done, failed⟩ := ih owns₁ (by unfold PGSIZE at *; omega)
        (by unfold PGSIZE at *; omega) run
      refine ⟨owns', fun h => one.trans (done h) ?_ ?_, fun h => ?_⟩
      · intro page
        rw [here page]
        unfold PGSIZE at *
        omega
      · intro page hit
        rw [here page] at hit
        unfold PGSIZE at *
        omega
      · obtain ⟨partly, notExcluded⟩ := failed h
        exact ⟨one.partly partly, notExcluded⟩

/-- The child directory `c` shares the first `n` pages of `d` and has no others. -/
structure CowForked (d c n : Nat) (L X : Finset Nat) (k k' : Kernel) : Prop where
  fresh : c ∉ L ∧ c ∉ X
  rest : ∃ km dirs, k' = { k with kmem := km, dirs := dirs }
  dirs : ∀ e, e ≠ d → e ≠ c → k'.dirs e = k.dirs e
  parent : ∀ page, page < n → pteAt (k'.dirs d) page = (pteAt (k.dirs d) page).shared
  child : ∀ page, page < n → pteAt (k'.dirs c) page = (pteAt (k.dirs d) page).shared
  inUse : ∀ page, page < n → (pteAt (k.dirs d) page).p ∨ (pteAt (k.dirs d) page).pg
  parentRest : ∀ page, n ≤ page → pteAt (k'.dirs d) page = pteAt (k.dirs d) page
  childRest : ∀ page, n ≤ page → page < USERPAGES → pteAt (k'.dirs c) page = .zero
  childKernel : Supervisor (k'.dirs c)
  refs : ∀ f, k.kmem.ref f ≠ 0 → k'.kmem.ref f ≠ 0

variable {sz : Nat}

theorem cowuvm_some (ok : cfg.Ok) (owns : Owns cfg k.kmem reserved (cells k.dirs L X))
    (parent : d ∈ L) (few : L.card ≤ NPROC) (low : sz ≤ KERNBASE)
    (run : k.cowuvm cfg me d sz = .ok (some c, k')) :
    CowForked d c ((sz + PGSIZE - 1) / PGSIZE) L X k k' ∧
      Owns cfg k'.kmem reserved (cells k'.dirs (insert c L) X) := by
  simp only [cowuvm, Res.bind_ok] at run
  obtain ⟨⟨dir, k₁⟩, setup, run⟩ := run
  cases dir with
  | none => cases run
  | some e =>
    simp only [Res.bind_ok] at run
    obtain ⟨⟨b, k₂⟩, loop, run⟩ := run
    cases b with
    | false =>
      simp only [Res.bind_ok] at run
      obtain ⟨_, _, done⟩ := run
      cases done
    | true =>
      cases run
      obtain ⟨new, owns₁⟩ := setupkvm_some ok owns setup
      have apart : c ≠ d := (ne_of_mem_of_not_mem parent new.fresh.1).symm
      obtain ⟨owns', shared, _⟩ := cowLoop_owns _ owns₁ (mem_insert_of_mem parent)
        (mem_insert_self c L) apart
        (by rw [card_insert_of_notMem new.fresh.1]; omega) (Nat.zero_mod _)
        (by unfold KERNBASE PGSIZE at *; omega) loop
      have shared := shared rfl
      have range : ∀ page, (0 ≤ page * PGSIZE ∧
          page * PGSIZE < 0 + (sz + PGSIZE - 1) / PGSIZE * PGSIZE) ↔
          page < (sz + PGSIZE - 1) / PGSIZE := by
        intro page
        unfold PGSIZE
        omega
      refine ⟨⟨new.fresh, ?_, ?_, ?_, ?_, ?_, ?_, ?_, ?_, ?_⟩, owns'⟩
      · obtain ⟨_, _, rfl⟩ := new.rest
        obtain ⟨km, dirs, rfl⟩ := shared.rest
        exact ⟨km, dirs, rfl⟩
      · intro e notD notC
        rw [shared.dirs e notD notC, new.dirs e notC]
      · intro page hit
        rw [shared.parent page ((range page).mpr hit), new.dirs d apart.symm]
      · intro page hit
        rw [shared.child page ((range page).mpr hit), new.dirs d apart.symm]
      · intro page hit
        rw [← new.dirs d apart.symm]
        exact shared.inUse page ((range page).mpr hit)
      · intro page miss
        rw [(shared.outside page (fun h => absurd ((range page).mp h) (by omega))).1,
          new.dirs d apart.symm]
      · intro page miss isLow
        rw [(shared.outside page (fun h => absurd ((range page).mp h) (by omega))).2,
          new.user page isLow]
      · intro page high
        rw [(shared.outside page (fun h => absurd ((range page).mp h)
          (by unfold USERPAGES KERNBASE PGSIZE at *; omega))).2]
        exact new.kernel page high
      · intro f used
        exact shared.refs f (by rw [new.refs f used]; exact used)

theorem cowuvm_none (ok : cfg.Ok) (owns : Owns cfg k.kmem reserved (cells k.dirs L X))
    (parent : d ∈ L) (few : L.card ≤ NPROC) (low : sz ≤ KERNBASE)
    (plain : cfg.excluded .outOfMemory = false → NoneSwapped k d (· < USERPAGES))
    (run : k.cowuvm cfg me d sz = .ok (none, k')) :
    Owns cfg k'.kmem reserved (cells k'.dirs L X) ∧ (∀ e ∈ L, e ≠ d → k'.dirs e = k.dirs e) ∧
      (∀ page, pteAt (k'.dirs d) page = pteAt (k.dirs d) page ∨
        pteAt (k'.dirs d) page = (pteAt (k.dirs d) page).shared) ∧
      Frame me k k' ∧ cfg.excluded .outOfMemory = false := by
  simp only [cowuvm, Res.bind_ok] at run
  obtain ⟨⟨dir, k₁⟩, setup, run⟩ := run
  cases dir with
  | none =>
    cases run
    obtain ⟨owns', dirs, frame, failed⟩ := setupkvm_none ok owns setup
    exact ⟨owns', fun e live _ => dirs e live,
      fun page => Or.inl (by rw [dirs d parent]), frame, failed⟩
  | some c =>
    simp only [Res.bind_ok] at run
    obtain ⟨⟨b, k₂⟩, loop, run⟩ := run
    obtain ⟨new, owns₁⟩ := setupkvm_some ok owns setup
    have apart : c ≠ d := (ne_of_mem_of_not_mem parent new.fresh.1).symm
    obtain ⟨owns₂, _, failed⟩ := cowLoop_owns _ owns₁ (mem_insert_of_mem parent)
      (mem_insert_self c L) apart
      (by rw [card_insert_of_notMem new.fresh.1]; omega) (Nat.zero_mod _)
      (by unfold KERNBASE PGSIZE at *; omega) loop
    cases b with
    | true => cases run
    | false =>
      simp only [Res.bind_ok] at run
      obtain ⟨k₃, freed, done⟩ := run
      cases done
      obtain ⟨partly, notExcluded⟩ := failed rfl
      have stale : StaleFree k₂ c (· < USERPAGES) := by
        apply NoneSwapped.staleFree
        intro page isLow
        rcases partly.child page with same | same
        · rw [same, new.user page isLow]
          exact fun h => h
        · rw [same, new.dirs d apart.symm]
          have := plain notExcluded page isLow
          unfold Pte.shared
          split
          · exact fun _ => by assumption
          · exact this
      obtain ⟨owns', dirs, _, frame⟩ := freevm_owns owns₂ (mem_insert_self c L) stale freed
      rw [erase_insert new.fresh.1] at owns'
      refine ⟨owns', ?_, ?_, ?_, notExcluded⟩
      · intro e live other
        have notC : e ≠ c := ne_of_mem_of_not_mem live new.fresh.1
        rw [dirs e notC, partly.dirs e other notC, new.dirs e notC]
      · intro page
        rw [dirs d apart.symm, ← new.dirs d apart.symm]
        exact partly.parent page
      · obtain ⟨_, _, rfl⟩ := new.rest
        obtain ⟨_, _, rfl⟩ := partly.rest
        exact ⟨frame.others, frame.mine, frame.nextpid, frame.initproc⟩

end Sharing

end Kernel

end Xv6
