import Xv6.Library.Outcome
import Xv6.Memory.Accounts
import Xv6.Memory.Vm

/-!
What the page table operations do to the owners of frames.

Each lemma takes a successful call from a state whose counts balance and says how
the directory changed, that the counts balance again, and what is untouched. Calls
that only add references satisfy `Grows`, calls that only drop them `Shrinks`. The
entries of swapped-out pages still name a frame; tearing them down is harmless as
long as nobody refers to that frame, which is a hypothesis where it matters.
-/

namespace Xv6

open Function Ledger Outcome

/-- Fields of a process that its own paging activity leaves alone. -/
structure Proc.Same (p p' : Proc) : Prop where
  sz : p'.sz = p.sz
  pgdir : p'.pgdir = p.pgdir
  kstack : p'.kstack = p.kstack
  state : p'.state = p.state
  pid : p'.pid = p.pid
  parent : p'.parent = p.parent
  killed : p'.killed = p.killed

namespace Kernel

/-- Only the current process changes, and not its identity. -/
structure Frame (me : ProcNo) (k k' : Kernel) : Prop where
  others : ∀ s, s ≠ me → k'.proc s = k.proc s
  mine : (k.proc me).Same (k'.proc me)
  nextpid : k'.nextpid = k.nextpid
  initproc : k'.initproc = k.initproc

variable {me : ProcNo} {k k' k'' : Kernel}

theorem Frame.of_proc (proc : k'.proc = k.proc) (nextpid : k'.nextpid = k.nextpid)
    (initproc : k'.initproc = k.initproc) : Frame me k k' where
  others s _ := by rw [proc]
  mine := by
    rw [proc]
    exact ⟨rfl, rfl, rfl, rfl, rfl, rfl, rfl⟩
  nextpid := nextpid
  initproc := initproc

theorem Frame.refl (me : ProcNo) (k : Kernel) : Frame me k k := .of_proc rfl rfl rfl

theorem Frame.trans (first : Frame me k k') (second : Frame me k' k'') : Frame me k k'' where
  others s other := (second.others s other).trans (first.others s other)
  mine := ⟨second.mine.sz.trans first.mine.sz, second.mine.pgdir.trans first.mine.pgdir,
    second.mine.kstack.trans first.mine.kstack, second.mine.state.trans first.mine.state,
    second.mine.pid.trans first.mine.pid, second.mine.parent.trans first.mine.parent,
    second.mine.killed.trans first.mine.killed⟩
  nextpid := second.nextpid.trans first.nextpid
  initproc := second.initproc.trans first.initproc

/-- No frame in use is dropped or overwritten. -/
def Grows (k k' : Kernel) : Prop :=
  ∀ f, k.kmem.ref f ≠ 0 → k'.kmem.ref f ≠ 0 ∧ k'.mem f = k.mem f

/-- No frame is taken, and those still in use keep their contents. -/
def Shrinks (k k' : Kernel) : Prop :=
  ∀ f, k'.kmem.ref f ≠ 0 → k.kmem.ref f ≠ 0 ∧ k'.mem f = k.mem f

theorem Shrinks.refl (k : Kernel) : Shrinks k k := fun _ h => ⟨h, rfl⟩

theorem Shrinks.trans (first : Shrinks k k') (second : Shrinks k' k'') :
    Shrinks k k'' := by
  intro f used
  obtain ⟨used', same'⟩ := second f used
  obtain ⟨used'', same⟩ := first f used'
  exact ⟨used'', same'.trans same⟩

theorem Shrinks.ref_zero (h : Shrinks k k') {f : Nat} (zero : k.kmem.ref f = 0) :
    k'.kmem.ref f = 0 := by
  by_contra used
  exact (h f used).1 zero

section Primitives

variable {cfg : Config} {k k' : Kernel} {reserved : Set Nat} {L X : Finset Nat} {f va : Nat}
  {t : Cell → Option Nat}

theorem kalloc_some (run : k.kalloc cfg = .ok (some f, k')) :
    ∃ km, k.kmem.pop = some (f, km) ∧ k' = { k with kmem := km } := by
  unfold kalloc at run
  split at run
  · simp only [Res.bind_ok] at run
    obtain ⟨_, _, done⟩ := run
    cases done
  · rename_i r km popped
    cases run
    exact ⟨km, popped, rfl⟩

theorem kalloc_none (run : k.kalloc cfg = .ok (none, k')) :
    k' = k ∧ k.kmem.pop = none ∧ cfg.excluded .outOfMemory = false := by
  unfold kalloc at run
  split at run
  · rename_i empty
    simp only [Res.bind_ok] at run
    obtain ⟨_, met, done⟩ := run
    cases done
    exact ⟨rfl, empty, Config.meet_ok.mp met⟩
  · cases run

theorem kfree_ok (run : k.kfree cfg f = .ok k') :
    ∃ km, k.kmem.freeFrame cfg f = .ok km ∧
      k' = { k with kmem := km, mem := update k.mem f .junk } := by
  simp only [kfree, Res.bind_ok] at run
  obtain ⟨km, freed, done⟩ := run
  cases done
  exact ⟨km, freed, rfl⟩

/-- A held frame is freed. -/
theorem kfree_owns {c : Cell} (owns : Owns cfg k.kmem reserved t) (held : t c = some f)
    (run : k.kfree cfg f = .ok k') :
    ∃ km mem, k' = { k with kmem := km, mem := mem } ∧
      Owns cfg km reserved (update t c none) ∧ Shrinks k k' := by
  obtain ⟨km, freed, rfl⟩ := kfree_ok run
  obtain ⟨last, refs, owns'⟩ := owns.freeFrame held freed
  refine ⟨km, _, rfl, owns', ?_⟩
  intro g used
  change km.ref g ≠ 0 at used
  rw [refs g] at used
  by_cases same : g = f
  · simp [same] at used
  · rw [if_neg same] at used
    exact ⟨used, by simp [same]⟩

/-- A holder of the frame lets go of it. -/
theorem dropFrame_owns {c : Cell} (owns : Owns cfg k.kmem reserved t) (held : t c = some f)
    (run : k.dropFrame cfg f = .ok k') :
    ∃ km mem, k' = { k with kmem := km, mem := mem } ∧
      Owns cfg km reserved (update t c none) ∧ Shrinks k k' := by
  have pos := owns.balanced.ref_pos held
  unfold dropFrame at run
  by_cases last : k.kmem.ref f = 1
  · have same : (k.kmem.decRef f).2 = k.kmem := by simp [Kmem.decRef, last]
    simp only [same] at run
    rw [if_pos (show (k.kmem.decRef f).1 = 1 from last)] at run
    exact kfree_owns owns held run
  · rw [if_neg (show ¬ (k.kmem.decRef f).1 = 1 from last)] at run
    cases run
    refine ⟨_, k.mem, rfl, owns.decRef held (by omega), ?_⟩
    intro g used
    obtain ⟨given, free, ok⟩ := owns.kmem
    have refs := (ok.decRef f).2 g
    refine ⟨?_, rfl⟩
    change (k.kmem.decRef f).2.ref g ≠ 0 at used
    rw [refs] at used
    split at used
    · rename_i here
      rw [here.1]
      omega
    · exact used

/-- Nothing happens to a frame nobody refers to. -/
theorem dropFrame_unused (zero : k.kmem.ref f = 0) : k.dropFrame cfg f = .ok k := by
  simp [dropFrame, Kmem.decRef, zero]

theorem walkpgdirAlloc_owns {d : Nat} {b : Bool}
    (owns : Owns cfg k.kmem reserved (cells k.dirs L X)) (live : d ∈ L)
    (run : k.walkpgdirAlloc cfg d va = .ok (b, k')) :
    ∃ km dir, k' = { k with kmem := km, dirs := update k.dirs d dir } ∧
      Owns cfg km reserved (cells k'.dirs L X) ∧
      (∀ page, pteAt dir page = pteAt (k.dirs d) page) ∧
      (b = true → ∃ pte, walkpgdir dir va = some pte) ∧
      (b = false → cfg.excluded .outOfMemory = false) ∧
      (∀ f, k.kmem.ref f ≠ 0 → km.ref f = k.kmem.ref f) := by
  unfold walkpgdirAlloc at run
  split at run
  · rename_i table present
    cases run
    refine ⟨k.kmem, k.dirs d, ?_, owns, fun _ => rfl, fun _ => ⟨table.pte (PTX va), ?_⟩,
      by simp, fun _ _ => rfl⟩
    · rw [update_eq_self]
    · simp [walkpgdir, present]
  · rename_i absent
    simp only [Res.bind_ok] at run
    obtain ⟨⟨page, k₁⟩, allocated, run⟩ := run
    cases page with
    | none =>
      obtain ⟨same, _, notExcluded⟩ := kalloc_none allocated
      rw [same] at run
      cases run
      refine ⟨k.kmem, k.dirs d, ?_, owns, fun _ => rfl, by simp, fun _ => notExcluded,
        fun _ _ => rfl⟩
      rw [update_eq_self]
    | some f =>
      obtain ⟨km, popped, rfl⟩ := kalloc_some allocated
      cases run
      obtain ⟨zero, refs, acquire⟩ := owns.pop popped
      refine ⟨km, addTable (k.dirs d) va f, rfl, ?_, pteAt_addTable absent f,
        fun _ => ⟨.zero, walkpgdir_addTable _ _ _⟩, by simp, ?_⟩
      · change Owns cfg km reserved (cells (update k.dirs d (addTable (k.dirs d) va f)) L X)
        rw [cells_addTable k.dirs L X live absent]
        apply acquire
        simp [cells, tableAt, absent]
      · intro g used
        rw [refs g, if_neg]
        rintro rfl
        exact used zero

theorem PGROUNDDOWN_aligned (aligned : va % PGSIZE = 0) :
    PGROUNDDOWN va = va := by
  unfold PGROUNDDOWN PGSIZE at *
  omega

/-- The last page of a one-page range is the first. -/
theorem PGROUNDDOWN_last (aligned : va % PGSIZE = 0) (word : va < 2 ^ 32) :
    PGROUNDDOWN ((va + PGSIZE + 2 ^ 32 - 1) % 2 ^ 32) = va := by
  unfold PGROUNDDOWN PGSIZE at *
  omega

/-- Mapping one page: make the page table, then store the entry. -/
theorem mapPage_cases {d : Nat} {perm : Pte} {b : Bool} (aligned : va % PGSIZE = 0)
    (word : va < 2 ^ 32) (run : k.mappages cfg d va PGSIZE f perm = .ok (b, k')) :
    ∃ k₁, k.walkpgdirAlloc cfg d va = .ok (b, k₁) ∧ (b = false → k' = k₁) ∧
      (b = true → ∃ pte, walkpgdir (k₁.dirs d) va = some pte ∧ pte.p = false ∧
        k' = k₁.setPte d va { perm with p := true, frame := f }) := by
  unfold mappages at run
  simp only [PGROUNDDOWN_aligned aligned, PGROUNDDOWN_last aligned word] at run
  rw [Nat.add_sub_cancel_left, Nat.mod_self, Nat.zero_div] at run
  simp only [mappagesLoop, Res.bind_ok] at run
  obtain ⟨⟨found, k₁⟩, walked, run⟩ := run
  cases found with
  | false =>
    cases run
    exact ⟨_, walked, fun _ => rfl, by simp⟩
  | true =>
    simp only at run
    split at run
    · cases run
    · rename_i pte walk
      split at run
      · cases run
      · rename_i vacant
        cases run
        exact ⟨k₁, walked, by simp, fun _ => ⟨pte, walk, by simpa using vacant, rfl⟩⟩

end Primitives

theorem Frame.setPaging (me : ProcNo) (k : Kernel) (m : Paging) :
    Frame me k (k.setPaging me m) where
  others s other := setPaging_other _ _ other
  mine := by
    rw [setPaging_self]
    exact ⟨rfl, rfl, rfl, rfl, rfl, rfl, rfl⟩
  nextpid := rfl
  initproc := rfl

theorem releaseMeta_cases (k : Kernel) (me : ProcNo) (d a : Nat) :
    (k.releaseMeta me d a).kmem = k.kmem ∧ (k.releaseMeta me d a).mem = k.mem ∧
      (k.releaseMeta me d a).dirs = k.dirs ∧ Frame me k (k.releaseMeta me d a) := by
  unfold releaseMeta
  split
  · exact ⟨rfl, rfl, rfl, Frame.setPaging me k _⟩
  · exact ⟨rfl, rfl, rfl, .refl me k⟩

end Kernel

/-- What `deallocuvm` leaves of an entry. -/
def Pte.cleared (pte : Pte) : Pte := if pte.p ∨ pte.pg then .zero else pte

namespace Kernel

/-- The effect on the directory `d` of tearing down the pages in `range`. -/
structure Torn (me : ProcNo) (d : Nat) (range : Nat → Prop) (k k' : Kernel) : Prop where
  dirs : ∀ e, e ≠ d → k'.dirs e = k.dirs e
  inside : ∀ page, range page → pteAt (k'.dirs d) page = (pteAt (k.dirs d) page).cleared
  outside : ∀ page, ¬ range page → pteAt (k'.dirs d) page = pteAt (k.dirs d) page
  tables : ∀ j, tableAt (k'.dirs d) j = tableAt (k.dirs d) j
  shrinks : Shrinks k k'
  frame : Frame me k k'

/-- Entries of swapped-out pages name frames without references. -/
def StaleFree (k : Kernel) (d : Nat) (range : Nat → Prop) : Prop :=
  ∀ page, range page → (pteAt (k.dirs d) page).p = false → (pteAt (k.dirs d) page).pg = true →
    k.kmem.ref (pteAt (k.dirs d) page).frame = 0

section Teardown

variable {cfg : Config} {k k' : Kernel} {reserved : Set Nat} {L X : Finset Nat} {me : ProcNo}
  {d : Nat} {a oldsz newsz : Nat} {range range' : Nat → Prop}

theorem deallocPage_torn {pte : Pte} (owns : Owns cfg k.kmem reserved (cells k.dirs L X))
    (live : d ∈ L) (low : pageOf a < USERPAGES) (walk : walkpgdir (k.dirs d) a = some pte)
    (stale : pte.p = false → pte.pg = true → k.kmem.ref pte.frame = 0)
    (run : k.deallocPage cfg me d a pte = .ok k') :
    Torn me d (· = pageOf a) k k' ∧ Owns cfg k'.kmem reserved (cells k'.dirs L X) := by
  have entry := walkpgdir_eq_some walk
  unfold deallocPage at run
  split at run
  case isFalse neither =>
    cases run
    refine ⟨⟨fun _ _ => rfl, ?_, fun _ _ => rfl, fun _ => rfl, .refl k, .refl me k⟩, owns⟩
    rintro page rfl
    rw [entry, Pte.cleared, if_neg neither]
  case isTrue either =>
    split at run
    · cases run
    · simp only [Res.bind_ok] at run
      obtain ⟨k₁, dropped, run⟩ := run
      -- Either the entry held the frame, or nobody does.
      have released : ∃ km mem, k₁ = { k with kmem := km, mem := mem } ∧
          Owns cfg km reserved (update (cells k.dirs L X) (.user d (pageOf a)) none) ∧
          Shrinks k k₁ := by
        by_cases present : pte.p
        · apply dropFrame_owns owns _ dropped
          rw [cells_user, entry]
          exact ⟨live, low, present, rfl⟩
        · have absent : pte.p = false := by simpa using present
          have zero := stale absent (either.resolve_left present)
          cases (dropFrame_unused zero).symm.trans dropped
          refine ⟨k.kmem, k.mem, rfl, owns.update_same ?_, .refl k⟩
          simp [cells, entry, Pte.mapped, absent]
      obtain ⟨km, mem, rfl, owns₁, shrinks⟩ := released
      cases run
      obtain ⟨sameKmem, sameMem, sameDirs, frame⟩ :=
        releaseMeta_cases { k with kmem := km, mem := mem } me d a
      have dirs := setPte_dirs (releaseMeta { k with kmem := km, mem := mem } me d a) d a .zero
      rw [sameDirs] at dirs
      refine ⟨⟨?_, ?_, ?_, ?_, ?_, ?_⟩, ?_⟩
      · intro e other
        rw [dirs, update_of_ne other]
      · rintro page rfl
        rw [dirs, update_self, pteAt_setPte walk, if_pos rfl, entry, Pte.cleared, if_pos either]
      · intro page other
        rw [dirs, update_self, pteAt_setPte walk, if_neg other]
      · intro j
        rw [dirs, update_self, tableAt_setPte]
      · intro f used
        rw [setPte_kmem, sameKmem] at used
        rw [setPte_mem, sameMem]
        exact shrinks f used
      · exact ⟨frame.others, frame.mine, frame.nextpid, frame.initproc⟩
      · rw [dirs, setPte_kmem, sameKmem, cells_setPte k.dirs L X live low walk]
        exact owns₁

theorem Torn.stale (torn : Torn me d range k k') (stale : StaleFree k d range') :
    StaleFree k' d range' := by
  intro page inRange absent paged
  by_cases hit : range page
  · rw [torn.inside page hit, Pte.cleared] at paged
    split at paged
    · cases paged
    · rename_i neither
      simp [paged] at neither
  · rw [torn.outside page hit] at absent paged ⊢
    exact torn.shrinks.ref_zero (stale page inRange absent paged)

/-- Tearing down two ranges in turn. -/
theorem Torn.trans {k₁ : Kernel} {range'' : Nat → Prop} (first : Torn me d range k k₁)
    (second : Torn me d range' k₁ k') (both : ∀ page, range'' page ↔ range page ∨ range' page)
    (apart : ∀ page, range page → ¬ range' page) : Torn me d range'' k k' where
  dirs e other := (second.dirs e other).trans (first.dirs e other)
  inside page hit := by
    rcases (both page).mp hit with hit | hit
    · rw [second.outside page (apart page hit), first.inside page hit]
    · rw [second.inside page hit, first.outside page (fun h => apart page h hit)]
  outside page miss := by
    rw [second.outside page (fun h => miss ((both page).mpr (Or.inr h))),
      first.outside page (fun h => miss ((both page).mpr (Or.inl h)))]
  tables j := (second.tables j).trans (first.tables j)
  shrinks := first.shrinks.trans second.shrinks
  frame := first.frame.trans second.frame

/-- Tearing down pages with nothing to release. -/
theorem Torn.of_zero (zero : ∀ page, range page → pteAt (k.dirs d) page = .zero) :
    Torn me d range k k where
  dirs _ _ := rfl
  inside page hit := by
    rw [zero page hit]
    rfl
  outside _ _ := rfl
  tables _ := rfl
  shrinks := .refl k
  frame := .refl me k

/-- Where `deallocuvm` finds no page table, the pages up to the next one have zero
entries. -/
theorem skip_table {dir : PageDir} (low : oldsz ≤ KERNBASE) (inside : a < oldsz)
    (absent : walkpgdir dir a = none) :
    PGADDR (PDX a + 1) 0 0 = (a / 2 ^ 22 + 1) * 2 ^ 22 ∧
      ∀ page, a ≤ page * PGSIZE ∧ page * PGSIZE < (a / 2 ^ 22 + 1) * 2 ^ 22 →
        pteAt dir page = .zero := by
  constructor
  · unfold PGADDR PDX KERNBASE at *
    omega
  · intro page range
    have sameTable : page / 1024 = PDX a := by
      unfold PDX PGSIZE KERNBASE at *
      omega
    unfold walkpgdir at absent
    unfold pteAt
    rw [sameTable]
    cases table : dir (PDX a) with
    | none => rfl
    | some t => simp [table] at absent

/-- The loop of `deallocuvm`: `P` holds where it stands, and `R` relates the state there to the state
at the end. It skips what lies in an absent page table. -/
theorem deallocLoop_rule {E : Panic → Prop} {P : Nat → Kernel → Prop}
    {R : Nat → Kernel → Kernel → Prop} (low : oldsz ≤ KERNBASE)
    (past : ∀ {a k}, oldsz ≤ a → P a k → R a k k) (skip : ∀ {a b k}, a < oldsz → a < b →
      (∀ page, a ≤ page * PGSIZE ∧ page * PGSIZE < b → pteAt (k.dirs d) page = .zero) →
      P a k → P b k ∧ ∀ {k'}, R b k k' → R a k k')
    (page : ∀ {a k pte}, a < oldsz → (∀ page, page = pageOf a ↔ page * PGSIZE = a) →
      walkpgdir (k.dirs d) a = some pte → P a k →
      Sat E (fun k₁ => P (a + PGSIZE) k₁ ∧ ∀ {k'}, R (a + PGSIZE) k₁ k' → R a k k')
        (k.deallocPage cfg me d a pte)) (n : Nat) (aligned : a % PGSIZE = 0)
    (turns : oldsz ≤ a + n * PGSIZE ∨ E .noReturn) (pre : P a k) :
    Sat E (R a k) (deallocLoop cfg me d oldsz n k a) := by
  induction n generalizing k a with
  | zero =>
    unfold deallocLoop
    split
    · exact .error (turns.resolve_left (by omega))
    · exact .ok (past (by omega) pre)
  | succ n ih =>
    unfold deallocLoop
    rw [Nat.succ_mul] at turns
    unfold PGSIZE at aligned
    unfold KERNBASE at low
    split
    · rename_i inside
      split
      · rename_i absent
        obtain ⟨next, none_here⟩ := skip_table low inside absent
        rw [next]
        obtain ⟨pre', rest⟩ := skip inside (by omega) none_here pre
        refine (ih (by unfold PGSIZE; omega) (turns.imp_left fun h => ?_) pre').weaken fun _ => rest
        unfold PGSIZE at *
        omega
      · rename_i pte walk
        rw [show (a + PGSIZE) % 2 ^ 32 = a + PGSIZE by unfold PGSIZE; omega]
        refine (page inside (fun n => ?_) walk pre).bind fun k₁ ⟨pre', rest⟩ =>
          (ih ?_ (turns.imp_left fun h => by omega) pre').weaken fun _ => rest
        · unfold pageOf PGSIZE
          omega
        · unfold PGSIZE
          omega
    · exact .ok (past (by omega) pre)

theorem deallocLoop_torn (n : Nat) (owns : Owns cfg k.kmem reserved (cells k.dirs L X))
    (live : d ∈ L) (low : oldsz ≤ KERNBASE) (aligned : a % PGSIZE = 0)
    (stale : StaleFree k d (fun page => a ≤ page * PGSIZE ∧ page * PGSIZE < oldsz))
    (run : deallocLoop cfg me d oldsz n k a = .ok k') :
    Torn me d (fun page => a ≤ page * PGSIZE ∧ page * PGSIZE < oldsz) k k' ∧
      Owns cfg k'.kmem reserved (cells k'.dirs L X) := by
  refine (deallocLoop_rule (E := fun _ => True)
    (P := fun a k => Owns cfg k.kmem reserved (cells k.dirs L X) ∧
      StaleFree k d (fun page => a ≤ page * PGSIZE ∧ page * PGSIZE < oldsz))
    (R := fun a k k' => Torn me d (fun page => a ≤ page * PGSIZE ∧ page * PGSIZE < oldsz) k k' ∧
      Owns cfg k'.kmem reserved (cells k'.dirs L X)) low ?_ ?_ ?_ n aligned (.inr trivial)
    ⟨owns, stale⟩).of_ok run
  · exact fun past ⟨owns, _⟩ => ⟨.of_zero (fun page hit => by omega), owns⟩
  · intro a b k inside further none_here ⟨owns, stale⟩
    refine ⟨⟨owns, fun page hit => stale page (by omega)⟩, fun ⟨torn, owns'⟩ => ⟨?_, owns'⟩⟩
    have skipped : Torn me d (fun page => a ≤ page * PGSIZE ∧ page * PGSIZE < oldsz ∧
        page * PGSIZE < b) k k := .of_zero (fun page hit => none_here page (by omega))
    exact skipped.trans torn (fun page => by omega) fun page => by omega
  · intro a k pte inside here walk ⟨owns, stale⟩
    have entry := walkpgdir_eq_some walk
    have address := (here (pageOf a)).mp rfl
    refine (sat_true _).attach.weaken fun k₁ ⟨page, _⟩ => ?_
    obtain ⟨torn, owns₁⟩ := deallocPage_torn owns live
      (by unfold USERPAGES KERNBASE PGSIZE at *; omega) walk
      (entry ▸ stale (pageOf a) (by omega)) page
    unfold PGSIZE at *
    refine ⟨⟨owns₁, torn.stale (fun page hit => stale page (by omega))⟩,
      fun ⟨torn', owns'⟩ => ⟨torn.trans torn' (fun page => ?_) fun page hit => ?_, owns'⟩⟩
    · rw [here page]
      omega
    · rw [here page] at hit
      omega

theorem PGROUNDUP_aligned (sz : Nat) : PGROUNDUP sz % PGSIZE = 0 := by
  unfold PGROUNDUP
  exact Nat.mul_mod_left ..

theorem deallocuvm_cases {r : Nat} (run : k.deallocuvm cfg me d oldsz newsz = .ok (r, k')) :
    (oldsz ≤ newsz ∧ r = oldsz ∧ k' = k) ∨
      (newsz < oldsz ∧ r = newsz ∧
        deallocLoop cfg me d oldsz (oldsz / PGSIZE + 1) k (PGROUNDUP newsz) = .ok k') := by
  unfold deallocuvm at run
  split at run
  · cases run
    exact Or.inl ⟨by assumption, rfl, rfl⟩
  · simp only [Res.bind_ok] at run
    obtain ⟨k₁, loop, done⟩ := run
    cases done
    exact Or.inr ⟨by omega, rfl, loop⟩

/-- The pages `deallocuvm(pgdir, oldsz, newsz)` visits. -/
def InRange (newsz oldsz page : Nat) : Prop :=
  newsz < oldsz ∧ PGROUNDUP newsz ≤ page * PGSIZE ∧ page * PGSIZE < oldsz

theorem deallocuvm_torn {r : Nat} (owns : Owns cfg k.kmem reserved (cells k.dirs L X))
    (live : d ∈ L) (low : oldsz ≤ KERNBASE) (stale : StaleFree k d (InRange newsz oldsz))
    (run : k.deallocuvm cfg me d oldsz newsz = .ok (r, k')) :
    Torn me d (InRange newsz oldsz) k k' ∧ Owns cfg k'.kmem reserved (cells k'.dirs L X) := by
  rcases deallocuvm_cases run with ⟨order, _, rfl⟩ | ⟨order, _, loop⟩
  · exact ⟨.of_zero (fun page hit => absurd hit.1 (by omega)), owns⟩
  · have range : InRange newsz oldsz =
        fun page => PGROUNDUP newsz ≤ page * PGSIZE ∧ page * PGSIZE < oldsz := by
      funext page
      simp [InRange, order]
    rw [range] at stale ⊢
    exact deallocLoop_torn _ owns live low (PGROUNDUP_aligned newsz) stale loop

/-- A ledger without the page tables of `d` that `l` lists. -/
def dropTabs (t : Cell → Option Nat) (d : Nat) (l : List Nat) : Cell → Option Nat
  | .tab e j => if e = d ∧ j ∈ l then none else t (.tab e j)
  | c => t c

theorem dropTabs_cons (t : Cell → Option Nat) (d i : Nat) (l : List Nat) :
    dropTabs (update t (.tab d i) none) d l = dropTabs t d (i :: l) := by
  funext c
  cases c with
  | tab e j =>
    by_cases here : e = d ∧ j = i
    · simp [dropTabs, here]
    · have : Cell.tab e j ≠ Cell.tab d i := by simpa using here
      simp only [dropTabs, update_of_ne this, List.mem_cons]
      by_cases listed : e = d ∧ j ∈ l
      · simp [listed]
      · rw [if_neg listed, if_neg]
        rintro ⟨rfl, rfl | h⟩
        · exact here ⟨rfl, rfl⟩
        · exact listed ⟨rfl, h⟩
  | _ => simp [dropTabs]

theorem freeTables_owns (l : List Nat) {t : Cell → Option Nat} (nodup : l.Nodup)
    (owns : Owns cfg k.kmem reserved t)
    (listed : ∀ j ∈ l, t (.tab d j) = tableAt (k.dirs d) j)
    (run : l.foldlM (freeTables cfg d) k = .ok k') :
    ∃ km mem, k' = { k with kmem := km, mem := mem } ∧
      Owns cfg km reserved (dropTabs t d l) ∧ Shrinks k k' := by
  induction l generalizing k t with
  | nil =>
    cases run
    refine ⟨_, _, rfl, ?_, .refl _⟩
    have : dropTabs t d [] = t := by
      funext c
      cases c <;> simp [dropTabs]
    rw [this]
    exact owns
  | cons i l ih =>
    simp only [List.foldlM_cons, Res.bind_ok] at run
    obtain ⟨k₁, first, run⟩ := run
    obtain ⟨fresh, nodup⟩ := List.nodup_cons.mp nodup
    have dropped : ∃ km mem, k₁ = { k with kmem := km, mem := mem } ∧
        Owns cfg km reserved (update t (.tab d i) none) ∧ Shrinks k k₁ := by
      have here := listed i (List.mem_cons_self ..)
      unfold freeTables at first
      split at first
      · rename_i absent
        cases first
        exact ⟨k.kmem, k.mem, rfl, owns.update_same (here.trans absent), .refl k⟩
      · rename_i f present
        exact dropFrame_owns owns (here.trans present) first
    obtain ⟨km, mem, rfl, owns₁, shrinks⟩ := dropped
    obtain ⟨km', mem', rfl, owns', shrinks'⟩ := ih nodup owns₁ (by
      intro j hj
      have other : Cell.tab d j ≠ Cell.tab d i := by
        simpa using ne_of_mem_of_not_mem hj fresh
      rw [update_of_ne other]
      exact listed j (List.mem_cons_of_mem i hj)) run
    refine ⟨km', mem', rfl, ?_, shrinks.trans shrinks'⟩
    rw [← dropTabs_cons]
    exact owns'

/-- A directory and everything it holds is released. -/
theorem freevm_owns (owns : Owns cfg k.kmem reserved (cells k.dirs L X)) (live : d ∈ L)
    (stale : StaleFree k d (· < USERPAGES)) (run : k.freevm cfg me d = .ok k') :
    Owns cfg k'.kmem reserved (cells k'.dirs (L.erase d) X) ∧
      (∀ e, e ≠ d → k'.dirs e = k.dirs e) ∧ Shrinks k k' ∧ Frame me k k' := by
  unfold freevm at run
  split at run
  · cases run
  · simp only [Res.bind_ok] at run
    obtain ⟨⟨r, k₁⟩, dealloc, k₂, tables, run⟩ := run
    have all : ∀ page, InRange 0 KERNBASE page ↔ page < USERPAGES := by
      intro page
      unfold InRange PGROUNDUP USERPAGES KERNBASE PGSIZE
      omega
    obtain ⟨torn, owns₁⟩ := deallocuvm_torn owns live (Nat.le_refl _)
      (fun page hit => stale page ((all page).mp hit)) dealloc
    obtain ⟨km, mem, rfl, owns₂, shrinks₂⟩ := freeTables_owns (List.range NPDENTRIES)
      List.nodup_range owns₁ (by
        intro j hj
        simp [cells, live, List.mem_range.mp hj]) tables
    have held : dropTabs (cells k₁.dirs L X) d (List.range NPDENTRIES) (.dir d) = some d := by
      simp [dropTabs, cells, live]
    obtain ⟨km', mem', rfl, owns', shrinks'⟩ := kfree_owns owns₂ held run
    refine ⟨?_, torn.dirs, torn.shrinks.trans (shrinks₂.trans shrinks'),
      ⟨torn.frame.others, torn.frame.mine, torn.frame.nextpid, torn.frame.initproc⟩⟩
    have left : update (dropTabs (cells k₁.dirs L X) d (List.range NPDENTRIES))
        (.dir d) none = cells k₁.dirs (L.erase d) X := by
      funext c
      cases c with
      | user e page =>
        by_cases same : e = d
        · subst same
          -- No user page of the directory is mapped any more.
          have unmapped : page < USERPAGES → (pteAt (k₁.dirs e) page).mapped = none := by
            intro low
            rw [torn.inside page ((all page).mpr low)]
            unfold Pte.cleared
            split
            · rfl
            · rename_i neither
              simp only [not_or] at neither
              simp [Pte.mapped, neither.1]
          simp [dropTabs, cells]
          exact fun _ low => unmapped low
        · simp [dropTabs, cells, same]
      | tab e j =>
        by_cases same : e = d
        · by_cases low : j < NPDENTRIES
          · simp [dropTabs, cells, same, low]
          · simp [dropTabs, cells, same, low]
        · simp [dropTabs, cells, same]
      | dir e =>
        by_cases same : e = d
        · simp [cells, same]
        · simp [dropTabs, cells, same]
      | one f => simp [dropTabs, cells]
    rw [← left]
    exact owns'

end Teardown

end Kernel

end Xv6
