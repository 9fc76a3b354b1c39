import Xv6.Memory.Books

/-!
Steps of processes that never page out.

A step is a user access, which either completes or traps, or a call of `growproc`,
`fork`, `exit` or `wait`. In runs that exclude eviction no entry of a live page
table belongs to a swapped-out page (`Plain`). What each step does to the books is
collected here; the one step that can unbalance them is a copy-on-write fault
without memory.
-/

namespace Xv6

open Ledger

/-- What a process does next. -/
inductive MemOp where
  | load (va : UInt32)
  | store (va : UInt32) (b : UInt8)
  | growproc (n : Int)
  | fork
  | exit
  | wait
  deriving DecidableEq

/-- An entry in a system without swapped-out pages: what is not writable is shared. -/
def Pte.Plain (pte : Pte) : Prop :=
  pte.pg = false ∧ (pte.cow = true → pte.p = true) ∧
    (pte.p = true → pte.w = true ∨ pte.cow = true)

variable {pte : Pte}

theorem Pte.Plain.shared (plain : pte.Plain) : pte.shared.Plain := by
  unfold Pte.Plain Pte.shared at *
  split
  · exact ⟨plain.1, fun _ => by assumption, fun _ => Or.inr rfl⟩
  · exact plain

theorem Pte.plain_zero : Pte.zero.Plain := ⟨rfl, by simp [Pte.zero], by simp [Pte.zero]⟩

theorem Pte.Plain.cleared (plain : pte.Plain) : pte.cleared.Plain := by
  unfold Pte.cleared
  split
  · exact Pte.plain_zero
  · exact plain

theorem Pte.Plain.touched (plain : pte.Plain) (a : Bool) : Pte.Plain { pte with a := a } := plain

namespace Kernel

def step (cfg : Config) (k : Kernel) (me : ProcNo) : MemOp → Res Kernel
  | .load va =>
    match k.load me va.toNat with
    | some (_, k) => .ok k
    | none => k.pageFault cfg me va.toNat
  | .store va b =>
    match k.store me va.toNat b with
    | some k => .ok k
    | none => k.pageFault cfg me va.toNat
  | .growproc n => do
    let (_, k) ← k.growproc cfg me n
    .ok k
  | .fork => do
    let (_, k) ← k.fork cfg me
    .ok k
  | .exit => k.exit me
  | .wait => do
    let (_, k) ← k.wait cfg me
    .ok k

/-- The address whose access traps, if the step is one. -/
def trapped (k : Kernel) (me : ProcNo) : MemOp → Option Nat
  | .load va => if (k.load me va.toNat).isNone then some va.toNat else none
  | .store va b => if (k.store me va.toNat b).isNone then some va.toNat else none
  | _ => none

/-- The step is not a copy-on-write fault on a shared frame without free memory. -/
def Covered (k : Kernel) (me : ProcNo) (op : MemOp) : Prop :=
  ∀ va, k.trapped me op = some va → va < KERNBASE →
    (pteAt (k.dirs (k.proc me).pgdir) (pageOf va)).cow = true →
    1 < k.kmem.ref (pteAt (k.dirs (k.proc me).pgdir) (pageOf va)).frame →
    k.kmem.freelist ≠ none

def Plain (k : Kernel) : Prop :=
  ∀ s, (k.proc s).Live → ∀ page, page < USERPAGES → (pteAt (k.dirs (k.proc s).pgdir) page).Plain

section

variable {cfg : Config} {k k' : Kernel} {reserved : Set Nat} {me : ProcNo} {d va page sz : Nat}
  {b : UInt8} {range : Nat → Prop}

theorem Plain.noneSwapped (plain : Plain k) {s : ProcNo} (live : (k.proc s).Live) :
    NoneSwapped k (k.proc s).pgdir (· < USERPAGES) := by
  intro page low paged
  rw [(plain s live page low).1] at paged
  cases paged

/-- Entries of one directory change, the others keep theirs. -/
theorem Plain.of_dir (plain : Plain k) (owners : SameOwners k k')
    (dirs : ∀ e ∈ k.liveDirs, e ≠ d → k'.dirs e = k.dirs e)
    (entries : ∀ page, page < USERPAGES → (pteAt (k.dirs d) page).Plain →
      (pteAt (k'.dirs d) page).Plain) : Plain k' := by
  intro s live page low
  have live := (owners.live s).mp live
  rw [owners.pgdir s live]
  by_cases h : (k.proc s).pgdir = d
  · rw [h]
    exact entries page low (h ▸ plain s live page low)
  · rw [dirs _ (mem_liveDirs live) h]
    exact plain s live page low

theorem Plain.touched (plain : Plain k) (touched : Touched me d k k') : Plain k' :=
  plain.of_dir touched.frame.sameOwners (fun e _ other => touched.dirs e other)
    (fun page _ isPlain => by
      obtain ⟨a, entry⟩ := touched.entries page
      rw [entry]
      exact isPlain.touched a)

theorem Plain.exited (plain : Plain k) (live : (k.proc me).Live) (exited : Exited me k k') :
    Plain k' := by
  have owners := exited.sameOwners live
  obtain ⟨proc, rfl⟩ := exited.rest
  exact plain.of_dir (d := 0) owners (fun _ _ _ => rfl) (fun _ _ h => h)

theorem access_cases {write : Bool} {pte : Pte} (h : k.access me va write = some pte) :
    walkpgdir (k.dirs (k.proc me).pgdir) va = some pte ∧ pte.p = true ∧ pte.u = true ∧
      (write = true → pte.w = true) := by
  unfold access at h
  split at h
  · cases h
  · rename_i pte' walk
    split at h
    · rename_i allowed
      cases h
      exact ⟨walk, allowed⟩
    · cases h

theorem load_touched (h : k.load me va = some (b, k')) :
    Touched me (k.proc me).pgdir k k' := by
  unfold load at h
  split at h
  · cases h
  · rename_i pte allowed
    cases h
    exact .setPte (access_cases allowed).1 true

/-- A store writes into the frame of its page. -/
theorem store_cases (h : k.store me va b = some k') :
    ∃ pte, k.access me va true = some pte ∧
      Touched me (k.proc me).pgdir
        (k.fill pte.frame (setByte (k.mem pte.frame) (va % PGSIZE) b)) k' := by
  unfold store at h
  split at h
  · cases h
  · rename_i pte allowed
    cases h
    exact ⟨pte, allowed, Touched.setPte (k := k.fill _ _) (access_cases allowed).1 true⟩

theorem Books.fill {f : Nat} {page : Page} (books : Books cfg reserved k) :
    Books cfg reserved (k.fill f page) :=
  have same : Frame 0 k (k.fill f page) := .of_proc rfl rfl rfl
  books.of_frame same books.owns

/-- The process goes on, or exits if it has been killed. -/
def Resumed (me : ProcNo) (k k' : Kernel) : Prop :=
  k' = k ∨ ((k.proc me).killed = true ∧ Exited me k k')

/-- How a trap ends when no page is swapped out. -/
inductive FaultOutcome (cfg : Config) (reserved : Set Nat) (me : ProcNo) (va : Nat)
    (k k' : Kernel) : Prop
  /-- The access is not allowed and the process exits. -/
  | killed (k₁ : Kernel) (touched : Touched me (k.proc me).pgdir k k₁)
      (notCow : va < KERNBASE → (pteAt (k.dirs (k.proc me).pgdir) (pageOf va)).cow = false)
      (exited : Exited me k₁ k')
  /-- The page was copy-on-write and is now the process's own. -/
  | cow (k₁ k₂ : Kernel) (low : va < KERNBASE) (touched : Touched me (k.proc me).pgdir k k₁)
      (isCow : (pteAt (k.dirs (k.proc me).pgdir) (pageOf va)).cow = true)
      (fault : CowFault me (k.proc me).pgdir (pageOf va) k₁ k₂)
      (dirs : ∀ e, e ≠ (k.proc me).pgdir → k₂.dirs e = k₁.dirs e)
      (pages : ∀ page, page ≠ pageOf va →
        pteAt (k₂.dirs (k.proc me).pgdir) page = pteAt (k₁.dirs (k.proc me).pgdir) page)
      (frame : Frame me k₁ k₂) (proc : k₂.proc = k₁.proc) (books : Books cfg reserved k₂)
      (resumed : Resumed me k₂ k')
  /-- There was no memory for the copy, and the process exits. -/
  | failed (k₁ k₂ : Kernel) (low : va < KERNBASE) (touched : Touched me (k.proc me).pgdir k k₁)
      (isCow : (pteAt (k.dirs (k.proc me).pgdir) (pageOf va)).cow = true)
      (failed : CowFailed cfg me (k.proc me).pgdir (pageOf va) k₁ k₂) (exited : Exited me k₂ k')

theorem pageOf_PGROUNDDOWN (va : Nat) : pageOf (PGROUNDDOWN va) = pageOf va := by
  unfold pageOf PGROUNDDOWN PGSIZE
  omega

theorem pageFault_quiet (books : Books cfg reserved k) (plain : Plain k) (live : (k.proc me).Live)
    (run : k.pageFault cfg me va = .ok k') :
    FaultOutcome cfg reserved me va k k' := by
  simp only [pageFault, onPageFault, Res.bind_ok] at run
  obtain ⟨k₂, ⟨k₁, sampled, handled⟩, resumed⟩ := run
  have counted : Touched me (k.proc me).pgdir k
      (k.setProc me { k.proc me with pagefaults := (k.proc me).pagefaults + 1 }) := by
    refine .of_same _ rfl rfl rfl ⟨fun s other => setProc_other _ _ other, ?_, rfl, rfl⟩
    rw [setProc_self]
    exact ⟨rfl, rfl, rfl, rfl, rfl, rfl, rfl⟩
  have sampled := sampling_touched sampled
  rw [setProc_self] at sampled
  have touched : Touched me (k.proc me).pgdir k k₁ := counted.trans sampled
  have books₁ := books.touched touched
  have plain₁ := plain.touched touched
  have mine : (k₁.proc me).pgdir = (k.proc me).pgdir := touched.frame.mine.pgdir
  have live₁ : (k₁.proc me).Live := (touched.frame.sameOwners.live me).mpr live
  -- Every way to be killed ends in `exit`.
  have killing : k₂ = k₁.kill me →
      (va < KERNBASE → (pteAt (k.dirs (k.proc me).pgdir) (pageOf va)).cow = false) →
      FaultOutcome cfg reserved me va k k' := by
    rintro rfl notCow
    rw [if_pos (by rw [kill, setProc_self])] at resumed
    exact .killed _ touched notCow (exit_exited resumed).of_kill
  have sameCow : (pteAt (k.dirs (k.proc me).pgdir) (pageOf va)).cow =
      (pteAt (k₁.dirs (k.proc me).pgdir) (pageOf va)).cow := by
    obtain ⟨a, same⟩ := touched.entries (pageOf va)
    rw [same]
  split at handled
  · rename_i high
    cases handled
    exact killing rfl (fun low => absurd low (by omega))
  · rename_i low
    have low : va < KERNBASE := by omega
    split at handled
    · rename_i walk
      cases handled
      have entry := walkpgdir_eq_none walk
      rw [pageOf_PGROUNDDOWN, mine] at entry
      exact killing rfl (fun _ => by rw [sameCow, entry]; rfl)
    · rename_i pte walk
      have entry := walkpgdir_eq_some walk
      rw [pageOf_PGROUNDDOWN, mine] at entry
      split at handled
      · rename_i isCow
        have plainEntry := plain₁ me live₁ (pageOf va) (pageOf_low low)
        rw [mine, entry] at plainEntry
        have isCow₀ : (pteAt (k.dirs (k.proc me).pgdir) (pageOf va)).cow = true := by
          rw [sameCow, entry]
          exact isCow
        have outcome := onPageFaultCow_cases books₁.owns
          (by rw [← mine]; exact mem_liveDirs live₁) mine
          (by rw [pageOf_PGROUNDDOWN]; exact pageOf_low low)
          (by rw [pageOf_PGROUNDDOWN, entry]; exact plainEntry.2.1 isCow) handled
        rw [pageOf_PGROUNDDOWN] at outcome
        rcases outcome with ⟨fault, owns, dirs, pages, proc, nextpid, initproc⟩ | failed
        · have frame : Frame me k₁ k₂ := .of_proc proc nextpid initproc
          refine .cow k₁ k₂ low touched isCow₀ fault dirs pages frame proc
            (books₁.of_frame frame owns) ?_
          split at resumed
          · rename_i killed
            exact Or.inr ⟨killed, exit_exited resumed⟩
          · cases resumed
            exact Or.inl rfl
        · refine .failed k₁ k₂ low touched isCow₀ failed ?_
          rw [if_pos (by rw [failed.2.2.2, kill, setProc_self])] at resumed
          exact exit_exited resumed
      · rename_i notCow
        split at handled
        · rename_i paged
          have plainEntry := plain₁ me live₁ (pageOf va) (pageOf_low low)
          rw [mine, entry, Pte.Plain, paged] at plainEntry
          cases plainEntry.1
        · cases handled
          exact killing rfl (fun _ => by rw [sameCow, entry]; simpa using notCow)

theorem Plain.cowFault (plain : Plain k) (fault : CowFault me d page k k')
    (dirs : ∀ e, e ≠ d → k'.dirs e = k.dirs e)
    (pages : ∀ q, q ≠ page → pteAt (k'.dirs d) q = pteAt (k.dirs d) q) (frame : Frame me k k') :
    Plain k' := by
  refine plain.of_dir frame.sameOwners (fun e _ other => dirs e other) ?_
  intro q _ isPlain
  by_cases h : q = page
  · subst h
    cases fault with
    | kept _ _ _ entry | copied _ _ _ _ _ _ _ entry =>
      rw [entry]
      exact ⟨isPlain.1, by simp, by simp⟩
  · rw [pages q h]
    exact isPlain

/-- The size of the process is set after its address space has changed. -/
def Resized (me : ProcNo) (sz : Nat) (k k' : Kernel) : Prop :=
  k' = k.setProc me { k.proc me with sz := sz }

theorem Resized.same (k : Kernel) (me : ProcNo) : Resized me (k.proc me).sz k k := by
  unfold Resized setProc
  rw [Function.update_eq_self]

theorem Resized.owners (resized : Resized me sz k k') : SameOwners k k' := by
  cases resized
  refine ⟨fun s => ?_, fun s _ => ?_, fun s _ => ?_⟩
  all_goals
    by_cases h : s = me
    · subst h
      rw [setProc_self]
      try rfl
    · rw [setProc_other _ _ h]

theorem Books.resized (books : Books cfg reserved k) (small : sz ≤ KERNBASE)
    (resized : Resized me sz k k') : Books cfg reserved k' := by
  have owners := resized.owners
  cases resized
  refine owners.books books books.owns fun s live => ?_
  by_cases h : s = me
  · subst h
    rw [setProc_self]
    exact small
  · rw [setProc_other _ _ h] at live ⊢
    exact books.small s live

theorem Plain.resized (plain : Plain k) (resized : Resized me sz k k') : Plain k' := by
  have owners := resized.owners
  cases resized
  exact plain.of_dir (d := 0) owners (fun _ _ _ => rfl) (fun _ _ h => h)

/-- The size `growproc` leaves: a size of 0 counts as an error and is not stored. -/
def storedSize (sz newsz : Nat) : Nat := if newsz = 0 then sz else newsz

/-- A call of `growproc` that does not touch the address space. -/
def GrowIdle (sz : Nat) (n : Int) : Prop :=
  n = 0 ∨ (0 < n ∧ (KERNBASE ≤ target sz n ∨ target sz n < sz)) ∨ (n < 0 ∧ sz ≤ target sz n)

instance (sz : Nat) (n : Int) : Decidable (GrowIdle sz n) :=
  inferInstanceAs (Decidable (_ ∨ _ ∧ _ ∨ _ ∧ _))

/-- The outcomes of `growproc` without eviction. -/
inductive GrowOutcome (cfg : Config) (reserved : Set Nat) (me : ProcNo) (n : Int)
    (k k' : Kernel) : Prop
  | unchanged (idle : GrowIdle (k.proc me).sz n) (same : k' = k)
  | grown (k₁ : Kernel) (pos : 0 < n) (low : target (k.proc me).sz n < KERNBASE)
      (order : (k.proc me).sz ≤ target (k.proc me).sz n)
      (ext : Extended me (k.proc me).pgdir (InRange (k.proc me).sz (target (k.proc me).sz n)) k k₁)
      (books : Books cfg reserved k₁)
      (resized : Resized me (storedSize (k.proc me).sz (target (k.proc me).sz n)) k₁ k')
  | failed (notExcluded : cfg.excluded .outOfMemory = false)
      (undone : Undone me (k.proc me).pgdir (InRange (k.proc me).sz (target (k.proc me).sz n)) k k')
  | shrunk (k₁ : Kernel) (neg : n < 0) (order : target (k.proc me).sz n < (k.proc me).sz)
      (torn : Torn me (k.proc me).pgdir (InRange (target (k.proc me).sz n) (k.proc me).sz) k k₁)
      (books : Books cfg reserved k₁)
      (resized : Resized me (storedSize (k.proc me).sz (target (k.proc me).sz n)) k₁ k')

theorem InRange.low {newsz oldsz : Nat} (small : oldsz ≤ KERNBASE)
    (hit : InRange newsz oldsz page) : page < USERPAGES := by
  unfold InRange USERPAGES KERNBASE PGSIZE at *
  omega

theorem Plain.extended (plain : Plain k) (ext : Extended me d range k k') : Plain k' := by
  refine plain.of_dir ext.frame.sameOwners (fun e _ other => ext.dirs e other) ?_
  intro page _ isPlain
  by_cases hit : range page
  · obtain ⟨f, entry, _⟩ := ext.inside page hit
    rw [entry]
    exact ⟨rfl, by simp [Pte.user], by simp [Pte.user]⟩
  · rw [ext.outside page hit]
    exact isPlain

theorem Plain.undone (plain : Plain k) (undone : Undone me d range k k') : Plain k' := by
  refine plain.of_dir undone.frame.sameOwners (fun e _ other => undone.dirs e other) ?_
  intro page _ isPlain
  by_cases hit : range page
  · rcases undone.inside page hit with entry | entry
    · rw [entry]
      exact Pte.plain_zero
    · rw [entry]
      exact isPlain.cleared
  · rw [undone.outside page hit]
    exact isPlain

theorem growproc_quiet {n r : Int} (quiet : cfg.excluded .eviction = true)
    (books : Books cfg reserved k) (plain : Plain k) (live : (k.proc me).Live)
    (run : k.growproc cfg me n = .ok (r, k')) :
    GrowOutcome cfg reserved me n k k' ∧ Books cfg reserved k' ∧ Plain k' := by
  simp only [growproc, Res.bind_ok] at run
  obtain ⟨⟨sz, k₁⟩, resize, run⟩ := run
  -- Setting the size, or returning -1 with the size as it was.
  have finish : n ≠ 0 → (k₁.proc me).sz = (k.proc me).sz →
      Resized me (storedSize (k.proc me).sz sz) k₁ k' := by
    intro nonzero same
    split at run
    · rename_i failed
      cases run
      rw [storedSize, if_pos failed.2, ← same]
      exact Resized.same _ me
    · rename_i succeeded
      cases run
      rw [storedSize, if_neg (fun zero => succeeded ⟨nonzero, zero⟩)]
      rfl
  -- A result that is the old size, or 0, changes nothing.
  have still : k₁ = k → sz = (k.proc me).sz ∨ sz = 0 → k' = k := by
    rintro rfl result
    split at run
    · cases run
      rfl
    · rename_i succeeded
      cases run
      have : sz = (k₁.proc me).sz := by
        rcases result with same | zero
        · exact same
        · by_cases nonzero : n = 0
          · subst nonzero
            simp only [Kernel.resize] at resize
            cases resize
            rfl
          · exact absurd ⟨nonzero, zero⟩ succeeded
      rw [this]
      exact (Resized.same k₁ me).symm
  have live' := mem_liveDirs live
  have none := plain.noneSwapped live
  have small := books.small me live
  unfold Kernel.resize at resize
  simp only at resize
  split at resize
  · rename_i pos
    obtain ⟨owns, outcome⟩ := allocuvm_quiet quiet books.owns live'
      (fun low page hit => none page (hit.low (Nat.le_of_lt low))) resize
    cases outcome with
    | tooLarge large same =>
      subst same
      obtain rfl := still rfl (Or.inr rfl)
      exact ⟨.unchanged (Or.inr (Or.inl ⟨pos, Or.inl large⟩)) rfl, books, plain⟩
    | smaller _ smaller same =>
      subst same
      obtain rfl := still rfl (Or.inl rfl)
      exact ⟨.unchanged (Or.inr (Or.inl ⟨pos, Or.inr smaller⟩)) rfl, books, plain⟩
    | grown low order ext =>
      have resized := finish (by omega) (ext.frame.sz me)
      have books₁ := books.of_frame ext.frame owns
      refine ⟨.grown k₁ pos low order ext books₁ resized, books₁.resized ?_ resized,
        (plain.extended ext).resized resized⟩
      unfold storedSize
      split <;> omega
    | failed _ _ notExcluded undone =>
      have resized := finish (by omega) (undone.frame.sz me)
      have books₁ := books.of_frame undone.frame owns
      rw [storedSize, if_pos rfl, ← undone.frame.sz me] at resized
      have same := resized.trans (Resized.same k₁ me).symm
      subst same
      exact ⟨.failed notExcluded undone, books₁, plain.undone undone⟩
  · split at resize
    · rename_i neg
      have stale : StaleFree k (k.proc me).pgdir
          (InRange (target (k.proc me).sz n) (k.proc me).sz) :=
        NoneSwapped.staleFree (fun page hit => none page (hit.low small))
      obtain ⟨torn, owns⟩ := deallocuvm_torn books.owns live' small stale resize
      have books₁ := books.of_frame torn.frame owns
      rcases deallocuvm_cases resize with ⟨order, old, rfl⟩ | ⟨order, new, _⟩
      · obtain rfl := still rfl (Or.inl old)
        exact ⟨.unchanged (Or.inr (Or.inr ⟨neg, order⟩)) rfl, books, plain⟩
      · subst new
        have resized := finish (by omega) (torn.frame.sz me)
        refine ⟨.shrunk k₁ neg order torn books₁ resized, books₁.resized ?_ resized,
          (plain.undone torn.undone).resized resized⟩
        unfold storedSize
        split <;> omega
    · have zero : n = 0 := by omega
      cases resize
      obtain rfl := still rfl (Or.inl rfl)
      exact ⟨.unchanged (Or.inl zero) rfl, books, plain⟩

theorem Plain.forked {np : ProcNo} (plain : Plain k) (parent : (k.proc me).Live)
    (forked : Forked me np k k') : Plain k' := by
  intro s live page low
  rcases (forked.live s).mp live with live | rfl
  · rw [forked.others s (forked.notNp live)]
    have isPlain := plain s live page low
    have notNew : (k.proc s).pgdir ≠ (k'.proc np).pgdir :=
      ne_of_mem_of_not_mem (mem_liveDirs live) forked.fresh
    by_cases h : (k.proc s).pgdir = (k.proc me).pgdir
    · rw [h] at isPlain ⊢
      by_cases inside : page < ((k.proc me).sz + PGSIZE - 1) / PGSIZE
      · rw [forked.parentPages page inside]
        exact isPlain.shared
      · rw [forked.parentRest page (by omega)]
        exact isPlain
    · rw [forked.dirs _ h notNew]
      exact isPlain
  · by_cases inside : page < ((k.proc me).sz + PGSIZE - 1) / PGSIZE
    · rw [forked.childPages page inside]
      exact (plain me parent page low).shared
    · rw [forked.childRest page (by omega) low]
      exact Pte.plain_zero

theorem fork_quiet {r : Int} (ok : cfg.Ok) (books : Books cfg reserved k) (plain : Plain k)
    (active : (k.proc me).Active) (run : k.fork cfg me = .ok (r, k')) :
    ForkOutcome cfg me k k' ∧ Books cfg reserved k' ∧ Plain k' := by
  obtain ⟨outcome, books'⟩ := fork_books ok books active
    (fun _ => plain.noneSwapped active.live) run
  refine ⟨outcome, books', ?_⟩
  cases outcome with
  | noSlot same =>
    subst same
    exact plain
  | noMemory _ failed =>
    refine plain.of_dir failed.owners failed.dirs ?_
    intro page _ isPlain
    rcases failed.pages page with same | same
    · rw [same]
      exact isPlain
    · rw [same]
      exact isPlain.shared
  | done np forked => exact plain.forked active.live forked

theorem wait_quiet {r : Option Int} (books : Books cfg reserved k) (plain : Plain k)
    (active : (k.proc me).Active) (run : k.wait cfg me = .ok (r, k')) :
    (k' = k ∨ ∃ child, (k.proc child).state = .ZOMBIE ∧ child ≠ me ∧ Reaped me child k k') ∧
      Books cfg reserved k' ∧ Plain k' := by
  rcases wait_cases run with rfl | ⟨child, pid, _, zombie, reap⟩
  · exact ⟨Or.inl rfl, books, plain⟩
  · have live : (k.proc child).Live := by simp [Proc.Live, zombie]
    have other : child ≠ me := by
      rintro rfl
      rcases active with h | h <;> simp [zombie] at h
    obtain ⟨reaped, books'⟩ := reap_books books live other (plain.noneSwapped live).staleFree reap
    refine ⟨Or.inr ⟨child, zombie, other, reaped⟩, books', ?_⟩
    intro s isLive page low
    obtain ⟨isLive, notChild⟩ := (reaped.live other s).mp isLive
    rw [(reaped.same notChild).1, reaped.dirs _ (fun eq =>
      notChild (books.ownDir s child isLive live eq))]
    exact plain s isLive page low

/-- The step is a copy-on-write fault without memory. -/
def Starved (cfg : Config) (me : ProcNo) (op : MemOp) (k k' : Kernel) : Prop :=
  ∃ va k₁ k₂, k.trapped me op = some va ∧ va < KERNBASE ∧ Touched me (k.proc me).pgdir k k₁ ∧
    (pteAt (k.dirs (k.proc me).pgdir) (pageOf va)).cow = true ∧
    CowFailed cfg me (k.proc me).pgdir (pageOf va) k₁ k₂ ∧ Exited me k₂ k'

/-- Any other step keeps the books. -/
theorem step_quiet {op : MemOp} (ok : cfg.Ok) (quiet : cfg.excluded .eviction = true)
    (books : Books cfg reserved k) (plain : Plain k) (active : (k.proc me).Active)
    (run : k.step cfg me op = .ok k') :
    Books cfg reserved k' ∧ Plain k' ∧ Covered k me op ∨ Starved cfg me op k k' := by
  have live := active.live
  have fault : ∀ va, k.trapped me op = some va → k.pageFault cfg me va = .ok k' →
      Books cfg reserved k' ∧ Plain k' ∧ Covered k me op ∨ Starved cfg me op k k' := by
    intro va trap handled
    cases pageFault_quiet books plain live handled with
    | killed k₁ touched notCow exited =>
      have live₁ := (touched.frame.sameOwners.live me).mpr live
      refine Or.inl ⟨exited.books live₁ (books.touched touched),
        (plain.touched touched).exited live₁ exited, ?_⟩
      intro va' trap' low isCow
      obtain rfl : va = va' := by simpa using trap.symm.trans trap'
      rw [notCow low] at isCow
      cases isCow
    | cow k₁ k₂ low touched isCow fault dirs pages frame proc books₂ resumed =>
      left
      have live₁ := (touched.frame.sameOwners.live me).mpr live
      have live₂ := (frame.sameOwners.live me).mpr live₁
      have plain₂ := (plain.touched touched).cowFault fault dirs pages frame
      have covered : Covered k me op := by
        intro va' trap' low isCow shared
        obtain rfl : va = va' := by simpa using trap.symm.trans trap'
        obtain ⟨a, entry⟩ := touched.entries (pageOf va)
        rw [← touched.kmem]
        cases fault with
        | kept alone =>
          rw [entry, touched.kmem] at alone
          change k.kmem.ref (pteAt (k.dirs (k.proc me).pgdir) (pageOf va)).frame = 1 at alone
          exact absurd shared (by omega)
        | copied f _ memory => exact memory
      rcases resumed with rfl | ⟨_, exited⟩
      · exact ⟨books₂, plain₂, covered⟩
      · exact ⟨exited.books live₂ books₂, plain₂.exited live₂ exited, covered⟩
    | failed k₁ k₂ low touched isCow failed exited =>
      exact Or.inr ⟨va, k₁, k₂, trap, low, touched, isCow, failed, exited⟩
  have noTrap : k.trapped me op = none → Covered k me op := by
    intro none va trap
    rw [none] at trap
    cases trap
  cases op with
  | load va =>
    cases loaded : k.load me va.toNat with
    | none =>
      refine fault va.toNat (by simp [trapped, loaded]) ?_
      simpa [step, loaded] using run
    | some result =>
      simp only [step, loaded] at run
      cases run
      have touched := load_touched loaded
      exact Or.inl ⟨books.touched touched, plain.touched touched,
        noTrap (by simp [trapped, loaded])⟩
  | store va b =>
    cases stored : k.store me va.toNat b with
    | none =>
      refine fault va.toNat (by simp [trapped, stored]) ?_
      simpa [step, stored] using run
    | some result =>
      simp only [step, stored] at run
      cases run
      obtain ⟨pte, _, touched⟩ := store_cases stored
      exact Or.inl ⟨books.fill.touched touched, Plain.touched (k := k.fill _ _) plain touched,
        noTrap (by simp [trapped, stored])⟩
  | growproc n =>
    obtain ⟨⟨r, k₁⟩, called, done⟩ := Res.bind_ok.mp run
    cases done
    obtain ⟨_, books', plain'⟩ := growproc_quiet quiet books plain live called
    exact Or.inl ⟨books', plain', noTrap rfl⟩
  | fork =>
    obtain ⟨⟨r, k₁⟩, called, done⟩ := Res.bind_ok.mp run
    cases done
    obtain ⟨_, books', plain'⟩ := fork_quiet ok books plain active called
    exact Or.inl ⟨books', plain', noTrap rfl⟩
  | exit =>
    have exited := exit_exited run
    exact Or.inl ⟨exited.books live books, plain.exited live exited, noTrap rfl⟩
  | wait =>
    obtain ⟨⟨r, k₁⟩, called, done⟩ := Res.bind_ok.mp run
    cases done
    obtain ⟨_, books', plain'⟩ := wait_quiet books plain active called
    exact Or.inl ⟨books', plain', noTrap rfl⟩

end

end Kernel

end Xv6
