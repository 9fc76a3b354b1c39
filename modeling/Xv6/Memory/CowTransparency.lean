import Xv6.Memory.PrivateMemory
import Xv6.Memory.Layout

/-!
Copy-on-write is not observable.

Frames are shared only through entries without write permission, so a store reaches
the memory of one process. With the books this shows that every run without paging
and without memory shortage is a run of the machine with private memory.
-/

namespace Xv6

open Function Ledger

namespace Kernel

/-- The entry of a page of a process. -/
def entry (k : Kernel) (s : ProcNo) (page : Nat) : Pte := pteAt (k.dirs (k.proc s).pgdir) page

/-- A writable page is mapped nowhere else. -/
def Sole (k : Kernel) : Prop :=
  ∀ s page s' page', (k.proc s).Live → (k.proc s').Live → page < USERPAGES → page' < USERPAGES →
    (k.entry s page).p = true → (k.entry s page).w = true → (k.entry s' page').p = true →
    (k.entry s' page').frame = (k.entry s page).frame → s' = s ∧ page' = page

/-- What holds between the steps of a run without paging. -/
structure CowState (cfg : Config) (reserved : Set Nat) (k : Kernel) : Prop where
  books : Books cfg reserved k
  plain : Plain k
  sole : Sole k
  kernel : ∀ s, (k.proc s).Live → Supervisor (k.dirs (k.proc s).pgdir)
  unkilled : ∀ s, (k.proc s).state ≠ .ZOMBIE → (k.proc s).killed = false

section

variable {cfg : Config} {k k' : Kernel} {reserved : Set Nat} {me : ProcNo} {s : ProcNo} {page : Nat}

theorem cells_entry (live : (k.proc s).Live) (low : page < USERPAGES)
    (present : (k.entry s page).p = true) :
    cells k.dirs k.liveDirs k.liveStacks (.user (k.proc s).pgdir page) =
      some (k.entry s page).frame :=
  cells_user.mpr ⟨mem_liveDirs live, low, present, rfl⟩

theorem Books.ref_ne_zero (books : Books cfg reserved k) (live : (k.proc s).Live)
    (low : page < USERPAGES) (present : (k.entry s page).p = true) :
    k.kmem.ref (k.entry s page).frame ≠ 0 := by
  have := books.owns.balanced.ref_pos (cells_entry live low present)
  omega

/-- The only reference to a frame belongs to the only entry that maps it. -/
theorem Books.same_entry (books : Books cfg reserved k) {s' : ProcNo} {page' : Nat}
    (live : (k.proc s).Live) (live' : (k.proc s').Live) (low : page < USERPAGES)
    (low' : page' < USERPAGES) (present : (k.entry s page).p = true)
    (present' : (k.entry s' page').p = true)
    (same : (k.entry s' page').frame = (k.entry s page).frame)
    (alone : k.kmem.ref (k.entry s page).frame = 1) : s' = s ∧ page' = page := by
  have held := cells_entry live low present
  have held' := cells_entry live' low' present'
  rw [same] at held'
  have := books.owns.balanced.sole alone held' held
  simp only [Cell.user.injEq] at this
  exact ⟨books.ownDir s' s live' live this.1, this.2⟩

/-- The entries of one process change: each is inherited with no more rights, or the
only one for its frame. -/
theorem Sole.of_entries (sole : Sole k) (books' : Books cfg reserved k')
    (owners : SameOwners k k') (live : (k.proc me).Live)
    (dirs : ∀ e ∈ k.liveDirs, e ≠ (k.proc me).pgdir → k'.dirs e = k.dirs e)
    (books : Books cfg reserved k)
    (mine : ∀ page, page < USERPAGES → (k'.entry me page).p = true →
      ((k.entry me page).p = true ∧ (k'.entry me page).frame = (k.entry me page).frame ∧
        ((k'.entry me page).w = true → (k.entry me page).w = true)) ∨
      k'.kmem.ref (k'.entry me page).frame = 1) : Sole k' := by
  have others : ∀ s page, s ≠ me → (k.proc s).Live → k'.entry s page = k.entry s page := by
    intro s page other isLive
    unfold entry
    rw [owners.pgdir s isLive, dirs _ (mem_liveDirs isLive)
      (fun eq => other (books.ownDir s me isLive live eq))]
  have inherits : ∀ s page, (k.proc s).Live → page < USERPAGES → (k'.entry s page).p = true →
      ((k.entry s page).p = true ∧ (k'.entry s page).frame = (k.entry s page).frame ∧
        ((k'.entry s page).w = true → (k.entry s page).w = true)) ∨
      k'.kmem.ref (k'.entry s page).frame = 1 := by
    intro s page isLive low present
    by_cases h : s = me
    · subst h
      exact mine page low present
    · rw [others s page h isLive] at present ⊢
      exact Or.inl ⟨present, rfl, fun w => w⟩
  intro s page s' page' live₁ live₂ low₁ low₂ present writable present' same
  have isLive₁ := (owners.live s).mp live₁
  have isLive₂ := (owners.live s').mp live₂
  rcases inherits s page isLive₁ low₁ present with ⟨p₁, f₁, w₁⟩ | alone
  · rcases inherits s' page' isLive₂ low₂ present' with ⟨p₂, f₂, _⟩ | alone
    · exact sole s page s' page' isLive₁ isLive₂ low₁ low₂ p₁ (w₁ writable) p₂
        (f₂.symm.trans (same.trans f₁))
    · have := books'.same_entry live₂ live₁ low₂ low₁ present' present same.symm alone
      exact ⟨this.1.symm, this.2.symm⟩
  · exact books'.same_entry live₁ live₂ low₁ low₂ present present' same alone

section

variable (state : CowState cfg reserved k)

include state

theorem CowState.frame_unkilled (frame : Frame me k k') (s : ProcNo)
    (alive : (k'.proc s).state ≠ .ZOMBIE) : (k'.proc s).killed = false := by
  by_cases h : s = me
  · subst h
    rw [frame.mine.state] at alive
    rw [frame.mine.killed]
    exact state.unkilled s alive
  · rw [frame.others s h] at alive ⊢
    exact state.unkilled s alive

/-- A step that changes entries of the current process only. -/
theorem CowState.of_entries (live : (k.proc me).Live) (books' : Books cfg reserved k')
    (plain' : Plain k') (frame : Frame me k k')
    (dirs : ∀ e, e ≠ (k.proc me).pgdir → k'.dirs e = k.dirs e)
    (high : ∀ page, USERPAGES ≤ page → (k'.entry me page).u = (k.entry me page).u)
    (mine : ∀ page, page < USERPAGES → (k'.entry me page).p = true →
      ((k.entry me page).p = true ∧ (k'.entry me page).frame = (k.entry me page).frame ∧
        ((k'.entry me page).w = true → (k.entry me page).w = true)) ∨
      k'.kmem.ref (k'.entry me page).frame = 1) :
    CowState cfg reserved k' where
  books := books'
  plain := plain'
  sole := state.sole.of_entries books' frame.sameOwners live (fun e _ other => dirs e other)
    state.books mine
  kernel s isLive := by
    have isLive := (frame.sameOwners.live s).mp isLive
    by_cases h : s = me
    · subst h
      intro page above
      exact (high page above).trans (state.kernel s isLive page above)
    · rw [frame.others s h, dirs _ (fun eq => h (state.books.ownDir s me isLive live eq))]
      exact state.kernel s isLive
  unkilled := state.frame_unkilled frame

omit state in
theorem entry_of_frame (frame : Frame me k k') (page : Nat) :
    k'.entry me page = pteAt (k'.dirs (k.proc me).pgdir) page := by
  rw [entry, frame.mine.pgdir]

theorem CowState.touched (live : (k.proc me).Live) (touched : Touched me (k.proc me).pgdir k k') :
    CowState cfg reserved k' := by
  have same : ∀ page, ∃ a, k'.entry me page = { k.entry me page with a := a } := by
    intro page
    rw [entry_of_frame touched.frame]
    exact touched.entries page
  refine state.of_entries live (state.books.touched touched) (state.plain.touched touched)
    touched.frame touched.dirs ?_ ?_
  · intro page _
    obtain ⟨a, eq⟩ := same page
    rw [eq]
  · intro page _ present
    obtain ⟨a, eq⟩ := same page
    rw [eq] at present ⊢
    exact Or.inl ⟨present, rfl, fun w => w⟩

theorem CowState.fill (f : Nat) (page : Page) : CowState cfg reserved (k.fill f page) :=
  ⟨state.books.fill, state.plain, state.sole, state.kernel, state.unkilled⟩

variable {range : Nat → Prop}

theorem CowState.extended (live : (k.proc me).Live) (books' : Books cfg reserved k')
    (ext : Extended me (k.proc me).pgdir range k k') (low : ∀ page, range page → page < USERPAGES) :
    CowState cfg reserved k' := by
  refine state.of_entries live books' (state.plain.extended ext) ext.frame ext.dirs ?_ ?_
  · intro page above
    rw [entry_of_frame ext.frame, ext.outside page (fun hit => absurd (low page hit) (by omega))]
    rfl
  · intro page _ present
    rw [entry_of_frame ext.frame] at present ⊢
    by_cases hit : range page
    · obtain ⟨f, eq, _, one, _⟩ := ext.inside page hit
      rw [eq]
      exact Or.inr one
    · rw [ext.outside page hit] at present ⊢
      exact Or.inl ⟨present, rfl, fun w => w⟩

theorem CowState.torn (live : (k.proc me).Live) (books' : Books cfg reserved k')
    (torn : Torn me (k.proc me).pgdir range k k') (low : ∀ page, range page → page < USERPAGES) :
    CowState cfg reserved k' := by
  refine state.of_entries live books' (state.plain.undone torn.undone) torn.frame torn.dirs ?_ ?_
  · intro page above
    rw [entry_of_frame torn.frame, torn.outside page (fun hit => absurd (low page hit) (by omega))]
    rfl
  · intro page _ present
    rw [entry_of_frame torn.frame] at present ⊢
    by_cases hit : range page
    · rw [torn.inside page hit, Pte.cleared] at present ⊢
      split at present
      · cases present
      · rename_i absent
        exact absurd (Or.inl present) absent
    · rw [torn.outside page hit] at present ⊢
      exact Or.inl ⟨present, rfl, fun w => w⟩

theorem CowState.resized {sz : Nat} (small : sz ≤ KERNBASE) (resized : Resized me sz k k') :
    CowState cfg reserved k' := by
  have books' := state.books.resized small resized
  have plain' := state.plain.resized resized
  cases resized
  have same : ∀ s, ((k.setProc me { k.proc me with sz := sz }).proc s).pgdir = (k.proc s).pgdir ∧
      ((k.setProc me { k.proc me with sz := sz }).proc s).state = (k.proc s).state ∧
      ((k.setProc me { k.proc me with sz := sz }).proc s).killed = (k.proc s).killed := by
    intro s
    by_cases h : s = me
    · subst h
      rw [setProc_self]
      exact ⟨rfl, rfl, rfl⟩
    · rw [setProc_other _ _ h]
      exact ⟨rfl, rfl, rfl⟩
  refine ⟨books', plain', ?_, ?_, ?_⟩
  · intro s page s' page' live live' low low' present writable present' eq
    unfold entry at *
    unfold Proc.Live at live live'
    rw [(same s).1] at present writable eq
    rw [(same s').1] at present' eq
    rw [(same s).2.1] at live
    rw [(same s').2.1] at live'
    exact state.sole s page s' page' live live' low low' present writable present' eq
  · intro s live
    unfold Proc.Live at live
    rw [(same s).2.1] at live
    rw [(same s).1]
    exact state.kernel s live
  · intro s alive
    rw [(same s).2.1] at alive
    rw [(same s).2.2]
    exact state.unkilled s alive

theorem CowState.exited (live : (k.proc me).Live) (exited : Exited me k k') :
    CowState cfg reserved k' := by
  have owners := exited.sameOwners live
  have books' := exited.books live state.books
  have plain' := state.plain.exited live exited
  have pgdir := fun s => (exited.same s).2.1
  obtain ⟨proc, rfl⟩ := exited.rest
  refine ⟨books', plain', ?_, ?_, ?_⟩
  · intro s page s' page' live live' low low' present writable present' eq
    unfold entry at *
    rw [pgdir s] at present writable eq
    rw [pgdir s'] at present' eq
    exact state.sole s page s' page' ((owners.live s).mp live) ((owners.live s').mp live') low low'
      present writable present' eq
  · intro s live
    rw [pgdir s]
    exact state.kernel s ((owners.live s).mp live)
  · intro s alive
    have other : s ≠ me := by
      rintro rfl
      exact alive exited.zombie
    rw [exited.state s other] at alive
    rw [(exited.others s other).2]
    exact state.unkilled s alive

theorem CowState.reaped {child : ProcNo} (isLive : (k.proc child).Live) (other : child ≠ me)
    (books' : Books cfg reserved k') (plain' : Plain k') (reaped : Reaped me child k k') :
    CowState cfg reserved k' := by
  have dir : ∀ s, (k.proc s).Live → s ≠ child →
      k'.dirs (k'.proc s).pgdir = k.dirs (k.proc s).pgdir := by
    intro s live notChild
    rw [(reaped.same notChild).1]
    exact reaped.dirs _ (fun eq => notChild (state.books.ownDir s child live isLive eq))
  refine ⟨books', plain', ?_, ?_, ?_⟩
  · intro s page s' page' live live' low low' present writable present' eq
    obtain ⟨live, notChild⟩ := (reaped.live other s).mp live
    obtain ⟨live', notChild'⟩ := (reaped.live other s').mp live'
    unfold entry at *
    rw [dir s live notChild] at present writable eq
    rw [dir s' live' notChild'] at present' eq
    exact state.sole s page s' page' live live' low low' present writable present' eq
  · intro s live
    obtain ⟨live, notChild⟩ := (reaped.live other s).mp live
    rw [dir s live notChild]
    exact state.kernel s live
  · intro s alive
    by_cases isChild : s = child
    · subst isChild
      exact reaped.unkilled
    · by_cases isMe : s = me
      · subst isMe
        rw [reaped.mine.state] at alive
        rw [reaped.mine.killed]
        exact state.unkilled s alive
      · rw [reaped.others s isMe isChild] at alive ⊢
        exact state.unkilled s alive

/-- After a `fork` the entries of the child are those of the parent, all read-only. -/
theorem CowState.forked {np : ProcNo} (live : (k.proc me).Live) (books' : Books cfg reserved k')
    (plain' : Plain k') (forked : Forked me np k k') :
    CowState cfg reserved k' := by
  have notNp := fun s => forked.notNp (s := s)
  have pages : ((k.proc me).sz + PGSIZE - 1) / PGSIZE ≤ USERPAGES := by
    have := state.books.small me live
    unfold USERPAGES KERNBASE PGSIZE at *
    omega
  have others : ∀ s page, (k.proc s).Live → s ≠ me → k'.entry s page = k.entry s page := by
    intro s page isLive notMe
    unfold entry
    rw [forked.others s (notNp s isLive), forked.dirs]
    · exact fun eq => notMe (state.books.ownDir s me isLive live eq)
    · exact ne_of_mem_of_not_mem (mem_liveDirs isLive) forked.fresh
  have mine : ∀ page, k'.entry me page = pteAt (k'.dirs (k.proc me).pgdir) page := by
    intro page
    rw [entry, forked.others me (notNp me live)]
  -- An entry that is present stems from one of the parent's or of another process.
  have source : ∀ s page, (k'.proc s).Live → page < USERPAGES → (k'.entry s page).p = true →
      ∃ t, (k.proc t).Live ∧ (k.entry t page).p = true ∧
        (k'.entry s page).frame = (k.entry t page).frame ∧
        ((k'.entry s page).w = true → s = t ∧ (k.entry s page).w = true ∧
          ¬ (s = me ∧ page < ((k.proc me).sz + PGSIZE - 1) / PGSIZE)) ∧
        (s = t ∨ (t = me ∧ page < ((k.proc me).sz + PGSIZE - 1) / PGSIZE)) := by
    intro s page isLive low present
    have sharedEntry : ∀ pte : Pte, pte.shared.p = true → pte.p = true ∧
        pte.shared.frame = pte.frame ∧ pte.shared.w = false := by
      intro pte isShared
      unfold Pte.shared at *
      split at isShared
      · rename_i p
        rw [if_pos p]
        exact ⟨p, rfl, rfl⟩
      · rename_i absent
        exact absurd isShared absent
    rcases (forked.live s).mp isLive with isLive | rfl
    · by_cases isMe : s = me
      · subst isMe
        rw [mine] at present ⊢
        by_cases inside : page < ((k.proc s).sz + PGSIZE - 1) / PGSIZE
        · rw [forked.parentPages page inside] at present ⊢
          obtain ⟨p, f, w⟩ := sharedEntry _ present
          exact ⟨s, isLive, p, f, fun h => by simp [w] at h, Or.inl rfl⟩
        · rw [forked.parentRest page (by omega)] at present ⊢
          exact ⟨s, isLive, present, rfl, fun w => ⟨rfl, w, fun h => inside h.2⟩, Or.inl rfl⟩
      · rw [others s page isLive isMe] at present ⊢
        exact ⟨s, isLive, present, rfl, fun w => ⟨rfl, w, fun h => isMe h.1⟩, Or.inl rfl⟩
    · by_cases inside : page < ((k.proc me).sz + PGSIZE - 1) / PGSIZE
      · rw [entry, forked.childPages page inside] at present ⊢
        obtain ⟨p, f, w⟩ := sharedEntry _ present
        exact ⟨me, live, p, f, fun h => by simp [w] at h, Or.inr ⟨rfl, inside⟩⟩
      · rw [entry, forked.childRest page (by omega) low] at present
        cases present
  refine ⟨books', plain', ?_, ?_, ?_⟩
  · intro s page s' page' isLive isLive' low low' present writable present' eq
    obtain ⟨t, liveT, p, f, w, _⟩ := source s page isLive low present
    obtain ⟨rfl, w, notShared⟩ := w writable
    obtain ⟨t', liveT', p', f', _, origin⟩ := source s' page' isLive' low' present'
    obtain ⟨rfl, rfl⟩ := state.sole s page t' page' liveT liveT' low low' p w p'
      (f'.symm.trans (eq.trans f))
    rcases origin with rfl | shared
    · exact ⟨rfl, rfl⟩
    · exact absurd shared notShared
  · intro s isLive
    rcases (forked.live s).mp isLive with isLive | rfl
    · intro page above
      change (k'.entry s page).u = false
      by_cases isMe : s = me
      · subst isMe
        rw [mine, forked.parentRest page (by omega)]
        exact state.kernel s isLive page above
      · rw [others s page isLive isMe]
        exact state.kernel s isLive page above
    · exact forked.childKernel
  · intro s alive
    by_cases h : s = np
    · subst h
      rw [forked.killed]
      exact state.unkilled s (by rw [forked.vacant]; decide)
    · rw [forked.others s h] at alive ⊢
      exact state.unkilled s alive

theorem CowState.cowFault {page : Nat} (live : (k.proc me).Live) (low : page < USERPAGES)
    (books' : Books cfg reserved k') (plain' : Plain k')
    (fault : CowFault me (k.proc me).pgdir page k k')
    (dirs : ∀ e, e ≠ (k.proc me).pgdir → k'.dirs e = k.dirs e)
    (pages : ∀ q, q ≠ page → pteAt (k'.dirs (k.proc me).pgdir) q = pteAt (k.dirs (k.proc me).pgdir) q)
    (frame : Frame me k k') : CowState cfg reserved k' := by
  have other : ∀ q, q ≠ page → k'.entry me q = k.entry me q := by
    intro q h
    rw [entry_of_frame frame, pages q h]
    rfl
  refine state.of_entries live books' plain' frame dirs ?_ ?_
  · intro q above
    rw [other q (by omega)]
  · intro q _ present
    by_cases h : q = page
    · subst h
      right
      rw [entry_of_frame frame]
      cases fault with
      | kept alone kmem _ eq =>
        rw [eq, kmem]
        exact alone
      | copied f _ _ _ refs _ _ eq =>
        rw [eq, refs f, if_pos rfl]
    · rw [other q h] at present ⊢
      exact Or.inl ⟨present, rfl, fun w => w⟩

end

end

section View

variable {cfg : Config} {k k' : Kernel} {reserved : Set Nat} {me : ProcNo} {s : ProcNo} {pte : Pte}
  {va page : Nat} {b : UInt8} {before after : ProcState → Bool}

theorem space_live (live : (k.proc s).Live) :
    k.space s = {
      state := (k.proc s).state
      sz := (k.proc s).sz
      pages := fun page => if page < USERPAGES then k.userPageOf (k.entry s page) else none } :=
  if_pos live

theorem userPageOf_present (present : pte.p = true) :
    k.userPageOf pte = some ⟨k.mem pte.frame, pte.u⟩ := by
  simp [userPageOf, Pte.mapped, present]

theorem userPageOf_absent (absent : pte.p = false) : k.userPageOf pte = none := by
  simp [userPageOf, Pte.mapped, absent]

/-- Entries that agree on what user code sees, if their frames hold the same bytes. -/
theorem userPageOf_congr {pte' : Pte} (p : pte'.p = pte.p) (u : pte'.u = pte.u)
    (mem : pte.p = true → k'.mem pte'.frame = k.mem pte.frame) :
    k'.userPageOf pte' = k.userPageOf pte := by
  cases present : pte.p with
  | false => rw [userPageOf_absent present, userPageOf_absent (p.trans present)]
  | true => rw [userPageOf_present present, userPageOf_present (p.trans present), mem present, u]

theorem space_congr (live : (k'.proc s).Live ↔ (k.proc s).Live)
    (state : (k.proc s).Live → (k'.proc s).state = (k.proc s).state)
    (sz : (k.proc s).Live → (k'.proc s).sz = (k.proc s).sz)
    (pages : (k.proc s).Live → ∀ page, page < USERPAGES →
      k'.userPageOf (k'.entry s page) = k.userPageOf (k.entry s page)) :
    k'.space s = k.space s := by
  by_cases isLive : (k.proc s).Live
  · rw [space_live isLive, space_live (live.mpr isLive), state isLive, sz isLive]
    refine congrArg (Space.mk _ _) (funext fun page => ?_)
    split
    · exact pages isLive page (by assumption)
    · rfl
  · rw [space, space, if_neg isLive, if_neg (fun h => isLive (live.mp h))]

/-- Processes whose directories and frames are left alone see no change. -/
theorem space_other (books : Books cfg reserved k) (live : (k.proc me).Live) (frame : Frame me k k')
    (dirs : ∀ e, e ≠ (k.proc me).pgdir → k'.dirs e = k.dirs e) (other : s ≠ me)
    (mem : ∀ page, page < USERPAGES → (k.proc s).Live → (k.entry s page).p = true →
      k'.mem (k.entry s page).frame = k.mem (k.entry s page).frame) :
    k'.space s = k.space s := by
  have same := frame.others s other
  refine space_congr (by rw [same]) (fun _ => by rw [same]) (fun _ => by rw [same]) ?_
  intro isLive page low
  have eq : k'.entry s page = k.entry s page := by
    unfold entry
    rw [same, dirs _ (fun h => other (books.ownDir s me isLive live h))]
  rw [eq]
  exact userPageOf_congr rfl rfl (mem page low isLive)

theorem view_update {m : Space} (others : ∀ s, s ≠ me → k'.space s = k.space s)
    (mine : k'.space me = m) : k'.view = update k.view me m := by
  funext s
  by_cases h : s = me
  · subst h
    rw [update_self]
    exact mine
  · rw [update_of_ne h]
    exact others s h

theorem view_same (me : ProcNo) (others : ∀ s, s ≠ me → k'.space s = k.space s)
    (mine : k'.space me = k.space me) : k'.view = k.view := by
  rw [view_update others mine]
  exact update_eq_self ..

theorem Touched.view (touched : Touched me (k.proc me).pgdir k k') (books : Books cfg reserved k)
    (live : (k.proc me).Live) : k'.view = k.view := by
  refine view_same me (fun s other => ?_) ?_
  · exact space_other books live touched.frame touched.dirs other
      (fun _ _ _ _ => by rw [touched.mem])
  · refine space_congr (touched.frame.sameOwners.live me) (fun _ => touched.frame.mine.state)
      (fun _ => touched.frame.mine.sz) ?_
    intro _ page _
    rw [entry_of_frame touched.frame]
    obtain ⟨a, eq⟩ := touched.entries page
    rw [eq]
    exact userPageOf_congr rfl rfl (fun _ => by rw [touched.mem]; rfl)

section

variable (state : CowState cfg reserved k)
include state

section

variable (live : (k.proc me).Live)
include live

/-- An access the hardware permits goes to a page of the process. -/
theorem CowState.userPage_of_access
    (word : va < 2 ^ 32) {write : Bool} (allowed : k.access me va write = some pte) :
    va < KERNBASE ∧ k.entry me (pageOf va) = pte ∧
      (k.space me).pages (pageOf va) = some ⟨k.mem pte.frame, true⟩ ∧
      (k.space me).userPage va = some (k.mem pte.frame) := by
  obtain ⟨walk, present, user, _⟩ := access_cases allowed
  have eq : k.entry me (pageOf va) = pte := walkpgdir_eq_some walk
  have low : va < KERNBASE := by
    by_contra high
    have := state.kernel me live (pageOf va)
      (by unfold USERPAGES pageOf KERNBASE PGSIZE at *; omega)
    change (k.entry me (pageOf va)).u = false at this
    rw [eq, user] at this
    cases this
  have page : (k.space me).pages (pageOf va) = some ⟨k.mem pte.frame, true⟩ := by
    rw [space_live live]
    simp only
    rw [if_pos (pageOf_low low), eq, userPageOf_present present, user]
  refine ⟨low, eq, page, ?_⟩
  rw [Space.userPage, if_pos low, page]
  rfl

/-- A page of the process that is not copy-on-write can be written. -/
theorem CowState.access_of_userPage (accessible : ((k.space me).userPage va).isSome) :
    (k.access me va false).isSome ∧
      ((k.entry me (pageOf va)).cow = false → (k.access me va true).isSome) := by
  unfold Space.userPage at accessible
  split at accessible
  · rename_i low
    have isLow := pageOf_low low
    rw [space_live live] at accessible
    simp only at accessible
    rw [if_pos isLow] at accessible
    cases present : (k.entry me (pageOf va)).p with
    | false => simp [userPageOf_absent present] at accessible
    | true =>
      have user : (k.entry me (pageOf va)).u = true := by
        rw [userPageOf_present present] at accessible
        by_contra closed
        simp [closed] at accessible
      have walk : walkpgdir (k.dirs (k.proc me).pgdir) va = some (k.entry me (pageOf va)) := by
        apply walkpgdir_of_pteAt
        intro zero
        rw [entry, zero] at present
        cases present
      refine ⟨?_, fun notCow => ?_⟩
      · simp [access, walk, present, user]
      · have writable : (k.entry me (pageOf va)).w = true := by
          rcases (state.plain me live (pageOf va) isLow).2.2 present with w | cow
          · exact w
          · exact absurd cow (by rw [entry] at notCow; simp [notCow])
        simp [access, walk, present, user, writable]
  · simp at accessible

theorem load_simulates {va : UInt32} (loaded : k.load me va.toNat = some (b, k')) :
    k.view.act me (.load va b) = some k'.view := by
  have touched := load_touched loaded
  rw [touched.view state.books live]
  unfold load at loaded
  split at loaded
  · cases loaded
  · rename_i pte allowed
    cases loaded
    have page := (state.userPage_of_access live va.toNat_lt allowed).2.2.2
    change ((k.view me).userPage va.toNat) = _ at page
    simp only [Spaces.act, page]
    rw [if_pos trivial]

/-- A store changes one page of one process, and nothing that another one sees. -/
theorem store_simulates {va : UInt32} (stored : k.store me va.toNat b = some k') :
    k.view.act me (.store va b) = some k'.view ∧
      (∀ s, s ≠ me → k'.space s = k.space s) ∧ CowState cfg reserved k' := by
  obtain ⟨pte, allowed, touched⟩ := store_cases stored
  obtain ⟨_, present, _, writable⟩ := access_cases allowed
  obtain ⟨low, eq, pageEq, page⟩ := state.userPage_of_access live va.toNat_lt allowed
  have filled := state.fill pte.frame (setByte (k.mem pte.frame) (va.toNat % PGSIZE) b)
  have viewed := touched.view filled.books live
  -- No other entry maps the frame.
  have apart : ∀ s q, (k.proc s).Live → q < USERPAGES → (k.entry s q).p = true →
      (s = me → q ≠ pageOf va.toNat) → (k.entry s q).frame ≠ pte.frame := by
    intro s q isLive isLow isPresent other same
    rw [← eq] at same present writable
    obtain ⟨rfl, rfl⟩ := state.sole me (pageOf va.toNat) s q live isLive (pageOf_low low) isLow
      present (writable rfl) isPresent same
    exact other rfl rfl
  have others : ∀ s, s ≠ me →
      (k.fill pte.frame (setByte (k.mem pte.frame) (va.toNat % PGSIZE) b)).space s =
        k.space s := by
    intro s other
    refine space_congr Iff.rfl (fun _ => rfl) (fun _ => rfl) fun isLive q isLow => ?_
    refine userPageOf_congr rfl rfl fun isPresent => fill_mem_other _ _ ?_
    exact apart s q isLive isLow isPresent (fun same => absurd same other)
  refine ⟨?_, ?_, filled.touched live touched⟩
  · change ((k.view me).userPage va.toNat) = _ at page
    rw [viewed]
    simp only [Spaces.act, page]
    rw [view_update others rfl]
    refine congrArg (fun m => some (update k.view me m)) ?_
    have mine : k.view me = _ := space_live live
    rw [mine, space_live (k := k.fill _ _) live]
    refine congrArg (Space.mk _ _) (funext fun q => ?_)
    by_cases here : q = pageOf va.toNat
    · subst here
      rw [update_self, if_pos (pageOf_low low)]
      change _ = userPageOf _ (k.entry me (pageOf va.toNat))
      rw [eq, userPageOf_present present, fill_mem_self, (access_cases allowed).2.2.1]
    · rw [update_of_ne here]
      simp only
      split
      · rename_i isLow
        refine (userPageOf_congr rfl rfl fun isPresent => fill_mem_other _ _ ?_).symm
        exact apart me q live isLow isPresent (fun _ => here)
      · rfl
  · intro s other
    rw [← others s other]
    exact congrFun viewed s

end

end

/-- A frame that is in use keeps its contents. -/
theorem Extended.mem {d : Nat} {range : Nat → Prop} (ext : Extended me d range k k')
    (books : Books cfg reserved k) (low : page < USERPAGES) (live : (k.proc s).Live)
    (present : (k.entry s page).p = true) :
    k'.mem (k.entry s page).frame = k.mem (k.entry s page).frame :=
  (ext.keeps _ (books.ref_ne_zero live low present)).2

theorem Resized.space {sz : Nat} (resized : Resized me sz k k') (live : (k.proc me).Live) :
    k'.view = update k.view me { k.space me with sz := sz } := by
  cases resized
  refine view_update (fun s other => ?_) ?_
  · have same := setProc_other k { k.proc me with sz := sz } other
    refine space_congr (by rw [same]) (fun _ => by rw [same]) (fun _ => by rw [same]) ?_
    intro _ page _
    unfold entry
    rw [same]
    rfl
  · have live' : ((k.setProc me { k.proc me with sz := sz }).proc me).Live := by
      rw [setProc_self]
      exact live
    rw [space_live live', space_live live]
    simp only [entry, setProc_self, setProc_dirs]
    rfl

theorem growproc_simulates (state : CowState cfg reserved k) (live : (k.proc me).Live) {n r : Int}
    (quiet : cfg.excluded .eviction = true) (rich : cfg.excluded .outOfMemory = true)
    (run : k.growproc cfg me n = .ok (r, k')) :
    k.view.act me (.growproc n) = some k'.view ∧ CowState cfg reserved k' := by
  obtain ⟨outcome, books', _⟩ := growproc_quiet quiet state.books state.plain live run
  have small := state.books.small me live
  have mine : k.view me = _ := space_live live
  simp only [Spaces.act]
  cases outcome with
  | unchanged idle same =>
    subst same
    refine ⟨?_, state⟩
    have idle : GrowIdle (k'.view me).sz n := by rwa [mine]
    rw [Space.growproc, if_pos idle, update_eq_self]
  | failed notExcluded => simp [rich] at notExcluded
  | grown k₁ pos low order ext books₁ resized =>
    have inRange : ∀ page, InRange (k.proc me).sz (target (k.proc me).sz n) page →
        page < USERPAGES := fun _ hit => hit.low (Nat.le_of_lt low)
    have state₁ := state.extended live books₁ ext inRange
    have live₁ := (ext.frame.sameOwners.live me).mpr live
    have busy : ¬ GrowIdle (k.proc me).sz n := by
      unfold GrowIdle
      omega
    refine ⟨?_, state₁.resized (by unfold storedSize; split <;> omega) resized⟩
    have view₁ : k₁.view = update k.view me (k₁.space me) :=
      view_update (fun s other => space_other state.books live ext.frame ext.dirs other
        (fun _ low live present => ext.mem state.books low live present)) rfl
    rw [resized.space live₁, view₁, update_idem, mine, space_live live₁,
      Space.growproc, if_neg busy]
    simp only [ext.frame.mine.state, Option.some.injEq]
    refine congrArg (fun pages => update k.view me (Space.mk _ _ pages)) (funext fun page => ?_)
    have noneLost : ¬ (n < 0 ∧ InRange (target (k.proc me).sz n) (k.proc me).sz page) :=
      fun h => absurd h.1 (by omega)
    rw [if_neg noneLost, entry_of_frame ext.frame]
    by_cases hit : InRange (k.proc me).sz (target (k.proc me).sz n) page
    · obtain ⟨f, eq, _, _, zero⟩ := ext.inside page hit
      rw [if_pos ⟨pos, hit⟩, if_pos (inRange page hit), eq, userPageOf_present rfl, zero]
      rfl
    · rw [if_neg (fun h => hit h.2), ext.outside page hit]
      split
      · rename_i isLow
        exact (userPageOf_congr rfl rfl fun present => ext.mem state.books isLow live present).symm
      · rfl
  | shrunk k₁ neg order torn books₁ resized =>
    have inRange : ∀ page, InRange (target (k.proc me).sz n) (k.proc me).sz page →
        page < USERPAGES := fun _ hit => hit.low small
    have state₁ := state.torn live books₁ torn inRange
    have live₁ := (torn.frame.sameOwners.live me).mpr live
    have busy : ¬ GrowIdle (k.proc me).sz n := by
      unfold GrowIdle
      omega
    refine ⟨?_, state₁.resized (by unfold storedSize; split <;> omega) resized⟩
    -- What is still mapped has a reference, so it was not freed.
    have kept : ∀ s page, (k.proc s).Live → page < USERPAGES → (k₁.entry s page).p = true →
        k₁.mem (k₁.entry s page).frame = k.mem (k₁.entry s page).frame := by
      intro s page isLive isLow present
      exact (torn.shrinks _ (books₁.ref_ne_zero ((torn.frame.sameOwners.live s).mpr isLive)
        isLow present)).2
    have view₁ : k₁.view = update k.view me (k₁.space me) := by
      refine view_update (fun s other => ?_) rfl
      refine space_other state.books live torn.frame torn.dirs other ?_
      intro page isLow isLive present
      have eq : k₁.entry s page = k.entry s page := by
        unfold entry
        rw [torn.frame.others s other,
          torn.dirs _ (fun h => other (state.books.ownDir s me isLive live h))]
      rw [← eq] at present ⊢
      exact kept s page isLive isLow present
    rw [resized.space live₁, view₁, update_idem, mine, space_live live₁,
      Space.growproc, if_neg busy]
    simp only [torn.frame.mine.state, Option.some.injEq]
    refine congrArg (fun pages => update k.view me (Space.mk _ _ pages)) (funext fun page => ?_)
    have noneNew : ¬ (0 < n ∧ InRange (k.proc me).sz (target (k.proc me).sz n) page) :=
      fun h => absurd h.1 (by omega)
    rw [if_neg noneNew]
    by_cases hit : InRange (target (k.proc me).sz n) (k.proc me).sz page
    · have gone : (k₁.entry me page).p = false := by
        rw [entry_of_frame torn.frame, torn.inside page hit, Pte.cleared]
        split
        · rfl
        · rename_i absent
          simpa using fun h => absent (Or.inl h)
      rw [if_pos ⟨neg, hit⟩, userPageOf_absent gone]
      split <;> rfl
    · have same : k₁.entry me page = k.entry me page := by
        rw [entry_of_frame torn.frame, torn.outside page hit]
        rfl
      rw [if_neg (fun h => hit h.2)]
      split
      · rename_i isLow
        rw [same]
        refine (userPageOf_congr rfl rfl fun present => ?_).symm
        rw [← same] at present ⊢
        exact kept me page live isLow present
      · rfl

theorem changed_eq_none (none_here : ∀ s, before (k.proc s).state → ¬ after (k'.proc s).state) :
    k.changed k' before after = none := by
  unfold changed
  rw [List.find?_eq_none]
  intro s _
  simpa using none_here s

/-- The one entry that changed. -/
theorem changed_eq_some (here : before (k.proc s).state ∧ after (k'.proc s).state)
    (only : ∀ t, t ≠ s → before (k.proc t).state → ¬ after (k'.proc t).state) :
    k.changed k' before after = some s := by
  unfold changed
  cases found : (List.finRange NPROC).find?
      (fun s => before (k.proc s).state ∧ after (k'.proc s).state) with
  | none =>
    rw [List.find?_eq_none] at found
    exact absurd here (by simpa using found s (List.mem_finRange s))
  | some t =>
    have that := List.find?_some found
    simp only [decide_eq_true_eq] at that
    by_contra other
    exact only t (by simpa using other) that.1 that.2

theorem fork_simulates (state : CowState cfg reserved k) (active : (k.proc me).Active) {r : Int}
    (ok : cfg.Ok) (rich : cfg.excluded .outOfMemory = true)
    (run : k.fork cfg me = .ok (r, k')) :
    k.view.act me (k.actOf me k' .fork) = some k'.view ∧ CowState cfg reserved k' := by
  have live := active.live
  obtain ⟨outcome, books', plain'⟩ := fork_quiet ok state.books state.plain active run
  cases outcome with
  | noSlot same =>
    subst same
    rw [actOf, changed_eq_none (fun s => by simp)]
    exact ⟨rfl, state⟩
  | noMemory notExcluded => simp [rich] at notExcluded
  | done np forked =>
    refine ⟨?_, state.forked live books' plain' forked⟩
    have label : k.changed k' (· = .UNUSED) (· ≠ .UNUSED) = some np := by
      refine changed_eq_some ⟨by simp [forked.vacant], by simp [forked.state]⟩ ?_
      intro t other
      rw [forked.others t other]
      simp
    have vacant : (k.view np).state = .UNUSED := by
      change (k.space np).state = .UNUSED
      rw [space, if_neg (fun h => h.1 forked.vacant)]
      rfl
    rw [actOf, label]
    simp only [Spaces.act, if_pos vacant, Option.some.injEq]
    have kept : ∀ s page, (k.proc s).Live → page < USERPAGES → (k.entry s page).p = true →
        k'.mem (k.entry s page).frame = k.mem (k.entry s page).frame :=
      fun s page isLive low present =>
        (forked.grows _ (state.books.ref_ne_zero isLive low present)).2
    -- A shared entry shows the same page.
    have shows : ∀ page, page < USERPAGES →
        k'.userPageOf (k.entry me page).shared = k.userPageOf (k.entry me page) := by
      intro page low
      unfold Pte.shared
      split
      · exact userPageOf_congr rfl rfl (fun present => kept me page live low present)
      · exact userPageOf_congr rfl rfl (fun present => kept me page live low present)
    refine (view_update (fun s other => ?_) ?_).symm
    · have same := forked.others s other
      refine space_congr (by rw [same]) (fun _ => by rw [same]) (fun _ => by rw [same]) ?_
      intro isLive page low
      by_cases isMe : s = me
      · subst isMe
        have eq : k'.entry s page = pteAt (k'.dirs (k.proc s).pgdir) page := by
          rw [entry, same]
        rw [eq]
        by_cases inside : page < ((k.proc s).sz + PGSIZE - 1) / PGSIZE
        · rw [forked.parentPages page inside]
          exact shows page low
        · rw [forked.parentRest page (by omega)]
          exact userPageOf_congr rfl rfl (fun present => kept s page isLive low present)
      · have eq : k'.entry s page = k.entry s page := by
          unfold entry
          rw [same, forked.dirs]
          · exact fun h => isMe (state.books.ownDir s me isLive live h)
          · exact ne_of_mem_of_not_mem (mem_liveDirs isLive) forked.fresh
        rw [eq]
        exact userPageOf_congr rfl rfl (fun present => kept s page isLive low present)
    · have liveNp : (k'.proc np).Live := (forked.live np).mpr (Or.inr rfl)
      have mine : k.view me = _ := space_live live
      rw [space_live liveNp, mine, Space.copy, forked.state, forked.sz]
      refine congrArg (Space.mk _ _) (funext fun page => ?_)
      simp only [entry]
      by_cases low : page < USERPAGES
      · rw [if_pos low, if_pos low]
        by_cases inside : page < ((k.proc me).sz + PGSIZE - 1) / PGSIZE
        · rw [if_pos inside, forked.childPages page inside]
          exact shows page low
        · rw [if_neg inside, forked.childRest page (by omega) low, userPageOf_absent rfl]
      · rw [if_neg low, if_neg low]
        split <;> rfl

theorem Exited.view (exited : Exited me k k') (live : (k.proc me).Live) :
    k'.view = update k.view me { k.space me with state := .ZOMBIE } := by
  have owners := exited.sameOwners live
  have entries : ∀ s page, k'.userPageOf (k'.entry s page) = k.userPageOf (k.entry s page) := by
    intro s page
    have pgdir := (exited.same s).2.1
    unfold entry
    rw [pgdir]
    obtain ⟨proc, rfl⟩ := exited.rest
    rfl
  refine view_update (fun s other => ?_) ?_
  · exact space_congr (owners.live s) (fun _ => exited.state s other)
      (fun _ => (exited.same s).1) (fun _ page _ => entries s page)
  · rw [space_live ((owners.live me).mpr live), space_live live, exited.zombie, (exited.same me).1]
    simp only [entries]

theorem wait_simulates (state : CowState cfg reserved k) (active : (k.proc me).Active)
    {r : Option Int} (run : k.wait cfg me = .ok (r, k')) :
    k.view.act me (k.actOf me k' .wait) = some k'.view ∧ CowState cfg reserved k' := by
  obtain ⟨outcome, books', plain'⟩ := wait_quiet state.books state.plain active run
  rcases outcome with rfl | ⟨child, zombie, other, reaped⟩
  · rw [actOf, changed_eq_none]
    · exact ⟨rfl, state⟩
    · intro s isZombie isUnused
      simp only [decide_eq_true_eq] at isZombie isUnused
      rw [isZombie] at isUnused
      cases isUnused
  · have live : (k.proc child).Live := by simp [Proc.Live, zombie]
    refine ⟨?_, state.reaped live other books' plain' reaped⟩
    have states : ∀ s, s ≠ child → (k'.proc s).state = (k.proc s).state := by
      intro s notChild
      by_cases isMe : s = me
      · subst isMe
        exact reaped.mine.state
      · rw [reaped.others s isMe notChild]
    have label : k.changed k' (· = .ZOMBIE) (· = .UNUSED) = some child := by
      refine changed_eq_some ⟨by simp [zombie], by simp [reaped.unused]⟩ ?_
      intro t notChild isZombie isUnused
      simp only [decide_eq_true_eq] at isZombie isUnused
      rw [states t notChild, isZombie] at isUnused
      cases isUnused
    have isZombie : (k.view child).state = .ZOMBIE := by
      change (k.space child).state = .ZOMBIE
      rw [space_live live]
      exact zombie
    rw [actOf, label]
    simp only [Spaces.act, if_pos isZombie, Option.some.injEq]
    refine (view_update (fun s notChild => ?_) ?_).symm
    · refine space_congr ?_ (fun _ => states s notChild) (fun _ => (reaped.same notChild).2.2) ?_
      · rw [reaped.live other s]
        simp [notChild]
      · intro isLive page low
        have eq : k'.entry s page = k.entry s page := by
          unfold entry
          rw [(reaped.same notChild).1,
            reaped.dirs _ (fun h => notChild (state.books.ownDir s child isLive live h))]
        refine userPageOf_congr (by rw [eq]) (by rw [eq]) fun present => ?_
        rw [← eq] at present ⊢
        have isLive' : (k'.proc s).Live := (reaped.live other s).mpr ⟨isLive, notChild⟩
        exact (reaped.shrinks _ (books'.ref_ne_zero isLive' low present)).2
    · rw [space, if_neg (fun h => h.1 reaped.unused)]

theorem load_isSome : (k.load me va).isSome = (k.access me va false).isSome := by
  unfold load
  cases k.access me va false <;> rfl

theorem load_eq_none : k.load me va = none ↔ k.access me va false = none := by
  rw [← Option.not_isSome_iff_eq_none, load_isSome, Option.not_isSome_iff_eq_none]

theorem store_isSome :
    (k.store me va b).isSome = (k.access me va true).isSome := by
  unfold store
  cases k.access me va true <;> rfl

theorem store_eq_none :
    k.store me va b = none ↔ k.access me va true = none := by
  rw [← Option.not_isSome_iff_eq_none, store_isSome, Option.not_isSome_iff_eq_none]

/-- A page of one process that only changes its frame, or its permissions, looks the
same to everybody. -/
theorem CowFault.view (fault : CowFault me (k.proc me).pgdir page k k')
    (state : CowState cfg reserved k) (live : (k.proc me).Live)
    (dirs : ∀ e, e ≠ (k.proc me).pgdir → k'.dirs e = k.dirs e) (pages : ∀ q, q ≠ page →
      pteAt (k'.dirs (k.proc me).pgdir) q = pteAt (k.dirs (k.proc me).pgdir) q)
    (frame : Frame me k k') : k'.view = k.view := by
  have kept : ∀ s q, (k.proc s).Live → q < USERPAGES → (k.entry s q).p = true →
      k'.mem (k.entry s q).frame = k.mem (k.entry s q).frame := by
    intro s q isLive low present
    have used := state.books.ref_ne_zero isLive low present
    cases fault with
    | kept _ _ mem => rw [mem]
    | copied f _ _ free _ _ mem =>
      apply mem
      rintro rfl
      exact used free
  refine view_same me (fun s other => ?_) ?_
  · exact space_other state.books live frame dirs other
      (fun q low isLive present => kept s q isLive low present)
  · refine space_congr (frame.sameOwners.live me) (fun _ => frame.mine.state)
      (fun _ => frame.mine.sz) fun _ q low => ?_
    rw [entry_of_frame frame]
    by_cases here : q = page
    · subst here
      cases fault with
      | kept _ _ mem eq =>
        rw [eq]
        exact userPageOf_congr rfl rfl (fun _ => by rw [mem]; rfl)
      | copied f _ _ _ _ copy _ eq =>
        rw [eq]
        exact userPageOf_congr rfl rfl (fun _ => copy)
    · rw [pages q here]
      exact userPageOf_congr rfl rfl (fun present => kept me q live low present)

/-- A fault on a page of the process lets it go on with the access; a fault on any
other page may end it. -/
theorem fault_simulates (state : CowState cfg reserved k) (active : (k.proc me).Active)
    {va : UInt32} (rich : cfg.excluded .outOfMemory = true)
    (trap : (k.access me va.toNat false) = none ∨ (k.access me va.toNat true) = none)
    (run : k.pageFault cfg me va.toNat = .ok k') :
    k.view.act me (.fault va ((k'.proc me).state = .ZOMBIE)) = some k'.view ∧
      CowState cfg reserved k' ∧
      (((k.space me).userPage va.toNat).isSome → (k'.access me va.toNat true).isSome) := by
  have live := active.live
  have alive := active.inUse.2
  cases pageFault_quiet state.books state.plain live run with
  | killed k₁ touched notCow exited =>
    have live₁ := (touched.frame.sameOwners.live me).mpr live
    have state₁ := state.touched live touched
    have viewed := exited.view live₁
    rw [touched.view state.books live] at viewed
    have space₁ : k₁.space me = k.space me := congrFun (touched.view state.books live) me
    -- The page is not one of the process: the access would have been allowed.
    have closed : ((k.space me).userPage va.toNat).isSome = false := by
      by_contra accessible
      have accessible := (Bool.not_eq_false _).mp accessible
      obtain ⟨reads, writes⟩ := state.access_of_userPage live accessible
      have low : va.toNat < KERNBASE := by
        by_contra high
        rw [Space.userPage, if_neg high] at accessible
        cases accessible
      have writes := writes (notCow low)
      rcases trap with none | none
      · simp [none] at reads
      · simp [none] at writes
    refine ⟨?_, state₁.exited live₁ exited, fun accessible => by simp [closed] at accessible⟩
    simp only [Spaces.act, exited.zombie, decide_true, if_true]
    change (if ((k.space me).userPage va.toNat).isSome then none else _) = _
    rw [closed, viewed, space₁]
    rfl
  | cow k₁ k₂ low touched isCow fault dirs pages frame proc books₂ resumed =>
    have live₁ := (touched.frame.sameOwners.live me).mpr live
    have state₁ := state.touched live touched
    have pgdir₁ : (k.proc me).pgdir = (k₁.proc me).pgdir := touched.frame.mine.pgdir.symm
    rw [pgdir₁] at fault dirs pages
    have isLow := pageOf_low low
    have plain₂ := state₁.plain.cowFault fault dirs pages frame
    have state₂ := state₁.cowFault live₁ isLow books₂ plain₂ fault dirs pages frame
    have same : k' = k₂ := by
      rcases resumed with same | ⟨killed, _⟩
      · exact same
      · rw [proc, touched.frame.mine.killed, state.unkilled me alive] at killed
        cases killed
    subst same
    have viewed : k'.view = k.view :=
      (fault.view state₁ live₁ dirs pages frame).trans (touched.view state.books live)
    refine ⟨?_, state₂, fun accessible => ?_⟩
    · have alive' : (k'.proc me).state ≠ .ZOMBIE := by
        rwa [frame.mine.state, touched.frame.mine.state]
      simp only [Spaces.act, alive', decide_false, Bool.false_eq_true, if_false, viewed]
    · have space' : k'.space me = k.space me := congrFun viewed me
      rw [← space'] at accessible
      refine (state₂.access_of_userPage ((frame.sameOwners.live me).mpr live₁) accessible).2 ?_
      rw [entry_of_frame frame]
      cases fault with
      | kept _ _ _ eq | copied _ _ _ _ _ _ _ eq => rw [eq]
  | failed k₁ k₂ low touched isCow failed =>
    obtain ⟨_, _, notExcluded, _⟩ := failed
    simp [rich] at notExcluded

/-- Every step is the corresponding step with private memory. -/
theorem CowState.step (state : CowState cfg reserved k) (ok : cfg.Ok)
    (quiet : cfg.excluded .eviction = true) (rich : cfg.excluded .outOfMemory = true)
    {label : ProcNo × Act} (acts : Acts cfg k label k') :
    k.view.Step label k'.view ∧ CowState cfg reserved k' := by
  obtain ⟨me, act⟩ := label
  obtain ⟨op, active, run, same⟩ := acts
  simp only at active run same
  subst same
  have live := active.live
  simp only [Spaces.Step]
  cases op with
  | load va =>
    simp only [Kernel.step] at run
    simp only [actOf]
    cases loaded : k.load me va.toNat with
    | none =>
      rw [loaded] at run
      have trap := load_eq_none.mp loaded
      obtain ⟨sim, state', _⟩ := fault_simulates state active rich (Or.inl trap) run
      exact ⟨sim, state'⟩
    | some result =>
      rw [loaded] at run
      cases run
      exact ⟨load_simulates state live loaded, state.touched live (load_touched loaded)⟩
  | store va b =>
    simp only [Kernel.step] at run
    simp only [actOf]
    cases stored : k.store me va.toNat b with
    | none =>
      rw [stored] at run
      have trap := store_eq_none.mp stored
      obtain ⟨sim, state', _⟩ := fault_simulates state active rich (Or.inr trap) run
      exact ⟨sim, state'⟩
    | some result =>
      rw [stored] at run
      cases run
      obtain ⟨sim, _, state'⟩ := store_simulates state live stored
      exact ⟨sim, state'⟩
  | growproc n =>
    obtain ⟨⟨r, k₁⟩, called, done⟩ := Res.bind_ok.mp run
    cases done
    exact growproc_simulates state live quiet rich called
  | fork =>
    obtain ⟨⟨r, k₁⟩, called, done⟩ := Res.bind_ok.mp run
    cases done
    exact fork_simulates state active ok rich called
  | exit =>
    have exited := exit_exited run
    refine ⟨?_, state.exited live exited⟩
    simp only [actOf, Spaces.act, exited.view live]
    rfl
  | wait =>
    obtain ⟨⟨r, k₁⟩, called, done⟩ := Res.bind_ok.mp run
    cases done
    exact wait_simulates state active called

end View

/-- Copy-on-write `fork` agrees with a `fork` that copies. In every run without paging
and without memory shortage the processes do and observe what they would with private
memory, and the state reached looks like the one reached there. No mapped frame is
free, a store changes nothing another process sees, and user code can read its pages,
and write them after at most one fault. -/
theorem cow_fork_agrees_with_copy (cfg : Config) {reserved : Set Nat} {k₀ k : Kernel}
    {labels : List (ProcNo × Act)} (ok : cfg.Ok) (quiet : cfg.excluded .eviction = true)
    (rich : cfg.excluded .outOfMemory = true) (start : CowState cfg reserved k₀)
    (run : Lts.Run (Acts cfg) k₀ labels k) :
    (∀ m, Lts.Run Spaces.Step k₀.view labels m ↔ m = k.view) ∧
      (∀ s page, (k.proc s).Live → page < USERPAGES → (k.entry s page).p = true →
        1 ≤ k.kmem.ref (k.entry s page).frame) ∧
      (∀ me va b k', (k.proc me).Active → k.step cfg me (.store va b) = .ok k' →
        ∀ s, s ≠ me → k'.view s = k.view s) ∧
      ∀ me va, (k.proc me).Active → ((k.view me).userPage (UInt32.toNat va)).isSome →
        (k.load me va.toNat).isSome ∧
        ∀ b k', k.store me va.toNat b = none → k.step cfg me (.store va b) = .ok k' →
          (k'.store me va.toNat b).isSome := by
  obtain ⟨m, sim, state, rfl⟩ := run.simulate
    (R := fun k m => CowState cfg reserved k ∧ k.view = m)
    (fun k m label k' related acts => by
      obtain ⟨state, rfl⟩ := related
      obtain ⟨step, state'⟩ := state.step ok quiet rich acts
      exact ⟨k'.view, step, state', rfl⟩) ⟨start, rfl⟩
  refine ⟨fun m => ⟨fun other => ?_, fun same => same ▸ sim⟩, ?_, ?_, ?_⟩
  · exact (sim.deterministic Spaces.Step.unique other).symm
  · intro s page live low present
    exact state.books.owns.balanced.ref_pos (cells_entry live low present)
  · intro me va b k' active stepped s other
    cases stored : k.store me va.toNat b with
    | none =>
      have acts : Acts cfg k (me, k.actOf me k' (.store va b)) k' :=
        ⟨.store va b, active, stepped, rfl⟩
      have := (state.step ok quiet rich acts).1
      simp only [Spaces.Step, actOf, stored, Spaces.act] at this
      split at this
      · split at this
        · cases this
        · rw [← Option.some.inj this]
          exact update_of_ne other ..
      · exact (congrFun (Option.some.inj this) s).symm
    | some k'' =>
      simp only [Kernel.step, stored] at stepped
      cases stepped
      exact (store_simulates state active.live stored).2.1 s other
  · intro me va active accessible
    refine ⟨?_, fun b k' trapped stepped => ?_⟩
    · rw [load_isSome]
      exact (state.access_of_userPage active.live accessible).1
    · have trap := store_eq_none.mp trapped
      simp only [Kernel.step, trapped] at stepped
      rw [store_isSome]
      exact (fault_simulates state active rich (Or.inr trap) stepped).2.2 accessible

/-- A build without a policy, in runs that exclude eviction and memory shortage. -/
def richConfig : Config where
  sel := .NONE
  kernelEnd := 0x80115000
  kernelData := 0x80108000
  excluded _ := true

theorem sharers_cowState : CowState richConfig ∅ (sharers 1) where
  books := sharers_books rfl (by decide)
  plain := sharers_plain 1
  sole := by
    intro s page s' page' live _ _ _ _ writable
    rw [entry, sharers_entry live, sharedEntries] at writable
    split at writable <;> cases writable
  kernel := by
    intro s live page above
    have high : page ≠ 0 := by
      unfold USERPAGES KERNBASE PGSIZE at above
      omega
    rw [sharers_entry live, sharedEntries, if_neg high]
    rfl
  unkilled := by
    intro s _
    simp only [sharers]
    split
    · rfl
    · split <;> rfl

/-- The child of two sharers writes its copy; the parent still reads the old byte. -/
theorem cow_fork_agrees_sharers :
    ∃ k, Lts.Run (Acts richConfig) (sharers 1)
        [(1, .fault 0 false), (1, .store 0 7), (0, .load 0 0)] k ∧
      Lts.Run Spaces.Step (sharers 1).view
        [(1, .fault 0 false), (1, .store 0 7), (0, .load 0 0)] k.view := by
  obtain ⟨k, run⟩ : ∃ k, Lts.Run (Acts richConfig) (sharers 1)
      [(1, .fault 0 false), (1, .store 0 7), (0, .load 0 0)] k :=
    ⟨_, (((Lts.Run.nil _).snoc ⟨.store 0 7, Or.inl rfl, rfl, rfl⟩).snoc
      ⟨.store 0 7, Or.inl rfl, rfl, rfl⟩).snoc ⟨.load 0, Or.inl rfl, rfl, rfl⟩⟩
  have agrees := cow_fork_agrees_with_copy richConfig ⟨by decide, by decide⟩ rfl rfl
    sharers_cowState run
  exact ⟨k, run, (agrees.1 k.view).mpr rfl⟩

end Kernel

end Xv6
