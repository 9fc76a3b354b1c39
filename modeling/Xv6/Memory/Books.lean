import Xv6.Memory.FaultAccounts
import Xv6.Memory.Process

/-!
The books of the whole kernel: every process that is not `UNUSED` or `EMBRYO` owns
its page directory and its kernel stack, and all counts balance with what these
directories and stacks hold. The process operations keep the books; each lemma
also says what else a successful call leaves alone.
-/

namespace Xv6

open Finset Ledger

theorem Proc.Active.live {p : Proc} (active : p.Active) : p.Live := by
  rcases active with h | h <;> simp [Proc.Live, h]

namespace Kernel

/-- The page directories in use. -/
def liveDirs (k : Kernel) : Finset Nat :=
  (Finset.univ.filter (fun s => (k.proc s).Live)).image (fun s => (k.proc s).pgdir)

/-- The kernel stacks in use. -/
def liveStacks (k : Kernel) : Finset Nat :=
  (Finset.univ.filter (fun s => (k.proc s).Live)).image (fun s => (k.proc s).kstack)

structure Books (cfg : Config) (reserved : Set Nat) (k : Kernel) : Prop where
  owns : Owns cfg k.kmem reserved (cells k.dirs k.liveDirs k.liveStacks)
  ownDir : ∀ s s', (k.proc s).Live → (k.proc s').Live →
    (k.proc s).pgdir = (k.proc s').pgdir → s = s'
  ownStack : ∀ s s', (k.proc s).Live → (k.proc s').Live →
    (k.proc s).kstack = (k.proc s').kstack → s = s'
  small : ∀ s, (k.proc s).Live → (k.proc s).sz ≤ KERNBASE

variable {k : Kernel} {s me : ProcNo} {k' : Kernel} {cfg : Config} {reserved : Set Nat}

theorem mem_liveDirs (live : (k.proc s).Live) : (k.proc s).pgdir ∈ k.liveDirs :=
  mem_image.mpr ⟨s, mem_filter.mpr ⟨mem_univ s, live⟩, rfl⟩

theorem mem_liveDirs_iff {d : Nat} :
    d ∈ k.liveDirs ↔ ∃ s, (k.proc s).Live ∧ (k.proc s).pgdir = d := by
  simp [liveDirs]

theorem mem_liveStacks (live : (k.proc s).Live) : (k.proc s).kstack ∈ k.liveStacks :=
  mem_image.mpr ⟨s, mem_filter.mpr ⟨mem_univ s, live⟩, rfl⟩

theorem mem_liveStacks_iff {f : Nat} :
    f ∈ k.liveStacks ↔ ∃ s, (k.proc s).Live ∧ (k.proc s).kstack = f := by
  simp [liveStacks]

theorem card_liveDirs (k : Kernel) : k.liveDirs.card ≤ NPROC := by
  refine le_trans card_image_le ?_
  refine le_trans (card_le_univ _) ?_
  simp

/-- Two states whose processes agree on directory, stack and liveness. -/
structure SameOwners (k k' : Kernel) : Prop where
  live : ∀ s, (k'.proc s).Live ↔ (k.proc s).Live
  pgdir : ∀ s, (k.proc s).Live → (k'.proc s).pgdir = (k.proc s).pgdir
  kstack : ∀ s, (k.proc s).Live → (k'.proc s).kstack = (k.proc s).kstack

theorem SameOwners.dirs (same : SameOwners k k') : k'.liveDirs = k.liveDirs := by
  ext d
  simp only [mem_liveDirs_iff, same.live]
  exact exists_congr fun s => and_congr_right fun live => by rw [same.pgdir s live]

theorem SameOwners.stacks (same : SameOwners k k') :
    k'.liveStacks = k.liveStacks := by
  ext f
  simp only [mem_liveStacks_iff, same.live]
  exact exists_congr fun s => and_congr_right fun live => by rw [same.kstack s live]

theorem SameOwners.books (same : SameOwners k k') (books : Books cfg reserved k)
    (owns : Owns cfg k'.kmem reserved (cells k'.dirs k.liveDirs k.liveStacks))
    (small : ∀ s, (k'.proc s).Live → (k'.proc s).sz ≤ KERNBASE) : Books cfg reserved k' where
  owns := by
    rw [same.dirs, same.stacks]
    exact owns
  ownDir s s' live live' eq := by
    have live := (same.live s).mp live
    have live' := (same.live s').mp live'
    exact books.ownDir s s' live live' (by rw [← same.pgdir s live, ← same.pgdir s' live', eq])
  ownStack s s' live live' eq := by
    have live := (same.live s).mp live
    have live' := (same.live s').mp live'
    exact books.ownStack s s' live live' (by rw [← same.kstack s live, ← same.kstack s' live', eq])
  small := small

theorem Frame.sameOwners (frame : Frame me k k') :
    SameOwners k k' where
  live s := by
    by_cases h : s = me
    · subst h
      unfold Proc.Live
      rw [frame.mine.state]
    · rw [frame.others s h]
  pgdir s _ := by
    by_cases h : s = me
    · rw [h, frame.mine.pgdir]
    · rw [frame.others s h]
  kstack s _ := by
    by_cases h : s = me
    · rw [h, frame.mine.kstack]
    · rw [frame.others s h]

theorem Frame.sz (frame : Frame me k k') (s : ProcNo) :
    (k'.proc s).sz = (k.proc s).sz := by
  by_cases h : s = me
  · rw [h, frame.mine.sz]
  · rw [frame.others s h]

theorem Books.of_frame (books : Books cfg reserved k) (frame : Frame me k k')
    (owns : Owns cfg k'.kmem reserved (cells k'.dirs k.liveDirs k.liveStacks)) :
    Books cfg reserved k' :=
  frame.sameOwners.books books owns (fun s live => by
    rw [frame.sz s]
    exact books.small s ((frame.sameOwners.live s).mp live))

theorem Books.touched {d : Nat} (books : Books cfg reserved k) (touched : Touched me d k k') :
    Books cfg reserved k' :=
  books.of_frame touched.frame (by rw [touched.kmem, touched.cells]; exact books.owns)

section Exit

variable {cfg : Config} {k k' : Kernel} {reserved : Set Nat} {me : ProcNo}

/-- A process that exits stays in the table as a zombie. -/
structure Exited (me : ProcNo) (k k' : Kernel) : Prop where
  rest : ∃ proc, k' = { k with proc := proc }
  notInit : me ≠ k.initproc
  zombie : (k'.proc me).state = .ZOMBIE
  state : ∀ s, s ≠ me → (k'.proc s).state = (k.proc s).state
  same : ∀ s, (k'.proc s).sz = (k.proc s).sz ∧ (k'.proc s).pgdir = (k.proc s).pgdir ∧
    (k'.proc s).kstack = (k.proc s).kstack ∧ (k'.proc s).pid = (k.proc s).pid ∧
    (k'.proc s).paging = (k.proc s).paging
  others : ∀ s, s ≠ me → (k'.proc s).swapFile = (k.proc s).swapFile ∧
    (k'.proc s).killed = (k.proc s).killed

theorem exit_exited (run : k.exit me = .ok k') : Exited me k k' := by
  unfold exit at run
  split at run
  · cases run
  · rename_i notInit
    simp only at run
    split at run
    · cases run
    · cases run
      refine ⟨⟨_, rfl⟩, notInit, by simp, ?_, ?_, ?_⟩
      · intro s other
        rw [setProc_other _ _ other]
        simp only [reparent, setProc_other _ _ other]
        split <;> rfl
      · intro s
        by_cases h : s = me
        · subst h
          rw [setProc_self]
          simp only [reparent, setProc_self]
          split <;> exact ⟨rfl, rfl, rfl, rfl, rfl⟩
        · rw [setProc_other _ _ h]
          simp only [reparent, setProc_other _ _ h]
          split <;> exact ⟨rfl, rfl, rfl, rfl, rfl⟩
      · intro s other
        rw [setProc_other _ _ other]
        simp only [reparent, setProc_other _ _ other]
        split <;> exact ⟨rfl, rfl⟩

/-- To be killed first makes no difference. -/
theorem Exited.of_kill (exited : Exited me (k.kill me) k') : Exited me k k' := by
  obtain ⟨rest, notInit, zombie, state, same, others⟩ := exited
  have other : ∀ s, s ≠ me → (k.kill me).proc s = k.proc s := fun s h => setProc_other _ _ h
  refine ⟨rest, notInit, zombie, fun s h => (state s h).trans (by rw [other s h]), ?_,
    fun s h => by rw [← other s h]; exact others s h⟩
  intro s
  by_cases h : s = me
  · subst h
    have mine := same s
    rw [kill, setProc_self] at mine
    exact mine
  · rw [← other s h]
    exact same s

theorem Exited.sameOwners (exited : Exited me k k') (live : (k.proc me).Live) :
    SameOwners k k' where
  live s := by
    by_cases h : s = me
    · subst h
      simp [Proc.Live, exited.zombie]
      exact live
    · unfold Proc.Live
      rw [exited.state s h]
  pgdir s _ := (exited.same s).2.1
  kstack s _ := (exited.same s).2.2.1

theorem Exited.books (exited : Exited me k k') (live : (k.proc me).Live)
    (books : Books cfg reserved k) : Books cfg reserved k' := by
  have same := exited.sameOwners live
  obtain ⟨proc, rfl⟩ := exited.rest
  refine same.books books books.owns fun s isLive => ?_
  rw [(exited.same s).1]
  exact books.small s ((same.live s).mp isLive)

end Exit

section Wait

variable {cfg : Config} {k k' : Kernel} {reserved : Set Nat} {me child : ProcNo}

/-- The entry of the child in the process table is free again. -/
structure Reaped (me child : ProcNo) (k k' : Kernel) : Prop where
  dirs : ∀ e, e ≠ (k.proc child).pgdir → k'.dirs e = k.dirs e
  shrinks : Shrinks k k'
  others : ∀ s, s ≠ me → s ≠ child → k'.proc s = k.proc s
  mine : (k.proc me).Same (k'.proc me)
  unused : (k'.proc child).state = .UNUSED
  unkilled : (k'.proc child).killed = false
  nextpid : k'.nextpid = k.nextpid
  initproc : k'.initproc = k.initproc

section

variable (reaped : Reaped me child k k')
include reaped

theorem Reaped.live (other : child ≠ me) (s : ProcNo) :
    (k'.proc s).Live ↔ (k.proc s).Live ∧ s ≠ child := by
  by_cases isChild : s = child
  · subst isChild
    simp [Proc.Live, reaped.unused]
  · by_cases isMe : s = me
    · subst isMe
      unfold Proc.Live
      rw [reaped.mine.state]
      simp [isChild]
    · rw [reaped.others s isMe isChild]
      simp [isChild]

theorem Reaped.same {s : ProcNo} (notChild : s ≠ child) :
    (k'.proc s).pgdir = (k.proc s).pgdir ∧ (k'.proc s).kstack = (k.proc s).kstack ∧
      (k'.proc s).sz = (k.proc s).sz := by
  by_cases isMe : s = me
  · subst isMe
    exact ⟨reaped.mine.pgdir, reaped.mine.kstack, reaped.mine.sz⟩
  · rw [reaped.others s isMe notChild]
    exact ⟨rfl, rfl, rfl⟩

theorem Reaped.liveDirs (other : child ≠ me)
    (books : Books cfg reserved k) (live : (k.proc child).Live) :
    k'.liveDirs = k.liveDirs.erase (k.proc child).pgdir := by
  ext d
  simp only [mem_liveDirs_iff, mem_erase, reaped.live other]
  constructor
  · rintro ⟨s, ⟨isLive, notChild⟩, rfl⟩
    rw [(reaped.same notChild).1]
    exact ⟨fun eq => notChild (books.ownDir s child isLive live eq), s, isLive, rfl⟩
  · rintro ⟨notHere, s, isLive, rfl⟩
    have notChild : s ≠ child := by
      rintro rfl
      exact notHere rfl
    exact ⟨s, ⟨isLive, notChild⟩, (reaped.same notChild).1⟩

theorem Reaped.liveStacks (other : child ≠ me)
    (books : Books cfg reserved k) (live : (k.proc child).Live) :
    k'.liveStacks = k.liveStacks.erase (k.proc child).kstack := by
  ext f
  simp only [mem_liveStacks_iff, mem_erase, reaped.live other]
  constructor
  · rintro ⟨s, ⟨isLive, notChild⟩, rfl⟩
    rw [(reaped.same notChild).2.1]
    exact ⟨fun eq => notChild (books.ownStack s child isLive live eq), s, isLive, rfl⟩
  · rintro ⟨notHere, s, isLive, rfl⟩
    have notChild : s ≠ child := by
      rintro rfl
      exact notHere rfl
    exact ⟨s, ⟨isLive, notChild⟩, (reaped.same notChild).2.1⟩

end

theorem reap_books {pid : Int} (books : Books cfg reserved k) (live : (k.proc child).Live)
    (other : child ≠ me) (stale : StaleFree k (k.proc child).pgdir (· < USERPAGES))
    (run : k.reap cfg me child = .ok (pid, k')) :
    Reaped me child k k' ∧ Books cfg reserved k' := by
  simp only [reap, Res.bind_ok] at run
  obtain ⟨k₁, dropped, k₂, freed, done⟩ := run
  cases done
  obtain ⟨km, mem, rfl, owns₁, shrinks₁⟩ :=
    dropFrame_owns books.owns (cells_one (mem_liveStacks live)) dropped
  rw [← cells_one_erase] at owns₁
  obtain ⟨owns₂, dirs, shrinks₂, frame⟩ := freevm_owns owns₁ (mem_liveDirs live)
    (fun page low absent paged => shrinks₁.ref_zero (stale page low absent paged)) freed
  have reaped : Reaped me child k (k₂.setProc child (unused (k₂.proc child))) := by
    refine ⟨dirs, shrinks₁.trans shrinks₂, ?_, ?_, ?_, ?_, frame.nextpid, frame.initproc⟩
    · intro s notMe notChild
      rw [setProc_other _ _ notChild, frame.others s notMe]
    · rw [setProc_other _ _ other.symm]
      exact frame.mine
    · rw [setProc_self]
      rfl
    · rw [setProc_self]
      rfl
  refine ⟨reaped, ⟨?_, ?_, ?_, ?_⟩⟩
  · rw [reaped.liveDirs other books live, reaped.liveStacks other books live]
    exact owns₂
  · intro s s' isLive isLive' eq
    obtain ⟨isLive, notChild⟩ := (reaped.live other s).mp isLive
    obtain ⟨isLive', notChild'⟩ := (reaped.live other s').mp isLive'
    rw [(reaped.same notChild).1, (reaped.same notChild').1] at eq
    exact books.ownDir s s' isLive isLive' eq
  · intro s s' isLive isLive' eq
    obtain ⟨isLive, notChild⟩ := (reaped.live other s).mp isLive
    obtain ⟨isLive', notChild'⟩ := (reaped.live other s').mp isLive'
    rw [(reaped.same notChild).2.1, (reaped.same notChild').2.1] at eq
    exact books.ownStack s s' isLive isLive' eq
  · intro s isLive
    obtain ⟨isLive, notChild⟩ := (reaped.live other s).mp isLive
    rw [(reaped.same notChild).2.2]
    exact books.small s isLive

theorem wait_cases {r : Option Int} (run : k.wait cfg me = .ok (r, k')) :
    k' = k ∨ ∃ child pid, (k.proc child).parent = some me ∧ (k.proc child).state = .ZOMBIE ∧
      k.reap cfg me child = .ok (pid, k') := by
  unfold wait at run
  split at run
  · rename_i child found
    simp only [Res.bind_ok] at run
    obtain ⟨⟨pid, k₁⟩, reaped, done⟩ := run
    cases done
    have isChild := List.find?_some found
    simp only [decide_eq_true_eq] at isChild
    exact Or.inr ⟨child, pid, isChild.1, isChild.2, reaped⟩
  · split at run <;> cases run <;> exact Or.inl rfl

end Wait

section Fork

variable {cfg : Config} {k k' : Kernel} {reserved : Set Nat} {me np : ProcNo}

/-- The kernel after a successful `allocproc`: the new process has its stack in `f`. -/
def embryo (k : Kernel) (np : ProcNo) (f : Nat) (km : Kmem) : Kernel :=
  { k with kmem := km, nextpid := wrapInt (k.nextpid + 1) }.setProc np
    { k.proc np with
      state := .EMBRYO
      pid := k.nextpid
      kstack := f
      paging := freshPaging (k.proc np).paging
      swapFile := if 2 < k.nextpid then some .empty else (k.proc np).swapFile }

theorem allocproc_cases {r : Option ProcNo} (run : k.allocproc cfg = .ok (r, k')) :
    (r = none ∧ k' = k) ∨
      (r = none ∧ cfg.excluded .outOfMemory = false ∧ k'.kmem = k.kmem ∧ k'.dirs = k.dirs ∧
        ∃ np, (k.proc np).state = .UNUSED ∧ (k'.proc np).state = .UNUSED ∧
          ∀ s, s ≠ np → k'.proc s = k.proc s) ∨
      ∃ np f km, r = some np ∧ (k.proc np).state = .UNUSED ∧ k.kmem.pop = some (f, km) ∧
        k' = k.embryo np f km := by
  unfold allocproc at run
  split at run
  · cases run
    exact Or.inl ⟨rfl, rfl⟩
  · right
    rename_i s found
    have isFree := List.find?_some found
    simp only [decide_eq_true_eq] at isFree
    simp only [Res.bind_ok] at run
    obtain ⟨⟨page, k₁⟩, allocated, run⟩ := run
    cases page with
    | none =>
      obtain ⟨same, _, notExcluded⟩ := kalloc_none allocated
      rw [same] at run
      cases run
      refine Or.inl ⟨rfl, notExcluded, rfl, rfl, s, isFree, ?_, fun s' h => ?_⟩
      · rw [setProc_self]
        exact isFree
      · rw [setProc_other _ _ h]
    | some f =>
      obtain ⟨km, popped, rfl⟩ := kalloc_some allocated
      cases run
      exact Or.inr ⟨s, f, km, rfl, isFree, popped, rfl⟩

theorem copySlot_cases {i : Slot} (run : k.copySlot me np i = .ok k') :
    k'.kmem = k.kmem ∧ k'.mem = k.mem ∧ k'.dirs = k.dirs ∧ k'.nextpid = k.nextpid ∧
      k'.initproc = k.initproc ∧ (∀ s, s ≠ np → k'.proc s = k.proc s) ∧
      ∃ file, k'.proc np = { k.proc np with swapFile := file } := by
  unfold copySlot at run
  simp only at run
  split at run
  · simp only [Res.bind_ok, writeSwap] at run
    obtain ⟨page, _, run⟩ := run
    split at run
    · cases run
    · cases run
      refine ⟨rfl, rfl, rfl, rfl, rfl, fun s other => ?_, ?_⟩
      · rw [record_proc, setProc_other _ _ other]
      · rw [record_proc, setProc_self]
        exact ⟨_, rfl⟩
  · cases run
    exact ⟨rfl, rfl, rfl, rfl, rfl, fun _ _ => rfl, (k.proc np).swapFile, rfl⟩

theorem copySlots_cases (l : List Slot)
    (run : l.foldlM (fun k i => copySlot k me np i) k = .ok k') :
    k'.kmem = k.kmem ∧ k'.mem = k.mem ∧ k'.dirs = k.dirs ∧ k'.nextpid = k.nextpid ∧
      k'.initproc = k.initproc ∧ (∀ s, s ≠ np → k'.proc s = k.proc s) ∧
      ∃ file, k'.proc np = { k.proc np with swapFile := file } := by
  induction l generalizing k with
  | nil =>
    cases run
    exact ⟨rfl, rfl, rfl, rfl, rfl, fun _ _ => rfl, _, rfl⟩
  | cons i l ih =>
    simp only [List.foldlM_cons, Res.bind_ok] at run
    obtain ⟨k₁, first, run⟩ := run
    obtain ⟨kmem, mem, dirs, nextpid, initproc, others, file, mine⟩ := copySlot_cases first
    obtain ⟨kmem', mem', dirs', nextpid', initproc', others', file', mine'⟩ := ih run
    refine ⟨kmem'.trans kmem, mem'.trans mem, dirs'.trans dirs, nextpid'.trans nextpid,
      initproc'.trans initproc, fun s other => (others' s other).trans (others s other),
      file', ?_⟩
    rw [mine', mine]

/-- A successful `fork`: the child shares every page of the parent. -/
structure Forked (me np : ProcNo) (k k' : Kernel) : Prop where
  vacant : (k.proc np).state = .UNUSED
  others : ∀ s, s ≠ np → k'.proc s = k.proc s
  state : (k'.proc np).state = .RUNNABLE
  pid : (k'.proc np).pid = k.nextpid
  sz : (k'.proc np).sz = (k.proc me).sz
  parent : (k'.proc np).parent = some me
  killed : (k'.proc np).killed = (k.proc np).killed
  paging : (k'.proc np).paging = (k.proc me).paging.forkCopy (freshPaging (k.proc np).paging)
    (2 < (k.proc me).pid)
  fresh : (k'.proc np).pgdir ∉ k.liveDirs
  dirs : ∀ e, e ≠ (k.proc me).pgdir → e ≠ (k'.proc np).pgdir → k'.dirs e = k.dirs e
  parentPages : ∀ page, page < ((k.proc me).sz + PGSIZE - 1) / PGSIZE →
    pteAt (k'.dirs (k.proc me).pgdir) page = (pteAt (k.dirs (k.proc me).pgdir) page).shared
  childPages : ∀ page, page < ((k.proc me).sz + PGSIZE - 1) / PGSIZE →
    pteAt (k'.dirs (k'.proc np).pgdir) page = (pteAt (k.dirs (k.proc me).pgdir) page).shared
  inUse : ∀ page, page < ((k.proc me).sz + PGSIZE - 1) / PGSIZE →
    (pteAt (k.dirs (k.proc me).pgdir) page).p ∨ (pteAt (k.dirs (k.proc me).pgdir) page).pg
  parentRest : ∀ page, ((k.proc me).sz + PGSIZE - 1) / PGSIZE ≤ page →
    pteAt (k'.dirs (k.proc me).pgdir) page = pteAt (k.dirs (k.proc me).pgdir) page
  childRest : ∀ page, ((k.proc me).sz + PGSIZE - 1) / PGSIZE ≤ page → page < USERPAGES →
    pteAt (k'.dirs (k'.proc np).pgdir) page = .zero
  childKernel : Supervisor (k'.dirs (k'.proc np).pgdir)
  grows : Grows k k'
  initproc : k'.initproc = k.initproc

section

variable (forked : Forked me np k k')
include forked

theorem Forked.notNp {s : ProcNo} (live : (k.proc s).Live) :
    s ≠ np := by
  rintro rfl
  exact live.1 forked.vacant

theorem Forked.live (s : ProcNo) :
    (k'.proc s).Live ↔ (k.proc s).Live ∨ s = np := by
  by_cases h : s = np
  · subst h
    simp [Proc.Live, forked.state]
  · rw [forked.others s h]
    simp [h]

theorem Forked.exists_live (f : Proc → Nat) (x : Nat) :
    (∃ s, (k'.proc s).Live ∧ f (k'.proc s) = x) ↔
      x = f (k'.proc np) ∨ ∃ s, (k.proc s).Live ∧ f (k.proc s) = x := by
  simp only [forked.live]
  constructor
  · rintro ⟨s, live | rfl, rfl⟩
    · right
      rw [forked.others s (forked.notNp live)]
      exact ⟨s, live, rfl⟩
    · exact Or.inl rfl
  · rintro (rfl | ⟨s, live, rfl⟩)
    · exact ⟨np, Or.inr rfl, rfl⟩
    · exact ⟨s, Or.inl live, by rw [forked.others s (forked.notNp live)]⟩

theorem Forked.liveDirs : k'.liveDirs = insert (k'.proc np).pgdir k.liveDirs := by
  ext d
  simpa only [mem_liveDirs_iff, mem_insert] using forked.exists_live Proc.pgdir d

theorem Forked.liveStacks : k'.liveStacks = insert (k'.proc np).kstack k.liveStacks := by
  ext f
  simpa only [mem_liveStacks_iff, mem_insert] using forked.exists_live Proc.kstack f

theorem Forked.own (f : Proc → Nat)
    (own : ∀ s s', (k.proc s).Live → (k.proc s').Live → f (k.proc s) = f (k.proc s') → s = s')
    (fresh : ∀ s, (k.proc s).Live → f (k.proc s) ≠ f (k'.proc np)) (s s' : ProcNo)
    (live : (k'.proc s).Live) (live' : (k'.proc s').Live) (eq : f (k'.proc s) = f (k'.proc s')) :
    s = s' := by
  rcases (forked.live s).mp live with live | rfl
  · rw [forked.others s (forked.notNp live)] at eq
    rcases (forked.live s').mp live' with live' | rfl
    · rw [forked.others s' (forked.notNp live')] at eq
      exact own s s' live live' eq
    · exact absurd eq (fresh s live)
  · rcases (forked.live s').mp live' with live' | same
    · rw [forked.others s' (forked.notNp live')] at eq
      exact absurd eq.symm (fresh s' live')
    · exact same.symm

theorem Forked.books (books : Books cfg reserved k)
    (parent : (k.proc me).Live) (freshStack : (k'.proc np).kstack ∉ k.liveStacks)
    (owns : Owns cfg k'.kmem reserved (cells k'.dirs (insert (k'.proc np).pgdir k.liveDirs)
      (insert (k'.proc np).kstack k.liveStacks))) : Books cfg reserved k' where
  owns := by
    rw [forked.liveDirs, forked.liveStacks]
    exact owns
  ownDir := forked.own Proc.pgdir books.ownDir fun _ live same =>
    forked.fresh (same ▸ mem_liveDirs live)
  ownStack := forked.own Proc.kstack books.ownStack fun _ live same =>
    freshStack (same ▸ mem_liveStacks live)
  small s live := by
    rcases (forked.live s).mp live with live | rfl
    · rw [forked.others s (forked.notNp live)]
      exact books.small s live
    · rw [forked.sz]
      exact books.small me parent

end

/-- A `fork` that ran out of memory. Entries of the parent may have become
copy-on-write. -/
structure ForkFailed (me : ProcNo) (k k' : Kernel) : Prop where
  owners : SameOwners k k'
  sz : ∀ s, (k.proc s).Live → (k'.proc s).sz = (k.proc s).sz
  state : ∀ s, (k.proc s).Live → (k'.proc s).state = (k.proc s).state
  dirs : ∀ e ∈ k.liveDirs, e ≠ (k.proc me).pgdir → k'.dirs e = k.dirs e
  pages : ∀ page, pteAt (k'.dirs (k.proc me).pgdir) page = pteAt (k.dirs (k.proc me).pgdir) page ∨
    pteAt (k'.dirs (k.proc me).pgdir) page = (pteAt (k.dirs (k.proc me).pgdir) page).shared

inductive ForkOutcome (cfg : Config) (me : ProcNo) (k k' : Kernel) : Prop
  | noSlot (same : k' = k)
  | noMemory (notExcluded : cfg.excluded .outOfMemory = false) (failed : ForkFailed me k k')
  | done (np : ProcNo) (forked : Forked me np k k')

/-- Without a page for its stack, the new process is given up at once. -/
theorem ForkFailed.of_unused {k k' : Kernel} {me np : ProcNo} (dirs : k'.dirs = k.dirs)
    (unused : (k.proc np).state = .UNUSED) (unused' : (k'.proc np).state = .UNUSED)
    (others : ∀ s, s ≠ np → k'.proc s = k.proc s) : ForkFailed me k k' := by
  have notNp : ∀ s, (k.proc s).Live → s ≠ np := by
    rintro s live rfl
    exact live.1 unused
  refine ⟨⟨?_, ?_, ?_⟩, ?_, ?_, ?_, ?_⟩
  · intro s
    by_cases h : s = np
    · subst h
      simp [Proc.Live, unused, unused']
    · rw [others s h]
  all_goals first
    | (intro s live; rw [others s (notNp s live)])
    | skip
  · intro e _ _
    rw [dirs]
  · intro page
    left
    rw [dirs]

section Born

variable {f c : Nat} {km : Kmem} {k₂ k₃ : Kernel}

theorem embryo_other {s : ProcNo} (other : s ≠ np) : (k.embryo np f km).proc s = k.proc s :=
  setProc_other _ _ other

/-- The parent's pages have been shared and its slots copied. -/
theorem fork_done (ok : cfg.Ok) (books : Books cfg reserved k) (live : (k.proc me).Live)
    (unused : (k.proc np).state = .UNUSED) (popped : k.kmem.pop = some (f, km))
    (cow : (k.embryo np f km).cowuvm cfg me (k.proc me).pgdir (k.proc me).sz = .ok (some c, k₂))
    (copied : (List.finRange MAX_PSYC_PAGES).foldlM (fun k i => k.copySlot me np i) k₂ = .ok k₃) :
    k₂.proc = (k.embryo np f km).proc ∧
      ∀ k', k' = k₃.setProc np { k₃.proc np with
          pgdir := c
          pagedout := 0
          pagefaults := 0
          paging := (k₃.proc me).paging.forkCopy (k₃.proc np).paging (2 < (k₃.proc me).pid)
          sz := (k₃.proc me).sz
          parent := some me
          state := .RUNNABLE } →
        Forked me np k k' ∧ Books cfg reserved k' := by
  have notMe : me ≠ np := fun same => live.1 (same ▸ unused)
  obtain ⟨zero, refs, fresh, owns₁⟩ := books.owns.popOne popped
  obtain ⟨shared, owns₂⟩ := cowuvm_some ok owns₁ (mem_liveDirs live) (card_liveDirs k)
    (books.small me live) cow
  obtain ⟨kmem₃, mem₃, dirs₃, _, initproc₃, others₃, file, child₃⟩ := copySlots_cases _ copied
  obtain ⟨km₂, newDirs, made₂⟩ := shared.rest
  have proc₂ : k₂.proc = (k.embryo np f km).proc := by rw [made₂]
  have mem₂ : k₂.mem = k.mem := by rw [made₂]; rfl
  have mine₃ : k₃.proc me = k.proc me := by
    rw [others₃ me notMe, proc₂, embryo_other notMe]
  have child₂ : k₂.proc np = (k.embryo np f km).proc np := by rw [proc₂]
  rw [child₂, embryo, setProc_self] at child₃
  refine ⟨proc₂, fun k' made => ?_⟩
  rw [mine₃, child₃] at made
  subst made
  have forked : Forked me np k (k₃.setProc np { k.proc np with
      state := .RUNNABLE
      pid := k.nextpid
      kstack := f
      swapFile := file
      pgdir := c
      pagedout := 0
      pagefaults := 0
      paging := (k.proc me).paging.forkCopy (freshPaging (k.proc np).paging) (2 < (k.proc me).pid)
      sz := (k.proc me).sz
      parent := some me }) := by
    refine ⟨unused, ?_, ?_, ?_, ?_, ?_, ?_, ?_, ?_, ?_, ?_, ?_, ?_, ?_, ?_, ?_, ?_, ?_⟩
    all_goals try rw [setProc_self]
    · intro s other
      rw [setProc_other _ _ other, others₃ s other, proc₂, embryo_other other]
    · exact shared.fresh.1
    · intro e notD notC
      rw [setProc_dirs, dirs₃, shared.dirs e notD notC]
      rfl
    · intro page hit
      rw [setProc_dirs, dirs₃, shared.parent page hit]
      rfl
    · intro page hit
      rw [setProc_dirs, dirs₃, shared.child page hit]
      rfl
    · exact shared.inUse
    · intro page miss
      rw [setProc_dirs, dirs₃, shared.parentRest page miss]
      rfl
    · intro page miss low
      rw [setProc_dirs, dirs₃, shared.childRest page miss low]
    · rw [setProc_dirs, dirs₃]
      exact shared.childKernel
    · intro g used
      have other : g ≠ f := by
        rintro rfl
        exact used zero
      have kept : km.ref g ≠ 0 := by rwa [refs g, if_neg other]
      rw [setProc_kmem, kmem₃, setProc_mem, mem₃, mem₂]
      exact ⟨shared.refs g kept, rfl⟩
    · rw [setProc_initproc, initproc₃, made₂]
      rfl
  refine ⟨forked, forked.books books live ?_ ?_⟩
  · rw [setProc_self]
    exact fresh
  · rw [setProc_self, setProc_kmem, kmem₃, setProc_dirs, dirs₃]
    exact owns₂

end Born

theorem fork_books {r : Int} (ok : cfg.Ok) (books : Books cfg reserved k)
    (active : (k.proc me).Active)
    (plain : cfg.excluded .outOfMemory = false → NoneSwapped k (k.proc me).pgdir (· < USERPAGES))
    (run : k.fork cfg me = .ok (r, k')) :
    ForkOutcome cfg me k k' ∧ Books cfg reserved k' := by
  simp only [fork, Res.bind_ok] at run
  obtain ⟨⟨slot, k₁⟩, allocated, run⟩ := run
  rcases allocproc_cases allocated with ⟨rfl, rfl⟩ |
    ⟨rfl, notExcluded, kmem, dirs, np, unused, unused', others⟩ |
    ⟨np, f, km, rfl, unused, popped, rfl⟩
  · cases run
    exact ⟨.noSlot rfl, books⟩
  · cases run
    have failed : ForkFailed me k k' := .of_unused dirs unused unused' others
    refine ⟨.noMemory notExcluded failed, failed.owners.books books ?_ ?_⟩
    · rw [kmem, dirs]
      exact books.owns
    · intro s live
      have live := (failed.owners.live s).mp live
      rw [failed.sz s live]
      exact books.small s live
  · -- The new process has its kernel stack.
    have live := active.live
    have notMe : np ≠ me := by
      rintro rfl
      exact live.1 unused
    have mine₁ : (k.embryo np f km).proc me = k.proc me := embryo_other notMe.symm
    simp only [mine₁, Res.bind_ok] at run
    obtain ⟨⟨dir, k₂⟩, cow, run⟩ := run
    cases dir with
    | none =>
      simp only [Res.bind_ok] at run
      obtain ⟨k₃, freed, done⟩ := run
      cases done
      obtain ⟨_, _, fresh, owns₁⟩ := books.owns.popOne popped
      obtain ⟨owns₂, dirs₂, pages, frame, notExcluded⟩ := cowuvm_none (k := k.embryo np f km) ok owns₁
        (mem_liveDirs live) (card_liveDirs k) (books.small me live) plain cow
      have stack₂ : (k₂.proc np).kstack = f := by
        rw [frame.others np notMe, embryo, setProc_self]
      rw [stack₂] at freed
      obtain ⟨km', mem', rfl, owns₃, _⟩ := kfree_owns owns₂ (cells_one (mem_insert_self f _)) freed
      rw [← cells_one_erase, erase_insert fresh] at owns₃
      have notNp : ∀ s, (k.proc s).Live → s ≠ np := by
        rintro s isLive rfl
        exact isLive.1 unused
      have kept : ∀ s, s ≠ np → (k.proc s).Same (k₂.proc s) := by
        intro s other
        by_cases isMe : s = me
        · subst isMe
          rw [← mine₁]
          exact frame.mine
        · rw [frame.others s isMe, embryo_other other]
          exact ⟨rfl, rfl, rfl, rfl, rfl, rfl, rfl⟩
      have failed : ForkFailed me k (setProc { k₂ with kmem := km', mem := mem' } np
          { k₂.proc np with pgdir := 0, kstack := 0, state := .UNUSED }) := by
        refine ⟨⟨?_, ?_, ?_⟩, ?_, ?_, ?_, ?_⟩
        · intro s
          by_cases h : s = np
          · subst h
            rw [setProc_self]
            simp [Proc.Live, unused]
          · rw [setProc_other _ _ h]
            unfold Proc.Live
            rw [(kept s h).state]
        · intro s isLive
          rw [setProc_other _ _ (notNp s isLive), (kept s (notNp s isLive)).pgdir]
        · intro s isLive
          rw [setProc_other _ _ (notNp s isLive), (kept s (notNp s isLive)).kstack]
        · intro s isLive
          rw [setProc_other _ _ (notNp s isLive), (kept s (notNp s isLive)).sz]
        · intro s isLive
          rw [setProc_other _ _ (notNp s isLive), (kept s (notNp s isLive)).state]
        · intro e isLive other
          exact dirs₂ e isLive other
        · exact pages
      refine ⟨.noMemory notExcluded failed, failed.owners.books books owns₃ ?_⟩
      intro s isLive
      have isLive := (failed.owners.live s).mp isLive
      rw [failed.sz s isLive]
      exact books.small s isLive
    | some c =>
      simp only [Res.bind_ok] at run
      obtain ⟨k₃, copied, done⟩ := run
      cases done
      obtain ⟨forked, books'⟩ := (fork_done ok books live unused popped cow copied).2 _ rfl
      exact ⟨.done np forked, books'⟩

end Fork

end Kernel

end Xv6
