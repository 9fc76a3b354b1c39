import Xv6.Memory.AccountingRuns
import Xv6.Memory.Growth

/-!
The swap file of a forked process.

`fork` copies the occupied slots of the parent one by one to the child's new file, each to its own
offset. A write beyond the end of a file stores nothing, so the copying stops for good at the first
slot that is vacant.
-/

namespace Xv6

open Outcome

/-- Choosing a slot by address does not depend on what vacant slots hold. -/
theorem Paging.forkCopy_swapOffset (m : Paging) {fresh : Paging}
    (vacant : ∀ i, (fresh.swapPmd i).occupied = false) (va : Nat) :
    (m.forkCopy fresh true).swapOffset va = m.swapOffset va := by
  have found : getPageIndexDefault (m.forkCopy fresh true).swapPmd true va =
      getPageIndexDefault m.swapPmd true va := by
    unfold getPageIndexDefault
    congr 1
    funext i
    cases here : (m.swapPmd i).occupied <;> simp [Paging.forkCopy, here, vacant]
  unfold Paging.swapOffset
  rw [found]
  cases hit : getPageIndexDefault m.swapPmd true va with
  | none => rfl
  | some i => simp [Paging.forkCopy, (getPageIndexDefault_some hit).1]

namespace Kernel

/-- What a process finds in its page `n`. A read of the swap file leaves the part of the buffer
that it cannot fill. -/
def reads (k : Kernel) (me : ProcNo) (buffer : Page) (n : Nat) : Option Page :=
  let pte := pteAt (k.dirs (k.proc me).pgdir) n
  if pte.p then some (k.mem pte.frame)
  else do
    let file ← (k.proc me).swapFile
    let off ← (k.proc me).paging.swapOffset (n * PGSIZE)
    return readFromSwapFile file buffer off

/-- Before every occupied slot there are only occupied ones. -/
def Gapless (pmds : Slot → Pmd) : Prop :=
  ∀ i ∈ occupied pmds, ∀ j, j < i → j ∈ occupied pmds

/-- The copy when the slots below `t` have been seen: the first `m` of them, at which there was
either the end or a gap. -/
def Copied (pmds : Slot → Pmd) (file : File) (t : Nat) (copy : File) : Prop :=
  ∃ m ≤ t, copy.size = m * PGSIZE ∧
    (∀ i : Slot, i.val < m → i ∈ occupied pmds ∧
      filePage copy (i.val * PGSIZE) = filePage file (i.val * PGSIZE)) ∧
    ∀ i : Slot, i.val = m → i.val < t → i ∉ occupied pmds

section

variable {cfg : Config} {reserved : Set Nat} {k k' : Kernel} {me np : ProcNo} {file copy : File}
  {pmds : Slot → Pmd} {t : Nat} {i : Slot}

variable {off : Nat}

theorem readFromSwapFile_inside (buffer : Page) (inside : off + PGSIZE ≤ file.size) :
    readFromSwapFile file buffer off = filePage file off := by
  funext b
  have := b.isLt
  simp only [readFromSwapFile, filePage]
  rw [if_pos (by omega)]

theorem readFromSwapFile_beyond (buffer : Page) (beyond : file.size ≤ off) :
    readFromSwapFile file buffer off = buffer := by
  funext b
  simp only [readFromSwapFile]
  rw [if_neg (by omega)]

theorem Copied.skip (copied : Copied pmds file t copy) (index : i.val = t)
    (vacant : i ∉ occupied pmds) : Copied pmds file (t + 1) copy := by
  obtain ⟨m, le, size, good, stop⟩ := copied
  refine ⟨m, by omega, size, good, fun j isM less => ?_⟩
  by_cases same : j = i
  · exact same ▸ vacant
  · have := Fin.val_ne_of_ne same
    exact stop j isM (by omega)

theorem Copied.write (copied : Copied pmds file t copy) (index : i.val = t)
    (taken : i ∈ occupied pmds) : Copied pmds file (t + 1)
      (writeToSwapFile copy (filePage file (i.val * PGSIZE)) (i.val * PGSIZE)).2 := by
  obtain ⟨m, le, size, good, stop⟩ := copied
  have bound : i.val < 16 := i.isLt
  by_cases behind : m = t
  · subst behind
    rw [writeToSwapFile_ok _ _ (by rw [size, index]) (by unfold PGSIZE MAXFILE BSIZE; omega)]
    refine ⟨m + 1, Nat.le_refl _, ?_, fun j low => ?_, fun j isNext less => by omega⟩
    · simp only [size, index, Nat.add_mul, Nat.one_mul]
      omega
    · by_cases same : j = i
      · subst same
        refine ⟨taken, funext fun b => ?_⟩
        simp only [filePage]
        rw [if_pos ⟨by omega, by have := b.isLt; omega⟩, Nat.add_sub_cancel_left, byteAt_val]
        rfl
      · have low : j.val < m := by
          have := Fin.val_ne_of_ne same
          omega
        refine ⟨(good j low).1, (funext fun b => ?_ : _ = filePage copy _).trans (good j low).2⟩
        have := b.isLt
        simp only [filePage]
        rw [if_neg (by unfold PGSIZE at *; omega)]
  · rw [writeToSwapFile_beyond _ _ (by rw [size, index]; unfold PGSIZE; omega)]
    exact ⟨m, by omega, size, good, fun j isM less => stop j isM (by omega)⟩

variable {n : Nat}

section

variable (paged : 2 < (k.proc me).pid) (other : me ≠ np)
  (stored : (k.proc me).swapFile = some file) (child : (k.proc np).swapFile = some copy)
  (offset : ∀ j ∈ occupied (k.proc me).paging.swapPmd,
    ((k.proc me).paging.swapPmd j).offset = j.val * PGSIZE ∧ j.val * PGSIZE + PGSIZE ≤ file.size)
  (copied : Copied (k.proc me).paging.swapPmd file t copy)

include paged other stored child offset copied

/-- One turn of the loop in `fork`. -/
theorem copySlot_copied (index : i.val = t) (run : k.copySlot me np i = .ok k') :
    k'.proc me = k.proc me ∧ ∃ copy', (k'.proc np).swapFile = some copy' ∧
      Copied (k.proc me).paging.swapPmd file (t + 1) copy' := by
  unfold copySlot at run
  dsimp only at run
  by_cases taken : i ∈ occupied (k.proc me).paging.swapPmd
  · obtain ⟨place, inside⟩ := offset i taken
    rw [if_pos ⟨mem_occupied.mp taken, paged⟩] at run
    simp only [readSwap, writeSwap, stored, child, place, readFromSwapFile_inside _ inside,
      Res.ok_bind] at run
    cases run
    exact ⟨setProc_other _ _ other, _, congrArg Proc.swapFile (setProc_self ..),
      copied.write index taken⟩
  · rw [if_neg fun both => taken (mem_occupied.mpr both.1)] at run
    cases run
    exact ⟨rfl, copy, child, copied.skip index taken⟩

theorem copySlots_copied {l : List Slot} (listed : l.map Fin.val = List.range' t n)
    (run : l.foldlM (fun k i => k.copySlot me np i) k = .ok k') :
    ∃ copy', (k'.proc np).swapFile = some copy' ∧
      Copied (k.proc me).paging.swapPmd file (t + n) copy' := by
  induction l generalizing k copy t n with
  | nil =>
    cases run
    obtain rfl : n = 0 := by simpa using (congrArg List.length listed).symm
    exact ⟨copy, child, copied⟩
  | cons i l ih =>
    obtain ⟨n, rfl⟩ : ∃ n', n = n' + 1 :=
      ⟨l.length, by simpa using (congrArg List.length listed).symm⟩
    rw [List.range'_succ, List.map_cons] at listed
    obtain ⟨index, rest⟩ := List.cons.inj listed
    obtain ⟨k₁, first, run⟩ := Res.bind_ok.mp run
    obtain ⟨mine, copy₁, child₁, copied₁⟩ :=
      copySlot_copied paged other stored child offset copied index first
    rw [← mine] at paged stored offset copied₁
    rw [← mine, Nat.add_comm n 1, ← Nat.add_assoc]
    exact ih paged stored child₁ offset copied₁ rest run

end

variable {buffer : Page}

theorem reads_present (present : (pteAt (k.dirs (k.proc me).pgdir) n).p = true) :
    k.reads me buffer n = some (k.mem (pteAt (k.dirs (k.proc me).pgdir) n).frame) := by
  simp [reads, present]

theorem reads_swapped (absent : (pteAt (k.dirs (k.proc me).pgdir) n).p = false)
    (stored : (k.proc me).swapFile = some file)
    (place : (k.proc me).paging.swapOffset (n * PGSIZE) = some off) :
    k.reads me buffer n = some (readFromSwapFile file buffer off) := by
  simp [reads, absent, stored, place]

/-- The child of a successful `fork`, with its swap file. -/
theorem fork_copied {r : Int} (ok : cfg.Ok) (books : Books cfg reserved k)
    (active : (k.proc me).Active) (paged : 2 < (k.proc me).pid) (counter : 2 < k.nextpid)
    (stored : (k.proc me).swapFile = some file)
    (offset : ∀ j ∈ occupied (k.proc me).paging.swapPmd,
      ((k.proc me).paging.swapPmd j).offset = j.val * PGSIZE ∧ j.val * PGSIZE + PGSIZE ≤ file.size)
    (run : k.fork cfg me = .ok (r, k')) (success : r ≠ -1) :
    ∃ np copy, Forked me np k k' ∧ (k'.proc np).pid = r ∧ (k'.proc np).swapFile = some copy ∧
      Copied (k.proc me).paging.swapPmd file MAX_PSYC_PAGES copy := by
  simp only [fork, Res.bind_ok] at run
  obtain ⟨⟨slot, k₁⟩, allocated, run⟩ := run
  rcases allocproc_cases allocated with ⟨rfl, -⟩ | ⟨rfl, -⟩ | ⟨np, f, km, rfl, unused, popped, rfl⟩
  · cases run
    exact absurd rfl success
  · cases run
    exact absurd rfl success
  · have other : me ≠ np := fun same => active.live.1 (same ▸ unused)
    simp only [embryo_other other, Res.bind_ok] at run
    obtain ⟨⟨dir, k₂⟩, cow, run⟩ := run
    cases dir with
    | none =>
      obtain ⟨_, _, done⟩ := Res.bind_ok.mp run
      cases done
      exact absurd rfl success
    | some c =>
      obtain ⟨k₃, copies, done⟩ := Res.bind_ok.mp run
      cases done
      obtain ⟨proc, forked⟩ := fork_done ok books active.live unused popped cow copies
      have mine : k₂.proc me = k.proc me := by rw [proc, embryo_other other]
      have child : (k₂.proc np).swapFile = some .empty := by
        rw [proc, embryo, setProc_self]
        exact if_pos counter
      rw [← mine] at paged stored offset
      obtain ⟨copy, swapFile, copied⟩ := copySlots_copied paged other stored child offset
        ⟨0, Nat.le_refl 0, (Nat.zero_mul _).symm, by simp, by simp⟩ (n := MAX_PSYC_PAGES) (by decide) copies
      rw [Nat.zero_add, mine] at copied
      refine ⟨np, copy, (forked _ rfl).1, ?_, ?_, copied⟩
      · rw [setProc_self]
      · rw [setProc_self]
        exact swapFile

/-- After a successful `fork` the child finds in each page what the parent finds there, if and only
if the occupied slots of the parent are the first ones. -/
theorem fork_duplicates_iff {r : Int} {img : Nat → Page} (ok : cfg.Ok)
    (books : Books cfg reserved k) (active : (k.proc me).Active) (paged : 2 < (k.proc me).pid)
    (counter : 2 < k.nextpid) (stored : (k.proc me).swapFile = some file)
    (half : SwapHalf file (pteAt (k.dirs (k.proc me).pgdir)) (k.proc me).paging.swapPmd
      (fun n => n < pagesOf (k.proc me).sz ∧ (pteAt (k.dirs (k.proc me).pgdir) n).p = false) img)
    (run : k.fork cfg me = .ok (r, k')) (success : r ≠ -1) :
    ∃ np, (k.proc np).state = .UNUSED ∧ (k'.proc np).pid = r ∧
      ((∀ n < pagesOf (k.proc me).sz, ∀ buffer, k'.reads np buffer n = k.reads me buffer n) ↔
        Gapless (k.proc me).paging.swapPmd) := by
  have offset := fun j taken => And.intro (half.offset j taken) (half.inside j taken)
  obtain ⟨np, copy, forked, pid, swapFile, m, le, size, good, stop⟩ :=
    fork_copied ok books active paged counter stored offset run success
  refine ⟨np, forked.vacant, pid, ?_⟩
  have low : pagesOf (k.proc me).sz ≤ USERPAGES := by
    have small := books.small me active.live
    unfold pagesOf USERPAGES KERNBASE PGSIZE at *
    omega
  -- The entry of the child, and where its metadata has a page.
  have present : ∀ n < pagesOf (k.proc me).sz,
      (pteAt (k'.dirs (k'.proc np).pgdir) n).p = (pteAt (k.dirs (k.proc me).pgdir) n).p ∧
      (pteAt (k'.dirs (k'.proc np).pgdir) n).frame = (pteAt (k.dirs (k.proc me).pgdir) n).frame := by
    intro n inside
    rw [forked.childPages n inside]
    unfold Pte.shared
    split <;> exact ⟨rfl, rfl⟩
  have place : ∀ va, (k'.proc np).paging.swapOffset va = (k.proc me).paging.swapOffset va := by
    rw [forked.paging, decide_eq_true paged]
    exact Paging.forkCopy_swapOffset _ fun _ => rfl
  -- A resident page is in the same frame; a swapped-out one is at the same offset of two files.
  have resident : ∀ n < pagesOf (k.proc me).sz, (pteAt (k.dirs (k.proc me).pgdir) n).p = true →
      ∀ buffer, k'.reads np buffer n = k.reads me buffer n := by
    intro n inside here buffer
    obtain ⟨same, frame⟩ := present n inside
    rw [reads_present (same.trans here), reads_present here, frame]
    have used := books.owns.balanced.ref_pos (cells_user.mpr
      ⟨mem_liveDirs active.live, Nat.lt_of_lt_of_le inside low, here, rfl⟩)
    exact congrArg some (forked.grows _ (by omega)).2
  have swapped : ∀ i ∈ occupied (k.proc me).paging.swapPmd, ∃ n < pagesOf (k.proc me).sz,
      (pteAt (k.dirs (k.proc me).pgdir) n).p = false ∧
      (k.proc me).paging.swapOffset (n * PGSIZE) = some (i.val * PGSIZE) := by
    intro i taken
    obtain ⟨n, va, inside, absent⟩ := half.records.page i taken
    obtain ⟨j, takenJ, hit, va'⟩ := half.records.found ⟨inside, absent⟩ (page_ne_clean n)
    obtain rfl := half.records.once j takenJ i taken (va'.trans va.symm)
    exact ⟨n, inside, absent, by rw [Paging.swapOffset, hit, Option.map_some, half.offset j taken]⟩
  constructor
  · intro same i taken j before
    by_contra vacant
    obtain ⟨n, inside, absent, off⟩ := swapped i taken
    have before := Fin.lt_def.mp before
    have gap : ¬ j.val < m := fun less => vacant (good j less).1
    have beyond : copy.size ≤ i.val * PGSIZE := by
      rw [size]
      exact Nat.mul_le_mul_right _ (by omega)
    -- The child's buffer stays as it was, so it cannot hold the parent's page whatever it held.
    have kept : ∀ buffer, buffer = filePage file (i.val * PGSIZE) := fun buffer => by
      have read := same n inside buffer
      rw [reads_swapped ((present n inside).1.trans absent) swapFile ((place _).trans off),
        reads_swapped absent stored off, readFromSwapFile_beyond buffer beyond,
        readFromSwapFile_inside buffer (half.inside i taken)] at read
      exact Option.some.inj read
    have differ := congrFun ((kept .zeroed).trans (kept .junk).symm) 0
    exact absurd differ (by decide)
  · intro gapless n inside buffer
    cases here : (pteAt (k.dirs (k.proc me).pgdir) n).p with
    | true => exact resident n inside here buffer
    | false =>
      obtain ⟨i, taken, hit, -⟩ := half.records.found ⟨inside, here⟩ (page_ne_clean n)
      have off : (k.proc me).paging.swapOffset (n * PGSIZE) = some (i.val * PGSIZE) := by
        rw [Paging.swapOffset, hit, Option.map_some, half.offset i taken]
      have copied : i.val < m := by
        by_contra late
        have bound := i.isLt
        have vacant := stop ⟨m, by omega⟩ rfl (by simp only; omega)
        rcases Nat.lt_or_eq_of_le (Nat.not_lt.mp late) with before | equal
        · exact vacant (gapless i taken ⟨m, by omega⟩ before)
        · exact vacant (by rwa [show (⟨m, _⟩ : Slot) = i from Fin.ext equal])
      rw [reads_swapped ((present n inside).1.trans here) swapFile ((place _).trans off),
        reads_swapped here stored off, readFromSwapFile_inside buffer (half.inside i taken),
        readFromSwapFile_inside buffer, (good i copied).2]
      rw [size, ← Nat.succ_mul]
      exact Nat.mul_le_mul_right _ copied

/-- A process whose only page is in the first slot of its swap file. -/
def swapper : Kernel :=
  { lone 3000 with
    dirs := Function.update (lone 3000).dirs 1001
      (.single 1003 (firstPage { pg := true, w := true, u := true })) }.setProc 1
    { (lone 3000).proc 1 with
      sz := PGSIZE
      swapFile := some ⟨PGSIZE, fun _ => 7⟩
      paging := ((lone 3000).proc 1).paging.setSwap 0 { Pmd.zeroed with occupied := true } }

theorem swapper_pair : Pair .zero { pg := true, w := true, u := true } swapper where
  live s := by
    by_cases first : s = 0
    · subst first
      decide
    · by_cases second : s = 1
      · subst second
        decide
      · simp [swapper, lone, Proc.Live, Proc.zeroed, first, second, setProc_proc]
  firstProc := by decide
  secondProc := by decide
  firstDir := congrArg (PageDir.single 1002) (funext fun _ => (ite_self _).symm)
  secondDir := rfl

theorem fork_duplicates_swapper : ∃ k', swapper.fork ampleConfig 1 = .ok (4, k') ∧
    ∃ np, (k'.proc np).pid = 4 ∧ ∀ buffer, k'.reads np buffer 0 = swapper.reads 1 buffer 0 := by
  obtain ⟨⟨r, k'⟩, run, four⟩ := exists_ok_of_any (x := swapper.fork ampleConfig 1)
    (p := fun r => decide (r.1 = 4)) (by
      unfold fork cowuvm
      rw [setupkvm_eq_byTables]
      decide +kernel)
  obtain rfl : r = 4 := of_decide_eq_true four
  have only : ∀ i ∈ occupied (swapper.proc 1).paging.swapPmd, i = 0 := by decide
  have half : SwapHalf ⟨PGSIZE, fun _ => 7⟩ (pteAt (swapper.dirs 1001))
      (swapper.proc 1).paging.swapPmd
      (fun n => n < 1 ∧ (pteAt (swapper.dirs 1001) n).p = false) fun _ _ => 7 := by
    refine ⟨⟨fun i taken => ⟨0, ?_, by decide⟩, fun n here => ⟨0, by decide, ?_⟩,
      fun i taken j taken' _ => (only i taken).trans (only j taken').symm⟩, fun n here => here.2,
      fun n here => ?_, fun i taken => ?_, fun i taken => ?_, fun _ _ _ _ => rfl⟩
    all_goals first
      | (obtain rfl := only i taken; decide)
      | (obtain rfl : n = 0 := by omega
         decide)
  obtain ⟨np, -, pid, same⟩ := fork_duplicates_iff ⟨by decide, by decide⟩
    (swapper_pair.books rfl (n := 3000) (by decide) rfl nofun) (by decide) (by decide) (by decide) rfl
    half run (by decide)
  exact ⟨k', run, np, pid, same.mpr (fun i taken j before => by
    obtain rfl := only i taken
    exact absurd before (Fin.not_lt_zero j)) 0 (by decide)⟩

/-- A new process takes sixteen pages more, and its stack is brought back from the second slot. -/
def holed : Res Kernel := do
  let (_, k) ← (lone 3000).exec ampleConfig 1 (some emptyProgram) []
  let (_, k) ← k.growproc ampleConfig 1 (16 * PGSIZE)
  k.pageFault ampleConfig 1 PGSIZE

/-- The third slot is copied to an offset beyond the end of the child's file. -/
theorem fork_loses_a_page :
    ∃ k k', holed = .ok k ∧ k.fork ampleConfig 1 = .ok (4, k') ∧ (k'.proc 2).pid = 4 ∧
      (k.reads 1 .junk 2).map (· 0) = some 0 ∧ (k'.reads 2 .junk 2).map (· 0) = some 1 := by
  obtain ⟨k, start, later⟩ := exists_ok_of_any (x := holed)
    (p := fun k => (k.fork ampleConfig 1).toOption.any fun (r : Int × Kernel) =>
      decide (r.1 = 4 ∧ (r.2.proc 2).pid = 4 ∧ (k.reads 1 .junk 2).map (· 0) = some 0 ∧
        (r.2.reads 2 .junk 2).map (· 0) = some 1)) (by
      unfold holed exec fork cowuvm
      rw [setupkvm_eq_byTables]
      decide +kernel)
  obtain ⟨⟨r, k'⟩, run, found⟩ := exists_ok_of_any later
  obtain ⟨four, pid, parent, child⟩ := of_decide_eq_true found
  dsimp only at four pid parent child
  subst four
  exact ⟨k, k', start, run, pid, parent, child⟩

end

end Kernel

end Xv6
