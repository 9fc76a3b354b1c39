import Xv6.Library.Lts
import Xv6.Memory.KernelMap
import Xv6.Memory.Layout
import Xv6.Memory.Locality

/-!
The accounting of a process over whole runs: from a successful `exec` on, through growing,
shrinking, page faults and forks, for the process and its descendants.

Every function called for a process whose metadata is accounted leaves it accounted,
chooses only occupied slots of least priority for eviction, and fails for reasons that
have nothing to do with the metadata. Between the two steps of a swap-in the queue is
not a heap; the invariant is stated for whole operations.
-/

namespace Xv6

open Outcome

/-- An evicted page was in an occupied slot of least priority. -/
def Event.Sound : Event → Prop
  | .evicted _ before victim => victim ∈ occupied before.ramPmd ∧ before.Least victim
  | _ => True

namespace Kernel

/-- The metadata of `me` is accounted, and so were its evictions. -/
structure Kept (me : ProcNo) (k k' : Kernel) : Prop where
  accounted : Accounted (k'.proc me).paging
  events : ∃ new, k'.trace = new ++ k.trace ∧ ∀ e ∈ new, e.Sound

section

variable {cfg : Config} {k k₁ k' : Kernel} {me : ProcNo}

theorem Kept.refl (acc : Accounted (k.proc me).paging) : Kept me k k := ⟨acc, [], rfl, by simp⟩

theorem Kept.trans (first : Kept me k k₁) (second : Kept me k₁ k') : Kept me k k' := by
  obtain ⟨_, new, trace, sound⟩ := first
  obtain ⟨acc, new', trace', sound'⟩ := second
  refine ⟨acc, new' ++ new, ?_, ?_⟩
  · rw [trace', trace, List.append_assoc]
  · intro e inside
    rcases List.mem_append.mp inside with late | early
    · exact sound' e late
    · exact sound e early

theorem Kept.of_still (kept : Kept me k k₁) (still : Still k₁ k') : Kept me k k' :=
  kept.trans ⟨by rw [still.proc]; exact kept.accounted, [], still.trace, by simp⟩

theorem Kept.still (acc : Accounted (k.proc me).paging) (still : Still k k') : Kept me k k' :=
  (Kept.refl acc).of_still still

/-- New metadata that is accounted. -/
theorem Kept.setPaging {m : Paging} (k : Kernel) (acc : Accounted m) :
    Kept me k (k.setPaging me m) :=
  ⟨by rw [setPaging_self]; exact acc, [], rfl, by simp⟩

theorem Kept.record {e : Event} (kept : Kept me k k') (sound : e.Sound) : Kept me k (k'.record e) :=
  kept.trans ⟨kept.accounted, [e], rfl, by simpa using sound⟩

theorem kept_survives (me : ProcNo) (k : Kernel) : Survives me Panic.Other (Kept me k) where
  other _ other := other
  still kept still := kept.of_still still
  release {k₁} d a kept := by
    unfold releaseMeta
    split
    · exact kept.trans (.setPaging k₁ (kept.accounted.release d a))
    · exact kept

/-- Sampling one occupied slot. -/
theorem updatePageInPriorityQueue_kept (build : cfg.sel.Queued)
    (acc : Accounted (k.proc me).paging) {i : Slot}
    (taken : i ∈ occupied (k.proc me).paging.ramPmd) :
    Sat Panic.Other (fun k' => Kept me k k' ∧ SamePages (k.proc me).paging (k'.proc me).paging)
      (updatePageInPriorityQueue cfg me k i.val) := by
  unfold updatePageInPriorityQueue
  simp only [ramSlot_val, Res.ok_bind]
  split
  · exact .error id
  · rename_i pte _
    obtain ⟨m, run, same, acc'⟩ := updatePage_accounted build
      (fun va => (walkpgdir (k.dirs (k.proc me).pgdir) va).map Pte.a) pte.a acc taken
    rw [run]
    refine .ok ⟨Kept.record (Kept.of_still (.setPaging k acc') ⟨rfl, rfl, rfl, rfl⟩) trivial, ?_⟩
    simp only [record_proc, setPte_proc, setPaging_self]
    exact same

theorem updatePagesInPriorityQueue_kept (build : cfg.sel.Queued)
    (acc : Accounted (k.proc me).paging) :
    Sat Panic.Other (fun k' => Kept me k k' ∧ SamePages (k.proc me).paging (k'.proc me).paging)
      (k.updatePagesInPriorityQueue cfg me) := by
  unfold updatePagesInPriorityQueue
  split
  · exact .ok ⟨.refl acc, .refl _⟩
  · refine Sat.foldlM _ (fun k₁ x visited sofar => ?_) ⟨.refl acc, .refl _⟩
    obtain ⟨i, taken, rfl⟩ := sampleOrder_resident build acc visited
    obtain ⟨kept, same⟩ := sofar
    rw [← same.resident] at taken
    exact (updatePageInPriorityQueue_kept build kept.accounted taken).weaken
      fun _ later => ⟨kept.trans later.1, same.trans later.2⟩

/-- What `pageToSwapFile` does to the metadata, whether or not the result is accounted. -/
theorem pageToSwapFile_paging (i j : Slot) (d : Nat) :
    Sat Panic.Other (fun k' => (k'.proc me).paging = (k.proc me).paging.pageOut i j ∧
        ∃ off size, k'.trace = .swapWrite me off size :: .evicted me (k.proc me).paging i :: k.trace)
      (k.pageToSwapFile cfg me i.val (some j) d) := by
  rw [pageToSwapFile_eq]
  refine (meet_sat .eviction).bind fun _ _ => ?_
  split
  · exact .error id
  · split
    · exact .error id
    · refine (dropFrame_still _).bind fun k₁ still => .ok ⟨?_, _, _, still.trace⟩
      rw [setPte_proc, still.proc]
      simp [pagedOut]

section

variable (build : cfg.sel.Queued)
include build

section

variable (acc : Accounted (k.proc me).paging)
include acc

/-- Eviction while both arrays are in use and the file has room. -/
theorem evict_kept (some' : 0 < (k.proc me).paging.pagesInMemory)
    (room : (k.proc me).paging.pagesInSwapfile < MAX_PSYC_PAGES) (d : Nat) :
    Sat Panic.Other (fun k' => Kept me k k' ∧
        (k'.proc me).paging.pagesInMemory = (k.proc me).paging.pagesInMemory - 1)
      (k.evict cfg me d) := by
  have nonempty : (occupied (k.proc me).paging.ramPmd).Nonempty := by
    rw [acc.pagesInMemory] at some'
    exact Finset.card_pos.mp (by omega)
  obtain ⟨i, taken, victim, least⟩ := acc.victim build nonempty
  rw [acc.pagesInSwapfile] at room
  obtain ⟨j, found⟩ := exists_vacant (Int.ofNat_lt.mp room)
  have vacant : j ∉ occupied (k.proc me).paging.swapPmd := by
    simp [(getPageIndexDefault_some found).1]
  have same : k.setPaging me (k.proc me).paging = k := by
    simp [setPaging, setProc]
  simp only [evict, victim, same, found]
  refine (pageToSwapFile_paging i j d).weaken fun k' moved => ?_
  obtain ⟨paging, off, size, trace⟩ := moved
  refine ⟨⟨?_, [.swapWrite me off size, .evicted me (k.proc me).paging i], trace, ?_⟩, ?_⟩
  · rw [paging]
    exact acc.pageOut taken vacant
  · simp [Event.Sound, least, mem_occupied.mp taken]
  · rw [paging]
    rfl

theorem makeRoom_kept (d : Nat) :
    Sat Panic.Other (fun k' => Kept me k k' ∧
      (k'.proc me).paging.pagesInMemory < MAX_PSYC_PAGES) (k.makeRoom cfg me d) := by
  unfold makeRoom
  rw [if_neg build.paged]
  split
  · rename_i full
    split
    · exact .error id
    · rename_i notFull
      refine (updatePagesInPriorityQueue_kept build acc).bind fun k₁ sampled => ?_
      obtain ⟨kept, same⟩ := sampled
      have upper := acc.inMemory_le
      have upper' := acc.inSwapfile_le
      simp only [MAX_TOTAL_PAGES, MAX_PSYC_PAGES] at full notFull upper upper'
      have inMemory := same.pagesInMemory
      have inSwapfile := same.pagesInSwapfile
      refine (evict_kept build kept.accounted (by omega)
        (by simp only [MAX_PSYC_PAGES]; omega) d).weaken fun k' out => ⟨kept.trans out.1, ?_⟩
      have fewer := out.2
      simp only [MAX_PSYC_PAGES]
      omega
  · rename_i room
    exact .ok ⟨.refl acc, by omega⟩

theorem trackPage_kept (room : (k.proc me).paging.pagesInMemory < MAX_PSYC_PAGES) (d a : Nat) :
    Sat Panic.Other (Kept me k) (k.trackPage cfg me d a) := by
  obtain ⟨i, m', found, run, _, acc'⟩ := acc.track build room a d
  simp only [trackPage, if_neg build.paged, found, run]
  exact .ok ((Kept.setPaging k acc').record trivial)

theorem allocuvm_kept (d oldsz newsz : Nat) :
    Sat Panic.Other (fun r => Kept me k r.2) (k.allocuvm cfg me d oldsz newsz) :=
  (kept_survives me k).allocuvm (J := fun proc => (proc me).paging.pagesInMemory < MAX_PSYC_PAGES)
    (fun _ kept => (makeRoom_kept build kept.accounted d).weaken fun _ made =>
      ⟨kept.trans made.1, made.2⟩)
    (fun _ a kept room => (trackPage_kept build kept.accounted room d a).weaken fun _ later =>
      kept.trans later)
    (.refl acc) oldsz newsz

end

/-- A page comes in from the file; the counter of resident pages is raised last, so memory
must not run out in between. -/
theorem swapIn_kept (rich : cfg.excluded .outOfMemory = true) (acc : Accounted (k.proc me).paging)
    (room : (k.proc me).paging.pagesInMemory < MAX_PSYC_PAGES) (va1 : Nat) :
    Sat Panic.Other (Kept me k) (k.swapIn cfg me va1) := by
  unfold swapIn
  split
  · exact .error id
  · rename_i j found
    have taken : j ∈ occupied (k.proc me).paging.swapPmd :=
      mem_occupied.mpr (getPageIndexDefault_some found).1
    obtain ⟨m₁, i, m₂, aged, _, vacant, queued, _, acc'⟩ :=
      acc.swapIn build room taken va1 (k.proc me).pgdir
    simp only [Paging.vacateSwap, Paging.setSwap] at aged
    simp only [Paging.setSwap, aged, Res.ok_bind, vacant, queued]
    refine kalloc_still.bind fun r still => ?_
    obtain ⟨r, k₁⟩ := r
    cases r with
    | none =>
      have := still.2 rfl
      simp [rich] at this
    | some f =>
      refine (mappages_still _ _ PGSIZE f .user).bind fun r mapped => ?_
      have mapped : Still ((k.setPaging me m₂).record (.loaded me va1 m₂)) r.2 :=
        still.1.trans ⟨mapped.1, mapped.2, mapped.3, mapped.4⟩
      obtain ⟨done, k₂⟩ := r
      cases done with
      | false => exact .error id
      | true =>
        have procs : k₂.proc = (k.setPaging me m₂).proc := mapped.proc
        refine (readSwap_other _ _ _).bind fun page _ =>
          .ok ⟨?_, [.loaded me va1 m₂], mapped.trace, by simp [Event.Sound]⟩
        simp only [setPaging_self, fill_proc, procs]
        exact acc'

theorem swapPages_kept (acc : Accounted (k.proc me).paging) {i : Slot}
    (taken : i ∈ occupied (k.proc me).paging.ramPmd) (least : (k.proc me).paging.Least i)
    (va1 d : Nat) :
    Sat Panic.Other (Kept me k) (k.swapPages cfg me i.val
      (getPageIndexDefault (k.proc me).paging.swapPmd true va1) d) := by
  have slot : ¬ (i.val : Int) = -1 := by omega
  unfold swapPages
  split
  · exact .error id
  · rename_i j found
    have swapped := (getPageIndexDefault_some found).1
    rw [if_neg slot]
    refine (readSwap_other _ _ _).bind fun page _ => ?_
    refine (pageToSwapFile_paging i j d).bind fun k₁ moved => ?_
    obtain ⟨paging, off, size, trace⟩ := moved
    obtain ⟨m₁, m₂, aged, _, queued, _, acc'⟩ :=
      acc.exchange build taken (mem_occupied.mpr swapped) swapped
    simp only [Paging.exchanged] at aged
    simp only [paging, aged, Res.ok_bind, ramSlot_val, queued]
    have first : Kept me k ((k₁.setPaging me m₂).record
        (.loaded me ((k.proc me).paging.swapPmd j).va m₂)) := by
      refine ⟨?_, [.loaded me ((k.proc me).paging.swapPmd j).va m₂, .swapWrite me off size,
        .evicted me (k.proc me).paging i], ?_, ?_⟩
      · rw [record_proc, setPaging_self]
        exact acc'
      · rw [record_trace, setPaging_trace, trace]
        rfl
      · simp [Event.Sound, least, mem_occupied.mp taken]
    refine kalloc_still.bind fun r still => ?_
    obtain ⟨r, k₂⟩ := r
    cases r with
    | none => exact .ok (first.of_still still.1)
    | some f =>
      refine (mappages_still _ _ PGSIZE f .user).bind fun r mapped => ?_
      obtain ⟨done, k₃⟩ := r
      cases done with
      | false => exact .error id
      | true =>
        exact .ok ((first.of_still still.1).of_still ⟨mapped.1, mapped.2, mapped.3, mapped.4⟩)

theorem onPageFaultPG_kept (rich : cfg.excluded .outOfMemory = true)
    (acc : Accounted (k.proc me).paging) (va1 : Nat) :
    Sat Panic.Other (Kept me k) (k.onPageFaultPG cfg me va1) := by
  have upper := acc.inMemory_le
  have upper' := acc.inSwapfile_le
  unfold onPageFaultPG
  simp only [MAX_TOTAL_PAGES, MAX_PSYC_PAGES] at *
  rw [if_neg (by omega)]
  split
  · rename_i full
    have nonempty : (occupied (k.proc me).paging.ramPmd).Nonempty := by
      have counted := acc.pagesInMemory
      exact Finset.card_pos.mp (by omega)
    obtain ⟨i, taken, victim, least⟩ := acc.victim build nonempty
    have same : k.setPaging me (k.proc me).paging = k := by
      simp [setPaging, setProc]
    split
    · simp only [victim, same]
      exact swapPages_kept build acc taken least va1 _
    · refine (evict_kept build acc (by omega)
        (by simp only [MAX_PSYC_PAGES]; omega) _).bind fun k₁ out => ?_
      have fewer := out.2
      refine (swapIn_kept build rich out.1.accounted ?_ va1).weaken fun _ later =>
        out.1.trans later
      simp only [MAX_PSYC_PAGES]
      omega
  · exact swapIn_kept build rich acc (by simp only [MAX_PSYC_PAGES]; omega) va1

end

/-- A change of `me` outside its metadata. -/
theorem Kept.setProc {p : Proc} (acc : Accounted (k.proc me).paging)
    (same : p.paging = (k.proc me).paging) : Kept me k (k.setProc me p) :=
  ⟨by rw [setProc_self, same]; exact acc, [], rfl, by simp⟩

theorem onPageFaultCow_kept (acc : Accounted (k.proc me).paging) (va1 : Nat) :
    Sat Panic.Other (Kept me k) (k.onPageFaultCow cfg me va1) := by
  unfold onPageFaultCow
  dsimp only
  split
  · exact .error id
  · split
    · refine kalloc_still.bind fun r still => ?_
      obtain ⟨r, k₁⟩ := r
      have first : Kept me k k₁ := .still acc ⟨still.1.1, still.1.2, still.1.3, still.1.4⟩
      cases r with
      | none => exact .ok (first.trans (.setProc first.accounted rfl))
      | some f => exact .ok (first.of_still ⟨rfl, rfl, rfl, rfl⟩)
    · exact .ok (.still acc ⟨rfl, rfl, rfl, rfl⟩)

theorem onPageFault_kept (build : cfg.sel.Queued) (rich : cfg.excluded .outOfMemory = true)
    (acc : Accounted (k.proc me).paging) (va : Nat) :
    Sat Panic.Other (Kept me k) (k.onPageFault cfg me va) := by
  unfold onPageFault
  have counted : Kept me k (k.setProc me
      { k.proc me with pagefaults := (k.proc me).pagefaults + 1 }) := .setProc acc rfl
  refine (updatePagesInPriorityQueue_kept build counted.accounted).bind fun k₁ sampled => ?_
  have first : Kept me k k₁ := counted.trans sampled.1
  dsimp only
  split
  · exact .ok (first.trans (.setProc first.accounted rfl))
  · split
    · exact .ok (first.trans (.setProc first.accounted rfl))
    · split
      · exact (onPageFaultCow_kept first.accounted _).weaken fun _ later => first.trans later
      · split
        · exact (onPageFaultPG_kept build rich first.accounted _).weaken fun _ later =>
            first.trans later
        · exact .ok (first.trans (.setProc first.accounted rfl))

theorem exit_kept (acc : Accounted (k.proc me).paging) :
    Sat Panic.Other (Kept me k) (k.exit me) := by
  cases run : k.exit me with
  | error e =>
    refine .error ?_
    unfold exit at run
    split at run
    · cases run
      exact id
    · simp only at run
      split at run
      · cases run
        exact id
      · cases run
  | ok k' =>
    have exited := exit_exited run
    obtain ⟨proc, rfl⟩ := exited.rest
    refine .ok ⟨?_, [], rfl, by simp⟩
    rw [(exited.same me).2.2.2.2]
    exact acc

theorem pageFault_kept (build : cfg.sel.Queued) (rich : cfg.excluded .outOfMemory = true)
    (acc : Accounted (k.proc me).paging) (va : Nat) :
    Sat Panic.Other (Kept me k) (k.pageFault cfg me va) := by
  unfold pageFault
  refine (onPageFault_kept build rich acc va).bind fun k₁ first => ?_
  split
  · exact (exit_kept first.accounted).weaken fun _ later => first.trans later
  · exact .ok first

theorem growproc_kept (build : cfg.sel.Queued) (acc : Accounted (k.proc me).paging) (n : Int) :
    Sat Panic.Other (fun r => Kept me k r.2) (k.growproc cfg me n) := by
  unfold growproc
  refine Sat.bind (P := fun r => Kept me k r.2) ?_ fun r resized => ?_
  · unfold resize
    dsimp only
    split
    · exact allocuvm_kept build acc _ _ _
    · split
      · exact (kept_survives me k).deallocuvm (.refl acc) _ _ _
      · exact .ok (.refl acc)
  · obtain ⟨sz, k₁⟩ := r
    dsimp only
    split
    · exact .ok resized
    · exact .ok (resized.trans (.setProc resized.accounted rfl))

/-- A change of another process. -/
theorem Kept.setOther {s : ProcNo} (kept : Kept me k k') (other : me ≠ s) (p : Proc) :
    Kept me k (k'.setProc s p) :=
  kept.trans ⟨by rw [setProc_other _ _ other]; exact kept.accounted, [], rfl, by simp⟩

theorem wait_kept (acc : Accounted (k.proc me).paging) (unreaped : (k.proc me).state ≠ .ZOMBIE) :
    Sat Panic.Other (fun r => Kept me k r.2) (k.wait cfg me) := by
  unfold wait
  split
  · rename_i child found
    have zombie := List.find?_some found
    simp only [decide_eq_true_eq] at zombie
    have mine : me ≠ child := fun eq => unreaped (eq ▸ zombie.2)
    refine Sat.bind (P := fun r => Kept me k r.2) ?_ fun r reaped => .ok reaped
    unfold reap
    refine (dropFrame_still _).bind fun k₁ still => ?_
    have first : Kept me k k₁ := .still acc still
    exact ((kept_survives me k).freevm first _).bind fun k₂ freed => .ok (freed.setOther mine _)
  · split
    · exact .ok (.refl acc)
    · exact .ok (.refl acc)

theorem SlotsCopied.kept {np : ProcNo} (kept : Kept me k k₁) (other : me ≠ np)
    (copied : SlotsCopied np k₁ k') : Kept me k k' := by
  obtain ⟨others, _, new, trace, writes⟩ := copied
  refine kept.trans ⟨by rw [others me other]; exact kept.accounted, new, trace, ?_⟩
  intro e inside
  obtain ⟨off, size, rfl⟩ := writes e inside
  exact trivial

/-- A fork keeps the parent accounted, and the child of a paging process is. -/
theorem fork_kept (acc : Accounted (k.proc me).paging) (used : (k.proc me).state ≠ .UNUSED) :
    Sat Panic.Other (fun r => Kept me k r.2 ∧ ∀ s, (k.proc s).state = .UNUSED →
      (r.2.proc s).state ≠ .UNUSED → 2 < (k.proc me).pid → Accounted (r.2.proc s).paging)
      (k.fork cfg me) := by
  unfold fork
  refine allocproc_sat.bind fun r born => ?_
  obtain ⟨np, k₁⟩ := r
  obtain ⟨trace, failed, filled⟩ := born
  cases np with
  | none =>
    obtain ⟨same, free⟩ := failed rfl
    refine .ok ⟨⟨by rw [same me used]; exact acc, [], trace, by simp⟩, ?_⟩
    exact fun s unused inUse _ => absurd (free s unused) inUse
  | some np =>
    obtain ⟨free, fresh, same⟩ := filled np rfl
    have mine : me ≠ np := fun eq => used (eq ▸ free)
    have first : Kept me k k₁ := ⟨by rw [same me mine]; exact acc, [], trace, by simp⟩
    refine (((kept_survives me k).cowuvm first _ _).and (cowuvm_frame _ _)).bind fun r shared => ?_
    obtain ⟨d, k₂⟩ := r
    obtain ⟨second, frame⟩ := shared
    have unused : ∀ s, s ≠ np → (k.proc s).state = .UNUSED → (k₂.proc s).state = .UNUSED := by
      intro s other unused
      have notMe : s ≠ me := fun eq => used (eq ▸ unused)
      rw [frame.others s notMe, same s other]
      exact unused
    cases d with
    | none =>
      refine (kfree_still _).bind fun k₃ still => .ok ⟨?_, fun s free' inUse _ => ?_⟩
      · exact (second.of_still still).setOther mine _
      · by_cases eq : s = np
        · subst eq
          simp only [setProc_self, ne_eq, not_true_eq_false] at inUse
        · rw [setProc_other _ _ eq, still.proc] at inUse
          exact absurd (unused s eq free') inUse
    | some d =>
      refine (copySlots_sat np _).bind fun k₃ copied => .ok ⟨?_, fun s free' inUse big => ?_⟩
      · exact (SlotsCopied.kept second mine copied).setOther mine _
      · by_cases eq : s = np
        · subst eq
          have pid : 2 < (k₃.proc me).pid := by
            rw [copied.others me mine, frame.mine.pid, same me mine]
            exact big
          obtain ⟨file, child⟩ := copied.child
          have kept₂ : k₂.proc s = k₁.proc s := frame.others s (Ne.symm mine)
          have prepared : (k₃.proc s).paging = freshPaging (k.proc s).paging := by
            rw [child, kept₂]
            exact fresh
          have parent : Accounted (k₃.proc me).paging := by
            rw [copied.others me mine]
            exact second.accounted
          simp only [setProc_self, prepared, pid, decide_true]
          exact parent.forkCopy (occupied_initPmdArr _) (occupied_initPmdArr _) rfl
        · rw [setProc_other _ _ eq, copied.others s eq] at inUse
          exact absurd (unused s eq free') inUse

theorem step_kept (build : cfg.sel.Queued) (rich : cfg.excluded .outOfMemory = true)
    (acc : Accounted (k.proc me).paging) (active : (k.proc me).Active) (op : MemOp) :
    Sat Panic.Other (Kept me k) (k.step cfg me op) := by
  obtain ⟨used, unreaped⟩ := active.inUse
  cases op with
  | load va =>
    simp only [step]
    split
    · rename_i loaded
      exact .ok (.still acc (load_still loaded))
    · exact pageFault_kept build rich acc va.toNat
  | store va b =>
    simp only [step]
    split
    · rename_i stored
      exact .ok (.still acc (store_still stored))
    · exact pageFault_kept build rich acc va.toNat
  | growproc n => exact (growproc_kept build acc n).bind fun _ grown => .ok grown
  | fork => exact (fork_kept acc used).bind fun _ forked => .ok forked.1
  | exit => exact exit_kept acc
  | wait => exact (wait_kept acc unreaped).bind fun _ waited => .ok waited

theorem exec_accounted (build : cfg.sel.Queued) {file : Option File} {argv : List (List UInt8)}
    (run : k.exec cfg me file argv = .ok (0, k')) : Accounted (k'.proc me).paging := by
  have bad : ∀ (k₁ : Kernel) backup d, k₁.execBad cfg me backup d ≠ .ok (0, k') := by
    intro k₁ backup d done
    unfold execBad at done
    cases d with
    | none => cases done
    | some d =>
      simp only [Res.bind_ok] at done
      obtain ⟨_, _, done⟩ := done
      cases done
  unfold exec at run
  split at run
  · cases run
  · rename_i ip
    have reset : Accounted ((k.setPaging me (k.proc me).paging.reset).proc me).paging := by
      rw [setPaging_self]
      exact accounted_reset _
    dsimp only at run
    split at run
    · exact absurd run (bad _ _ _)
    · rename_i elf _
      split at run
      · exact absurd run (bad _ _ _)
      · obtain ⟨⟨d, k₁⟩, set, run⟩ := Res.bind_ok.mp run
        have first := (((kept_survives me _).setupkvm (.refl reset)).of_ok set).accounted
        cases d with
        | none => exact absurd run (bad _ _ _)
        | some d =>
          obtain ⟨⟨sz, k₂⟩, built, run⟩ := Res.bind_ok.mp run
          have second := (buildImage_keeps (I := fun k => Accounted (k.proc me).paging)
            (fun _ other => other) (fun _ _ kept still => by rw [still.proc]; exact kept)
            (fun _ _ _ kept => (allocuvm_kept build kept _ _ _).weaken fun _ grown =>
              grown.accounted) first ip elf argv).of_ok built
          cases sz with
          | none => exact absurd run (bad _ _ _)
          | some sz =>
            obtain ⟨k₃, freed, done⟩ := Res.bind_ok.mp run
            cases done
            refine (((kept_survives me _).freevm (.refl ?_) _).of_ok freed).accounted
            rw [setProc_self]
            exact second

end

end Kernel

/-- What a process does next, `exec` included. -/
inductive SysOp where
  | mem (op : MemOp)
  | exec (file : Option File) (argv : List (List UInt8))

namespace Kernel

def sysStep (cfg : Config) (k : Kernel) (me : ProcNo) : SysOp → Res Kernel
  | .mem op => k.step cfg me op
  | .exec file argv => do
    let (_, k) ← k.exec cfg me file argv
    .ok k

/-- The processes that are followed after a step of `me`: those followed before, unless they
end or call `exec`, and the child that a followed process with paging has forked. -/
def heirs (k k' : Kernel) (me : ProcNo) (op : SysOp) (followed : Set ProcNo) : Set ProcNo :=
  { s | (k'.proc s).Active ∧
    (s ∈ followed ∧ (s = me → ∃ op', op = .mem op') ∨
      (k.proc s).state = .UNUSED ∧ op = .mem .fork ∧ me ∈ followed ∧ 2 < (k.proc me).pid) }

/-- A step of any active process, and whom to follow afterwards. -/
def Follows (cfg : Config) (x : Kernel × Set ProcNo) (a : ProcNo × SysOp)
    (y : Kernel × Set ProcNo) : Prop :=
  (x.1.proc a.1).Active ∧ x.1.sysStep cfg a.1 a.2 = .ok y.1 ∧ y.2 = heirs x.1 y.1 a.1 a.2 x.2

/-- Every followed process is active and accounted. -/
def InOrder (x : Kernel × Set ProcNo) : Prop :=
  ∀ s ∈ x.2, (x.1.proc s).Active ∧ Accounted (x.1.proc s).paging

theorem Follows.inOrder {cfg : Config} {x y : Kernel × Set ProcNo} {a : ProcNo × SysOp}
    (build : cfg.sel.Queued) (rich : cfg.excluded .outOfMemory = true) (inOrder : InOrder x)
    (step : Follows cfg x a y) : InOrder y := by
  obtain ⟨k, followed⟩ := x
  obtain ⟨k', followed'⟩ := y
  obtain ⟨me, op⟩ := a
  obtain ⟨active, run, heirs⟩ := step
  simp only at active run heirs
  subst heirs
  intro s member
  obtain ⟨active', before | ⟨unused, isFork, mine, paged⟩⟩ := member
  · refine ⟨active', ?_⟩
    obtain ⟨member, notExec⟩ := before
    obtain ⟨wasActive, acc⟩ := inOrder s member
    by_cases same : s = me
    · subst same
      obtain ⟨op', rfl⟩ := notExec rfl
      exact ((step_kept build rich acc active op').of_ok run).accounted
    · -- Another process acted; it cannot reach the metadata of this one.
      have apart : Apart me k k' := by
        cases op with
        | mem op' => exact (step_apart active op').of_ok run
        | exec file argv =>
          obtain ⟨⟨_, k₁⟩, done, eq⟩ := Res.bind_ok.mp run
          cases eq
          exact (exec_apart file argv).of_ok done
      obtain ⟨used, unreaped⟩ := wasActive.inUse
      rw [apart.others s same used unreaped]
      exact acc
  · refine ⟨active', ?_⟩
    obtain ⟨wasActive, acc⟩ := inOrder me mine
    subst isFork
    obtain ⟨⟨r, k₁⟩, done, eq⟩ := Res.bind_ok.mp run
    cases eq
    exact ((fork_kept acc wasActive.inUse.1).of_ok done).2 s unused active'.inUse.1 paged

/-- A file with an ELF header and no segments. -/
def emptyProgram : File where
  size := ELFHDRSIZE
  data i := [0x7f, 0x45, 0x4c, 0x46].getD i 0

end Kernel

end Xv6
