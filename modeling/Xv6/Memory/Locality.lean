import Xv6.Library.Outcome
import Xv6.Memory.Accounting
import Xv6.Memory.QuietSteps
import Xv6.Memory.Exec

/-!
What an operation can reach: the functions of `vm.c` called for the process `me` change
no other process and keep the identity of `me`.

Nothing is assumed about the state, so the same lemmas serve processes whose metadata
is in order and processes about which nothing is known. The primitives below them
change no process at all, and none of their errors concerns the metadata.
-/

namespace Xv6

open Outcome

/-- The panics and stray accesses that metadata in order rules out. -/
def Panic.OfMetadata : Panic → Prop
  | .noValidMemIndex | .noSwapSpace | .faultFull | .faultNoRam | .swapNotInMemory
  | .outOfBounds => True
  | _ => False

def Panic.Other (e : Panic) : Prop := ¬ e.OfMetadata

namespace Kernel

/-- No process changes and nothing is recorded. -/
structure Still (k k' : Kernel) : Prop where
  proc : k'.proc = k.proc
  trace : k'.trace = k.trace
  nextpid : k'.nextpid = k.nextpid
  initproc : k'.initproc = k.initproc

theorem Still.refl (k : Kernel) : Still k k := ⟨rfl, rfl, rfl, rfl⟩

variable {k k₁ k' : Kernel}

theorem Still.trans (first : Still k k₁) (second : Still k₁ k') : Still k k' :=
  ⟨second.proc.trans first.proc, second.trace.trans first.trace,
    second.nextpid.trans first.nextpid, second.initproc.trans first.initproc⟩

theorem Still.frame (still : Still k k') (me : ProcNo) : Frame me k k' :=
  .of_proc still.proc still.nextpid still.initproc

section Primitives

variable {cfg : Config} {k : Kernel}

theorem meet_sat (incident : Incident) :
    Sat Panic.Other (fun _ => cfg.excluded incident = false) (cfg.meet incident) := by
  unfold Config.meet
  cases excluded : cfg.excluded incident with
  | false => exact .ok rfl
  | true => exact .error id

theorem kalloc_still : Sat Panic.Other (fun r => Still k r.2 ∧
    (r.1 = none → cfg.excluded .outOfMemory = false)) (k.kalloc cfg) := by
  unfold kalloc
  split
  · refine (meet_sat .outOfMemory).bind fun _ allowed => ?_
    exact .ok ⟨.refl k, fun _ => allowed⟩
  · exact .ok ⟨⟨rfl, rfl, rfl, rfl⟩, by simp⟩

theorem freeFrame_other (km : Kmem) (f : Nat) :
    Sat Panic.Other (fun _ => True) (km.freeFrame cfg f) := by
  unfold Kmem.freeFrame Kmem.release
  split
  · exact .error id
  · split
    · exact .error id
    · exact .ok trivial

theorem kfree_still (f : Nat) : Sat Panic.Other (Still k) (k.kfree cfg f) :=
  (freeFrame_other k.kmem f).bind fun _ _ => .ok ⟨rfl, rfl, rfl, rfl⟩

theorem dropFrame_still (f : Nat) : Sat Panic.Other (Still k) (k.dropFrame cfg f) := by
  unfold dropFrame
  dsimp only
  split
  · exact (kfree_still f).weaken fun _ still => ⟨still.1, still.2, still.3, still.4⟩
  · exact .ok ⟨rfl, rfl, rfl, rfl⟩

theorem walkpgdirAlloc_still (d va : Nat) :
    Sat Panic.Other (fun r => Still k r.2) (k.walkpgdirAlloc cfg d va) := by
  unfold walkpgdirAlloc
  split
  · exact .ok (.refl k)
  · refine kalloc_still.bind fun r still => ?_
    obtain ⟨r, k₁⟩ := r
    cases r with
    | none => exact .ok still.1
    | some f => exact .ok ⟨still.1.1, still.1.2, still.1.3, still.1.4⟩

theorem mappagesLoop_still (d : Nat) (perm : Pte) (n a pa : Nat) :
    Sat Panic.Other (fun r => Still k r.2) (mappagesLoop cfg d perm n k a pa) := by
  induction n generalizing k a pa with
  | zero => exact .ok (.refl k)
  | succ n ih =>
    unfold mappagesLoop
    refine (walkpgdirAlloc_still d a).bind fun r still => ?_
    obtain ⟨found, k₁⟩ := r
    cases found with
    | false => exact .ok still
    | true =>
      dsimp only
      split
      · exact .error id
      · split
        · exact .error id
        · exact (ih _ _).weaken fun r later =>
            still.trans ⟨later.1, later.2, later.3, later.4⟩

theorem mappages_still (d va size pa : Nat) (perm : Pte) :
    Sat Panic.Other (fun r => Still k r.2) (k.mappages cfg d va size pa perm) :=
  mappagesLoop_still d perm _ _ _

theorem readSwap_other (s : ProcNo) (buffer : Page) (off : Nat) :
    Sat Panic.Other (fun _ => True) (k.readSwap s buffer off) := by
  unfold readSwap
  split
  · exact .error id
  · exact .ok trivial

theorem freeTables_still (d : Nat) (l : List Nat) :
    Sat Panic.Other (Still k) (l.foldlM (freeTables cfg d) k) := by
  refine Sat.foldlM l (fun k₁ i _ sofar => ?_) (.refl k)
  unfold freeTables
  split
  · exact .ok sofar
  · exact (dropFrame_still _).weaken fun _ still => sofar.trans still

theorem mapKernel_still (d : Nat) (l : List Kmap) :
    Sat Panic.Other (fun r => Still k r.2) (mapKernel cfg d l k) := by
  induction l generalizing k with
  | nil => exact .ok (.refl k)
  | cons e l ih =>
    unfold mapKernel
    refine (mappages_still d _ _ _ _).bind fun r still => ?_
    obtain ⟨mapped, k₁⟩ := r
    cases mapped with
    | false => exact .ok still
    | true => exact ih.weaken fun _ later => still.trans later

end Primitives

variable {d : Nat} {E : Panic → Prop} {I : Kernel → Prop}

section Vm

variable {cfg : Config} {k : Kernel} {me : ProcNo}

theorem Frame.setProc {p : Proc} (k : Kernel) (same : (k.proc me).Same p) :
    Frame me k (k.setProc me p) := by
  refine ⟨fun s other => setProc_other _ _ other, ?_, rfl, rfl⟩
  rw [setProc_self]
  exact same

theorem Frame.record (me : ProcNo) (k : Kernel) (e : Event) : Frame me k (k.record e) :=
  .of_proc rfl rfl rfl

theorem Frame.of_still (first : Frame me k k₁) (rest : Still k₁ k') : Frame me k k' :=
  first.trans (rest.frame me)

theorem releaseMeta_frame (d a : Nat) : Frame me k (k.releaseMeta me d a) := by
  unfold releaseMeta
  split
  · exact .setPaging me k _
  · exact .refl me k

/-- A property that survives changes outside the processes and the release of an entry of the
metadata survives the functions on page tables, which fail as their primitives do. -/
structure Survives (me : ProcNo) (E : Panic → Prop) (I : Kernel → Prop) : Prop where
  other : ∀ e, e.Other → E e
  still : ∀ {k k'}, I k → Still k k' → I k'
  release : ∀ {k} d a, I k → I (k.releaseMeta me d a)

namespace Survives

variable {E : Panic → Prop} {I : Kernel → Prop} (rule : Survives me E I)
include rule

theorem sat {α : Type} {P : α → Prop} {x : Res α} (sat : Sat Panic.Other P x) : Sat E P x :=
  sat.mono rule.other fun _ value => value

theorem deallocPage (kept : I k) (d a : Nat) (pte : Pte) :
    Sat E I (k.deallocPage cfg me d a pte) := by
  unfold Kernel.deallocPage
  split
  · split
    · exact .error (rule.other _ id)
    · refine (rule.sat (dropFrame_still pte.frame)).bind fun k₁ still => ?_
      have released := rule.release d a (rule.still kept still)
      exact .ok (rule.still released ⟨rfl, rfl, rfl, rfl⟩)
  · exact .ok kept

theorem deallocLoop (kept : I k) (d oldsz n a : Nat) :
    Sat E I (deallocLoop cfg me d oldsz n k a) := by
  induction n generalizing k a with
  | zero =>
    unfold Kernel.deallocLoop
    split
    · exact .error (rule.other _ id)
    · exact .ok kept
  | succ n ih =>
    unfold Kernel.deallocLoop
    split
    · split
      · exact ih kept _
      · exact (rule.deallocPage kept d a _).bind fun k₁ first => ih first _
    · exact .ok kept

theorem deallocuvm (kept : I k) (d oldsz newsz : Nat) :
    Sat E (fun r => I r.2) (k.deallocuvm cfg me d oldsz newsz) := by
  unfold Kernel.deallocuvm
  split
  · exact .ok kept
  · exact (rule.deallocLoop kept d oldsz _ _).bind fun _ done => .ok done

theorem freevm (kept : I k) (d : Nat) : Sat E I (k.freevm cfg me d) := by
  unfold Kernel.freevm
  split
  · exact .error (rule.other _ id)
  · refine (rule.deallocuvm kept d KERNBASE 0).bind fun r torn => ?_
    refine (rule.sat (freeTables_still d _)).bind fun k₂ freed => ?_
    exact (rule.sat (kfree_still d)).weaken fun _ still => rule.still (rule.still torn freed) still

theorem setupkvm (kept : I k) : Sat E (fun r => I r.2) (k.setupkvm cfg me) := by
  unfold Kernel.setupkvm
  refine (rule.sat kalloc_still).bind fun r still => ?_
  obtain ⟨r, k₁⟩ := r
  cases r with
  | none => exact .ok (rule.still kept still.1)
  | some d =>
    dsimp only
    split
    · exact .error (rule.other _ id)
    · refine (rule.sat (mapKernel_still d _)).bind fun r mapped => ?_
      have first : I r.2 := rule.still kept (still.1.trans ⟨mapped.1, mapped.2, mapped.3, mapped.4⟩)
      obtain ⟨done, k₂⟩ := r
      cases done with
      | true => exact .ok first
      | false => exact (rule.freevm first d).bind fun _ freed => .ok freed

/-- Memory for a page, if there is room for it. -/
theorem addPage (kept : I k) {a : Nat} (oldsz newsz : Nat)
    (track : ∀ k', I k' → k'.proc = k.proc → Sat E I (k'.trackPage cfg me d a)) :
    Sat E (fun r => I r.2) (k.addPage cfg me d oldsz newsz a) := by
  unfold Kernel.addPage
  refine (rule.sat kalloc_still).bind fun r still => ?_
  obtain ⟨r, k₁⟩ := r
  have first : I k₁ := rule.still kept still.1
  cases r with
  | none => exact (rule.deallocuvm first d newsz oldsz).bind fun _ torn => .ok torn
  | some f =>
    refine (rule.sat (mappages_still d a PGSIZE f .user)).bind fun r mapped => ?_
    have mapped : Still k r.2 := still.1.trans ⟨mapped.1, mapped.2, mapped.3, mapped.4⟩
    obtain ⟨done, k₂⟩ := r
    have second : I k₂ := rule.still kept mapped
    cases done with
    | false =>
      refine (rule.deallocuvm second d newsz oldsz).bind fun r torn => ?_
      exact (rule.sat (kfree_still f)).bind fun _ freed => .ok (rule.still torn freed)
    | true => exact (track k₂ second mapped.proc).bind fun _ tracked => .ok tracked

section Alloc

variable {J : (ProcNo → Proc) → Prop} {d : Nat}
  (room : ∀ k, I k → Sat E (fun k' => I k' ∧ J k'.proc) (k.makeRoom cfg me d))
  (track : ∀ k a, I k → J k.proc → Sat E I (k.trackPage cfg me d a))
include room track

theorem allocLoop (kept : I k) (oldsz newsz n a : Nat) :
    Sat E (fun r => I r.2) (allocLoop cfg me d oldsz newsz n k a) := by
  induction n generalizing k a with
  | zero => exact .ok kept
  | succ n ih =>
    unfold Kernel.allocLoop allocPage
    refine Sat.bind (P := fun r => I r.2) ?_ fun r first => ?_
    · refine (room k kept).bind fun k₁ made => ?_
      exact rule.addPage made.1 oldsz newsz fun k' kept' same => track k' a kept' (same ▸ made.2)
    · obtain ⟨done, k₁⟩ := r
      cases done with
      | false => exact .ok first
      | true => exact ih first _

theorem allocuvm (kept : I k) (oldsz newsz : Nat) :
    Sat E (fun r => I r.2) (k.allocuvm cfg me d oldsz newsz) := by
  unfold Kernel.allocuvm
  split
  · exact .ok kept
  · split
    · exact .ok kept
    · refine (rule.allocLoop room track kept oldsz newsz _ _).bind fun r grown => ?_
      obtain ⟨done, k₁⟩ := r
      cases done <;> exact .ok grown

end Alloc

end Survives

theorem frame_survives (me : ProcNo) (k : Kernel) : Survives me (fun _ => True) (Frame me k) where
  other _ _ := trivial
  still frame still := frame.of_still still
  release d a frame := frame.trans (releaseMeta_frame d a)

theorem deallocuvm_frame (d oldsz newsz : Nat) :
    Sat (fun _ => True) (fun r => Frame me k r.2) (k.deallocuvm cfg me d oldsz newsz) :=
  (frame_survives me k).deallocuvm (.refl me k) d oldsz newsz

theorem freevm_frame (d : Nat) : Sat (fun _ => True) (Frame me k) (k.freevm cfg me d) :=
  (frame_survives me k).freevm (.refl me k) d

/-- The state in which `pageToSwapFile` drops the frame of the page in slot `i`, once the
page is in slot `j` of the file. -/
def pagedOut (k : Kernel) (me : ProcNo) (i j : Slot) (pte : Pte) (file : File) : Kernel :=
  { k with
    proc := Function.update k.proc me { k.proc me with
      pagedout := (k.proc me).pagedout + 1
      paging := (k.proc me).paging.pageOut i j
      swapFile := some (writeToSwapFile file (k.mem pte.frame) (j.val * PGSIZE)).2 }
    buffer := k.mem pte.frame
    trace := .swapWrite me (j.val * PGSIZE) file.size ::
      .evicted me (k.proc me).paging i :: k.trace }

/-- `pageToSwapFile` on two slots. -/
theorem pageToSwapFile_eq (i j : Slot) (d : Nat) :
    k.pageToSwapFile cfg me i.val (some j) d = (do
      cfg.meet .eviction
      match walkpgdir (k.dirs d) ((k.proc me).paging.ramPmd i).va with
      | none => .error .nullDeref
      | some pte =>
        match (k.proc me).swapFile with
        | none => .error .nullDeref
        | some file => do
          let k₁ ← (k.pagedOut me i j pte file).dropFrame cfg pte.frame
          .ok (k₁.setPte d ((k.proc me).paging.ramPmd i).va
            { pte with p := false, pg := true })) := by
  have slot : ¬ (i.val : Int) = -1 := by omega
  unfold pageToSwapFile
  congr 1
  funext _
  simp only [if_neg slot, ramSlot_val, Res.ok_bind, setProc_self, setPaging_dirs, record_dirs,
    setProc_dirs, setPaging_mem, record_mem, setProc_mem]
  cases walkpgdir (k.dirs d) ((k.proc me).paging.ramPmd i).va with
  | none => rfl
  | some pte =>
    simp only [writeSwap, setPaging_self, record_proc, setProc_self]
    cases (k.proc me).swapFile with
    | none => rfl
    | some file =>
      simp only [Res.ok_bind]
      congr 2
      simp [pagedOut, record, setPaging, setProc]

theorem ramSlot_sat (x : Int) : Sat (fun _ => True) (fun i => x = i.val) (ramSlot x) := by
  unfold ramSlot
  split
  · rename_i inside
    exact .ok (by simp; omega)
  · exact .error trivial

theorem pagedOut_frame (i j : Slot) (pte : Pte) (file : File) :
    Frame me k (k.pagedOut me i j pte file) := by
  refine ⟨fun s other => Function.update_of_ne other .., ?_, rfl, rfl⟩
  simp only [pagedOut, Function.update_self]
  exact ⟨rfl, rfl, rfl, rfl, rfl, rfl, rfl⟩

theorem pageToSwapFile_frame (x : Int) (j : Option Slot) (d : Nat) :
    Sat (fun _ => True) (Frame me k) (k.pageToSwapFile cfg me x j d) := by
  by_cases slots : ∃ (i : Slot) (j' : Slot), x = i.val ∧ j = some j'
  · obtain ⟨i, j', rfl, rfl⟩ := slots
    rw [pageToSwapFile_eq]
    refine (meet_sat .eviction).values.bind fun _ _ => ?_
    split
    · exact .error trivial
    · split
      · exact .error trivial
      · rename_i pte _ _ file _
        refine (dropFrame_still _).values.bind fun k₁ still => ?_
        exact .ok (((pagedOut_frame i j' pte file).of_still still).of_still ⟨rfl, rfl, rfl, rfl⟩)
  · -- Without both slots the call fails.
    unfold pageToSwapFile
    refine (meet_sat .eviction).values.bind fun _ _ => ?_
    split
    · exact .error trivial
    · cases j with
      | none => exact .error trivial
      | some j' => exact (ramSlot_sat x).bind fun i slot => absurd ⟨i, j', slot, rfl⟩ slots

theorem updatePageInPriorityQueue_frame (x : Int) :
    Sat (fun _ => True) (Frame me k) (updatePageInPriorityQueue cfg me k x) := by
  unfold updatePageInPriorityQueue
  refine (ramSlot_sat x).bind fun i _ => ?_
  dsimp only
  split
  · exact .error trivial
  · refine (sat_true _).bind fun m _ => ?_
    refine .ok (Frame.trans (Frame.of_still (.setPaging me k m) ?_) (.record me _ _))
    exact ⟨rfl, rfl, rfl, rfl⟩

theorem updatePagesInPriorityQueue_frame :
    Sat (fun _ => True) (Frame me k) (k.updatePagesInPriorityQueue cfg me) := by
  unfold updatePagesInPriorityQueue
  split
  · exact .ok (.refl me k)
  · refine Sat.foldlM _ (fun k₁ x _ sofar => ?_) (.refl me k)
    exact (updatePageInPriorityQueue_frame x).weaken fun _ later => sofar.trans later

theorem evict_frame (d : Nat) : Sat (fun _ => True) (Frame me k) (k.evict cfg me d) := by
  unfold evict
  exact (pageToSwapFile_frame _ _ d).weaken fun _ later => (Frame.setPaging me k _).trans later

theorem makeRoom_frame (d : Nat) : Sat (fun _ => True) (Frame me k) (k.makeRoom cfg me d) := by
  unfold makeRoom
  split
  · exact .ok (.refl me k)
  · split
    · split
      · exact .error trivial
      · refine updatePagesInPriorityQueue_frame.bind fun k₁ first => ?_
        exact (evict_frame d).weaken fun _ later => first.trans later
    · exact .ok (.refl me k)

theorem trackPage_frame (d a : Nat) :
    Sat (fun _ => True) (Frame me k) (k.trackPage cfg me d a) := by
  unfold trackPage
  split
  · exact .ok (.refl me k)
  · split
    · exact .error trivial
    · refine (sat_true _).bind fun m _ => ?_
      exact .ok (Frame.trans (.setPaging me k m) (.record me _ _))

theorem allocuvm_frame (d oldsz newsz : Nat) :
    Sat (fun _ => True) (fun r => Frame me k r.2) (k.allocuvm cfg me d oldsz newsz) :=
  (frame_survives me k).allocuvm (J := fun _ => True)
    (fun _ frame => (makeRoom_frame d).weaken fun _ later => ⟨frame.trans later, trivial⟩)
    (fun _ a frame _ => (trackPage_frame d a).weaken fun _ later => frame.trans later)
    (.refl me k) oldsz newsz

theorem cowPage_still (d c i : Nat) :
    Sat Panic.Other (fun r => Still k r.2) (k.cowPage cfg d c i) := by
  unfold cowPage
  split
  · exact .error id
  · split
    · exact .error id
    · refine (mappages_still c i PGSIZE _ _).bind fun r mapped => ?_
      have first : Still k r.2 := ⟨mapped.1, mapped.2, mapped.3, mapped.4⟩
      obtain ⟨done, k₁⟩ := r
      cases done with
      | false => exact .ok first
      | true =>
        dsimp only
        split
        · exact .ok ⟨first.1, first.2, first.3, first.4⟩
        · split
          · exact .error id
          · exact .ok ⟨first.1, first.2, first.3, first.4⟩

theorem cowLoop_still (d c n i : Nat) :
    Sat Panic.Other (fun r => Still k r.2) (cowLoop cfg d c n k i) := by
  induction n generalizing k i with
  | zero => exact .ok (.refl k)
  | succ n ih =>
    unfold cowLoop
    refine (cowPage_still d c i).bind fun r first => ?_
    obtain ⟨done, k₁⟩ := r
    cases done with
    | false => exact .ok first
    | true => exact (ih _).weaken fun _ later => first.trans later

theorem Survives.cowuvm (rule : Survives me E I) (kept : I k)
    (d sz : Nat) : Sat E (fun r => I r.2) (k.cowuvm cfg me d sz) := by
  unfold Kernel.cowuvm
  refine (rule.setupkvm kept).bind fun r first => ?_
  obtain ⟨c, k₁⟩ := r
  cases c with
  | none => exact .ok first
  | some c =>
    refine (rule.sat (cowLoop_still d c _ 0)).bind fun r shared => ?_
    have second : I r.2 := rule.still first shared
    obtain ⟨done, k₂⟩ := r
    cases done with
    | true => exact .ok second
    | false => exact (rule.freevm second c).bind fun _ freed => .ok freed

theorem cowuvm_frame (d sz : Nat) :
    Sat (fun _ => True) (fun r => Frame me k r.2) (k.cowuvm cfg me d sz) :=
  (frame_survives me k).cowuvm (.refl me k) d sz

theorem swapPages_frame (x : Int) (j : Option Slot) (d : Nat) :
    Sat (fun _ => True) (Frame me k) (k.swapPages cfg me x j d) := by
  unfold swapPages
  split
  · exact .error trivial
  · split
    · exact .error trivial
    · refine (sat_true _).bind fun page _ => ?_
      refine (pageToSwapFile_frame x _ d).bind fun k₁ out => ?_
      have buffered : Still k { k with swapBuffer := page } := ⟨rfl, rfl, rfl, rfl⟩
      have first : Frame me k k₁ := (buffered.frame me).trans out
      refine (sat_true _).bind fun m _ => ?_
      refine (sat_true _).bind fun i _ => ?_
      refine (sat_true _).bind fun m' _ => ?_
      refine kalloc_still.values.bind fun r still => ?_
      obtain ⟨r, k₂⟩ := r
      have second : Frame me k k₂ := Frame.of_still
        (first.trans (Frame.trans (.setPaging me k₁ m') (.record me _ _))) still.1
      cases r with
      | none => exact .ok second
      | some f =>
        refine (mappages_still _ _ PGSIZE f .user).values.bind fun r mapped => ?_
        obtain ⟨done, k₃⟩ := r
        cases done with
        | false => exact .error trivial
        | true => exact .ok (second.of_still ⟨mapped.1, mapped.2, mapped.3, mapped.4⟩)

theorem swapIn_frame (va1 : Nat) : Sat (fun _ => True) (Frame me k) (k.swapIn cfg me va1) := by
  unfold swapIn
  split
  · exact .error trivial
  · refine (sat_true _).bind fun m _ => ?_
    split
    · exact .error trivial
    · refine (sat_true _).bind fun m' _ => ?_
      refine kalloc_still.values.bind fun r still => ?_
      obtain ⟨r, k₁⟩ := r
      have first : Frame me k k₁ := Frame.of_still
        (Frame.trans (.setPaging me k m') (.record me _ _)) still.1
      cases r with
      | none => exact .ok first
      | some f =>
        refine (mappages_still _ _ PGSIZE f .user).values.bind fun r mapped => ?_
        have second : Frame me k r.2 := first.of_still ⟨mapped.1, mapped.2, mapped.3, mapped.4⟩
        obtain ⟨done, k₂⟩ := r
        cases done with
        | false => exact .error trivial
        | true =>
          refine (sat_true _).bind fun page _ => ?_
          refine .ok (second.trans (Frame.trans (Still.frame ?_ me) (.setPaging me _ _)))
          exact ⟨rfl, rfl, rfl, rfl⟩

theorem onPageFaultPG_frame (va1 : Nat) :
    Sat (fun _ => True) (Frame me k) (k.onPageFaultPG cfg me va1) := by
  unfold onPageFaultPG
  dsimp only
  split
  · exact .error trivial
  · split
    · split
      · exact (swapPages_frame _ _ _).weaken fun _ later => (Frame.setPaging me k _).trans later
      · refine (evict_frame _).bind fun k₁ out => ?_
        exact (swapIn_frame va1).weaken fun _ later => out.trans later
    · exact swapIn_frame va1

end Vm

/-- What a step of `me` leaves of the processes that are neither free nor to be reaped, and
of the free ones: `fork` fills one of them, and nothing else does. -/
structure Apart (me : ProcNo) (k k' : Kernel) : Prop where
  others : ∀ s, s ≠ me → (k.proc s).state ≠ .UNUSED → (k.proc s).state ≠ .ZOMBIE →
    k'.proc s = { k.proc s with parent := (k'.proc s).parent }
  pid : (k'.proc me).pid = (k.proc me).pid

section Steps

variable {cfg : Config} {k k' : Kernel} {me : ProcNo}

theorem Frame.apart (frame : Frame me k k') : Apart me k k' where
  others s other _ _ := by rw [frame.others s other]
  pid := frame.mine.pid

/-- A last change of `me` itself. -/
theorem Frame.apart_of (frame : Frame me k k₁)
    (others : ∀ s, s ≠ me → k'.proc s = k₁.proc s) (pid : (k'.proc me).pid = (k₁.proc me).pid) :
    Apart me k k' where
  others s other _ _ := by rw [others s other, frame.others s other]
  pid := pid.trans frame.mine.pid

theorem kill_apart (frame : Frame me k k') : Apart me k (k'.kill me) :=
  frame.apart_of (fun s other => setProc_other _ _ other) (by rw [kill, setProc_self])

theorem onPageFault_apart (va : Nat) :
    Sat (fun _ => True) (Apart me k) (k.onPageFault cfg me va) := by
  unfold onPageFault
  have counted : Frame me k (k.setProc me
      { k.proc me with pagefaults := (k.proc me).pagefaults + 1 }) :=
    .setProc k ⟨rfl, rfl, rfl, rfl, rfl, rfl, rfl⟩
  refine updatePagesInPriorityQueue_frame.bind fun k₁ sampled => ?_
  have first : Frame me k k₁ := counted.trans sampled
  dsimp only
  split
  · exact .ok (kill_apart first)
  · split
    · exact .ok (kill_apart first)
    · split
      · unfold onPageFaultCow
        dsimp only
        split
        · exact .error trivial
        · split
          · refine kalloc_still.values.bind fun r still => ?_
            obtain ⟨r, k₂⟩ := r
            have second : Frame me k k₂ :=
              first.of_still ⟨still.1.1, still.1.2, still.1.3, still.1.4⟩
            cases r with
            | none => exact .ok (kill_apart second)
            | some f => exact .ok (Frame.apart (second.trans (.of_proc rfl rfl rfl)))
          · exact .ok (Frame.apart (first.trans (.of_proc rfl rfl rfl)))
      · split
        · exact (onPageFaultPG_frame _).weaken fun _ later => (first.trans later).apart
        · exact .ok (kill_apart first)

theorem Apart.exited (first : Apart me k k₁) (run : k₁.exit me = .ok k') : Apart me k k' := by
  unfold exit at run
  split at run
  · cases run
  · simp only at run
    split at run
    · cases run
    · cases run
      refine ⟨fun s other used unreaped => ?_, ?_⟩
      · have kept := first.others s other used unreaped
        rw [setProc_other _ _ other]
        simp only [reparent, setProc_other _ _ other]
        split
        · rw [kept]
        · exact kept
      · rw [setProc_self]
        simp only [reparent, setProc_self]
        split
        · exact first.pid
        · exact first.pid

theorem pageFault_apart (va : Nat) :
    Sat (fun _ => True) (Apart me k) (k.pageFault cfg me va) := by
  unfold pageFault
  refine (onPageFault_apart va).bind fun k₁ first => ?_
  split
  · cases run : k₁.exit me with
    | ok k' => exact .ok (first.exited run)
    | error => exact .error trivial
  · exact .ok first

theorem growproc_apart (n : Int) :
    Sat (fun _ => True) (fun r => Apart me k r.2) (k.growproc cfg me n) := by
  unfold growproc
  refine Sat.bind (P := fun r => Frame me k r.2) ?_ fun r resized => ?_
  · unfold resize
    dsimp only
    split
    · exact allocuvm_frame _ _ _
    · split
      · exact deallocuvm_frame _ _ _
      · exact .ok (.refl me k)
  · obtain ⟨sz, k₁⟩ := r
    dsimp only
    split
    · exact .ok resized.apart
    · exact .ok (resized.apart_of (fun s other => setProc_other _ _ other) (by rw [setProc_self]))

/-- A free slot is filled, or stays free. -/
theorem allocproc_sat :
    Sat Panic.Other (fun r => r.2.trace = k.trace ∧
      (r.1 = none → (∀ s, (k.proc s).state ≠ .UNUSED → r.2.proc s = k.proc s) ∧
        ∀ s, (k.proc s).state = .UNUSED → (r.2.proc s).state = .UNUSED) ∧
      ∀ np, r.1 = some np → (k.proc np).state = .UNUSED ∧
        (r.2.proc np).paging = freshPaging (k.proc np).paging ∧
        ∀ s, s ≠ np → r.2.proc s = k.proc s) (k.allocproc cfg) := by
  unfold allocproc
  split
  · exact .ok ⟨rfl, fun _ => ⟨fun _ _ => rfl, fun _ h => h⟩, by simp⟩
  · rename_i np found
    have isFree := List.find?_some found
    simp only [decide_eq_true_eq] at isFree
    refine kalloc_still.bind fun r still => ?_
    obtain ⟨⟨procs, trace, _, _⟩, _⟩ := still
    obtain ⟨f, k₁⟩ := r
    have procs : k₁.proc = k.proc := procs
    cases f with
    | none =>
      refine .ok ⟨trace, fun _ => ⟨fun s used => ?_, fun s free => ?_⟩, by simp⟩
      · have other : s ≠ np := fun same => used (same ▸ isFree)
        rw [setProc_other _ _ other, procs]
      · by_cases same : s = np
        · subst same
          rw [setProc_self, procs]
          exact free
        · rw [setProc_other _ _ same, procs]
          exact free
    | some f =>
      refine .ok ⟨trace, by simp, fun np' same => ?_⟩
      obtain rfl : np = np' := by simpa using same
      refine ⟨isFree, ?_, fun s other => ?_⟩
      · rw [setProc_self, procs]
      · rw [setProc_other _ _ other, procs]

/-- What the copy of the swap slots changes: the file of the child. -/
structure SlotsCopied (np : ProcNo) (k k' : Kernel) : Prop where
  others : ∀ s, s ≠ np → k'.proc s = k.proc s
  child : ∃ file, k'.proc np = { k.proc np with swapFile := file }
  events : ∃ new, k'.trace = new ++ k.trace ∧ ∀ e ∈ new, ∃ off size, e = .swapWrite np off size

theorem SlotsCopied.refl (np : ProcNo) (k : Kernel) : SlotsCopied np k k :=
  ⟨fun _ _ => rfl, ⟨_, rfl⟩, [], rfl, by simp⟩

theorem SlotsCopied.trans {np : ProcNo} (first : SlotsCopied np k k₁)
    (second : SlotsCopied np k₁ k') : SlotsCopied np k k' := by
  obtain ⟨others, ⟨file, child⟩, new, trace, writes⟩ := first
  obtain ⟨others', ⟨file', child'⟩, new', trace', writes'⟩ := second
  refine ⟨fun s other => (others' s other).trans (others s other), ⟨file', by rw [child', child]⟩,
    new' ++ new, by rw [trace', trace, List.append_assoc], fun e inside => ?_⟩
  rcases List.mem_append.mp inside with late | early
  · exact writes' e late
  · exact writes e early

theorem copySlot_sat (np : ProcNo) (i : Slot) :
    Sat Panic.Other (SlotsCopied np k) (k.copySlot me np i) := by
  unfold copySlot
  dsimp only
  split
  · refine (readSwap_other _ _ _).bind fun page _ => ?_
    unfold writeSwap
    split
    · exact .error id
    · refine .ok ⟨fun s other => ?_, ⟨_, by rw [record_proc, setProc_self]⟩, [_], rfl, by simp⟩
      rw [record_proc, setProc_other _ _ other]
  · exact .ok (.refl np k)

theorem copySlots_sat (np : ProcNo) (l : List Slot) :
    Sat Panic.Other (SlotsCopied np k) (l.foldlM (fun k i => k.copySlot me np i) k) := by
  refine Sat.foldlM l (fun k₁ i _ sofar => ?_) (.refl np k)
  exact (copySlot_sat np i).weaken fun _ later => sofar.trans later

theorem fork_apart (used : (k.proc me).state ≠ .UNUSED) :
    Sat (fun _ => True) (fun r => Apart me k r.2) (k.fork cfg me) := by
  unfold fork
  refine allocproc_sat.values.bind fun r born => ?_
  obtain ⟨np, k₁⟩ := r
  obtain ⟨_, failed, filled⟩ := born
  cases np with
  | none =>
    have same := (failed rfl).1
    exact .ok ⟨fun s _ used _ => by rw [same s used], by rw [same me used]⟩
  | some np =>
    obtain ⟨free, _, same⟩ := filled np rfl
    have mine : me ≠ np := fun eq => used (eq ▸ free)
    refine (cowuvm_frame _ _).bind fun r shared => ?_
    obtain ⟨d, k₂⟩ := r
    have first : ∀ s, s ≠ me → s ≠ np → k₂.proc s = k.proc s := fun s other notNp =>
      (shared.others s other).trans (same s notNp)
    have pid : (k₂.proc me).pid = (k.proc me).pid := by
      rw [shared.mine.pid, same me mine]
    cases d with
    | none =>
      refine (kfree_still _).values.bind fun k₃ still => .ok ⟨fun s other inUse _ => ?_, ?_⟩
      · have notNp : s ≠ np := fun eq => inUse (eq ▸ free)
        rw [setProc_other _ _ notNp, still.proc, first s other notNp]
      · rw [setProc_other _ _ mine, still.proc, pid]
    | some d =>
      refine (copySlots_sat np _).values.bind fun k₃ copied => .ok ⟨fun s other inUse _ => ?_, ?_⟩
      · have notNp : s ≠ np := fun eq => inUse (eq ▸ free)
        rw [setProc_other _ _ notNp, copied.others s notNp, first s other notNp]
      · rw [setProc_other _ _ mine, copied.others me mine, pid]

theorem wait_apart (unreaped : (k.proc me).state ≠ .ZOMBIE) :
    Sat (fun _ => True) (fun r => Apart me k r.2) (k.wait cfg me) := by
  unfold wait
  split
  · rename_i child found
    have zombie := List.find?_some found
    simp only [decide_eq_true_eq] at zombie
    have mine : me ≠ child := fun eq => unreaped (eq ▸ zombie.2)
    refine Sat.bind (P := fun r => Apart me k r.2) ?_ fun r reaped => .ok reaped
    unfold reap
    refine (dropFrame_still _).values.bind fun k₁ still => ?_
    refine (freevm_frame _).bind fun k₂ freed => .ok ?_
    have first : Frame me k k₂ := (still.frame me).trans freed
    refine ⟨fun s other _ waiting => ?_, ?_⟩
    · have notChild : s ≠ child := fun eq => waiting (eq ▸ zombie.2)
      rw [setProc_other _ _ notChild, first.others s other]
    · rw [setProc_other _ _ mine, first.mine.pid]
  · split
    · exact .ok (Frame.refl me k).apart
    · exact .ok (Frame.refl me k).apart

variable {va : Nat} {b : UInt8}

theorem load_still (loaded : k.load me va = some (b, k')) : Still k k' := by
  unfold load at loaded
  split at loaded
  · cases loaded
  · cases loaded
    exact ⟨rfl, rfl, rfl, rfl⟩

theorem store_still (stored : k.store me va b = some k') : Still k k' := by
  unfold store at stored
  split at stored
  · cases stored
  · cases stored
    exact ⟨rfl, rfl, rfl, rfl⟩

theorem step_apart (active : (k.proc me).Active) (op : MemOp) :
    Sat (fun _ => True) (Apart me k) (k.step cfg me op) := by
  obtain ⟨used, unreaped⟩ := active.inUse
  cases op with
  | load va =>
    simp only [step]
    split
    · rename_i loaded
      exact .ok ((load_still loaded).frame me).apart
    · exact pageFault_apart va.toNat
  | store va b =>
    simp only [step]
    split
    · rename_i stored
      exact .ok ((store_still stored).frame me).apart
    · exact pageFault_apart va.toNat
  | growproc n => exact (growproc_apart n).bind fun _ grown => .ok grown
  | fork => exact (fork_apart used).bind fun _ forked => .ok forked
  | exit =>
    simp only [step]
    cases run : k.exit me with
    | ok k' => exact .ok ((Frame.refl me k).apart.exited run)
    | error => exact .error trivial
  | wait => exact (wait_apart unreaped).bind fun _ waited => .ok waited

end Steps

section Exec

variable {cfg : Config} {k : Kernel} {me : ProcNo}

theorem loaduvm_still (d addr : Nat) (ip : File) (offset sz : Nat) :
    Sat Panic.Other (fun r => Still k r.2) (k.loaduvm d addr ip offset sz) := by
  have loop : ∀ turns i, Sat Panic.Other (fun r => Still k r.2)
      (loadLoop d addr ip offset sz turns k i) := by
    intro turns
    induction turns generalizing k with
    | zero => exact fun i => .ok (.refl k)
    | succ turns ih =>
      intro i
      unfold loadLoop
      split
      · exact .error id
      · dsimp only
        generalize (if sz - i < PGSIZE then sz - i else PGSIZE) = n
        split
        · exact .ok (.refl k)
        · split
          · exact (ih _).weaken fun _ later => ⟨later.1, later.2, later.3, later.4⟩
          · exact .ok ⟨rfl, rfl, rfl, rfl⟩
  unfold loaduvm
  split
  · exact .error id
  · exact loop _ 0

theorem clearpteu_still (d uva : Nat) : Sat Panic.Other (Still k) (k.clearpteu d uva) := by
  unfold clearpteu
  split
  · exact .error id
  · exact .ok ⟨rfl, rfl, rfl, rfl⟩

theorem copyoutLoop_still (d turns va : Nat) (buf : List UInt8) :
    Sat Panic.Other (fun r => Still k r.2) (copyoutLoop d turns k va buf) := by
  induction turns generalizing k va buf with
  | zero => exact .ok (.refl k)
  | succ turns ih =>
    unfold copyoutLoop
    split
    · exact .ok (.refl k)
    · refine Sat.bind (P := fun _ => True) ?_ fun f _ => ?_
      · unfold uva2ka
        split
        · exact .error id
        · exact .ok trivial
      · cases f with
        | none => exact .ok (.refl k)
        | some f => exact (ih _ _).weaken fun _ later => ⟨later.1, later.2, later.3, later.4⟩

theorem pushStrings_still (d : Nat) (argv : List (List UInt8)) (sp : Nat) (ustack : List Nat) :
    Sat Panic.Other (fun r => Still k r.2) (pushStrings d argv k sp ustack) := by
  induction argv generalizing k sp ustack with
  | nil => exact .ok (.refl k)
  | cons s argv ih =>
    unfold pushStrings
    split
    · exact .ok (.refl k)
    · refine (copyoutLoop_still d _ _ _).bind fun r copied => ?_
      obtain ⟨done, k₁⟩ := r
      cases done with
      | false => exact .ok copied
      | true => exact (ih _ _).weaken fun _ later => copied.trans later

theorem pushArgs_still (d sp : Nat) (argv : List (List UInt8)) :
    Sat Panic.Other (fun r => Still k r.2) (k.pushArgs d sp argv) := by
  unfold pushArgs
  refine (pushStrings_still d argv sp []).bind fun r pushed => ?_
  obtain ⟨done, k₁⟩ := r
  cases done with
  | none => exact .ok pushed
  | some stack =>
    refine (copyoutLoop_still d _ _ _).bind fun r copied => ?_
    obtain ⟨done, k₂⟩ := r
    cases done <;> exact .ok (pushed.trans copied)

/-- Building an image keeps what `allocuvm` keeps. -/
theorem buildImage_keeps (other : ∀ e, e.Other → E e) (still : ∀ k k', I k → Still k k' → I k')
    (alloc : ∀ k oldsz newsz, I k → Sat E (fun r => I r.2) (k.allocuvm cfg me d oldsz newsz))
    (start : I k) (ip : File) (elf : Elfhdr) (argv : List (List UInt8)) :
    Sat E (fun r => I r.2) (k.buildImage cfg me d ip elf argv) := by
  have segment : ∀ k off sz, I k →
      Sat E (fun r => I r.2) (k.loadSegment cfg me d ip off sz) := by
    intro k off sz kept
    unfold loadSegment
    split
    · exact .ok kept
    · split
      · exact .ok kept
      · split
        · exact .ok kept
        · split
          · exact .ok kept
          · refine (alloc _ _ _ kept).bind fun r grown => ?_
            obtain ⟨sz, k₁⟩ := r
            dsimp only
            split
            · exact .ok grown
            · split
              · exact .ok grown
              · refine ((loaduvm_still d _ ip _ _).mono other fun _ h => h).bind fun r loaded => ?_
                have kept' : I r.2 := still _ _ grown loaded
                obtain ⟨done, k₂⟩ := r
                cases done <;> exact .ok kept'
  have segments : ∀ n k off sz, I k →
      Sat E (fun r => I r.2) (loadSegments cfg me d ip n k off sz) := by
    intro n
    induction n with
    | zero => exact fun k off sz kept => .ok kept
    | succ n ih =>
      intro k off sz kept
      unfold loadSegments
      refine (segment k off sz kept).bind fun r loaded => ?_
      obtain ⟨done, k₁⟩ := r
      cases done with
      | none => exact .ok loaded
      | some sz => exact ih _ _ _ loaded
  unfold buildImage
  refine (segments _ _ _ _ start).bind fun r loaded => ?_
  obtain ⟨done, k₁⟩ := r
  cases done with
  | none => exact .ok loaded
  | some sz =>
    refine (alloc _ _ _ loaded).bind fun r grown => ?_
    obtain ⟨sz, k₂⟩ := r
    dsimp only
    split
    · exact .ok grown
    · refine ((clearpteu_still d _).mono other fun _ h => h).bind fun k₃ cleared => ?_
      refine ((pushArgs_still d _ argv).mono other fun _ h => h).bind fun r pushed => ?_
      have kept : I r.2 := still _ _ (still _ _ grown cleared) pushed
      obtain ⟨done, k₄⟩ := r
      cases done <;> exact .ok kept

theorem buildImage_frame (d : Nat) (ip : File) (elf : Elfhdr) (argv : List (List UInt8)) :
    Sat (fun _ => True) (fun r => Frame me k r.2) (k.buildImage cfg me d ip elf argv) :=
  buildImage_keeps (fun _ _ => trivial) (fun _ _ kept still => kept.of_still still)
    (fun _ _ _ kept => (allocuvm_frame _ _ _).weaken fun _ later => kept.trans later)
    (.refl me k) ip elf argv

theorem exec_apart (file : Option File) (argv : List (List UInt8)) :
    Sat (fun _ => True) (fun r => Apart me k r.2) (k.exec cfg me file argv) := by
  have bad : ∀ k₁ backup d, Frame me k k₁ →
      Sat (fun _ => True) (fun r => Apart me k r.2) (k₁.execBad cfg me backup d) := by
    intro k₁ backup d first
    unfold execBad
    have restored : Frame me k (k₁.setPaging me backup) := first.trans (.setPaging me k₁ backup)
    cases d with
    | none => exact .ok restored.apart
    | some d => exact (freevm_frame d).bind fun _ freed => .ok (restored.trans freed).apart
  unfold exec
  split
  · exact .ok (Frame.refl me k).apart
  · rename_i ip
    have reset : Frame me k (k.setPaging me (k.proc me).paging.reset) := .setPaging me k _
    dsimp only
    split
    · exact bad _ _ _ reset
    · rename_i elf _
      split
      · exact bad _ _ _ reset
      · refine ((frame_survives me k).setupkvm reset).bind fun r first => ?_
        obtain ⟨d, k₁⟩ := r
        have first : Frame me k k₁ := first
        cases d with
        | none => exact bad _ _ _ first
        | some d =>
          refine (buildImage_frame d ip elf argv).bind fun r built => ?_
          obtain ⟨sz, k₂⟩ := r
          have second : Frame me k k₂ := first.trans built
          cases sz with
          | none => exact bad _ _ _ second
          | some sz =>
            refine (freevm_frame _).bind fun k₃ freed => .ok ?_
            refine ⟨fun s other _ _ => ?_, ?_⟩
            · rw [freed.others s other, setProc_other _ _ other, second.others s other]
            · rw [freed.mine.pid, setProc_self, second.mine.pid]

end Exec

end Kernel

end Xv6
