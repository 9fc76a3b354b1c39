import Xv6.Memory.SecondChance

/-!
The `AQ` build: what sampling a page and choosing a victim do to the order of the queue.

A page found accessed is meant to change places with its successor. The source looks for the
successor in a copy of the queue, but leaves the search after one turn, so that the page it takes
is the second of the whole queue.

Choosing the victim lowers the priorities behind it by one. For a moment the victim and its
successor can be tied; the pages that remain once it is gone are ordered as before.
-/

namespace Xv6

open Equiv HeapP List Outcome Paging

/-- The page `x` is before the page `y` in the order of priorities. -/
def PrioQueue.Before (q : PrioQueue) (x y : Int) : Prop :=
  ∃ e ∈ q.live, ∃ e' ∈ q.live, e.index = x ∧ e'.index = y ∧ e.priority.toNat < e'.priority.toNat

/-- The page `y` is immediately after the page `x`. -/
def PrioQueue.Next (q : PrioQueue) (x y : Int) : Prop :=
  q.Before x y ∧ ∀ z, ¬ (q.Before x z ∧ q.Before z y)

/-- Exactly one page is before `y`. -/
def PrioQueue.Second (q : PrioQueue) (y : Int) : Prop :=
  ∃ x, q.Before x y ∧ ∀ z, q.Before z y → z = x

/-- The page `x` stays where it is or changes places with its successor; everything else stays. -/
structure Advanced (x : Int) (q q' : PrioQueue) : Prop where
  isHeap : q'.IsHeap
  slots : (q'.live.map HeapP.index).Perm (q.live.map HeapP.index)
  size : q'.size = q.size
  order : (∀ y z, q'.Before y z ↔ q.Before y z) ∨
    ∃ b, q.Next x b ∧ ∀ y z, q'.Before y z ↔ q.Before (Equiv.swap x b y) (Equiv.swap x b z)

section Order

variable {q q' : PrioQueue} {a b h : HeapP} {rest : List HeapP} {x y z : Int}

section

variable (distinct : (q.live.map HeapP.index).Nodup)
include distinct

theorem before_entries (inA : a ∈ q.live)
    (inB : b ∈ q.live) : q.Before a.index b.index ↔ a.priority.toNat < b.priority.toNat := by
  constructor
  · rintro ⟨e, mem, e', mem', same, same', less⟩
    rwa [entry_unique distinct inA mem same.symm, entry_unique distinct inB mem' same'.symm]
  · exact fun less => ⟨a, inA, b, inB, rfl, rfl, less⟩

theorem before_trans (first : q.Before x y)
    (second : q.Before y z) : q.Before x z := by
  obtain ⟨e, mem, e', mem', same, same', less⟩ := first
  obtain ⟨f, memF, f', memF', sameF, sameF', lessF⟩ := second
  rw [entry_unique distinct memF mem' (sameF.trans same'.symm)] at lessF
  exact ⟨e, mem, f', memF', same, sameF', Nat.lt_trans less lessF⟩

theorem before_asymm (first : q.Before x y)
    (second : q.Before y x) : False := by
  obtain ⟨e, mem, e', mem', same, same', less⟩ := before_trans distinct first second
  rw [entry_unique distinct mem mem' (same.trans same'.symm)] at less
  exact Nat.lt_irrefl _ less

end

theorem before_congr (live : q'.live.Perm q.live) : q'.Before x y ↔ q.Before x y := by
  simp only [PrioQueue.Before, live.mem_iff]

/-- The same entries in another arrangement. -/
theorem advanced_of_perm (isHeap : q'.IsHeap) (live : q'.live.Perm q.live) : Advanced x q q' where
  isHeap := isHeap
  slots := live.map _
  size := by
    have length := live.length_eq
    rwa [length_live, length_live] at length
  order := .inl fun _ _ => before_congr live

/-- The first two pages of a queue. -/
structure Front (h b : HeapP) (rest : List HeapP) (q : PrioQueue) : Prop where
  live : q.live.Perm (h :: b :: rest)
  first : h.priority.toNat < b.priority.toNat
  second : ∀ e ∈ rest, b.priority.toNat < e.priority.toNat

section

variable (front : Front h b rest q)

include front

theorem Front.mem_first : h ∈ q.live := front.live.mem_iff.mpr (mem_cons_self ..)

theorem Front.mem_second : b ∈ q.live :=
  front.live.mem_iff.mpr (mem_cons_of_mem _ (mem_cons_self ..))

theorem Front.cases (isIn : a ∈ q.live) : a = h ∨ a = b ∨ a ∈ rest := by
  simpa using front.live.mem_iff.mp isIn

section

variable (distinct : (q.live.map HeapP.index).Nodup)

include distinct

theorem Front.none_before_first :
    ¬ q.Before x h.index := by
  rintro ⟨e, mem, e', mem', -, same, less⟩
  rw [entry_unique distinct mem' front.mem_first same] at less
  have first := front.first
  rcases front.cases mem with rfl | rfl | later
  · exact Nat.lt_irrefl _ less
  · omega
  · have second := front.second e later
    omega

theorem Front.before_second (before : q.Before x b.index) : x = h.index := by
  obtain ⟨e, mem, e', mem', rfl, same', less⟩ := before
  rw [entry_unique distinct mem' front.mem_second same'] at less
  rcases front.cases mem with rfl | rfl | later
  · rfl
  · exact absurd less (Nat.lt_irrefl _)
  · have more := front.second e later
    omega

theorem Front.top : q.Before h.index b.index :=
  (before_entries distinct front.mem_first front.mem_second).mpr front.first

/-- A page other than the second is the first or behind the second. -/
theorem Front.first_or_behind (isIn : a ∈ q.live) (other : a ≠ b) :
    a = h ∨ q.Before b.index a.index := by
  rcases front.cases isIn with first | same | later
  · exact .inl first
  · exact absurd same other
  · exact .inr ((before_entries distinct front.mem_second isIn).mpr (front.second a later))

theorem Front.isSecond : q.Second b.index :=
  ⟨h.index, front.top distinct, fun _ before => front.before_second distinct before⟩

theorem Front.second_unique (second : q.Second y) :
    y = b.index := by
  obtain ⟨x, before, only⟩ := second
  obtain ⟨e, isIn, rfl⟩ : ∃ e ∈ q.live, e.index = y := by
    obtain ⟨-, -, e, isIn, -, same, -⟩ := before
    exact ⟨e, isIn, same⟩
  by_contra other
  rcases front.first_or_behind distinct isIn fun same => other (same ▸ rfl) with rfl | behind
  · exact front.none_before_first distinct before
  · have top := front.top distinct
    have same := (only _ (before_trans distinct top behind)).trans (only _ behind).symm
    rw [same] at top
    exact before_asymm distinct top top

/-- Exchanged with the second page of the queue, a page advances by one place only if it is the
first. -/
theorem Front.exchange_iff (isIn : a ∈ q.live) (other : a ≠ b)
    (order : ∀ y z, q'.Before y z ↔
      q.Before (Equiv.swap a.index b.index y) (Equiv.swap a.index b.index z)) :
    ((∀ y z, q'.Before y z ↔ q.Before y z) ∨ ∃ s, q.Next a.index s ∧ ∀ y z, q'.Before y z ↔
      q.Before (Equiv.swap a.index s y) (Equiv.swap a.index s z)) ↔
      ∀ y, ¬ q.Before y a.index := by
  have apart : b.index ≠ a.index := fun same =>
    other (entry_unique distinct isIn front.mem_second same.symm)
  rcases front.first_or_behind distinct isIn other with rfl | behind
  · refine ⟨fun _ _ => front.none_before_first distinct, fun _ => .inr ⟨b.index, ?_, order⟩⟩
    refine ⟨front.top distinct, fun z between => ?_⟩
    rw [front.before_second distinct between.2] at between
    exact before_asymm distinct between.1 between.1
  · refine ⟨fun advanced => ?_, fun least => absurd behind (least _)⟩
    exfalso
    have swapped : q'.Before a.index b.index := by
      rw [order, swap_apply_left, swap_apply_right]
      exact behind
    rcases advanced with same | ⟨s, next, moved⟩
    · exact before_asymm distinct behind ((same _ _).mp swapped)
    · have ahead := (moved _ _).mp swapped
      rw [swap_apply_left] at ahead
      by_cases isNext : b.index = s
      · exact before_asymm distinct behind (isNext ▸ next.1)
      · rw [swap_apply_of_ne_of_ne apart isNext] at ahead
        exact before_asymm distinct behind (before_trans distinct next.1 ahead)

end

end

/-- Entries with the pages `x` and `y` exchanged. -/
def relabel (x y : Int) (e : HeapP) : HeapP := { e with index := Equiv.swap x y e.index }

theorem before_relabel {x y : Int} (live : q'.live.Perm (q.live.map (relabel x y))) (u v : Int) :
    q'.Before u v ↔ q.Before (Equiv.swap x y u) (Equiv.swap x y v) := by
  have undo : ∀ {w w' : Int}, Equiv.swap x y w = w' ↔ w = Equiv.swap x y w' := fun {w w'} => by
    constructor
    · rintro rfl
      rw [swap_apply_self]
    · rintro rfl
      rw [swap_apply_self]
  simp only [PrioQueue.Before, live.mem_iff, mem_map, relabel, exists_exists_and_eq_and, undo]

end Order

section Exchange

variable {m : Paging} {a b : HeapP}

/-- The two deletions and insertions of `updatePageInPriorityQueue`. -/
def Paging.exchangeEntries (m : Paging) (a b : HeapP) : Res Paging := do
  let m := (m.dequeue a.index).dequeue b.index
  let m ← m.enqueue { a with priority := b.priority }
  m.enqueue { b with priority := a.priority }

theorem enqueue_inserted (m : Paging) (e : HeapP) (room : m.queue.size < m.queue.array.length) :
    ∃ q, m.enqueue e = .ok { m with queue := q } ∧ Inserted m.queue e q :=
  ⟨_, if_pos room, insertHeap_inserted _ _ room⟩

theorem exchangeEntries_relabels (lined : m.Lined) (inA : a ∈ m.queue.live)
    (inB : b ∈ m.queue.live) (other : a ≠ b) :
    ∃ q, m.exchangeEntries a b = .ok { m with queue := q } ∧ q.IsHeap ∧
      (q.live.map HeapP.index).Perm (m.queue.live.map HeapP.index) ∧
      q.live.Perm (m.queue.live.map (relabel a.index b.index)) := by
  have deletedA := deleteRoot_entry lined.kept.fits lined.distinct inA
  have keptA := deletedA.kept lined.kept
  have distinct := (deletedA.live.map HeapP.index).nodup_iff.mp lined.distinct
  obtain ⟨freshA, distinctA⟩ := nodup_cons.mp distinct
  have inB' := (mem_cons.mp (deletedA.live.mem_iff.mp inB)).resolve_left fun same => other same.symm
  have deletedB := deleteRoot_entry keptA.fits distinctA inB'
  obtain ⟨freshB, -⟩ := nodup_cons.mp ((deletedB.live.map HeapP.index).nodup_iff.mp distinctA)
  have room := lined.room
  have sizeA := deletedA.size
  have sizeB := deletedB.size
  obtain ⟨q₁, run₁, inserted₁⟩ := enqueue_inserted ((m.dequeue a.index).dequeue b.index)
    { a with priority := b.priority } (by
      simp only [dequeue, deletedB.length, deletedA.length]
      omega)
  obtain ⟨q₂, run₂, inserted₂⟩ := enqueue_inserted { m with queue := q₁ }
    { b with priority := a.priority } (by
      have size := inserted₁.size
      have length := inserted₁.length
      simp only [dequeue, deletedB.length, deletedA.length] at size length ⊢
      omega)
  have before := deletedA.live.trans (deletedB.live.cons a)
  have after := inserted₂.live.trans (inserted₁.live.cons _)
  refine ⟨q₂, ?_, inserted₂.isHeap, ?_, ?_⟩
  · rw [exchangeEntries, run₁]
    exact run₂
  · exact (after.map HeapP.index).trans ((List.Perm.swap ..).trans (before.map HeapP.index).symm)
  · have rest : ∀ e ∈ (deleteRoot (deleteRoot m.queue a.index).2 b.index).2.live,
        relabel a.index b.index e = e := by
      intro e mem
      have notB : e.index ≠ b.index := fun same => freshB (mem_map.mpr ⟨e, mem, same⟩)
      have notA : e.index ≠ a.index := fun same => freshA (mem_map.mpr
        ⟨e, deletedB.live.mem_iff.mpr (mem_cons_of_mem _ mem), same⟩)
      rw [relabel, swap_apply_of_ne_of_ne notA notB]
    have relabelled := (before.map (relabel a.index b.index)).symm
    rw [map_cons, map_cons, map_congr_left rest, map_id'] at relabelled
    refine after.trans (List.Perm.trans (.of_eq ?_) relabelled)
    simp only [relabel, swap_apply_left, swap_apply_right]
    rfl

/-- When the second page of the queue is the page itself, its entry is inserted twice. -/
theorem exchangeEntries_self (lined : m.Lined) (inA : a ∈ m.queue.live) :
    ∃ q, m.exchangeEntries a a = .ok { m with queue := q } ∧ q.size = m.queue.size + 1 := by
  have deleted := deleteRoot_entry lined.kept.fits lined.distinct inA
  obtain ⟨fresh, -⟩ := nodup_cons.mp ((deleted.live.map HeapP.index).nodup_iff.mp lined.distinct)
  have gone : (m.dequeue a.index).dequeue a.index = m.dequeue a.index := by
    have absent : ∀ e ∈ (deleteRoot m.queue a.index).2.live, e.index ≠ a.index :=
      fun e mem same => fresh (mem_map.mpr ⟨e, mem, same⟩)
    simp only [dequeue, deleteRoot_absent absent]
  have room := lined.room
  have small := lined.size_le
  have size := deleted.size
  obtain ⟨q₁, run₁, inserted₁⟩ := enqueue_inserted (m.dequeue a.index) a (by
    simp only [dequeue, deleted.length]
    omega)
  have size₁ : q₁.size = m.queue.size := inserted₁.size.trans size
  obtain ⟨q₂, run₂, inserted₂⟩ := enqueue_inserted { m with queue := q₁ } a (by
    have length := inserted₁.length
    simp only [dequeue, deleted.length, lined.length] at length ⊢
    unfold MAX_PRIO_ARR at length
    omega)
  refine ⟨q₂, ?_, inserted₂.size.trans (by rw [size₁])⟩
  rw [exchangeEntries, gone, run₁]
  exact run₂

/-- Exchanged with the second page of the queue, a page advances by one place, and stays in the
queue once, only if it is the first. -/
theorem exchangeEntries_advanced_iff {q : PrioQueue} {h : HeapP} {rest : List HeapP} (lined : m.Lined)
    (live : m.queue.live.Perm q.live) (front : Front h b rest q) (isIn : a ∈ q.live) :
    (∃ m', m.exchangeEntries a b = .ok m' ∧ Advanced a.index q m'.queue) ↔
      ∀ y, ¬ q.Before y a.index := by
  have distinct := (live.map HeapP.index).nodup_iff.mp lined.distinct
  have length := live.length_eq
  rw [length_live, length_live] at length
  by_cases other : a = b
  · subst other
    obtain ⟨q', done, size⟩ := exchangeEntries_self lined (live.mem_iff.mpr isIn)
    refine ⟨fun ⟨m', run, advanced⟩ => ?_, fun first => absurd (front.top distinct) (first _)⟩
    cases done.symm.trans run
    have wrong := advanced.size
    simp only at wrong
    omega
  · obtain ⟨q', done, isHeap, slots, relabelled⟩ := exchangeEntries_relabels lined
      (live.mem_iff.mpr isIn) (live.mem_iff.mpr front.mem_second) other
    have relabelled' := relabelled.trans (live.map (relabel a.index b.index))
    have order := front.exchange_iff distinct isIn other (before_relabel relabelled')
    have size := relabelled'.length_eq
    rw [length_map, length_live, length_live] at size
    constructor
    · rintro ⟨m', run, advanced⟩
      cases done.symm.trans run
      exact order.mp advanced.order
    · intro first
      exact ⟨_, done, isHeap, slots.trans (live.map HeapP.index), size, order.mpr first⟩

end Exchange

section Update

variable {m : Paging} {a : HeapP} {pageNum : Slot}

/-- `findInHeap` puts the entry it finds back, into a heap arranged anew. -/
theorem findInHeap_entry (lined : m.Lined) (isIn : a ∈ m.queue.live) :
    (findInHeap m.queue a.index).1 = a ∧
      Paging.Lined { m with queue := (findInHeap m.queue a.index).2 } ∧
      (findInHeap m.queue a.index).2.live.Perm m.queue.live := by
  obtain ⟨found, deleted⟩ := deleteRoot_deleted m.queue a.index lined.kept.fits ⟨a, isIn, rfl⟩
  have same : (deleteRoot m.queue a.index).1 = a := entry_unique lined.distinct
    (deleted.live.mem_iff.mpr (mem_cons_self ..)) isIn found
  have room : (deleteRoot m.queue a.index).2.size <
      (deleteRoot m.queue a.index).2.array.length := by
    have size := deleted.size
    have bound := lined.room
    rw [deleted.length]
    omega
  have index : a.index ≠ -1 := by
    have nonneg := lined.kept.index a isIn
    omega
  have inserted := insertHeap_inserted _ (deleteRoot m.queue a.index).1 room
  have live := inserted.live.trans deleted.live.symm
  have eq : findInHeap m.queue a.index =
      (a, insertHeap (deleteRoot m.queue a.index).2 (deleteRoot m.queue a.index).1) := by
    simp only [findInHeap, same, index, ne_eq, not_false_eq_true, if_true]
  rw [eq]
  refine ⟨rfl, ⟨inserted.length.trans (deleted.length.trans lined.length), inserted.isHeap,
    fun e mem => lined.slots e (live.mem_iff.mp mem), ?_⟩, live⟩
  exact (live.map HeapP.index).nodup_iff.mpr lined.distinct

/-- Two turns of `extractMin` take the first two pages of a queue with distinct priorities. -/
theorem front_of_extractMin {q : PrioQueue} (kept : q.Kept)
    (priorities : (q.live.map HeapP.priority).Nodup) (many : 1 < q.size) :
    Front (extractMin q).1 (extractMin (extractMin q).2).1
      (extractMin (extractMin q).2).2.live q := by
  have first := extractMin_extracted q kept.fits (by omega)
  have kept' := first.kept kept
  have second := extractMin_extracted (extractMin q).2 kept'.fits (by have := first.size; omega)
  have nodup := (first.live.map priority).nodup_iff.mp priorities
  obtain ⟨fresh, nodup'⟩ := nodup_cons.mp nodup
  obtain ⟨fresh', -⟩ := nodup_cons.mp ((second.live.map priority).nodup_iff.mp nodup')
  have mem' : (extractMin (extractMin q).2).1 ∈ (extractMin q).2.live :=
    second.live.mem_iff.mpr (mem_cons_self ..)
  refine ⟨first.live.trans (second.live.cons _), ?_, fun e mem => ?_⟩
  · refine Nat.lt_of_le_of_ne ?_ fun same => fresh
      (mem_map.mpr ⟨_, mem', (UInt32.toNat_inj.mp same).symm⟩)
    rw [first.root]
    exact peekHeap_le kept.isHeap (first.live.mem_iff.mpr (mem_cons_of_mem _ mem'))
  · refine Nat.lt_of_le_of_ne ?_ fun same => fresh'
      (mem_map.mpr ⟨e, mem, (UInt32.toNat_inj.mp same).symm⟩)
    rw [second.root]
    exact peekHeap_le kept'.isHeap (second.live.mem_iff.mpr (mem_cons_of_mem _ mem))

/-- What `updatePageInPriorityQueue` does with a page found accessed. -/
theorem updateAQ_front (accessed : Nat → Option Bool) (lined : m.Lined)
    (priorities : (m.queue.live.map HeapP.priority).Nodup) (isIn : a ∈ m.queue.live)
    (index : a.index = pageNum.val)
    (notLast : findMaxElementIndex m.queue.array m.queue.size ≠ pageNum.val) :
    ∃ m₁ : Paging, m₁ = { m with queue := m₁.queue } ∧ m₁.Lined ∧ m₁.queue.live.Perm m.queue.live ∧
      ((m.queue.size = 1 ∧ updateAQ accessed m pageNum = .ok m₁) ∨
        ∃ h b rest, ∃ i : Slot, Front h b rest m.queue ∧ b.index = i.val ∧
          updateAQ accessed m pageNum =
            if i ≠ 0 ∧ accessed (m.ramPmd i).va = some true then m₁.exchangeEntries a b
            else .ok m₁) := by
  obtain ⟨found, lined₁, live⟩ := findInHeap_entry lined isIn
  have size : (findInHeap m.queue a.index).2.size = m.queue.size := by
    have length := live.length_eq
    rwa [length_live, length_live] at length
  have notClean : a.index ≠ -1 := by
    have nonneg := lined.kept.index a isIn
    omega
  have pos : 0 < m.queue.size := by
    rw [← length_live]
    exact length_pos_of_mem isIn
  have temp := extractMin_extracted _ lined₁.kept.fits (by simp only [size]; exact pos)
  refine ⟨{ m with queue := (findInHeap m.queue a.index).2 }, rfl, lined₁, live, ?_⟩
  rcases Nat.lt_or_ge 1 m.queue.size with many | one
  · right
    have front := front_of_extractMin lined₁.kept
      ((live.map priority).nodup_iff.mpr priorities) (by simp only [size]; exact many)
    have rest : (extractMin (findInHeap m.queue a.index).2).2.size ≠ 0 := by
      have smaller := temp.size
      simp only [size] at smaller
      omega
    obtain ⟨i, -, slot⟩ := lined₁.slots _ front.mem_second
    refine ⟨_, _, _, i, ⟨live.symm.trans front.live, front.first, front.second⟩, slot, ?_⟩
    simp only [updateAQ, notLast, if_false, ← index, found, notClean, rest]
    simp only at slot
    rw [slot, ramSlot_val, Res.ok_bind]
    by_cases zero : i = 0
    · subst zero
      simp
    · have nonzero : (i.val : Int) ≠ 0 := fun same => zero (Fin.ext (by simpa using same))
      simp only [nonzero, if_false, zero, ne_eq, not_false_eq_true, true_and, exchangeEntries, slot]
  · left
    have last : (extractMin (findInHeap m.queue a.index).2).2.size = 0 := by
      have smaller := temp.size
      simp only [size] at smaller
      omega
    refine ⟨by omega, ?_⟩
    simp only [updateAQ, notLast, if_false, ← index, found, notClean, last, if_true]

end Update

section Call

variable {cfg : Config} {k : Kernel} {me : ProcNo} {pageNum : Slot}

theorem referenced_iff {i : Slot} :
    k.referenced me i = true ↔ (walkpgdir (k.dirs (k.proc me).pgdir)
      ((k.proc me).paging.ramPmd i).va).map Pte.a = some true := by
  unfold Kernel.referenced
  cases walkpgdir (k.dirs (k.proc me).pgdir) ((k.proc me).paging.ramPmd i).va with
  | none => simp
  | some pte => simp

theorem updatePageInPriorityQueue_aq (build : cfg.sel = .AQ)
    (set : k.referenced me pageNum = true) (P : PrioQueue → Prop) :
    (∃ k', Kernel.updatePageInPriorityQueue cfg me k pageNum.val = .ok k' ∧
        P (k'.proc me).paging.queue) ↔
      ∃ m, updateAQ (fun va => (walkpgdir (k.dirs (k.proc me).pgdir) va).map Pte.a)
        (k.proc me).paging pageNum = .ok m ∧ P m.queue := by
  obtain ⟨pte, walk, bit⟩ := Option.map_eq_some_iff.mp (referenced_iff.mp set)
  simp only [Kernel.updatePageInPriorityQueue, ramSlot_val, Res.ok_bind, walk, build, updatePage, bit,
    if_true]
  cases updateAQ (fun va => (walkpgdir (k.dirs (k.proc me).pgdir) va).map Pte.a)
    (k.proc me).paging pageNum with
  | error e => simp [bind, Except.bind]
  | ok m => simp

end Call

/-- In the `AQ` build, a page found accessed advances by at most one place, and the queue keeps its
pages, exactly when the position `findMaxElementIndex` returns happens to be the number of its
slot, when the page is the first of the queue, or when the second page of the queue is in slot 0 or
was not accessed. -/
theorem aq_advances_iff (cfg : Config) (build : cfg.sel = .AQ) {k : Kernel} {me : ProcNo}
    {pageNum : Slot} (lined : (k.proc me).paging.Lined)
    (priorities : ((k.proc me).paging.queue.live.map HeapP.priority).Nodup)
    (queued : ∃ e ∈ (k.proc me).paging.queue.live, e.index = pageNum.val)
    (set : k.referenced me pageNum = true) :
    (∃ k', Kernel.updatePageInPriorityQueue cfg me k pageNum.val = .ok k' ∧
        Advanced pageNum.val (k.proc me).paging.queue (k'.proc me).paging.queue) ↔
      findMaxElementIndex (k.proc me).paging.queue.array (k.proc me).paging.queue.size =
          pageNum.val ∨
        (∀ y, ¬ (k.proc me).paging.queue.Before y pageNum.val) ∨
        ∀ b : Slot, (k.proc me).paging.queue.Second b.val → b = 0 ∨ k.referenced me b = false := by
  rw [updatePageInPriorityQueue_aq build set]
  by_cases last : findMaxElementIndex (k.proc me).paging.queue.array (k.proc me).paging.queue.size =
      pageNum.val
  · refine ⟨fun _ => .inl last, fun _ => ⟨_, ?_, advanced_of_perm lined.isHeap (.refl _)⟩⟩
    rw [updateAQ, if_pos last]
  obtain ⟨a, isIn, index⟩ := queued
  obtain ⟨m₁, same, lined₁, live, cases⟩ := updateAQ_front
    (fun va => (walkpgdir (k.dirs (k.proc me).pgdir) va).map Pte.a) lined priorities isIn index last
  have idle : Advanced pageNum.val (k.proc me).paging.queue m₁.queue :=
    advanced_of_perm lined₁.isHeap live
  rcases cases with ⟨one, run⟩ | ⟨h, b, rest, i, front, slot, run⟩
  · -- The only page of a queue has no second beside it.
    refine ⟨fun _ => .inr (.inl fun y before => ?_), fun _ => ⟨m₁, run, idle⟩⟩
    obtain ⟨e, mem, e', mem', -, -, less⟩ := before
    rw [← length_live, List.length_eq_one_iff] at one
    obtain ⟨only, all⟩ := one
    rw [all, List.mem_singleton] at mem mem'
    rw [mem, mem'] at less
    exact Nat.lt_irrefl _ less
  · have second : ∀ j : Slot, (k.proc me).paging.queue.Second j.val → j = i := by
      intro j isSecond
      have eq := front.second_unique lined.distinct isSecond
      exact Fin.ext (by omega)
    rw [run]
    by_cases exchange : i ≠ 0 ∧ k.referenced me i = true
    · have blocked : ¬ ∀ j : Slot, (k.proc me).paging.queue.Second j.val →
          j = 0 ∨ k.referenced me j = false := by
        intro clear
        have isSecond := front.isSecond lined.distinct
        rw [slot] at isSecond
        have unset := (clear i isSecond).resolve_left exchange.1
        rw [exchange.2] at unset
        cases unset
      rw [referenced_iff] at exchange
      rw [if_pos exchange, ← index, exchangeEntries_advanced_iff lined₁ live front isIn]
      refine ⟨fun first => .inr (.inl first), fun holds => ?_⟩
      rcases holds with isLast | first | clear
      · exact absurd isLast last
      · exact first
      · exact absurd clear blocked
    · have stays := exchange
      rw [referenced_iff] at stays
      rw [if_neg stays]
      refine ⟨fun _ => .inr (.inr fun j isSecond => ?_), fun _ => ⟨m₁, rfl, idle⟩⟩
      rw [second j isSecond]
      by_cases zero : i = 0
      · exact .inl zero
      · exact .inr (by simpa [zero] using exchange)

/-- A process of four pages has used the second one. Its slot, 1, is the second of the queue, and
the sampling queues it twice. -/
theorem aq_queues_a_page_twice :
    ∃ k, Kernel.loneUser .AQ 4 [1] = .ok k ∧ (k.proc 1).paging.Lined ∧
      ((k.proc 1).paging.queue.live.map HeapP.priority).Nodup ∧
      (∃ e ∈ (k.proc 1).paging.queue.live, e.index = (1 : Slot).val) ∧
      k.referenced 1 1 = true ∧
      ∃ k', Kernel.updatePageInPriorityQueue (layoutConfig .AQ) 1 k (1 : Slot).val = .ok k' ∧
        (k'.proc 1).paging.queue.size = (k.proc 1).paging.queue.size + 1 ∧
        (k'.proc 1).paging.queue.live.countP (fun e => e.index = 1) = 2 := by
  obtain ⟨k, run, checked⟩ := exists_ok_of_any (x := Kernel.loneUser .AQ 4 [1])
    (p := fun k => decide ((k.proc 1).paging.Lined ∧
      ((k.proc 1).paging.queue.live.map HeapP.priority).Nodup ∧
      (∃ e ∈ (k.proc 1).paging.queue.live, e.index = (1 : Slot).val) ∧
      k.referenced 1 1 = true) &&
        (Kernel.updatePageInPriorityQueue (layoutConfig .AQ) 1 k (1 : Slot).val).toOption.any
          fun (k' : Kernel) => decide ((k'.proc 1).paging.queue.size = (k.proc 1).paging.queue.size + 1 ∧
            (k'.proc 1).paging.queue.live.countP (fun e => e.index = 1) = 2))
    (by decide +kernel)
  obtain ⟨before, after⟩ := Bool.and_eq_true_iff.mp checked
  obtain ⟨lined, priorities, queued, set⟩ := of_decide_eq_true before
  obtain ⟨k', sampled, found⟩ := exists_ok_of_any after
  exact ⟨k, run, lined, priorities, queued, set, k', sampled, of_decide_eq_true found⟩

/-- The first page of the queue and its successor have both been used. -/
theorem aq_advances_lone :
    ∃ k, Kernel.loneUser .AQ 4 [0, 1] = .ok k ∧
      ∃ k', Kernel.updatePageInPriorityQueue (layoutConfig .AQ) 1 k (0 : Slot).val = .ok k' ∧
        Advanced (0 : Slot).val (k.proc 1).paging.queue (k'.proc 1).paging.queue := by
  obtain ⟨k, run, checked⟩ := exists_ok_of_any (x := Kernel.loneUser .AQ 4 [0, 1])
    (p := fun k => decide ((k.proc 1).paging.Lined ∧
      ((k.proc 1).paging.queue.live.map HeapP.priority).Nodup ∧
      (∃ e ∈ (k.proc 1).paging.queue.live, e.index = (0 : Slot).val) ∧
      k.referenced 1 0 = true ∧ (k.proc 1).paging.queue.live =
        [⟨0, 0⟩, ⟨1, 1⟩, ⟨2, 2⟩, ⟨3, 3⟩]))
    (by decide +kernel)
  obtain ⟨lined, priorities, queued, set, live⟩ := of_decide_eq_true checked
  refine ⟨k, run, (aq_advances_iff (layoutConfig .AQ) rfl lined priorities queued set).mpr
    (.inr (.inl fun y before => ?_))⟩
  obtain ⟨e, mem, e', mem', -, same, less⟩ := before
  rw [live] at mem mem'
  simp only [List.mem_cons, List.not_mem_nil, or_false] at mem mem'
  rcases mem' with rfl | rfl | rfl | rfl
  · exact absurd less (Nat.not_lt_zero _)
  all_goals cases same

section Victim

variable {m : Paging} {q q' : PrioQueue} {e a b : HeapP} {bound : UInt32}

/-- What `decAqValues` makes of one entry. -/
def HeapP.closeGap (bound : UInt32) (e : HeapP) : HeapP :=
  if bound < e.priority then { e with priority := e.priority - 1 } else e

theorem closeGap_index : (e.closeGap bound).index = e.index := by
  unfold closeGap
  split <;> rfl

theorem closeGap_priority : (e.closeGap bound).priority.toNat =
    if bound.toNat < e.priority.toNat then e.priority.toNat - 1 else e.priority.toNat := by
  unfold closeGap
  by_cases above : bound < e.priority
  · have above' := UInt32.lt_iff_toNat_lt.mp above
    have one : (1 : UInt32) ≤ e.priority := UInt32.le_iff_toNat_le.mpr (Nat.one_le_of_lt above')
    rw [if_pos above, if_pos above', UInt32.toNat_sub_of_le _ _ one, UInt32.toNat_one]
  · rw [if_neg above, if_neg fun less => above (UInt32.lt_iff_toNat_lt.mpr less)]

theorem closeGap_mono (le : a.priority.toNat ≤ b.priority.toNat) :
    (a.closeGap bound).priority.toNat ≤ (b.closeGap bound).priority.toNat := by
  rw [closeGap_priority, closeGap_priority]
  split <;> split <;> omega

/-- Behind the threshold no two pages are tied. -/
theorem closeGap_lt_iff (behind : bound.toNat < a.priority.toNat)
    (behind' : bound.toNat < b.priority.toNat) :
    (a.closeGap bound).priority.toNat < (b.closeGap bound).priority.toNat ↔
      a.priority.toNat < b.priority.toNat := by
  rw [closeGap_priority, closeGap_priority, if_pos behind, if_pos behind']
  omega

/-- The head of the queue is found at once, and each entry is changed on its own; of the stale
ones those with a page. -/
theorem decAqValues_entryAt (m : Paging) (k : Nat) :
    entryAt (decAqValues m (peekHeap m.queue.array).index).queue.array k =
      if k < MAX_PSYC_PAGES ∧ (entryAt m.queue.array k).index ≠ -1 then
        (entryAt m.queue.array k).closeGap (peekHeap m.queue.array).priority
      else entryAt m.queue.array k := by
  have first : (List.range MAX_PSYC_PAGES).find?
      (fun i => (entryAt m.queue.array i).index = (peekHeap m.queue.array).index) = some 0 :=
    find?_cons_of_pos (by simp [peekHeap])
  unfold decAqValues
  rw [first]
  simp only [entryAt, getD_eq_getElem?_getD, getElem?_mapIdx]
  cases m.queue.array[k]? with
  | none => simp [clean]
  | some e =>
    simp only [Option.map_some, Option.getD_some, closeGap, peekHeap, entryAt,
      getD_eq_getElem?_getD]
    split <;> split <;> simp_all

theorem decAqValues_size (m : Paging) (index : Int) :
    (decAqValues m index).queue.size = m.queue.size ∧
      (decAqValues m index).queue.array.length = m.queue.array.length := by
  unfold decAqValues
  split
  · exact ⟨rfl, rfl⟩
  · exact ⟨rfl, length_mapIdx⟩

theorem decAqValues_live (few : m.queue.size ≤ MAX_PSYC_PAGES)
    (slots : ∀ e ∈ m.queue.live, 0 ≤ e.index) :
    (decAqValues m (peekHeap m.queue.array).index).queue.live =
      m.queue.live.map (HeapP.closeGap (peekHeap m.queue.array).priority) := by
  unfold PrioQueue.live
  rw [(decAqValues_size ..).1, map_map]
  refine map_congr_left fun k inside => ?_
  have inside := mem_range.mp inside
  have slot := slots _ (mem_live.mpr ⟨k, inside, rfl⟩)
  rw [decAqValues_entryAt, if_pos ⟨by omega, by omega⟩, Function.comp_apply]

/-- Removing a page leaves the order of the others. -/
theorem Deleted.before_iff (deleted : Deleted q e q') (distinct : (q.live.map HeapP.index).Nodup)
    (x y : Int) : q'.Before x y ↔ q.Before x y ∧ x ≠ e.index ∧ y ≠ e.index := by
  have listed := (deleted.live.map HeapP.index).nodup_iff.mp distinct
  have absent : ∀ c ∈ q'.live, c.index ≠ e.index := fun c inside same =>
    (nodup_cons.mp listed).1 (mem_map.mpr ⟨c, inside, same⟩)
  constructor
  · rintro ⟨c, inC, d, inD, rfl, rfl, less⟩
    exact ⟨⟨c, deleted.live.mem_iff.mpr (mem_cons_of_mem _ inC), d,
      deleted.live.mem_iff.mpr (mem_cons_of_mem _ inD), rfl, rfl, less⟩,
      absent c inC, absent d inD⟩
  · rintro ⟨⟨c, inC, d, inD, rfl, rfl, less⟩, otherC, otherD⟩
    have remains : ∀ f ∈ q.live, f.index ≠ e.index → f ∈ q'.live := fun f inside other =>
      (mem_cons.mp (deleted.live.mem_iff.mp inside)).resolve_left fun same =>
        other (congrArg HeapP.index same)
    exact ⟨c, remains c inC otherC, d, remains d inD otherD, rfl, rfl, less⟩

/-- Closing the gap behind the head leaves the order of the pages behind it. -/
theorem before_closeGap (live : q'.live = q.live.map (HeapP.closeGap a.priority))
    (behind : ∀ e ∈ q.live, e.index ≠ a.index → a.priority.toNat < e.priority.toNat)
    {x y : Int} (otherX : x ≠ a.index) (otherY : y ≠ a.index) :
    q'.Before x y ↔ q.Before x y := by
  unfold PrioQueue.Before
  rw [live]
  constructor
  · rintro ⟨c', inC', d', inD', rfl, rfl, less⟩
    obtain ⟨c, inC, rfl⟩ := mem_map.mp inC'
    obtain ⟨d, inD, rfl⟩ := mem_map.mp inD'
    rw [closeGap_index] at otherX otherY
    exact ⟨c, inC, d, inD, closeGap_index.symm, closeGap_index.symm,
      (closeGap_lt_iff (behind c inC otherX) (behind d inD otherY)).mp less⟩
  · rintro ⟨c, inC, d, inD, rfl, rfl, less⟩
    exact ⟨_, mem_map_of_mem inC, _, mem_map_of_mem inD, closeGap_index,
      closeGap_index, (closeGap_lt_iff (behind c inC otherX) (behind d inD otherY)).mpr less⟩

/-- The head of a queue of distinct priorities is strictly before every other page. -/
theorem peekHeap_lt (heap : q.IsHeap) (nonempty : 0 < q.size)
    (priorities : (q.live.map HeapP.priority).Nodup) (inside : e ∈ q.live)
    (other : e.index ≠ (peekHeap q.array).index) :
    (peekHeap q.array).priority.toNat < e.priority.toNat := by
  refine Nat.lt_of_le_of_ne (peekHeap_le heap inside) fun same => other ?_
  have equal : e = peekHeap q.array := inj_on_of_nodup_map priorities inside
    (peekHeap_mem nonempty) (UInt32.toNat_inj.mp same.symm)
  rw [equal]

/-- Choosing the victim: the first page, with the order of the others left as it is. -/
structure Chosen (m : Paging) (r : Int × Paging) : Prop where
  least : 0 < m.queue.size → ∃ e ∈ m.queue.live, e.index = r.1 ∧
    ∀ e' ∈ m.queue.live, e.priority.toNat ≤ e'.priority.toNat
  isHeap : r.2.queue.IsHeap
  slots : r.2.queue.live.map HeapP.index = m.queue.live.map HeapP.index
  noUnderflow : ∀ k, prioAt r.2.queue.array k ≤ prioAt m.queue.array k
  order : ∀ x y, (deleteRoot r.2.queue r.1).2.Before x y ↔
    m.queue.Before x y ∧ x ≠ r.1 ∧ y ≠ r.1

theorem getVictimIndex_aq_chosen (fits : m.queue.Fits) (few : m.queue.size ≤ MAX_PSYC_PAGES)
    (heap : m.queue.IsHeap) (slots : ∀ e ∈ m.queue.live, 0 ≤ e.index)
    (distinct : (m.queue.live.map HeapP.index).Nodup)
    (priorities : (m.queue.live.map HeapP.priority).Nodup) :
    Chosen m (getVictimIndex .AQ m) := by
  have live := decAqValues_live few slots
  have root : (peekHeap (decAqValues m (peekHeap m.queue.array).index).queue.array).index =
      (peekHeap m.queue.array).index := by
    have first := congrArg HeapP.index (decAqValues_entryAt m 0)
    rw [apply_ite HeapP.index, closeGap_index, ite_self] at first
    exact first
  unfold getVictimIndex
  by_cases empty : m.queue.size = 0
  · have none : m.queue.live = [] := by simp [PrioQueue.live, empty]
    simp only [if_pos empty]
    refine ⟨fun some => absurd empty (Nat.ne_of_gt some), heap, rfl, fun _ => Nat.le_refl _,
      fun x y => ?_⟩
    rw [deleteRoot_absent (by simp [none])]
    simp [PrioQueue.Before, none]
  · have nonempty := Nat.pos_of_ne_zero empty
    simp only [if_neg empty]
    rw [root]
    -- The entry that `deleteRoot` will remove.
    have head : (peekHeap m.queue.array).closeGap (peekHeap m.queue.array).priority ∈
        (decAqValues m (peekHeap m.queue.array).index).queue.live := by
      rw [live]
      exact List.mem_map_of_mem (peekHeap_mem nonempty)
    have indices : (decAqValues m (peekHeap m.queue.array).index).queue.live.map HeapP.index =
        m.queue.live.map HeapP.index := by
      rw [live, List.map_map]
      exact List.map_congr_left fun e _ => closeGap_index
    have fits' : (decAqValues m (peekHeap m.queue.array).index).queue.Fits := by
      unfold PrioQueue.Fits
      rw [(decAqValues_size ..).1, (decAqValues_size ..).2]
      exact fits
    have deleted := deleteRoot_entry fits' (indices ▸ distinct) head
    rw [closeGap_index] at deleted
    refine ⟨fun _ => ⟨_, peekHeap_mem nonempty, rfl, fun e => peekHeap_le heap⟩, ?_, indices,
      fun k => ?_, fun x y => ?_⟩
    · intro p c lower child bound
      rw [(decAqValues_size ..).1] at bound
      have inside : ∀ k < m.queue.size, k < MAX_PSYC_PAGES ∧
          (entryAt m.queue.array k).index ≠ -1 := fun k less => by
        have slot := slots _ (mem_live.mpr ⟨k, less, rfl⟩)
        exact ⟨by omega, by omega⟩
      unfold prioAt
      rw [decAqValues_entryAt, decAqValues_entryAt, if_pos (inside p (Nat.lt_trans child.lt bound)),
        if_pos (inside c bound)]
      exact closeGap_mono (heap p c lower child bound)
    · unfold prioAt
      rw [decAqValues_entryAt]
      split
      · rw [closeGap_priority]
        split <;> omega
      · exact Nat.le_refl _
    · rw [deleted.before_iff (indices ▸ distinct), closeGap_index]
      refine and_congr_left fun others => before_closeGap live
        (fun e inside => peekHeap_lt heap nonempty priorities inside) others.1 others.2

end Victim

/-- Three pages and a stale entry; the first two are tied in between. -/
def threeQueued : Paging :=
  { Paging.zeroed with queue := ⟨[⟨4, 0⟩, ⟨2, 1⟩, ⟨5, 7⟩, ⟨9, 3⟩], 3⟩ }

theorem getVictimIndex_aq_tie : Chosen threeQueued (4, { threeQueued with
    queue := ⟨[⟨4, 0⟩, ⟨2, 0⟩, ⟨5, 6⟩, ⟨9, 2⟩], 3⟩ }) :=
  getVictimIndex_aq_chosen (m := threeQueued) (show 3 ≤ 4 by decide) (by decide) (by decide)
    (by decide) (by decide) (by decide)

end Xv6
