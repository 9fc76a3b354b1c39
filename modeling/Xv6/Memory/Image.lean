import Xv6.Memory.AccountingRuns

/-!
The image of a process: the contents of its user pages, wherever they are.

The two metadata arrays record which pages are in memory and which in the file. The
resident half of an image is about entries, page table and frames, the swapped half
about entries, page table and file; every operation of the pager adds a page to a half
or takes one from it, so that each is described by two or three of the rules here.
Nothing is said about copy-on-write: frames have owners, but not how many.
-/

namespace Xv6

open Function List

/-- The allocator is intact and has `n` free frames at least. -/
def Stocked (cfg : Config) (km : Kmem) (n : Nat) : Prop :=
  ∃ given free, KmemOk cfg km given free ∧ n ≤ free.length

/-- The occupied entries record the pages with `P`, each of them once. -/
structure Records (pmds : Slot → Pmd) (P : Nat → Prop) : Prop where
  page : ∀ i ∈ occupied pmds, ∃ n, (pmds i).va = n * PGSIZE ∧ P n
  every : ∀ n, P n → ∃ i ∈ occupied pmds, (pmds i).va = n * PGSIZE
  once : ∀ i ∈ occupied pmds, ∀ j ∈ occupied pmds, (pmds i).va = (pmds j).va → i = j

theorem page_inj {n n' : Nat} (same : n * PGSIZE = n' * PGSIZE) : n = n' :=
  Nat.eq_of_mul_eq_mul_right (by decide) same

namespace Records

variable {pmds pmds' : Slot → Pmd} {P Q : Nat → Prop} {i : Slot} {n : Nat}

section

variable (records : Records pmds P)
include records

theorem congr (same : ∀ n, P n ↔ Q n) : Records pmds Q where
  page i taken := by
    obtain ⟨n, va, holds⟩ := records.page i taken
    exact ⟨n, va, (same n).mp holds⟩
  every n holds := records.every n ((same n).mpr holds)
  once := records.once

/-- Other fields do not matter. -/
theorem of_same
    (taken : ∀ i, (pmds' i).occupied = (pmds i).occupied) (va : ∀ i, (pmds' i).va = (pmds i).va) :
    Records pmds' P := by
  have sameSlots : occupied pmds' = occupied pmds := occupied_congr taken
  refine ⟨fun i => ?_, fun n holds => ?_, fun i => ?_⟩
  · rw [sameSlots, va]
    exact records.page i
  · rw [sameSlots]
    simp only [va]
    exact records.every n holds
  · rw [sameSlots]
    intro taken j takenJ
    rw [va, va]
    exact records.once i taken j takenJ

theorem vacate (taken : i ∈ occupied pmds)
    (va : (pmds i).va = n * PGSIZE) (pmd : Pmd) (vacant : pmd.occupied = false) :
    Records (update pmds i pmd) (fun x => P x ∧ x ≠ n) := by
  have left : ∀ k, k ∈ occupied (update pmds i pmd) ↔ k ≠ i ∧ k ∈ occupied pmds := by
    intro k
    rw [occupied_update, vacant]
    simp
  refine ⟨fun k inside => ?_, fun x holds => ?_, fun k inside l inside' same => ?_⟩
  · obtain ⟨other, inside⟩ := (left k).mp inside
    obtain ⟨x, eq, holds⟩ := records.page k inside
    rw [update_of_ne other]
    refine ⟨x, eq, holds, fun same => other (records.once k inside i taken ?_)⟩
    rw [eq, va, same]
  · obtain ⟨k, inside, eq⟩ := records.every x holds.1
    have other : k ≠ i := by
      rintro rfl
      exact holds.2 (page_inj (eq.symm.trans va))
    refine ⟨k, (left k).mpr ⟨other, inside⟩, ?_⟩
    rw [update_of_ne other]
    exact eq
  · obtain ⟨other, inside⟩ := (left k).mp inside
    obtain ⟨other', inside'⟩ := (left l).mp inside'
    rw [update_of_ne other, update_of_ne other'] at same
    exact records.once k inside l inside' same

theorem fill (vacant : i ∉ occupied pmds) (pmd : Pmd)
    (taken : pmd.occupied = true) (va : pmd.va = n * PGSIZE) (fresh : ¬ P n) :
    Records (update pmds i pmd) (fun x => P x ∨ x = n) := by
  have now : ∀ k, k ∈ occupied (update pmds i pmd) ↔ k = i ∨ k ∈ occupied pmds := by
    intro k
    rw [occupied_update, taken]
    simp
  have apart : ∀ k ∈ occupied pmds, k ≠ i := fun k inside same => vacant (same ▸ inside)
  have different : ∀ k ∈ occupied pmds, (pmds k).va ≠ n * PGSIZE := by
    intro k inside eq
    obtain ⟨x, eq', holds⟩ := records.page k inside
    exact fresh (page_inj (eq'.symm.trans eq) ▸ holds)
  refine ⟨fun k inside => ?_, fun x holds => ?_, fun k inside l inside' same => ?_⟩
  · rcases (now k).mp inside with rfl | old
    · exact ⟨n, by rw [update_self, va], .inr rfl⟩
    · obtain ⟨x, eq, holds⟩ := records.page k old
      exact ⟨x, by rw [update_of_ne (apart k old), eq], .inl holds⟩
  · rcases holds with holds | rfl
    · obtain ⟨k, old, eq⟩ := records.every x holds
      exact ⟨k, (now k).mpr (.inr old), by rw [update_of_ne (apart k old), eq]⟩
    · exact ⟨i, (now i).mpr (.inl rfl), by rw [update_self, va]⟩
  · rcases (now k).mp inside with rfl | old
    · rcases (now l).mp inside' with rfl | old'
      · rfl
      · rw [update_self, update_of_ne (apart l old'), va] at same
        exact absurd same.symm (different l old')
    · rcases (now l).mp inside' with rfl | old'
      · rw [update_self, update_of_ne (apart k old), va] at same
        exact absurd same (different k old)
      · rw [update_of_ne (apart k old), update_of_ne (apart l old')] at same
        exact records.once k old l old' same

/-- The lookup by address finds the entry of the page. -/
theorem found (holds : P n) (low : n * PGSIZE ≠ CLEAN_VA) :
    ∃ j ∈ occupied pmds, getPageIndexDefault pmds true (n * PGSIZE) = some j ∧
      (pmds j).va = n * PGSIZE := by
  obtain ⟨i, taken, va⟩ := records.every n holds
  have isSome : (getPageIndexDefault pmds true (n * PGSIZE)).isSome := by
    rw [getPageIndexDefault, find?_isSome]
    exact ⟨i, mem_finRange i, by simp [mem_occupied.mp taken, va]⟩
  obtain ⟨j, hit⟩ := Option.isSome_iff_exists.mp isSome
  obtain ⟨takenJ, va'⟩ := getPageIndexDefault_some hit
  exact ⟨j, mem_occupied.mpr takenJ, hit, va'.resolve_left low⟩

end

end Records

/-- The page of a file from `off` on. -/
def filePage (file : File) (off : Nat) : Page := fun i => file.data (off + i.val)

/-- The resident pages: recorded, mapped, each in a frame of its own with its contents. -/
structure RamHalf (km : Kmem) (mem : Nat → Page) (pte : Nat → Pte) (pmds : Slot → Pmd)
    (P : Nat → Prop) (img : Nat → Page) : Prop where
  records : Records pmds P
  present : ∀ n, P n → (pte n).p = true
  used : ∀ n, P n → km.ref (pte n).frame ≠ 0
  contents : ∀ n, P n → mem (pte n).frame = img n
  apart : ∀ n n', P n → P n' → (pte n).frame = (pte n').frame → n = n'

namespace RamHalf

variable {km km' : Kmem} {mem mem' : Nat → Page} {pte pte' : Nat → Pte} {pmds pmds' : Slot → Pmd}
  {P Q : Nat → Prop} {img img' : Nat → Page} {i : Slot} {n : Nat}

section

variable (half : RamHalf km mem pte pmds P img)
include half

theorem congr (same : ∀ n, P n ↔ Q n) :
    RamHalf km mem pte pmds Q img where
  records := half.records.congr same
  present n holds := half.present n ((same n).mpr holds)
  used n holds := half.used n ((same n).mpr holds)
  contents n holds := half.contents n ((same n).mpr holds)
  apart n n' holds holds' := half.apart n n' ((same n).mpr holds) ((same n').mpr holds')

/-- Frames and page tables may change where the half does not look. -/
theorem of_same (entry : ∀ n, P n → (pte' n).p = (pte n).p ∧ (pte' n).frame = (pte n).frame)
    (frames : ∀ n, P n → km'.ref (pte n).frame ≠ 0 ∧ mem' (pte n).frame = mem (pte n).frame)
    (image : ∀ n, P n → img' n = img n) : RamHalf km' mem' pte' pmds P img' where
  records := half.records
  present n holds := (entry n holds).1.trans (half.present n holds)
  used n holds := by
    rw [(entry n holds).2]
    exact (frames n holds).1
  contents n holds := by
    rw [(entry n holds).2, (frames n holds).2, image n holds]
    exact half.contents n holds
  apart n n' holds holds' same := by
    rw [(entry n holds).2, (entry n' holds').2] at same
    exact half.apart n n' holds holds' same

theorem of_records (records : Records pmds' P) : RamHalf km mem pte pmds' P img :=
  ⟨records, half.present, half.used, half.contents, half.apart⟩

theorem remove (taken : i ∈ occupied pmds)
    (va : (pmds i).va = n * PGSIZE) (pmd : Pmd) (vacant : pmd.occupied = false) :
    RamHalf km mem pte (update pmds i pmd) (fun x => P x ∧ x ≠ n) img where
  records := half.records.vacate taken va pmd vacant
  present x holds := half.present x holds.1
  used x holds := half.used x holds.1
  contents x holds := half.contents x holds.1
  apart x x' holds holds' := half.apart x x' holds.1 holds'.1

theorem add (vacant : i ∉ occupied pmds) (pmd : Pmd)
    (taken : pmd.occupied = true) (va : pmd.va = n * PGSIZE) (fresh : ¬ P n)
    (present : (pte n).p = true) (used : km.ref (pte n).frame ≠ 0)
    (contents : mem (pte n).frame = img n)
    (alone : ∀ x, P x → (pte x).frame ≠ (pte n).frame) :
    RamHalf km mem pte (update pmds i pmd) (fun x => P x ∨ x = n) img where
  records := half.records.fill vacant pmd taken va fresh
  present x holds := by
    rcases holds with holds | rfl
    · exact half.present x holds
    · exact present
  used x holds := by
    rcases holds with holds | rfl
    · exact half.used x holds
    · exact used
  contents x holds := by
    rcases holds with holds | rfl
    · exact half.contents x holds
    · exact contents
  apart x x' holds holds' same := by
    rcases holds with holds | rfl <;> rcases holds' with holds' | rfl
    · exact half.apart x x' holds holds' same
    · exact absurd same (alone x holds)
    · exact absurd same.symm (alone x' holds')
    · rfl

end

end RamHalf

/-- The swapped-out pages: recorded, marked, and in the slot of the file that belongs to
the entry. -/
structure SwapHalf (file : File) (pte : Nat → Pte) (pmds : Slot → Pmd) (Q : Nat → Prop)
    (img : Nat → Page) : Prop where
  records : Records pmds Q
  absent : ∀ n, Q n → (pte n).p = false
  marked : ∀ n, Q n → (pte n).pg = true
  offset : ∀ j ∈ occupied pmds, (pmds j).offset = j.val * PGSIZE
  inside : ∀ j ∈ occupied pmds, j.val * PGSIZE + PGSIZE ≤ file.size
  contents : ∀ j ∈ occupied pmds, ∀ n, (pmds j).va = n * PGSIZE →
    filePage file (j.val * PGSIZE) = img n

/-- The slots before the first vacant one are occupied. -/
theorem before_vacant {pmds : Slot → Pmd} {j : Slot}
    (found : getPageIndexDefault pmds false CLEAN_VA = some j) (l : Slot) (before : l.val < j.val) :
    l ∈ occupied pmds := by
  by_contra vacant
  have isVacant : (pmds l).occupied = false := by simpa using vacant
  unfold getPageIndexDefault at found
  obtain ⟨_, as, bs, split, none⟩ := find?_eq_some_iff_append.mp found
  have early : l ∈ as := by
    have listed := mem_finRange l
    have sorted := pairwise_lt_finRange MAX_PSYC_PAGES
    rw [split] at listed sorted
    rcases mem_append.mp listed with inside | inside
    · exact inside
    · rcases mem_cons.mp inside with rfl | later
      · omega
      · have := (pairwise_cons.mp (pairwise_append.mp sorted).2.1).1 _ later
        rw [Fin.lt_def] at this
        omega
  have := none _ early
  simp [isVacant] at this

/-- A slot of the file has been written. -/
structure Stored (file : File) (page : Page) (j : Slot) (file' : File) : Prop where
  size : j.val * PGSIZE + PGSIZE ≤ file'.size
  grows : file.size ≤ file'.size
  here : filePage file' (j.val * PGSIZE) = page
  others : ∀ l, l ≠ j → filePage file' (l.val * PGSIZE) = filePage file (l.val * PGSIZE)

/-- A file has room for every slot. -/
theorem slot_room (j : Slot) : j.val * PGSIZE + PGSIZE ≤ MAXFILE * BSIZE :=
  (Nat.add_le_add_right (Nat.mul_le_mul_right PGSIZE (Nat.le_of_lt_succ j.isLt)) PGSIZE).trans
    (by decide)

theorem stored_write (file : File) (page : Page) (j : Slot) (inside : j.val * PGSIZE ≤ file.size) :
    Stored file page j (writeToSwapFile file page (j.val * PGSIZE)).2 := by
  have bound := j.isLt
  rw [writeToSwapFile_ok file page inside (slot_room j)]
  refine ⟨Nat.le_max_right file.size _, Nat.le_max_left file.size _, ?_, fun l other => ?_⟩
  · funext x
    have := x.isLt
    simp only [filePage]
    rw [if_pos (by omega), Nat.add_sub_cancel_left, byteAt_val]
  · funext x
    have small := x.isLt
    have apart : l.val ≠ j.val := fun same => other (Fin.ext same)
    simp only [filePage]
    rw [if_neg]
    simp only [PGSIZE] at *
    omega

namespace SwapHalf

variable {file file' : File} {pte pte' : Nat → Pte} {pmds : Slot → Pmd} {Q R : Nat → Prop}
  {img img' : Nat → Page} {j : Slot} {n : Nat}

section

variable (half : SwapHalf file pte pmds Q img)
include half

theorem congr (same : ∀ n, Q n ↔ R n) : SwapHalf file pte pmds R img :=
  ⟨half.records.congr same, fun n holds => half.absent n ((same n).mpr holds),
    fun n holds => half.marked n ((same n).mpr holds), half.offset, half.inside, half.contents⟩

theorem of_same (entry : ∀ n, Q n → (pte' n).p = (pte n).p ∧ (pte' n).pg = (pte n).pg)
    (image : ∀ n, Q n → img' n = img n) : SwapHalf file pte' pmds Q img' where
  records := half.records
  absent n holds := (entry n holds).1.trans (half.absent n holds)
  marked n holds := (entry n holds).2.trans (half.marked n holds)
  offset := half.offset
  inside := half.inside
  contents j taken n va := by
    obtain ⟨n', va', holds⟩ := half.records.page j taken
    obtain rfl := page_inj (va.symm.trans va')
    rw [image n holds]
    exact half.contents j taken n va

/-- A page goes to a vacant slot. -/
theorem add (vacant : j ∉ occupied pmds) (pmd : Pmd)
    (taken : pmd.occupied = true) (va : pmd.va = n * PGSIZE) (offset : pmd.offset = j.val * PGSIZE)
    (fresh : ¬ Q n) (absent : (pte n).p = false) (marked : (pte n).pg = true)
    (stored : Stored file (img n) j file') :
    SwapHalf file' pte (update pmds j pmd) (fun x => Q x ∨ x = n) img := by
  have now : ∀ l ∈ occupied (update pmds j pmd), l = j ∨ l ≠ j ∧ l ∈ occupied pmds := by
    intro l inside
    rw [occupied_update, if_pos taken] at inside
    rcases Finset.mem_insert.mp inside with rfl | old
    · exact .inl rfl
    · exact .inr ⟨fun same => vacant (same ▸ old), old⟩
  refine ⟨half.records.fill vacant pmd taken va fresh, fun x holds => ?_, fun x holds => ?_,
    fun l inside => ?_, fun l inside => ?_, fun l inside x eq => ?_⟩
  · rcases holds with holds | rfl
    · exact half.absent x holds
    · exact absent
  · rcases holds with holds | rfl
    · exact half.marked x holds
    · exact marked
  · rcases now l inside with rfl | ⟨other, old⟩
    · rw [update_self]
      exact offset
    · rw [update_of_ne other]
      exact half.offset l old
  · rcases now l inside with rfl | ⟨_, old⟩
    · exact stored.size
    · exact Nat.le_trans (half.inside l old) stored.grows
  · rcases now l inside with rfl | ⟨other, old⟩
    · rw [update_self, va] at eq
      rw [stored.here, page_inj eq]
    · rw [update_of_ne other] at eq
      rw [stored.others l other]
      exact half.contents l old x eq

/-- The first vacant slot is not beyond the end of the file. -/
theorem vacant_inside
    (found : getPageIndexDefault pmds false CLEAN_VA = some j) : j.val * PGSIZE ≤ file.size := by
  cases pos : j.val with
  | zero => simp
  | succ l =>
    have bound : l < MAX_PSYC_PAGES := by have := j.isLt; omega
    have := half.inside ⟨l, bound⟩ (before_vacant found _ (by simp only; omega))
    simp only at this
    rw [Nat.succ_mul]
    exact this

end

end SwapHalf

end Xv6
