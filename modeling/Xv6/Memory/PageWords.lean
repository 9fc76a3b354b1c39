import Xv6.Memory.PageTable

/-!
Page tables as words.

The records of `PageTable` stand for words in frames. Here `walkpgdir` and `mappages` work on
the words: a directory is a frame whose words hold the addresses of other frames, an entry is
reached through a pointer, and the tables in between come from `kalloc`. What keeps the entries
of two pages apart is only that `kalloc` hands out no frame in use.
-/

namespace Xv6

open Nat

def PTE_P : Nat := 0x001

def PTE_W : Nat := 0x002

def PTE_U : Nat := 0x004

def PTE_ADDR (pte : Nat) : Nat := pte / PGSIZE * PGSIZE

/-- The words of each frame, and the frames on `kmem.freelist`. -/
structure Ram where
  word : Nat → Nat → Nat
  freelist : List Nat

namespace Ram

/-- Read through a `pte_t *`: a frame and the index of a word in it. -/
def load (m : Ram) (p : Nat × Nat) : Nat := m.word p.1 p.2

def store (m : Ram) (p : Nat × Nat) (w : Nat) : Ram :=
  { m with word := Function.update m.word p.1 (Function.update (m.word p.1) p.2 w) }

/-- `memset(page, 0, PGSIZE)`. -/
def clear (m : Ram) (frame : Nat) : Ram :=
  { m with word := Function.update m.word frame fun _ => 0 }

def kalloc (m : Ram) : Option (Nat × Ram) :=
  match m.freelist with
  | [] => none
  | frame :: rest => some (frame, { m with freelist := rest })

def walkpgdir (m : Ram) (pgdir va : Nat) (alloc : Bool) : Option (Nat × Nat) × Ram :=
  let pde := m.word pgdir (PDX va)
  if pde &&& PTE_P ≠ 0 then (some (PTE_ADDR pde / PGSIZE, PTX va), m)
  else if !alloc then (none, m)
  else
    match m.kalloc with
    | none => (none, m)
    | some (pgtab, m) =>
      (some (pgtab, PTX va),
        (m.clear pgtab).store (pgdir, PDX va) (pgtab * PGSIZE ||| PTE_P ||| PTE_W ||| PTE_U))

/-- The `for(;;)` of `mappages`. The number bounds the turns. -/
def mappagesLoop (pgdir last perm : Nat) : Nat → Ram → Nat → Nat → Res (Bool × Ram)
  | 0, _, _, _ => .error .noReturn
  | turns + 1, m, a, pa =>
    match m.walkpgdir pgdir a true with
    | (none, m) => .ok (false, m)
    | (some pte, m) =>
      if m.load pte &&& PTE_P ≠ 0 then .error .remap
      else
        let m := m.store pte (pa ||| perm ||| PTE_P)
        if a = last then .ok (true, m)
        else mappagesLoop pgdir last perm turns m ((a + PGSIZE) % 2 ^ 32) ((pa + PGSIZE) % 2 ^ 32)

/-- After as many turns as there are pages the address is back where it started. -/
def mappages (m : Ram) (pgdir va size pa perm : Nat) : Res (Bool × Ram) :=
  mappagesLoop pgdir (PGROUNDDOWN ((va + size + 2 ^ 32 - 1) % 2 ^ 32)) perm (2 ^ 20) m
    (PGROUNDDOWN va) pa

/-- The frame of the page table behind a directory entry. -/
def table (m : Ram) (d j : Nat) : Option Nat :=
  if m.word d j &&& PTE_P ≠ 0 then some (PTE_ADDR (m.word d j) / PGSIZE) else none

/-- The entry of a page; an absent table counts as zeros. -/
def entry (m : Ram) (d va : Nat) : Nat :=
  match m.table d (PDX va) with
  | none => 0
  | some t => m.word t (PTX va)

/-- No frame has two uses: as a directory, as the table behind one entry of one directory, or as
a free frame. -/
structure Apart (dirs : Set Nat) (m : Ram) : Prop where
  tables : ∀ d ∈ dirs, ∀ d' ∈ dirs, ∀ va va' t, m.table d (PDX va) = some t →
    m.table d' (PDX va') = some t → d' = d ∧ PDX va' = PDX va
  notDir : ∀ d ∈ dirs, ∀ va t, m.table d (PDX va) = some t → t ∉ dirs
  dirUsed : ∀ d ∈ dirs, d ∉ m.freelist
  tableUsed : ∀ d ∈ dirs, ∀ va t, m.table d (PDX va) = some t → t ∉ m.freelist
  nodup : m.freelist.Nodup

/-- `walkpgdir` found or made the table of a page. -/
structure Found (dirs : Set Nat) (m : Ram) (d va : Nat) (p : Nat × Nat) (m' : Ram) : Prop where
  apart : m'.Apart dirs
  table : m'.table d (PDX va) = some p.1
  index : p.2 = PTX va
  kept : ∀ d' ∈ dirs, ∀ j t, m.table d' j = some t → m'.table d' j = some t
  entries : ∀ d' ∈ dirs, ∀ va', m'.entry d' va' = m.entry d' va'

variable {dirs : Set Nat} {m m₁ m' : Ram} {d d' va va' f w : Nat} {p : Nat × Nat} {alloc : Bool}

theorem same_page : pageOf va' = pageOf va ↔ PDX va' = PDX va ∧ PTX va' = PTX va := by
  rw [← pageOf_div, ← pageOf_div, ← pageOf_mod, ← pageOf_mod]
  omega

/-- The directory entry of a new table leads to it. -/
theorem pde_frame (f : Nat) :
    (f * PGSIZE ||| PTE_P ||| PTE_W ||| PTE_U) &&& PTE_P ≠ 0 ∧
      PTE_ADDR (f * PGSIZE ||| PTE_P ||| PTE_W ||| PTE_U) / PGSIZE = f := by
  have word : f * PGSIZE ||| PTE_P ||| PTE_W ||| PTE_U = 2 ^ 12 * f + 7 := by
    rw [Nat.two_pow_add_eq_or_of_lt (by decide), Nat.or_assoc, Nat.or_assoc, Nat.mul_comm]
    rfl
  rw [word, show PTE_P = 1 from rfl, and_one_is_mod]
  unfold PTE_ADDR PGSIZE
  omega

theorem store_word (m : Ram) (p : Nat × Nat) (w t i : Nat) :
    (m.store p w).word t i = if t = p.1 ∧ i = p.2 then w else m.word t i := by
  by_cases frame : t = p.1
  · subst frame
    by_cases index : i = p.2 <;> simp [store, index]
  · simp [store, frame]

section Store

/-- A store outside a directory changes none of its tables. -/
theorem table_store (outside : d' ≠ p.1) (j : Nat) :
    (m.store p w).table d' j = m.table d' j := by
  have same : (m.store p w).word d' j = m.word d' j := by
    rw [store_word, if_neg fun inside => outside inside.1]
  simp only [table, same]

section

variable (found : Found dirs m d va p m')
include found

theorem Found.outside (dir : d ∈ dirs) (dir' : d' ∈ dirs) :
    d' ≠ p.1 := by
  rintro rfl
  exact found.apart.notDir d dir va _ found.table dir'

theorem Found.store_apart (dir : d ∈ dirs) (w : Nat) :
    (m'.store p w).Apart dirs where
  tables d₁ dir₁ d₂ dir₂ va₁ va₂ t first second := by
    rw [table_store (found.outside dir dir₁)] at first
    rw [table_store (found.outside dir dir₂)] at second
    exact found.apart.tables d₁ dir₁ d₂ dir₂ va₁ va₂ t first second
  notDir d₁ dir₁ va₁ t there := by
    rw [table_store (found.outside dir dir₁)] at there
    exact found.apart.notDir d₁ dir₁ va₁ t there
  dirUsed := found.apart.dirUsed
  tableUsed d₁ dir₁ va₁ t there := by
    rw [table_store (found.outside dir dir₁)] at there
    exact found.apart.tableUsed d₁ dir₁ va₁ t there
  nodup := found.apart.nodup

/-- A store through the pointer changes the entry of one page of one directory. -/
theorem Found.store_entry (dir : d ∈ dirs) (dir' : d' ∈ dirs)
    (w va' : Nat) : (m'.store p w).entry d' va' =
      if d' = d ∧ pageOf va' = pageOf va then w else m.entry d' va' := by
  rw [← found.entries d' dir' va']
  simp only [entry, same_page, table_store (found.outside dir dir')]
  cases there : m'.table d' (PDX va') with
  | none =>
    rw [if_neg]
    rintro ⟨rfl, same, -⟩
    rw [same, found.table] at there
    cases there
  | some t =>
    simp only [store_word, found.index]
    refine if_congr ⟨fun ⟨frame, index⟩ => ?_, fun ⟨same, page, index⟩ => ?_⟩ rfl rfl
    · subst frame
      obtain ⟨same, page⟩ := found.apart.tables d dir d' dir' va va' _ found.table there
      exact ⟨same, page, index⟩
    · subst same
      rw [page, found.table] at there
      exact ⟨(Option.some.inj there).symm, index⟩

theorem Found.load (dir : d ∈ dirs) :
    m'.load p = m.entry d va := by
  rw [← found.entries d dir va]
  unfold entry Ram.load
  rw [found.table, found.index]

end

end Store

section NewTable

variable {rest : List Nat}

/-- The state in which `walkpgdir` returns a new table. -/
def newTable (m : Ram) (d va f : Nat) (rest : List Nat) : Ram :=
  (clear { m with freelist := rest } f).store (d, PDX va)
    (f * PGSIZE ||| PTE_P ||| PTE_W ||| PTE_U)

theorem newTable_word (t i : Nat) : (m.newTable d va f rest).word t i =
    if t = d ∧ i = PDX va then f * PGSIZE ||| PTE_P ||| PTE_W ||| PTE_U
    else if t = f then 0 else m.word t i := by
  unfold newTable
  rw [store_word]
  refine if_congr Iff.rfl rfl ?_
  by_cases same : t = f <;> simp [clear, same]

theorem newTable_table (other : d' ≠ f) (j : Nat) : (m.newTable d va f rest).table d' j =
    if d' = d ∧ j = PDX va then some f else m.table d' j := by
  unfold table
  rw [newTable_word, if_neg other]
  by_cases here : d' = d ∧ j = PDX va
  · simp only [if_pos here]
    rw [if_pos (pde_frame f).1, (pde_frame f).2]
  · simp only [if_neg here]

theorem newTable_found (apart : m.Apart dirs) (dir : d ∈ dirs) (free : m.freelist = f :: rest)
    (absent : m.table d (PDX va) = none) :
    Found dirs m d va (f, PTX va) (m.newTable d va f rest) := by
  have listed : f ∈ m.freelist := free ▸ List.mem_cons_self ..
  have fresh : ∀ d₁ ∈ dirs, d₁ ≠ f := fun d₁ dir₁ same => apart.dirUsed d₁ dir₁ (same ▸ listed)
  have shrinks : ∀ t ∈ rest, t ∈ m.freelist := fun t inside => free ▸ List.mem_cons_of_mem _ inside
  have nodup := free ▸ apart.nodup
  -- A table of the new state is the new one, or an old one that is not the new frame.
  have cases_table : ∀ d₁ ∈ dirs, ∀ va₁ t, (m.newTable d va f rest).table d₁ (PDX va₁) = some t →
      (d₁ = d ∧ PDX va₁ = PDX va ∧ t = f) ∨ (m.table d₁ (PDX va₁) = some t ∧ t ≠ f) := by
    intro d₁ dir₁ va₁ t there
    rw [newTable_table (fresh d₁ dir₁)] at there
    split at there
    · rename_i here
      exact .inl ⟨here.1, here.2, (Option.some.inj there).symm⟩
    · exact .inr ⟨there, fun same => apart.tableUsed d₁ dir₁ va₁ t there (same ▸ listed)⟩
  refine ⟨⟨?_, ?_, ?_, ?_, (List.nodup_cons.mp nodup).2⟩, ?_, rfl, ?_, ?_⟩
  · intro d₁ dir₁ d₂ dir₂ va₁ va₂ t first second
    rcases cases_table d₁ dir₁ va₁ t first with ⟨rfl, page, new⟩ | ⟨first, old⟩
    · rcases cases_table d₂ dir₂ va₂ t second with ⟨rfl, page', -⟩ | ⟨-, old'⟩
      · exact ⟨rfl, page'.trans page.symm⟩
      · exact absurd new old'
    · rcases cases_table d₂ dir₂ va₂ t second with ⟨-, -, new⟩ | ⟨second, -⟩
      · exact absurd new old
      · exact apart.tables d₁ dir₁ d₂ dir₂ va₁ va₂ t first second
  · intro d₁ dir₁ va₁ t there isDir
    rcases cases_table d₁ dir₁ va₁ t there with ⟨-, -, new⟩ | ⟨there, -⟩
    · exact fresh t isDir new
    · exact apart.notDir d₁ dir₁ va₁ t there isDir
  · exact fun d₁ dir₁ inside => apart.dirUsed d₁ dir₁ (shrinks d₁ inside)
  · intro d₁ dir₁ va₁ t there inside
    rcases cases_table d₁ dir₁ va₁ t there with ⟨-, -, new⟩ | ⟨there, -⟩
    · exact (List.nodup_cons.mp nodup).1 (new ▸ inside)
    · exact apart.tableUsed d₁ dir₁ va₁ t there (shrinks t inside)
  · rw [newTable_table (fresh d dir), if_pos ⟨rfl, rfl⟩]
  · intro d₁ dir₁ j t there
    rw [newTable_table (fresh d₁ dir₁), if_neg, there]
    rintro ⟨rfl, rfl⟩
    rw [absent] at there
    cases there
  · intro d₁ dir₁ va₁
    unfold entry
    rw [newTable_table (fresh d₁ dir₁)]
    by_cases here : d₁ = d ∧ PDX va₁ = PDX va
    · obtain ⟨rfl, page⟩ := here
      rw [if_pos ⟨rfl, page⟩, page, absent]
      simp only [newTable_word, (fresh d₁ dir).symm, false_and, if_false, if_true]
    · rw [if_neg here]
      cases there : m.table d₁ (PDX va₁) with
      | none => rfl
      | some t =>
        have notDir : t ≠ d := fun same => apart.notDir d₁ dir₁ va₁ t there (same ▸ dir)
        have used : t ≠ f := fun same => apart.tableUsed d₁ dir₁ va₁ t there (same ▸ listed)
        simp only [newTable_word, notDir, used, false_and, if_false]

end NewTable

/-- The three ways through `walkpgdir` that return a pointer or do not. -/
theorem walkpgdir_cases (m : Ram) (d va : Nat) (alloc : Bool) :
    (∃ t, m.table d (PDX va) = some t ∧ m.walkpgdir d va alloc = (some (t, PTX va), m)) ∨
    (m.table d (PDX va) = none ∧ m.walkpgdir d va alloc = (none, m)) ∨
    ∃ f rest, alloc = true ∧ m.freelist = f :: rest ∧ m.table d (PDX va) = none ∧
      m.walkpgdir d va alloc = (some (f, PTX va), m.newTable d va f rest) := by
  by_cases present : m.word d (PDX va) &&& PTE_P ≠ 0
  · exact .inl ⟨_, if_pos present, if_pos present⟩
  · have absent : m.table d (PDX va) = none := if_neg present
    have walk : m.walkpgdir d va alloc = _ := if_neg present
    rw [walk, absent]
    cases alloc with
    | false => exact .inr (.inl ⟨rfl, rfl⟩)
    | true =>
      unfold kalloc
      cases free : m.freelist with
      | nil => exact .inr (.inl ⟨rfl, rfl⟩)
      | cons f rest => exact .inr (.inr ⟨f, rest, rfl, rfl, rfl, rfl⟩)

theorem walkpgdir_found (apart : m.Apart dirs) (dir : d ∈ dirs)
    (run : m.walkpgdir d va alloc = (some p, m')) : Found dirs m d va p m' := by
  rcases walkpgdir_cases m d va alloc with
    ⟨t, there, walk⟩ | ⟨-, walk⟩ | ⟨f, rest, -, free, absent, walk⟩
  · cases walk.symm.trans run
    exact ⟨apart, there, rfl, fun _ _ _ _ there => there, fun _ _ _ => rfl⟩
  · cases walk.symm.trans run
  · cases walk.symm.trans run
    exact newTable_found apart dir free absent

/-- What `mappages` leaves behind: pages `a` to `last` mapped from `pa` on. -/
def Mapped (dirs : Set Nat) (m : Ram) (d a last pa perm : Nat) (m' : Ram) : Prop :=
  m'.Apart dirs ∧ ∀ d' ∈ dirs, ∀ va' < 2 ^ 32, m'.entry d' va' =
    if d' = d ∧ a ≤ PGROUNDDOWN va' ∧ PGROUNDDOWN va' ≤ last then
      (pa + (PGROUNDDOWN va' - a)) % 2 ^ 32 ||| perm ||| PTE_P
    else m.entry d' va'

theorem pageOf_eq_iff {a : Nat} (aligned : PGSIZE ∣ a) (bound : a < 2 ^ 32) (low : va < 2 ^ 32) :
    pageOf va = pageOf a ↔ PGROUNDDOWN va = a := by
  obtain ⟨n, rfl⟩ := aligned
  unfold pageOf PGROUNDDOWN PGSIZE at *
  omega

section Mapping

variable {a last pa perm : Nat}

theorem Found.mapped_last (found : Found dirs m d a p m') (dir : d ∈ dirs) (aligned : PGSIZE ∣ a)
    (bound : a < 2 ^ 32) (fits : pa < 2 ^ 32) :
    Mapped dirs m d a a pa perm (m'.store p (pa ||| perm ||| PTE_P)) := by
  refine ⟨found.store_apart dir _, fun d' dir' va' low => ?_⟩
  simp only [found.store_entry dir dir', pageOf_eq_iff aligned bound low]
  by_cases here : PGROUNDDOWN va' = a
  · simp only [here, Nat.sub_self, Nat.add_zero, Nat.mod_eq_of_lt fits, Nat.le_refl, and_self]
  · rw [if_neg fun both => here both.2, if_neg fun both => here (by omega)]

/-- The page at hand, then the pages after it. -/
theorem Found.mapped_next (found : Found dirs m d a p m₁) (dir : d ∈ dirs) (aligned : PGSIZE ∣ a)
    (bound : last < 2 ^ 32) (whole : PGSIZE ∣ last) (more : a < last) (fits : pa < 2 ^ 32)
    (rest : Mapped dirs (m₁.store p (pa ||| perm ||| PTE_P)) d (a + PGSIZE) last
      ((pa + PGSIZE) % 2 ^ 32) perm m') :
    Mapped dirs m d a last pa perm m' := by
  refine ⟨rest.1, fun d' dir' va' low => ?_⟩
  rw [rest.2 d' dir' va' low]
  simp only [found.store_entry dir dir', pageOf_eq_iff aligned (lt_trans more bound) low]
  by_cases same : d' = d
  · have round : PGSIZE ∣ PGROUNDDOWN va' := dvd_mul_left ..
    generalize PGROUNDDOWN va' = r at round
    simp only [same, true_and]
    obtain ⟨i, rfl⟩ := aligned
    obtain ⟨j, rfl⟩ := round
    unfold PGSIZE at *
    rcases lt_trichotomy j i with before | rfl | after
    · rw [if_neg (by omega), if_neg (by omega), if_neg (by omega)]
    · rw [if_neg (by omega), if_pos rfl, if_pos ⟨Nat.le_refl _, Nat.le_of_lt more⟩, Nat.sub_self,
        Nat.add_zero, Nat.mod_eq_of_lt fits]
    · have offset : ((pa + 4096) % 2 ^ 32 + (4096 * j - (4096 * i + 4096))) % 2 ^ 32 =
          (pa + (4096 * j - 4096 * i)) % 2 ^ 32 := by
        omega
      rw [offset]
      by_cases inside : 4096 * j ≤ last
      · rw [if_pos (by omega), if_pos (by omega)]
      · rw [if_neg (by omega), if_neg (by omega), if_neg (by omega)]
  · simp only [same, false_and, if_false]

theorem mappagesLoop_mapped {turns : Nat} (dir : d ∈ dirs) (bound : last < 2 ^ 32)
    (whole : PGSIZE ∣ last) (apart : m.Apart dirs) (aligned : PGSIZE ∣ a) (below : a ≤ last)
    (fits : pa < 2 ^ 32) (enough : last < a + turns * PGSIZE) :
    mappagesLoop d last perm turns m a pa ≠ .error .noReturn ∧
      ∀ m', mappagesLoop d last perm turns m a pa = .ok (true, m') →
        Mapped dirs m d a last pa perm m' := by
  induction turns generalizing m a pa with
  | zero => omega
  | succ turns ih =>
    unfold mappagesLoop
    cases walk : m.walkpgdir d a true with
    | mk pointer m₁ =>
    cases pointer with
    | none => exact ⟨nofun, nofun⟩
    | some pte =>
      have found := walkpgdir_found apart dir walk
      dsimp only
      by_cases present : m₁.load pte &&& PTE_P ≠ 0
      · rw [if_pos present]
        exact ⟨nofun, nofun⟩
      · rw [if_neg present]
        by_cases final : a = last
        · rw [if_pos final]
          refine ⟨nofun, fun m' run => ?_⟩
          cases run
          exact final ▸ found.mapped_last dir aligned (final ▸ bound) fits
        · rw [if_neg final]
          have next : a + PGSIZE ≤ last := by
            obtain ⟨i, rfl⟩ := aligned
            obtain ⟨j, rfl⟩ := whole
            unfold PGSIZE at *
            omega
          rw [Nat.mod_eq_of_lt (a := a + PGSIZE) (by omega)]
          rw [add_mul, one_mul] at enough
          obtain ⟨returns, mapped⟩ := ih (found.store_apart dir (pa ||| perm ||| PTE_P))
            (dvd_add aligned (dvd_refl _)) next (mod_lt (pa + PGSIZE) (by decide))
            (by omega)
          exact ⟨returns, fun m' run => found.mapped_next dir aligned bound whole (by omega) fits
            (mapped m' run)⟩

end Mapping

/-- A directory of words is a map from pages to entries. -/
structure Flat (dirs : Set Nat) (m : Ram) (d : Nat) : Prop where
  /-- The pointer reads the entry, and a store through it changes no other one. -/
  lookup : ∀ va alloc p m', m.walkpgdir d va alloc = (some p, m') →
    m'.load p = m.entry d va ∧ ∀ w, (m'.store p w).Apart dirs ∧
      ∀ d' ∈ dirs, ∀ va', (m'.store p w).entry d' va' =
        if d' = d ∧ pageOf va' = pageOf va then w else m.entry d' va'
  absent : ∀ va alloc m', m.walkpgdir d va alloc = (none, m') → m' = m ∧ m.entry d va = 0
  shared : ∀ d' ∈ dirs, ∀ va va' alloc alloc' p p' m₁ m₂,
    m.walkpgdir d va alloc = (some p, m₁) → m₁.walkpgdir d' va' alloc' = (some p', m₂) →
      (p' = p ↔ d' = d ∧ pageOf va' = pageOf va)
  returns : ∀ va size pa perm, 0 < size → va + size ≤ 2 ^ 32 → pa < 2 ^ 32 →
    m.mappages d va size pa perm ≠ .error .noReturn
  mapped : ∀ va size pa perm m', 0 < size → va + size ≤ 2 ^ 32 → pa < 2 ^ 32 →
    m.mappages d va size pa perm = .ok (true, m') →
      Mapped dirs m d (PGROUNDDOWN va) (PGROUNDDOWN (va + size - 1)) pa perm m'

theorem mappages_mapped {size pa perm : Nat} (apart : m.Apart dirs) (dir : d ∈ dirs)
    (pos : 0 < size) (inside : va + size ≤ 2 ^ 32) (fits : pa < 2 ^ 32) :
    m.mappages d va size pa perm ≠ .error .noReturn ∧
      ∀ m', m.mappages d va size pa perm = .ok (true, m') →
        Mapped dirs m d (PGROUNDDOWN va) (PGROUNDDOWN (va + size - 1)) pa perm m' := by
  have last : (va + size + 2 ^ 32 - 1) % 2 ^ 32 = va + size - 1 := by omega
  unfold mappages
  rw [last]
  refine mappagesLoop_mapped dir ?_ (dvd_mul_left ..) apart (dvd_mul_left ..) ?_ fits ?_
  all_goals
    unfold PGROUNDDOWN PGSIZE
    omega

theorem pageTable_flat (apart : m.Apart dirs) (dir : d ∈ dirs) : Flat dirs m d where
  lookup va alloc p m' run :=
    have found := walkpgdir_found apart dir run
    ⟨found.load dir, fun w => ⟨found.store_apart dir w,
      fun d' dir' va' => found.store_entry dir dir' w va'⟩⟩
  absent va alloc m' run := by
    rcases walkpgdir_cases m d va alloc with
      ⟨t, -, walk⟩ | ⟨absent, walk⟩ | ⟨f, rest, -, -, -, walk⟩
    · cases walk.symm.trans run
    · cases walk.symm.trans run
      exact ⟨rfl, by rw [entry, absent]⟩
    · cases walk.symm.trans run
  shared d' dir' va va' alloc alloc' p p' m₁ m₂ run run' := by
    have found := walkpgdir_found apart dir run
    have found' := walkpgdir_found found.apart dir' run'
    have kept := found'.kept d dir _ _ found.table
    rw [same_page]
    constructor
    · rintro rfl
      obtain ⟨same, page⟩ := found'.apart.tables d dir d' dir' va va' _ kept found'.table
      exact ⟨same, page, found'.index.symm.trans found.index⟩
    · rintro ⟨rfl, page, index⟩
      have table := found'.table
      rw [page, kept] at table
      exact Prod.ext (Option.some.inj table).symm
        (found'.index.trans (index.trans found.index.symm))
  returns va size pa perm pos inside fits := (mappages_mapped apart dir pos inside fits).1
  mapped va size pa perm m' pos inside fits :=
    (mappages_mapped apart dir pos inside fits).2 m'

/-- One empty directory and two free frames. -/
def oneDirectory : Ram := ⟨fun _ _ => 0, [2, 3]⟩

/-- Device pages up to the end of the address space. -/
theorem pageTable_flat_devices : ∃ m', oneDirectory.mappages 1 0xFFFFE000 0x2000 0xFFFFE000 PTE_W =
    .ok (true, m') ∧ Mapped {1} oneDirectory 1 0xFFFFE000 0xFFFFF000 0xFFFFE000 PTE_W m' := by
  have apart : oneDirectory.Apart {1} := by
    constructor <;> simp [oneDirectory, table]
  exact ⟨_, rfl, (pageTable_flat apart rfl).mapped 0xFFFFE000 0x2000 0xFFFFE000 PTE_W _ (by decide)
    (by decide) (by decide) rfl⟩

section Records

/-- A word as a record. -/
def decode (w : Nat) : Pte where
  p := w.testBit 0
  w := w.testBit 1
  u := w.testBit 2
  a := w.testBit 5
  pg := w.testBit 9
  cow := w.testBit 11
  frame := w / PGSIZE

theorem decode_zero : decode 0 = .zero := by
  decide

/-- A directory of words as a directory of records. -/
def view (m : Ram) (d : Nat) : PageDir := fun j =>
  (m.table d j).map fun t => ⟨t, fun i => decode (m.word t i)⟩

theorem walkpgdir_view : Xv6.walkpgdir (m.view d) va =
    (m.walkpgdir d va false).1.map fun p => decode (m.load p) := by
  unfold Xv6.walkpgdir view
  rcases walkpgdir_cases m d va false with
    ⟨t, there, walk⟩ | ⟨absent, walk⟩ | ⟨f, rest, impossible, -⟩
  · simp [walk, there, load]
  · simp [walk, absent]
  · cases impossible

/-- The entry of a page in the records is the one in the words. -/
theorem pteAt_view : pteAt (m.view d) (pageOf va) = decode (m.entry d va) := by
  unfold pteAt view entry
  rw [pageOf_div, pageOf_mod]
  cases m.table d (PDX va) with
  | none => exact decode_zero.symm
  | some t => rfl

end Records

end Ram

end Xv6
