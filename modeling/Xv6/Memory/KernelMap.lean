import Xv6.Memory.Vm

/-!
The kernel part of a page directory, one page table at a time.

`mappages` makes a turn for each of the 65,536 pages that `setupkvm` maps. Here a turn fills the part of
the range that is in one page table, so that runs of `fork` and `exec` on states written down in full can
be evaluated.
-/

namespace Xv6

open Function

/-- `n` entries from `i` on map the frames from `pa` on. -/
def PageTable.mapRange (t : PageTable) (perm : Pte) (i n pa : Nat) : PageTable :=
  { t with pte := fun x =>
      if i ≤ x ∧ x < i + n then { perm with p := true, frame := pa + (x - i) } else t.pte x }

theorem PageTable.mapRange_zero (t : PageTable) (perm : Pte) (i pa : Nat) :
    t.mapRange perm i 0 pa = t := by
  refine congrArg (PageTable.mk t.frame) (funext fun x => if_neg ?_)
  omega

/-- The first entry of a range, then the others. -/
theorem PageTable.mapRange_succ (t : PageTable) (perm : Pte) (i n pa : Nat) :
    PageTable.mapRange
        { t with pte := update t.pte i { perm with p := true, frame := pa } } perm (i + 1) n
        (pa + 1) =
      t.mapRange perm i (n + 1) pa := by
  refine congrArg (PageTable.mk t.frame) (funext fun x => ?_)
  dsimp only
  by_cases here : x = i
  · subst here
    rw [if_neg (by omega), if_pos (by omega), update_self, Nat.sub_self, Nat.add_zero]
  · rw [update_of_ne here]
    by_cases inside : i + 1 ≤ x ∧ x < i + 1 + n
    · rw [if_pos inside, if_pos (by omega), show pa + 1 + (x - (i + 1)) = pa + (x - i) by omega]
    · rw [if_neg inside, if_neg (by omega)]

namespace Kernel

def setTable (k : Kernel) (d j : Nat) (t : PageTable) : Kernel :=
  { k with dirs := Function.update k.dirs d (Function.update (k.dirs d) j (some t)) }

/-- Map `n` pages from `page` on, in at most `turns` page tables. There is no result where `mappages`
would fail or panic. -/
def mapTables (d : Nat) (perm : Pte) : Nat → Kernel → Nat → Nat → Nat → Option Kernel
  | 0, k, _, n, _ => if n = 0 then some k else none
  | turns + 1, k, page, n, pa =>
    let j := page / 1024
    let i := page % 1024
    let c := min n (1024 - i)
    if n = 0 then some k
    else if 1024 ≤ j then none
    else match k.dirs d j with
    | some t =>
      if ∀ x < c, (t.pte (i + x)).p = false then
        mapTables d perm turns (k.setTable d j (t.mapRange perm i c pa)) (page + c) (n - c) (pa + c)
      else none
    | none =>
      match k.kmem.pop with
      | none => none
      | some (f, km) =>
        mapTables d perm turns
          ({ k with kmem := km }.setTable d j ((PageTable.zeroed f).mapRange perm i c pa))
          (page + c) (n - c) (pa + c)

variable {k k' : Kernel} {perm : Pte}

section

variable (cfg : Config) {d : Nat}

/-- The part of `mappages` within a page table that is there. -/
theorem mappagesLoop_table (perm : Pte) (n m pa : Nat) {j i : Nat} {t : PageTable}
    (table : k.dirs d j = some t) (low : j < 1024) (fits : i + n ≤ 1024)
    (vacant : ∀ x < n, (t.pte (i + x)).p = false) :
    mappagesLoop cfg d perm (n + m) k ((j * 1024 + i) * PGSIZE % 2 ^ 32) pa =
      mappagesLoop cfg d perm m (k.setTable d j (t.mapRange perm i n pa))
        ((j * 1024 + (i + n)) * PGSIZE % 2 ^ 32) (pa + n) := by
  induction n generalizing k t i pa with
  | zero =>
    have still : k.setTable d j t = k := by
      unfold setTable
      rw [← table, update_eq_self, update_eq_self]
    rw [PageTable.mapRange_zero, still, Nat.zero_add]
    rfl
  | succ n ih =>
    have page : (j * 1024 + i) * PGSIZE % 2 ^ 32 = (j * 1024 + i) * PGSIZE := by
      unfold PGSIZE
      omega
    have isTable : PDX ((j * 1024 + i) * PGSIZE) = j := by
      unfold PDX PGSIZE
      omega
    have isEntry : PTX ((j * 1024 + i) * PGSIZE) = i := by
      unfold PTX PGSIZE
      omega
    have first : (t.pte i).p = false := vacant 0 (Nat.succ_pos n)
    have next : ((j * 1024 + i) * PGSIZE + PGSIZE) % 2 ^ 32 =
        (j * 1024 + (i + 1)) * PGSIZE % 2 ^ 32 := by
      rw [← Nat.add_assoc, Nat.succ_mul]
    rw [page, Nat.add_right_comm n 1 m, mappagesLoop]
    simp only [walkpgdirAlloc, isTable, table, Res.ok_bind, walkpgdir, Option.map_some, isEntry, first,
      Bool.false_eq_true, if_false, next]
    -- The entry just made is outside the rest of the range.
    rw [ih _ (t := { t with pte := update t.pte i { perm with p := true, frame := pa } })
      (by simp [setPte, Xv6.setPte, isTable, isEntry, table]) (by omega) fun x less => by
        have := vacant (x + 1) (by omega)
        simp only
        rw [update_of_ne (by omega), Nat.add_right_comm, Nat.add_assoc]
        exact this]
    rw [PageTable.mapRange_succ]
    simp only [setTable, setPte, Xv6.setPte, isTable, update_self, update_idem]
    rw [Nat.add_right_comm i 1 n, Nat.add_right_comm pa 1 n]
    rfl

/-- `mappages` makes a page table that is not there. -/
theorem mappagesLoop_newTable (perm : Pte) (n : Nat) {a pa f : Nat} {km : Kmem}
    (absent : k.dirs d (PDX a) = none) (popped : k.kmem.pop = some (f, km)) :
    mappagesLoop cfg d perm (n + 1) k a pa =
      mappagesLoop cfg d perm (n + 1) ({ k with kmem := km }.setTable d (PDX a) (.zeroed f)) a pa := by
  unfold mappagesLoop
  simp only [walkpgdirAlloc, absent, kalloc, popped, Res.ok_bind, setTable, addTable, update_self]

theorem mappagesLoop_of_mapTables (turns : Nat) {page n pa : Nat}
    (done : mapTables d perm turns k page n pa = some k') :
    mappagesLoop cfg d perm n k (page * PGSIZE % 2 ^ 32) pa = .ok (true, k') := by
  induction turns generalizing k page n pa with
  | zero =>
    unfold mapTables at done
    split at done
    · rename_i none
      cases done
      rw [none]
      rfl
    · cases done
  | succ turns ih =>
    unfold mapTables at done
    dsimp only at done
    split at done
    · rename_i none
      cases done
      rw [none]
      rfl
    · rename_i some
      split at done
      · cases done
      · rename_i low
        have low : page / 1024 < 1024 := Nat.lt_of_not_le low
        generalize isCount : min n (1024 - page % 1024) = c at done
        have rest : n = c + (n - c) := by omega
        have fits : page % 1024 + c ≤ 1024 := by omega
        have split : page = page / 1024 * 1024 + page % 1024 := by omega
        have next : page / 1024 * 1024 + (page % 1024 + c) = page + c := by omega
        have isTable : PDX (page * PGSIZE % 2 ^ 32) = page / 1024 := by
          unfold PDX PGSIZE
          omega
        split at done
        · rename_i t table
          split at done
          · rename_i vacant
            have chunk := mappagesLoop_table cfg perm c (n - c) pa table low fits vacant
            rw [next, ih done, ← rest, ← split] at chunk
            exact chunk
          · cases done
        · rename_i absent
          split at done
          · cases done
          · rename_i f km popped
            have chunk := mappagesLoop_table cfg perm c (n - c) pa
              (k := { k with kmem := km }.setTable d (page / 1024) (.zeroed f))
              (d := d) (t := .zeroed f) (by simp [setTable]) low fits fun x _ => rfl
            have state : ({ k with kmem := km }.setTable d (page / 1024) (.zeroed f)).setTable d
                (page / 1024) ((PageTable.zeroed f).mapRange perm (page % 1024) c pa) =
                { k with kmem := km }.setTable d (page / 1024)
                  ((PageTable.zeroed f).mapRange perm (page % 1024) c pa) := by
              simp only [setTable, update_self, update_idem]
            rw [state, next, ih done, ← rest, ← split] at chunk
            obtain ⟨n, rfl⟩ := Nat.exists_eq_succ_of_ne_zero some
            rw [mappagesLoop_newTable cfg perm n (by rw [isTable]; exact absent) popped, isTable]
            exact chunk

end

/-- `mappages`, table by table. -/
def mappagesByTables (k : Kernel) (d va size pa : Nat) (perm : Pte) : Option Kernel :=
  let a := PGROUNDDOWN va
  let last := PGROUNDDOWN ((va + size + 2 ^ 32 - 1) % 2 ^ 32)
  mapTables d perm NPDENTRIES k (a / PGSIZE) ((last + 2 ^ 32 - a) % 2 ^ 32 / PGSIZE + 1) pa

/-- `mapKernel`, table by table. -/
def kernelTables (d : Nat) (l : List Kmap) (k : Kernel) : Option Kernel :=
  l.foldlM (fun k e => k.mappagesByTables d e.virt ((e.physEnd + 2 ^ 32 - e.physStart) % 2 ^ 32)
    (e.physStart / PGSIZE) { w := e.w }) k

/-- `setupkvm`, table by table; where that gives no result, `setupkvm` itself. -/
def setupkvmByTables (cfg : Config) (k : Kernel) (me : ProcNo) : Res (Option Nat × Kernel) :=
  let made := k.kmem.pop.bind fun r =>
    (kernelTables r.1 (kmap cfg) { k with kmem := r.2, dirs := Function.update k.dirs r.1 .zeroed }).map
      fun k => (r.1, k)
  match made with
  | some (d, k) => .ok (some d, k)
  | none => k.setupkvm cfg me

variable {cfg : Config} {d : Nat}

theorem mappages_of_byTables {va size pa : Nat}
    (done : k.mappagesByTables d va size pa perm = some k') :
    k.mappages cfg d va size pa perm = .ok (true, k') := by
  unfold mappagesByTables at done
  unfold mappages
  dsimp only at done ⊢
  generalize (_ % 2 ^ 32 / PGSIZE : Nat) = n at done ⊢
  have low : PGROUNDDOWN va / PGSIZE * PGSIZE % 2 ^ 32 = PGROUNDDOWN va := by
    have bounded : ¬ 1024 ≤ PGROUNDDOWN va / PGSIZE / 1024 := by
      intro high
      rw [mapTables, if_neg (Nat.succ_ne_zero n), if_pos high] at done
      cases done
    unfold PGROUNDDOWN PGSIZE at *
    omega
  have mapped := mappagesLoop_of_mapTables cfg NPDENTRIES done
  rwa [low] at mapped

theorem mapKernel_of_kernelTables (l : List Kmap)
    (done : kernelTables d l k = some k') : mapKernel cfg d l k = .ok (true, k') := by
  induction l generalizing k with
  | nil =>
    cases done
    rfl
  | cons e l ih =>
    rw [kernelTables, List.foldlM_cons] at done
    obtain ⟨k₁, first, rest⟩ := Option.bind_eq_some_iff.mp done
    rw [mapKernel, mappages_of_byTables first, Res.ok_bind]
    exact ih rest

theorem setupkvm_eq_byTables : setupkvm = setupkvmByTables := by
  funext cfg k me
  unfold setupkvmByTables
  dsimp only
  split
  · rename_i d k' made
    obtain ⟨⟨d', km⟩, popped, made⟩ := Option.bind_eq_some_iff.mp made
    obtain ⟨k₁, tables, same⟩ := Option.map_eq_some_iff.mp made
    cases same
    have high : ¬ DEVSPACE < P2V PHYSTOP := by decide
    simp only [setupkvm, kalloc, popped, Res.ok_bind, if_neg high, mapKernel_of_kernelTables _ tables]
  · rfl

end Kernel

end Xv6
