import Xv6.System.SwapNames

/-!
A directory is a file of entries with names of fixed length: `strncmp` and `strncpy`, and `namecmp`,
`dirlookup` and `dirlink` of `fs.c`, with the removal of an entry in `sys_unlink` and `removeSwapFile`.
They keep the slots that `FileSystem` has for a directory, and those a finite map from names.

Entries are read and written whole, so the file is the list of its entries.
-/

namespace Xv6.Directory

open Function List

open Fs (Name Slots DIRSIZ addSlot clearSlot isDots)

/-- What a `char *` points at. -/
abbrev Str := Nat → UInt8

/-- The two pointers stand at `i`, with `n` bytes to go. -/
def strncmp (p q : Str) : Nat → Nat → Int
  | _, 0 => 0
  | i, n + 1 =>
    if p i ≠ 0 ∧ p i = q i then strncmp p q (i + 1) n else (p i).toNat - (q i).toNat

/-- The second loop of `strncpy`. -/
def zeroFill (s : Str) : Nat → Nat → Str
  | _, 0 => s
  | i, n + 1 => zeroFill (Function.update s i 0) (i + 1) n

def strncpy (s t : Str) : Nat → Nat → Str
  | _, 0 => s
  | i, n + 1 =>
    if t i ≠ 0 then strncpy (Function.update s i (t i)) t (i + 1) n
    else zeroFill (Function.update s i (t i)) (i + 1) n

def namecmp (s t : Str) : Int := strncmp s t 0 DIRSIZ

structure Dirent where
  inum : UInt16
  name : Str

/-- The entries of the largest file. -/
abbrev MAXENTRIES : Nat := MAXFILE * BSIZE / 16

abbrev Dir := List Dirent

/-- The loop of `dirlookup`: the inode number and the place of its entry. -/
def lookupLoop (name : Str) : Dir → Nat → Option (UInt16 × Nat)
  | [], _ => none
  | de :: dp, off =>
    if de.inum ≠ 0 ∧ namecmp name de.name = 0 then some (de.inum, off)
    else lookupLoop name dp (off + 1)

def dirlookup (dp : Dir) (name : Str) : Option (UInt16 × Nat) := lookupLoop name dp 0

/-- The loop of `dirlink`: the place of an empty entry, or the end. -/
def emptyLoop : Dir → Nat → Nat
  | [], off => off
  | de :: dp, off => if de.inum = 0 then off else emptyLoop dp (off + 1)

/-- `writei` of an entry, in place or at the end. -/
def writeDirent (dp : Dir) (off : Nat) (de : Dirent) : Dir :=
  if off < dp.length then dp.set off de else dp ++ [de]

/-- False is the result -1, and `none` the panic when `writei` fails. `strncpy` writes every byte of
`de.name`, so that it does not matter what was there. -/
def dirlink (dp : Dir) (name : Str) (inum : Nat) : Option (Bool × Dir) :=
  match dirlookup dp name with
  | some _ => some (false, dp)
  | none =>
    let off := emptyLoop dp 0
    if off < MAXENTRIES then
      some (true, writeDirent dp off ⟨.ofNat inum, strncpy (fun _ => 0) name 0 DIRSIZ⟩)
    else none

def dot : Str := fun i => if i = 0 then 46 else 0

def dotdot : Str := fun i => if i < 2 then 46 else 0

/-- What `sys_unlink` and `removeSwapFile` do to the directory, with whether the inode they find is a
directory that `isdirempty` refuses. -/
def unlink (dp : Dir) (name : Str) (full : Bool) : Bool × Dir :=
  if namecmp name dot = 0 ∨ namecmp name dotdot = 0 then (false, dp)
  else
    match dirlookup dp name with
    | none => (false, dp)
    | some (_, off) => if full then (false, dp) else (true, writeDirent dp off ⟨0, fun _ => 0⟩)

/-! Names as the functions on strings see them. -/

/-- The `n` bytes from `i` on, up to a NUL. -/
def text (t : Str) : Nat → Nat → Name
  | _, 0 => []
  | i, n + 1 => if t i = 0 then [] else Char.ofNat (t i).toNat :: text t (i + 1) n

def key (name : Str) : Name := text name 0 DIRSIZ

theorem ofNat_toNat_inj {a b : UInt8} : Char.ofNat a.toNat = Char.ofNat b.toNat ↔ a = b := by
  refine ⟨fun same => ?_, fun same => same ▸ rfl⟩
  have valid (c : UInt8) : (Char.ofNat c.toNat).toNat = c.toNat := by
    have low : c.toNat.isValidChar := .inl (Nat.lt_trans c.toNat_lt (by decide))
    rw [Char.ofNat, dif_pos low]
    simp [Char.ofNatAux, Char.toNat, UInt32.toNat]
  have values := congrArg Char.toNat same
  rw [valid, valid] at values
  exact UInt8.toNat_inj.mp values

variable {i n inum : Nat} {s : Str} {name : Name} {dp : Dir}

theorem strncmp_eq_zero_iff {p q : Str} :
    strncmp p q i n = 0 ↔ text p i n = text q i n := by
  induction n generalizing i with
  | zero => simp [strncmp, text]
  | succ n ih =>
    unfold strncmp text
    split
    · rename_i both
      rw [ih, ← both.2, if_neg both.1, if_neg both.1, cons_inj_right]
    · rename_i stop
      have ends : ((p i).toNat : Int) - (q i).toNat = 0 ↔ p i = q i := by
        rw [← UInt8.toNat_inj]
        omega
      rw [ends]
      by_cases first : p i = 0 <;> by_cases second : q i = 0
      · simp [first, second]
      · simp [first, second, Ne.symm second]
      · simp [first, second]
      · simp only [first, second, if_false, List.cons.injEq, ofNat_toNat_inj]
        exact ⟨fun same => absurd ⟨first, same⟩ stop, And.left⟩

theorem namecmp_eq_zero_iff {t : Str} : namecmp s t = 0 ↔ key s = key t := strncmp_eq_zero_iff

theorem zeroFill_before {j : Nat} (before : j < i) : zeroFill s i n j = s j := by
  induction n generalizing s i with
  | zero => rfl
  | succ n ih =>
    unfold zeroFill
    rw [ih (by omega), update_of_ne (by omega)]

theorem strncpy_before {t : Str} {j : Nat} (before : j < i) : strncpy s t i n j = s j := by
  induction n generalizing s i with
  | zero => rfl
  | succ n ih =>
    unfold strncpy
    split
    · rw [ih (by omega), update_of_ne (by omega)]
    · rw [zeroFill_before (by omega), update_of_ne (by omega)]

/-- The copy has the text of the original, terminated or not. -/
theorem text_strncpy (s t : Str) (i n : Nat) : text (strncpy s t i n) i n = text t i n := by
  induction n generalizing s i with
  | zero => rfl
  | succ n ih =>
    unfold strncpy
    split
    · unfold text
      rw [strncpy_before (Nat.lt_succ_self i), update_self, ih]
    · rename_i stop
      unfold text
      rw [zeroFill_before (Nat.lt_succ_self i), update_self, if_pos (not_not.mp stop),
        if_pos (not_not.mp stop)]

/-! The slots of a directory. -/

def Dirent.slot (de : Dirent) : Name × Nat := (key de.name, de.inum.toNat)

def slots (dp : Dir) : Slots := dp.map Dirent.slot

theorem slot_used (de : Dirent) : de.slot.2 ≠ 0 ↔ de.inum ≠ 0 := by
  rw [Dirent.slot, ne_eq, ne_eq, ← UInt16.toNat_inj]
  rfl

theorem lookupLoop_eq (name : Str) (dp : Dir) (off : Nat) :
    (lookupLoop name dp off).map (·.1.toNat) = Fs.dirlookup (slots dp) (key name) ∧
      ∀ inum i, lookupLoop name dp off = some (inum, i) → ∃ j, i = off + j ∧ j < dp.length ∧
        ∀ de : Dirent, de.slot = ([], 0) → slots (dp.set j de) = clearSlot (key name) (slots dp) := by
  induction dp generalizing off with
  | nil => exact ⟨rfl, nofun⟩
  | cons e dp ih =>
    have here : e.slot.2 ≠ 0 ∧ e.slot.1 = key name ↔ e.inum ≠ 0 ∧ namecmp name e.name = 0 := by
      rw [slot_used, namecmp_eq_zero_iff, eq_comm]
      rfl
    simp only [lookupLoop, slots, map_cons, Fs.dirlookup, clearSlot]
    by_cases hit : e.slot.2 ≠ 0 ∧ e.slot.1 = key name
    · rw [if_pos (here.mp hit), if_pos hit, if_pos hit]
      refine ⟨rfl, fun inum i found => ⟨0, ?_, Nat.succ_pos _, fun de clear => ?_⟩⟩
      · cases found
        rfl
      · rw [set_cons_zero, map_cons, clear]
    · rw [if_neg fun found => hit (here.mpr found), if_neg hit, if_neg hit]
      obtain ⟨same, offset⟩ := ih (off + 1)
      refine ⟨same, fun inum i found => ?_⟩
      obtain ⟨j, at', inside, clears⟩ := offset inum i found
      refine ⟨j + 1, by omega, Nat.succ_lt_succ inside, fun de clear => ?_⟩
      rw [set_cons_succ, map_cons]
      exact congrArg _ (clears de clear)

theorem emptyLoop_eq (dp : Dir) (off : Nat) :
    ∃ j, emptyLoop dp off = off + j ∧ j ≤ dp.length ∧
      ∀ de : Dirent, slots (writeDirent dp j de) = addSlot de.slot.1 de.slot.2 (slots dp) := by
  induction dp generalizing off with
  | nil => exact ⟨0, rfl, Nat.le_refl _, fun _ => rfl⟩
  | cons e dp ih =>
    have free : e.slot.2 = 0 ↔ e.inum = 0 := not_iff_not.mp (slot_used e)
    by_cases vacant : e.inum = 0
    · refine ⟨0, if_pos vacant, Nat.zero_le _, fun de => ?_⟩
      simp only [slots, map_cons, addSlot, if_pos (free.mpr vacant)]
      rfl
    · obtain ⟨j, at', inside, adds⟩ := ih (off + 1)
      refine ⟨j + 1, ?_, Nat.succ_le_succ inside, fun de => ?_⟩
      · rw [emptyLoop, if_neg vacant, at']
        omega
      · simp only [slots, map_cons, addSlot, if_neg (mt free.mp vacant)]
        refine Eq.trans ?_ (congrArg (e.slot :: ·) (adds de))
        simp only [writeDirent, length_cons, Nat.add_lt_add_iff_right, set_cons_succ]
        split <;> rfl

/-! A directory is a finite map. -/

/-- No name occurs twice among the used slots. -/
def Distinct (slots : Slots) : Prop :=
  slots.Pairwise fun a b => a.2 ≠ 0 → b.2 ≠ 0 → a.1 ≠ b.1

theorem unused_of_dirlookup {slots : Slots} (absent : Fs.dirlookup slots name = none)
    {e : Name × Nat} (inside : e ∈ slots) : e.2 ≠ 0 → e.1 ≠ name := by
  induction slots with
  | nil => cases inside
  | cons first rest ih =>
    unfold Fs.dirlookup at absent
    split at absent
    · cases absent
    · rename_i other
      cases inside with
      | head => exact fun used same => other ⟨used, same⟩
      | tail _ later => exact ih absent later

theorem Distinct.addSlot {slots : Slots} (distinct : Distinct slots)
    (absent : ∀ e ∈ slots, e.2 ≠ 0 → e.1 ≠ name) : Distinct (addSlot name inum slots) := by
  induction slots with
  | nil => exact pairwise_singleton _ _
  | cons first rest ih =>
    obtain ⟨head, tail⟩ := pairwise_cons.mp distinct
    obtain ⟨other, others⟩ := forall_mem_cons.mp absent
    unfold Fs.addSlot
    split
    · exact pairwise_cons.mpr ⟨fun e inside _ used => (others e inside used).symm, tail⟩
    · refine pairwise_cons.mpr ⟨fun e inside used => ?_, ih tail others⟩
      rcases Fs.mem_addSlot inside with rfl | old
      · exact fun _ => other used
      · exact head e old used

theorem Distinct.clearSlot {slots : Slots} (name : Name) (distinct : Distinct slots) :
    Distinct (clearSlot name slots) ∧ Fs.dirlookup (clearSlot name slots) name = none := by
  induction slots with
  | nil => exact ⟨distinct, rfl⟩
  | cons first rest ih =>
    obtain ⟨head, tail⟩ := pairwise_cons.mp distinct
    unfold Fs.clearSlot
    split
    · rename_i found
      refine ⟨pairwise_cons.mpr ⟨fun _ _ used => absurd rfl used, tail⟩, ?_⟩
      cases again : Fs.dirlookup rest name with
      | none => simp [Fs.dirlookup, again]
      | some inum =>
        obtain ⟨inside, used⟩ := Fs.mem_of_dirlookup again
        exact absurd found.2 (head _ inside found.1 used)
    · rename_i other
      obtain ⟨rest_distinct, absent⟩ := ih tail
      refine ⟨pairwise_cons.mpr ⟨fun e inside used => ?_, rest_distinct⟩, ?_⟩
      · rcases Fs.mem_clearSlot inside with rfl | old
        · exact fun used => absurd rfl used
        · exact head e old used
      · rw [Fs.dirlookup, if_neg other, absent]

def bindings (dp : Dir) : Name → Option Nat := Fs.dirlookup (slots dp)

theorem dirlookup_eq (dp : Dir) (name : Str) :
    (dirlookup dp name).map (·.1.toNat) = bindings dp (key name) :=
  (lookupLoop_eq name dp 0).1

inductive Op where
  | dirlink (name : Str) (inum : Nat)
  | unlink (name : Str) (full : Bool)

def step (dp : Dir) : Op → Option (Bool × Dir)
  | .dirlink name inum => dirlink dp name inum
  | .unlink name full => some (unlink dp name full)

/-- The name an operation is on, and the binding it gives it. -/
def Op.effect : Op → Name × Option Nat
  | .dirlink name inum => (key name, some inum)
  | .unlink name _ => (key name, none)

/-- The inode number of an entry in use. -/
def Op.Valid : Op → Prop
  | .dirlink _ inum => 0 < inum ∧ inum < 65536
  | .unlink _ _ => True

/-- What one operation does to the map. -/
structure Steps (dp : Dir) (op : Op) (done : Bool) (dp' : Dir) : Prop where
  distinct : Distinct (slots dp')
  fails : done = false → dp' = dp
  binds : done = true → bindings dp' = Function.update (bindings dp) op.effect.1 op.effect.2
  link : ∀ name inum, op = .dirlink name inum → (done = false ↔ (dirlookup dp name).isSome)

theorem dirlink_steps (distinct : Distinct (slots dp)) {name : Str}
    (valid : (Op.dirlink name inum).Valid) (room : dp.length < MAXENTRIES) :
    ∃ done dp', dirlink dp name inum = some (done, dp') ∧ Steps dp (.dirlink name inum) done dp' := by
  unfold dirlink
  cases looked : dirlookup dp name with
  | some found =>
    refine ⟨false, dp, rfl, distinct, fun _ => rfl, nofun, fun _ _ same => ?_⟩
    cases same
    simp [looked]
  | none =>
    obtain ⟨j, at', inside, adds⟩ := emptyLoop_eq dp 0
    have absent : bindings dp (key name) = none := by rw [← dirlookup_eq, looked]; rfl
    simp only [at', Nat.zero_add, if_pos (Nat.lt_of_le_of_lt inside room)]
    have slot : Dirent.slot ⟨.ofNat inum, strncpy (fun _ => 0) name 0 DIRSIZ⟩ = (key name, inum) :=
      Prod.ext (text_strncpy _ name 0 DIRSIZ) (UInt16.toNat_ofNat_of_lt valid.2)
    have added := adds ⟨.ofNat inum, strncpy (fun _ => 0) name 0 DIRSIZ⟩
    rw [slot] at added
    refine ⟨true, _, rfl, ?_, nofun, fun _ => funext fun other => ?_, fun _ _ same => ?_⟩
    · rw [added]
      exact distinct.addSlot fun e inside => unused_of_dirlookup absent inside
    · rw [bindings, added]
      by_cases this : other = key name
      · rw [this, Op.effect, update_self]
        exact Fs.dirlookup_addSlot_self (Nat.pos_iff_ne_zero.mp valid.1) absent
      · rw [Op.effect, update_of_ne this]
        exact Fs.dirlookup_addSlot_of_ne this inum (slots dp)
    · cases same
      simp [looked]

theorem unlink_steps (distinct : Distinct (slots dp)) (name : Str) (full : Bool) :
    Steps dp (.unlink name full) (unlink dp name full).1 (unlink dp name full).2 := by
  have stays : Steps dp (.unlink name full) false dp := ⟨distinct, fun _ => rfl, nofun, nofun⟩
  unfold unlink
  split
  · exact stays
  · cases looked : dirlookup dp name with
    | none => exact stays
    | some found =>
      obtain ⟨inum, off⟩ := found
      simp only
      split
      · exact stays
      · obtain ⟨j, at', inside, clears⟩ := (lookupLoop_eq name dp 0).2 inum off looked
        obtain rfl : off = j := by omega
        have cleared := clears ⟨0, fun _ => 0⟩ (by decide)
        obtain ⟨rest, gone⟩ := distinct.clearSlot (key name)
        rw [writeDirent, if_pos inside]
        refine ⟨cleared ▸ rest, nofun, fun _ => funext fun other => ?_, nofun⟩
        rw [bindings, cleared]
        by_cases this : other = key name
        · rw [this, Op.effect, update_self, gone]
        · rw [Op.effect, update_of_ne this, Fs.dirlookup_clearSlot_of_ne this]
          rfl

theorem step_steps (distinct : Distinct (slots dp)) {op : Op} (valid : op.Valid)
    (room : dp.length < MAXENTRIES) :
    ∃ done dp', step dp op = some (done, dp') ∧ Steps dp op done dp' := by
  cases op with
  | dirlink name inum => exact dirlink_steps distinct valid room
  | unlink name full => exact ⟨_, _, rfl, unlink_steps distinct name full⟩

def runs (dp : Dir) : List Op → Option (List Bool × Dir)
  | [] => some ([], dp)
  | op :: ops => do
    let (done, dp) ← step dp op
    let (results, dp) ← runs dp ops
    return (done :: results, dp)

/-- The directory is short of its greatest size before each operation. -/
def Room (dp : Dir) : List Op → Prop
  | [] => True
  | op :: ops => dp.length < MAXENTRIES ∧ ∀ done dp', step dp op = some (done, dp') → Room dp' ops

/-- What the last effective operation on `name` has bound it to. -/
def lastEffect (name : Name) : List Op → List Bool → Option (Option Nat)
  | op :: ops, done :: results =>
    (lastEffect name ops results).or
      (if done = true ∧ op.effect.1 = name then some op.effect.2 else none)
  | _, _ => none

theorem runs_map (distinct : Distinct (slots dp)) {ops : List Op} (valid : ∀ op ∈ ops, op.Valid)
    (room : Room dp ops) :
    ∃ results dp', runs dp ops = some (results, dp') ∧ Distinct (slots dp') ∧
      ∀ name, bindings dp' name = (lastEffect name ops results).getD (bindings dp name) := by
  induction ops generalizing dp with
  | nil => exact ⟨[], dp, rfl, distinct, fun _ => rfl⟩
  | cons op ops ih =>
    obtain ⟨done, dp₁, one, steps⟩ := step_steps distinct (valid op mem_cons_self) room.1
    obtain ⟨results, dp', later, distinct', map'⟩ :=
      ih steps.distinct (fun o inside => valid o (mem_cons_of_mem _ inside)) (room.2 _ _ one)
    refine ⟨done :: results, dp', by simp [runs, one, later], distinct', fun name => ?_⟩
    rw [map', lastEffect]
    cases lastEffect name ops results with
    | some _ => rfl
    | none =>
      cases done with
      | false => simp [steps.fails rfl]
      | true =>
        rw [steps.binds rfl, update_apply]
        by_cases same : name = op.effect.1
        · simp [same]
        · simp [same, Ne.symm same]

/-- After any operations: what is found is what the last effective one on the name has bound, and a
name is there once. A further operation that fails changes nothing, `dirlink` fails exactly for a name
that is there, and what is found for other names stays. -/
theorem directory_is_finite_map {dp : Dir} (distinct : Distinct (slots dp)) {ops : List Op}
    (valid : ∀ op ∈ ops, op.Valid) (room : Room dp ops) :
    ∃ results dp', runs dp ops = some (results, dp') ∧ Distinct (slots dp') ∧
      (∀ name, (dirlookup dp' name).map (·.1.toNat) =
        (lastEffect (key name) ops results).getD (bindings dp (key name))) ∧
      (dp'.length < MAXENTRIES → ∀ op, op.Valid →
        ∃ done dp'', step dp' op = some (done, dp'') ∧ (done = false → dp'' = dp') ∧
          (∀ name inum, op = .dirlink name inum → (done = false ↔ (dirlookup dp' name).isSome)) ∧
          ∀ name, key name ≠ op.effect.1 →
            (dirlookup dp'' name).map (·.1) = (dirlookup dp' name).map (·.1)) := by
  obtain ⟨results, dp', ran, distinct', map'⟩ := runs_map distinct valid room
  refine ⟨results, dp', ran, distinct', fun name => ?_, fun room' op valid' => ?_⟩
  · rw [dirlookup_eq, map']
  · obtain ⟨done, dp'', one, steps⟩ := step_steps distinct' valid' room'
    refine ⟨done, dp'', one, steps.fails, steps.link, fun name other => ?_⟩
    have found : (dirlookup dp'' name).map (·.1.toNat) = (dirlookup dp' name).map (·.1.toNat) := by
      rw [dirlookup_eq, dirlookup_eq]
      cases done with
      | false => rw [steps.fails rfl]
      | true => rw [steps.binds rfl, Function.update_of_ne other]
    refine Option.map_injective (fun _ _ => UInt16.toNat_inj.mp) ?_
    rwa [Option.map_map, Option.map_map]

/-- Linking a name in an empty directory. -/
theorem directory_is_finite_map_one : ∃ results dp', runs [] [.dirlink dot 5] = some (results, dp') ∧
    (dirlookup dp' dot).map (·.1.toNat) = some 5 := by
  obtain ⟨results, dp', ran, -, looked, -⟩ := @directory_is_finite_map [] List.Pairwise.nil
    [.dirlink dot 5] (fun op inside => List.mem_singleton.mp inside ▸ ⟨by decide, by decide⟩)
    ⟨by decide, fun _ _ _ => trivial⟩
  refine ⟨results, dp', ran, (looked dot).trans ?_⟩
  obtain rfl : results = [true] := by
    have one : (runs [] [.dirlink dot 5]).map (·.1) = some [true] := by decide
    rw [ran] at one
    exact Option.some.inj one
  decide

end Xv6.Directory
