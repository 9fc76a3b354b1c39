import Xv6.Library.Ledger
import Xv6.System.SwapNames

/-!
The graph of the directories.

An entry of a directory other than the dots leads down to an inode, and its second entry
leads up to the only directory that lists it. In such a graph `nlink` counts the entries
other than "." that lead to an inode. A call adds or clears one named entry, together
with the inode it leads to.
-/

namespace Xv6.Fs

open Function List

/-! Counting entries. -/

def slotsOf : Option INode → Slots
  | some ⟨_, .dir slots⟩ => slots
  | _ => []

def nlinkOf : Option INode → Nat
  | some n => n.nlink
  | none => 0

/-- Not a directory. -/
def INode.Plain (n : INode) : Prop := ∀ slots, n.body ≠ .dir slots

theorem INode.Plain.slotsOf {n : INode} (plain : n.Plain) : slotsOf (some n) = [] := by
  obtain ⟨nlink, body⟩ := n
  cases body with
  | dir slots => exact absurd rfl (plain slots)
  | file | dev => rfl

/-- A sum over the directories. -/
def total (count : Slots → Nat) (m : Nat → Option INode) : Nat :=
  ∑ d ∈ Finset.range NINODES, count (slotsOf (m d))

/-- An entry other than "." that leads to the inode. -/
def leadsTo (i : Nat) (e : Name × Nat) : Bool := e.1 != ['.'] && e.2 == i

def linksIn (i : Nat) (slots : Slots) : Nat := slots.countP (leadsTo i)

/-- The entries behind the dots. -/
def namedIn (i : Nat) (slots : Slots) : Nat := (slots.drop 2).countP fun e => e.2 == i

/-- The number of entries that refer to the inode from allocated directories. -/
def State.links (s : State) (i : Nat) : Nat := total (linksIn i) s.inode

variable {d up : Nat} {m : Nat → Option INode} {name : Name} {rest : Slots}

theorem total_update (count : Slots → Nat) (m : Nat → Option INode) (small : d < NINODES)
    (v : Option INode) :
    total count (update m d v) + count (slotsOf (m d)) = total count m + count (slotsOf v) :=
  Ledger.sum_update (Finset.mem_range.mpr small) (fun v => count (slotsOf v)) m v

theorem total_two (count : Slots → Nat) (m : Nat → Option INode) {a b : Nat} (smallA : a < NINODES)
    (smallB : b < NINODES) (apart : b ≠ a) (v w : Option INode) :
    total count (update (update m a v) b w) + count (slotsOf (m a)) + count (slotsOf (m b)) =
      total count m + count (slotsOf v) + count (slotsOf w) := by
  have first := total_update count m smallA v
  have second := total_update count (update m a v) smallB w
  rw [update_of_ne apart] at second
  omega

theorem exists_of_total_ne_zero {count : Slots → Nat} (some : total count m ≠ 0) :
    ∃ d, count (slotsOf (m d)) ≠ 0 := by
  by_contra none
  push Not at none
  exact some (Finset.sum_eq_zero fun d _ => none d)

variable {i : Nat} {slots : Slots}

section Slots

variable {count : Name × Nat → Bool} (blank : ∀ e, e.2 = 0 → count e = false)
include blank

theorem countP_addSlot (name : Name) (i : Nat) (slots : Slots) :
    (addSlot name i slots).countP count = slots.countP count + (if count (name, i) then 1 else 0) := by
  induction slots with
  | nil => simp [addSlot, countP_cons]
  | cons e rest ih =>
    by_cases free : e.2 = 0
    · simp [addSlot, free, countP_cons, blank e free]
    · simp only [addSlot, free, if_false, countP_cons, ih]
      omega

theorem countP_clearSlot {name : Name} (found : dirlookup slots name = some i) :
    (clearSlot name slots).countP count + (if count (name, i) then 1 else 0) = slots.countP count := by
  induction slots with
  | nil => cases found
  | cons e rest ih =>
    by_cases here : e.2 ≠ 0 ∧ e.1 = name
    · obtain rfl : e.2 = i := by simpa [dirlookup, here] using found
      obtain rfl := here.2
      simp [clearSlot, here, countP_cons, blank ([], 0) rfl]
    · rw [dirlookup, if_neg here] at found
      simp only [clearSlot, if_neg here, countP_cons]
      have := ih found
      omega

end Slots

/-- The entries that `create` puts into a new directory. -/
def dots (d up : Nat) : Slots := [(['.'], d), (['.', '.'], up)]

theorem addSlot_dots (posD : d ≠ 0) (posUp : up ≠ 0) (name : Name) (i : Nat) (rest : Slots) :
    addSlot name i (dots d up ++ rest) = dots d up ++ addSlot name i rest := by
  simp [dots, addSlot, posD, posUp]

theorem dirlookup_dots (plain : isDots name = false) (d up : Nat) (rest : Slots) :
    dirlookup (dots d up ++ rest) name = dirlookup rest name := by
  simp only [isDots, Bool.or_eq_false_iff, beq_eq_false_iff_ne] at plain
  simp [dots, dirlookup, Ne.symm plain.1, Ne.symm plain.2]

theorem clearSlot_dots (plain : isDots name = false) (d up : Nat) (rest : Slots) :
    clearSlot name (dots d up ++ rest) = dots d up ++ clearSlot name rest := by
  simp only [isDots, Bool.or_eq_false_iff, beq_eq_false_iff_ne] at plain
  simp [dots, clearSlot, Ne.symm plain.1, Ne.symm plain.2]

theorem plain_of_absent (posD : d ≠ 0) (posUp : up ≠ 0)
    (absent : dirlookup (dots d up ++ rest) name = none) : isDots name = false := by
  simp only [dots, cons_append, dirlookup] at absent
  by_cases one : name = ['.']
  · simp [one, posD] at absent
  · by_cases two : name = ['.', '.']
    · simp [two, posD, posUp] at absent
    · simp [isDots, one, two]

theorem namedIn_dots (i d up : Nat) (rest : Slots) :
    namedIn i (dots d up ++ rest) = rest.countP fun e => e.2 == i := rfl

/-! The graph of the directories. -/

def IsDir (m : Nat → Option INode) (d : Nat) (slots : Slots) : Prop :=
  ∃ nlink, m d = some ⟨nlink, .dir slots⟩

/-- What a directory contains behind its dots. -/
structure Listing (m : Nat → Option INode) (d up : Nat) (rest : Slots) : Prop where
  up : up ≠ 0
  plain : ∀ e ∈ rest, e.2 ≠ 0 → isDots e.1 = false
  other : ∀ e ∈ rest, e.2 ≠ d
  down : ∀ e ∈ rest, ∀ inner, IsDir m e.2 inner → inner.take 2 = dots e.2 d

structure Graph (m : Nat → Option INode) : Prop where
  small : ∀ i, m i ≠ none → 0 < i ∧ i < NINODES
  listing : ∀ d slots, IsDir m d slots →
    ∃ up rest, slots = dots d up ++ rest ∧ Listing m d up rest
  once : ∀ d slots, IsDir m d slots → total (namedIn d) m = if d = ROOTINO then 0 else 1
  root : ∃ slots, IsDir m ROOTINO slots ∧ slots.take 2 = dots ROOTINO ROOTINO
  counted : ∀ i n, m i = some n → n.nlink = total (linksIn i) m
  free : ∀ i, i ≠ 0 → m i = none → total (linksIn i) m = 0

theorem IsDir.ne_none (dir : IsDir m d slots) : m d ≠ none := by
  obtain ⟨nlink, value⟩ := dir
  simp [value]

theorem Listing.leadsTo (listing : Listing m d up rest) (pos : i ≠ 0) {e : Name × Nat}
    (mem : e ∈ rest) : leadsTo i e = (e.2 == i) := by
  by_cases here : e.2 = i
  · have plain := listing.plain e mem (here ▸ pos)
    simp only [isDots, Bool.or_eq_false_iff, beq_eq_false_iff_ne] at plain
    simp [Fs.leadsTo, here, plain.1]
  · simp [Fs.leadsTo, here]

/-- An entry that leads to an inode is the one upwards or a named one. -/
theorem Listing.linksIn (listing : Listing m d up rest) (pos : i ≠ 0) :
    linksIn i (dots d up ++ rest) = (if up = i then 1 else 0) + rest.countP fun e => e.2 == i := by
  have named : rest.countP (Fs.leadsTo i) = rest.countP fun e => e.2 == i :=
    countP_congr fun e mem => by rw [listing.leadsTo pos mem]
  simp [Fs.linksIn, dots, countP_cons, Fs.leadsTo, ← named, Nat.add_comm]

section Graph

variable {m : Nat → Option INode} (g : Graph m)
include g

variable {slots : Slots} {d up i nlink dp x nlink' : Nat} {rest : Slots} {e : Name × Nat}
  {m' : Nat → Option INode} {name : Name} {n : INode} {v : Option INode}

theorem Graph.isDir_small (dir : IsDir m d slots) : 0 < d ∧ d < NINODES := g.small d dir.ne_none

/-- No entry leads to a free inode. -/
theorem Graph.entry_allocated (dir : IsDir m d (dots d up ++ rest)) (listing : Listing m d up rest)
    (mem : e ∈ rest) (pos : i ≠ 0) (fresh : m i = none) : e.2 ≠ i := by
  intro here
  have none := g.free i pos fresh
  obtain ⟨nlink, value⟩ := dir
  have term : linksIn i (slotsOf (m d)) = 0 := Nat.le_zero.mp <| none ▸
    Finset.single_le_sum (f := fun d => linksIn i (slotsOf (m d))) (fun _ _ => Nat.zero_le _)
      (Finset.mem_range.mpr (g.isDir_small ⟨nlink, value⟩).2)
  rw [value] at term
  change linksIn i (dots d up ++ rest) = 0 at term
  rw [listing.linksIn pos] at term
  have positive : 0 < rest.countP fun e => e.2 == i := countP_pos_iff.mpr ⟨e, mem, by simp [here]⟩
  omega

theorem Graph.entry_not_root (listing : Listing m d up rest) (mem : e ∈ rest) : e.2 ≠ ROOTINO := by
  intro same
  obtain ⟨inner, root, top⟩ := g.root
  have below := listing.down e mem inner (same ▸ root)
  rw [top] at below
  obtain ⟨-, here⟩ : ROOTINO = e.2 ∧ ROOTINO = d := by simpa [dots] using below
  exact listing.other e mem (same.trans here)

theorem Graph.named_le (pos : i ≠ 0) : total (namedIn i) m ≤ total (linksIn i) m := by
  refine Finset.sum_le_sum fun d _ => ?_
  match value : m d with
  | none | some ⟨_, .file _⟩ | some ⟨_, .dev _ _⟩ => exact Nat.zero_le _
  | some ⟨nlink, .dir slots⟩ =>
    obtain ⟨up, rest, rfl, listing⟩ := g.listing d slots ⟨nlink, value⟩
    change namedIn i (dots d up ++ rest) ≤ linksIn i (dots d up ++ rest)
    rw [listing.linksIn pos, namedIn_dots]
    exact Nat.le_add_left _ _

/-- A directory is linked from its parent, the root from itself. -/
theorem Graph.dir_linked (dir : m d = some ⟨nlink, .dir slots⟩) :
    nlink ≠ 0 := by
  have counted := g.counted d _ dir
  have once := g.once d slots ⟨nlink, dir⟩
  have le := g.named_le (Nat.ne_of_gt (g.isDir_small ⟨nlink, dir⟩).1)
  by_cases root : d = ROOTINO
  · subst root
    obtain ⟨slots', ⟨nlink', dir'⟩, top⟩ := g.root
    cases dir.symm.trans dir'
    obtain ⟨up, rest, rfl, listing⟩ := g.listing _ slots ⟨nlink, dir⟩
    obtain rfl : up = ROOTINO := by simpa [dots] using top
    have term : linksIn ROOTINO (slotsOf (m ROOTINO)) ≤ total (linksIn ROOTINO) m :=
      Finset.single_le_sum (f := fun d => linksIn ROOTINO (slotsOf (m d)))
        (fun _ _ => Nat.zero_le _) (Finset.mem_range.mpr (by decide))
    rw [dir] at term
    change linksIn ROOTINO (dots ROOTINO ROOTINO ++ rest) ≤ _ at term
    rw [listing.linksIn (by decide), if_pos rfl] at term
    change nlink = _ at counted
    omega
  · rw [if_neg root] at once
    change nlink = _ at counted
    omega

omit g in
theorem Listing.congr (listing : Listing m d up rest)
    (same : ∀ e ∈ rest, ∀ inner, IsDir m' e.2 inner →
      ∃ old, IsDir m e.2 old ∧ inner.take 2 = old.take 2) : Listing m' d up rest where
  up := listing.up
  plain := listing.plain
  other := listing.other
  down e mem inner dir := by
    obtain ⟨old, was, top⟩ := same e mem inner dir
    exact top.trans (listing.down e mem old was)

/-- One call changes the named entries of a directory, and one other inode. -/
structure Edit (m m' : Nat → Option INode) (dp x : Nat) (slots slots' : Slots) : Prop where
  apart : dp ≠ x
  pos : x ≠ 0
  small : x < NINODES
  before : IsDir m dp slots
  after : IsDir m' dp slots'
  others : ∀ j, j ≠ dp → j ≠ x → m' j = m j
  recount : ∀ count, total count m' + count (slotsOf (m x)) + count slots =
    total count m + count (slotsOf (m' x)) + count slots'

theorem Graph.edit_update (nlink' : Nat) (slots' : Slots) (apart : dp ≠ x) (pos : x ≠ 0)
    (small : x < NINODES) (dir : m dp = some ⟨nlink, .dir slots⟩) (v : Option INode) :
    Edit m (update (update m x v) dp (some ⟨nlink', .dir slots'⟩)) dp x
      slots slots' where
  apart := apart
  pos := pos
  small := small
  before := ⟨nlink, dir⟩
  after := ⟨nlink', update_self ..⟩
  others j notDp notX := by rw [update_of_ne notDp, update_of_ne notX]
  recount count := by
    have both := total_two count m small (g.isDir_small ⟨nlink, dir⟩).2 apart v
      (some ⟨nlink', .dir slots'⟩)
    rw [dir] at both
    rwa [update_of_ne (Ne.symm apart), update_self]

omit g in
/-- A directory without named entries leads to its parent only. -/
def Bare (x dp : Nat) (slots : Slots) : Prop :=
  slots = [] ∨ ∃ blanks, slots = dots x dp ++ blanks ∧ ∀ e ∈ blanks, e.2 = 0

omit g in
theorem Bare.namedIn (bare : Bare x dp slots) {j : Nat} (pos : j ≠ 0) :
    namedIn j slots = 0 := by
  obtain rfl | ⟨blanks, rfl, free⟩ := bare
  · rfl
  · rw [namedIn_dots, countP_eq_zero]
    intro e mem
    simp [free e mem, Ne.symm pos]

omit g in
theorem Bare.linksIn (bare : Bare x dp slots) {j : Nat} (pos : j ≠ 0) (other : j ≠ dp) :
    linksIn j slots = 0 := by
  obtain rfl | ⟨blanks, rfl, free⟩ := bare
  · rfl
  · refine countP_eq_zero.mpr fun e mem => ?_
    simp only [dots, cons_append, nil_append, mem_cons] at mem
    obtain rfl | rfl | mem := mem
    · simp [leadsTo]
    · simp [leadsTo, Ne.symm other]
    · simp [leadsTo, free e mem, Ne.symm pos]

/-- The graph after a change, from what the change does to the two inodes and their counts. -/
theorem Graph.edit {rest' : Slots}
    (change : Edit m m' dp x (dots dp up ++ rest) (dots dp up ++ rest')) (notRoot : ROOTINO ≠ x)
    (bare : Bare x dp (slotsOf (m x)))
    (new : ∀ inner, IsDir m' x inner → m x = none ∧ inner = dots x dp ∧
      rest'.countP (fun e => e.2 == x) = (rest.countP fun e => e.2 == x) + 1)
    (plain : ∀ e ∈ rest', e.2 ≠ 0 → isDots e.1 = false)
    (subset : ∀ e ∈ rest', e.2 = 0 ∨ e.2 = x ∨ e ∈ rest) (unnamed : ∀ j, j ≠ 0 → j ≠ x →
      rest'.countP (fun e => e.2 == j) = rest.countP fun e => e.2 == j)
    (atDp : ∀ n n', m dp = some n → m' dp = some n' →
      n'.nlink + linksIn dp (slotsOf (m x)) = n.nlink + linksIn dp (slotsOf (m' x)))
    (atX : nlinkOf (m' x) + rest.countP (fun e => e.2 == x) =
      total (linksIn x) m + rest'.countP fun e => e.2 == x) :
    Graph m' := by
  have ⟨posDp, smallDp⟩ := g.isDir_small change.before
  have posDp : dp ≠ 0 := Nat.ne_of_gt posDp
  obtain ⟨up', old, same, listing⟩ := g.listing dp _ change.before
  obtain ⟨rfl, rfl⟩ : up = up' ∧ rest = old := by simpa [dots] using same
  have bare' : Bare x dp (slotsOf (m' x)) := by
    match value : m' x with
    | none | some ⟨_, .file _⟩ | some ⟨_, .dev _ _⟩ => exact .inl rfl
    | some ⟨nlink, .dir inner⟩ =>
      exact .inr ⟨[], by simpa [slotsOf] using (new inner ⟨nlink, value⟩).2.1, by simp⟩
  have sameDots : ∀ j inner, j ≠ x → IsDir m' j inner →
      ∃ old, IsDir m j old ∧ inner.take 2 = old.take 2 := by
    intro j inner notX ⟨nlink, value⟩
    by_cases here : j = dp
    · subst here
      obtain ⟨nlink', value'⟩ := change.after
      cases value.symm.trans value'
      exact ⟨_, change.before, rfl⟩
    · exact ⟨inner, ⟨nlink, change.others j here notX ▸ value⟩, rfl⟩
  have listing' : Listing m' dp up rest' := by
    refine ⟨listing.up, plain, fun e mem => ?_, fun e mem inner isDir => ?_⟩
    · obtain zero | isX | old := subset e mem
      · exact zero ▸ Ne.symm posDp
      · exact isX ▸ Ne.symm change.apart
      · exact listing.other e old
    · by_cases isX : e.2 = x
      · rw [(new inner (isX ▸ isDir)).2.1, isX]
        rfl
      · obtain ⟨old, was, top⟩ := sameDots e.2 inner isX isDir
        obtain zero | isX' | mem := subset e mem
        · exact absurd (g.isDir_small was).1 (by omega)
        · exact absurd isX' isX
        · exact top.trans (listing.down e mem old was)
  have named : ∀ j, j ≠ 0 → total (namedIn j) m' + rest.countP (fun e => e.2 == j) =
      total (namedIn j) m + rest'.countP fun e => e.2 == j := by
    intro j pos
    have count := change.recount (namedIn j)
    rw [bare.namedIn pos, bare'.namedIn pos, namedIn_dots, namedIn_dots] at count
    omega
  have links : ∀ j, j ≠ 0 → total (linksIn j) m' + linksIn j (slotsOf (m x)) +
        rest.countP (fun e => e.2 == j) =
      total (linksIn j) m + linksIn j (slotsOf (m' x)) + rest'.countP fun e => e.2 == j := by
    intro j pos
    have count := change.recount (linksIn j)
    rw [listing.linksIn pos, listing'.linksIn pos] at count
    omega
  have linksX := links x change.pos
  rw [bare.linksIn change.pos (Ne.symm change.apart),
    bare'.linksIn change.pos (Ne.symm change.apart)] at linksX
  constructor
  · intro j some
    by_cases isDp : j = dp
    · exact isDp ▸ ⟨Nat.pos_of_ne_zero posDp, smallDp⟩
    · by_cases isX : j = x
      · exact isX ▸ ⟨Nat.pos_of_ne_zero change.pos, change.small⟩
      · exact g.small j (change.others j isDp isX ▸ some)
  · intro d slots isDir
    by_cases isDp : d = dp
    · subst isDp
      obtain ⟨nlink, value⟩ := change.after
      obtain ⟨nlink', value'⟩ := isDir
      cases value.symm.trans value'
      exact ⟨up, rest', rfl, listing'⟩
    · by_cases isX : d = x
      · subst isX
        refine ⟨dp, [], by simpa using (new slots isDir).2.1, posDp, ?_, ?_, ?_⟩ <;> simp
      · have was : IsDir m d slots := isDir.imp fun _ value => change.others d isDp isX ▸ value
        obtain ⟨up, rest, rfl, listing⟩ := g.listing d slots was
        refine ⟨up, rest, rfl, listing.congr fun e mem inner dir => ?_⟩
        refine sameDots e.2 inner (fun isX => ?_) dir
        exact g.entry_allocated was listing mem change.pos (new inner (isX ▸ dir)).1 isX
  · intro d slots isDir
    by_cases isX : d = x
    · subst isX
      obtain ⟨fresh, -, added⟩ := new slots isDir
      have count := named d change.pos
      have before := g.named_le change.pos
      rw [g.free d change.pos fresh] at before
      rw [if_neg (Ne.symm notRoot)]
      omega
    · obtain ⟨old, was, -⟩ := sameDots d slots isX isDir
      have pos : d ≠ 0 := Nat.ne_of_gt (g.isDir_small was).1
      have count := named d pos
      have once := g.once d old was
      rw [unnamed d pos isX] at count
      omega
  · obtain ⟨slots, root, top⟩ := g.root
    by_cases isDp : ROOTINO = dp
    · subst isDp
      obtain ⟨nlink, value⟩ := root
      obtain ⟨nlink', value'⟩ := change.before
      cases value.symm.trans value'
      exact ⟨_, change.after, top⟩
    · exact ⟨slots, root.imp fun _ value => (change.others _ isDp notRoot).trans value, top⟩
  · intro j n value
    by_cases isX : j = x
    · subst isX
      rw [value] at atX
      change n.nlink + _ = _ at atX
      omega
    · by_cases isDp : j = dp
      · subst isDp
        obtain ⟨nlink, before⟩ := change.before
        have counted := g.counted j _ before
        have count := links j posDp
        have delta := atDp _ n before value
        rw [unnamed j posDp isX] at count
        omega
      · have before := change.others j isDp isX ▸ value
        have pos : j ≠ 0 := Nat.ne_of_gt (g.small j (by simp [before])).1
        have count := links j pos
        rw [bare.linksIn pos isDp, bare'.linksIn pos isDp, unnamed j pos isX] at count
        rw [g.counted j n before]
        omega
  · intro j pos none
    by_cases isX : j = x
    · subst isX
      rw [none] at atX
      change 0 + _ = _ at atX
      omega
    · have isDp : j ≠ dp := fun same => change.after.ne_none (same ▸ none)
      have count := links j pos
      rw [bare.linksIn pos isDp, bare'.linksIn pos isDp, unnamed j pos isX,
        g.free j pos (change.others j isDp isX ▸ none)] at count
      omega

/-- A new entry for an inode that has one link more now. -/
theorem Graph.addEntry (dir : m dp = some ⟨nlink, .dir slots⟩)
    (absent : dirlookup slots name = none) (apart : dp ≠ x) (pos : x ≠ 0) (small : x < NINODES)
    (notRoot : ROOTINO ≠ x) (bare : slotsOf (m x) = [])
    (new : n.Plain ∨ m x = none ∧ n.body = .dir (dots x dp))
    (atDp : nlink' = nlink + linksIn dp (slotsOf (some n)))
    (atX : n.nlink = total (linksIn x) m + 1) :
    Graph (update (update m x (some n)) dp
      (some ⟨nlink', .dir (addSlot name x slots)⟩)) := by
  have posDp : dp ≠ 0 := Nat.ne_of_gt (g.isDir_small ⟨nlink, dir⟩).1
  obtain ⟨up, rest, rfl, listing⟩ := g.listing dp slots ⟨nlink, dir⟩
  have plain := plain_of_absent posDp listing.up absent
  rw [addSlot_dots posDp listing.up]
  have count : ∀ j, j ≠ 0 → (addSlot name x rest).countP (fun e => e.2 == j) =
      rest.countP (fun e => e.2 == j) + if x = j then 1 else 0 := by
    intro j posJ
    rw [countP_addSlot (fun e free => by simp [free, Ne.symm posJ])]
    simp only [beq_iff_eq]
  have change := g.edit_update nlink' (dots dp up ++ addSlot name x rest) apart pos small dir (some n)
  have valueX : update (update m x (some n)) dp
      (some ⟨nlink', .dir (dots dp up ++ addSlot name x rest)⟩) x = some n := by
    rw [update_of_ne (Ne.symm apart), update_self]
  refine g.edit change notRoot (.inl bare) ?_ ?_ ?_ ?_ ?_ ?_
  · intro inner isDir
    rw [IsDir, valueX] at isDir
    obtain ⟨nlink, value⟩ := isDir
    cases value
    obtain none | ⟨fresh, body⟩ := new
    · exact absurd rfl (none inner)
    · refine ⟨fresh, Body.dir.inj body, ?_⟩
      rw [count x pos, if_pos rfl]
  · intro e mem posE
    obtain rfl | mem := mem_addSlot mem
    · exact plain
    · exact listing.plain e mem posE
  · intro e mem
    obtain rfl | mem := mem_addSlot mem
    · exact .inr (.inl rfl)
    · exact .inr (.inr mem)
  · intro j posJ other
    rw [count j posJ, if_neg (Ne.symm other), Nat.add_zero]
  · intro n₁ n₂ before after
    rw [update_self] at after
    cases dir.symm.trans before
    cases after
    rw [valueX, bare, atDp]
    rfl
  · rw [valueX, count x pos, if_pos rfl]
    change n.nlink + _ = _
    omega

/-- The entry for an inode goes, and the inode has one link less or is free. -/
theorem Graph.clearEntry (dir : m dp = some ⟨nlink, .dir slots⟩) (plain : isDots name = false)
    (found : dirlookup slots name = some x) (bare : Bare x dp (slotsOf (m x)))
    (left : ∀ n, v = some n → n.Plain) (atDp : nlink' + linksIn dp (slotsOf (m x)) = nlink)
    (atX : nlinkOf v + 1 = total (linksIn x) m) :
    Graph (update (update m x v) dp
      (some ⟨nlink', .dir (clearSlot name slots)⟩)) := by
  obtain ⟨up, rest, rfl, listing⟩ := g.listing dp slots ⟨nlink, dir⟩
  rw [dirlookup_dots plain] at found
  rw [clearSlot_dots plain]
  obtain ⟨mem, pos⟩ := mem_of_dirlookup found
  have apart : dp ≠ x := Ne.symm (listing.other _ mem)
  have small : x < NINODES := by
    refine (g.small x fun fresh => ?_).2
    exact g.entry_allocated ⟨nlink, dir⟩ listing mem pos fresh rfl
  have notRoot := Ne.symm (g.entry_not_root listing mem)
  have count : ∀ j, j ≠ 0 → (clearSlot name rest).countP (fun e => e.2 == j) +
      (if x = j then 1 else 0) = rest.countP fun e => e.2 == j := by
    intro j posJ
    have blank : ∀ e : Name × Nat, e.2 = 0 → (e.2 == j) = false := fun e free => by
      simp [free, Ne.symm posJ]
    have cleared := countP_clearSlot blank found
    simpa only [beq_iff_eq] using cleared
  have change := g.edit_update nlink' (dots dp up ++ clearSlot name rest) apart pos small dir v
  have valueX : update (update m x v) dp
      (some ⟨nlink', .dir (dots dp up ++ clearSlot name rest)⟩) x = v := by
    rw [update_of_ne (Ne.symm apart), update_self]
  have gone : slotsOf v = [] := by
    cases v with
    | none => rfl
    | some n => exact (left n rfl).slotsOf
  refine g.edit change notRoot bare ?_ ?_ ?_ ?_ ?_ ?_
  · intro inner isDir
    rw [IsDir, valueX] at isDir
    obtain ⟨nlink, value⟩ := isDir
    exact absurd rfl (left _ value inner)
  · intro e inside posE
    obtain rfl | inside := mem_clearSlot inside
    · exact absurd rfl posE
    · exact listing.plain e inside posE
  · intro e inside
    obtain rfl | inside := mem_clearSlot inside
    · exact .inl rfl
    · exact .inr (.inr inside)
  · intro j posJ other
    rw [← count j posJ, if_neg (Ne.symm other), Nat.add_zero]
  · intro n₁ n₂ before after
    rw [update_self] at after
    cases dir.symm.trans before
    cases after
    rw [valueX, gone, ← atDp]
    rfl
  · have here := count x pos
    rw [if_pos rfl] at here
    rw [valueX]
    omega

/-- A change of an inode that is no directory and keeps its links. -/
theorem Graph.setPlain (value : m i = some n) (plain : n.Plain)
    (left : ∀ n', v = some n' → n'.Plain) (links : nlinkOf v = n.nlink) :
    Graph (update m i v) := by
  have small := (g.small i (by simp [value])).2
  have gone : slotsOf v = [] := by
    cases v with
    | none => rfl
    | some n => exact (left n rfl).slotsOf
  have same : ∀ count : Slots → Nat, total count (update m i v) = total count m := by
    intro count
    have update := total_update count m small v
    rw [value, plain.slotsOf, gone] at update
    omega
  have isDir : ∀ d slots, IsDir (update m i v) d slots ↔ IsDir m d slots := by
    intro d slots
    by_cases here : d = i
    · subst here
      refine ⟨fun ⟨nlink, value'⟩ => ?_, fun ⟨nlink, value'⟩ => ?_⟩
      · rw [update_self] at value'
        exact absurd rfl (left _ value' slots)
      · cases value.symm.trans value'
        exact absurd rfl (plain slots)
    · rw [IsDir, IsDir, update_of_ne here]
  constructor
  · intro j some
    by_cases here : j = i
    · exact here ▸ g.small i (by simp [value])
    · exact g.small j (by rwa [update_of_ne here] at some)
  · intro d slots dir
    obtain ⟨up, rest, shape, listing⟩ := g.listing d slots ((isDir d slots).mp dir)
    exact ⟨up, rest, shape, listing.congr fun e _ inner dir =>
      ⟨inner, (isDir e.2 inner).mp dir, rfl⟩⟩
  · intro d slots dir
    rw [same]
    exact g.once d slots ((isDir d slots).mp dir)
  · obtain ⟨slots, root, top⟩ := g.root
    exact ⟨slots, (isDir _ _).mpr root, top⟩
  · intro j n' value'
    rw [same]
    by_cases here : j = i
    · subst here
      rw [update_self] at value'
      rw [← g.counted j n value, ← links, value']
      rfl
    · exact g.counted j n' (by rwa [update_of_ne here] at value')
  · intro j pos none
    rw [same]
    by_cases here : j = i
    · subst here
      rw [update_self] at none
      rw [← g.counted j n value, ← links, none]
      rfl
    · exact g.free j pos (by rwa [update_of_ne here] at none)

/-- An inode without links is given back. -/
theorem Graph.release (value : m i = some n) (unlinked : n.nlink = 0) : Graph (update m i none) :=
  have dir : ∀ slots, n.body = .dir slots → m i = some ⟨n.nlink, .dir slots⟩ := fun slots body => by
    rw [value, ← body]
  g.setPlain value (fun slots body => g.dir_linked (dir slots body) unlinked) nofun unlinked.symm

/-- A directory below the root is listed by the one its second entry leads to. -/
theorem Graph.parent_nonempty {up' : Nat} {blanks : Slots} (dir : IsDir m d (dots d up ++ rest))
    (notRoot : up ≠ ROOTINO) (parent : IsDir m up (dots up up' ++ blanks)) :
    ¬ ∀ e ∈ blanks, e.2 = 0 := by
  intro free
  have once := g.once d _ dir
  by_cases root : d = ROOTINO
  · subst root
    obtain ⟨slots, ⟨nlink, isRoot⟩, top⟩ := g.root
    obtain ⟨nlink', value⟩ := dir
    cases isRoot.symm.trans value
    exact notRoot (by simpa [dots] using top)
  · rw [if_neg root] at once
    obtain ⟨d', listed⟩ := exists_of_total_ne_zero (once ▸ Nat.one_ne_zero)
    match value : m d' with
    | none | some ⟨_, .file _⟩ | some ⟨_, .dev _ _⟩ =>
      rw [value] at listed
      exact listed rfl
    | some ⟨nlink, .dir slots⟩ =>
      rw [value] at listed
      obtain ⟨up₁, rest₁, rfl, listing⟩ := g.listing d' slots ⟨nlink, value⟩
      obtain ⟨e, mem, leads⟩ := countP_pos_iff.mp (Nat.pos_of_ne_zero listed)
      have leads : e.2 = d := by simpa using leads
      have here := listing.down e mem _ (leads ▸ dir)
      obtain rfl : up = d' := by simpa [dots, leads] using here
      obtain ⟨nlink', value'⟩ := parent
      cases value.symm.trans value'
      have pos := (g.isDir_small dir).1
      rw [← leads, free e mem] at pos
      exact absurd pos (Nat.lt_irrefl 0)

/-- An empty directory is listed once and leads to the directory that lists it. -/
theorem Graph.empty_dir {inner : Slots} (dir : m dp = some ⟨nlink, .dir slots⟩)
    (plain : isDots name = false) (found : dirlookup slots name = some x)
    (sub : m x = some ⟨nlink', .dir inner⟩) (empty : isdirempty inner = true) :
    nlink' = 1 ∧ linksIn dp inner = 1 ∧ Bare x dp inner ∧ dp ≠ x := by
  obtain ⟨up, rest, rfl, listing⟩ := g.listing dp slots ⟨nlink, dir⟩
  rw [dirlookup_dots plain] at found
  obtain ⟨mem, pos⟩ := mem_of_dirlookup found
  obtain ⟨up', blanks, rfl, listing'⟩ := g.listing x inner ⟨nlink', sub⟩
  obtain rfl : up' = dp := by simpa [dots] using listing.down _ mem _ ⟨nlink', sub⟩
  have free : ∀ e ∈ blanks, e.2 = 0 := by simpa [isdirempty, dots] using empty
  have notRoot := g.entry_not_root listing mem
  have below : ∀ d, linksIn x (slotsOf (m d)) = namedIn x (slotsOf (m d)) := by
    intro d
    match value : m d with
    | none | some ⟨_, .file _⟩ | some ⟨_, .dev _ _⟩ => rfl
    | some ⟨nlink, .dir slots⟩ =>
      obtain ⟨up, rest, rfl, listing⟩ := g.listing d slots ⟨nlink, value⟩
      have other : up ≠ x := fun same => g.parent_nonempty ⟨nlink, value⟩ (same ▸ notRoot)
        ⟨nlink', same ▸ sub⟩ free
      change linksIn x (dots d up ++ rest) = namedIn x (dots d up ++ rest)
      rw [listing.linksIn pos, namedIn_dots, if_neg other, Nat.zero_add]
  refine ⟨?_, ?_, .inr ⟨blanks, rfl, free⟩, Ne.symm (listing.other _ mem)⟩
  · have counted := g.counted x _ sub
    have once := g.once x _ ⟨nlink', sub⟩
    rw [if_neg notRoot] at once
    change nlink' = _ at counted
    rw [counted, ← once]
    exact Finset.sum_congr rfl fun d _ => below d
  · have posUp : up' ≠ 0 := Nat.ne_of_gt (g.isDir_small ⟨nlink, dir⟩).1
    have none : (blanks.countP fun e => e.2 == up') = 0 := countP_eq_zero.mpr fun e inside => by
      simp [free e inside, Ne.symm posUp]
    rw [listing'.linksIn posUp, if_pos rfl, none]

end Graph

end Xv6.Fs
