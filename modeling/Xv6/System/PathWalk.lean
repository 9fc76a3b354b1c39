import Xv6.System.FileSystem

/-!
What a path means: its components are the runs between slashes, and resolving it is
looking them up in turn. `namex` walks exactly that, in `namei` and in `nameiparent`.
-/

namespace Xv6.Fs

open List State

/-- The maximal runs of bytes other than `/`, each cut to `DIRSIZ`. -/
def components (path : Path) : List Name :=
  ((path.splitOn '/').filter (· ≠ [])).map (·.take DIRSIZ)

@[simp] theorem components_nil : components [] = [] := by
  simp [components]

theorem components_append (before after : Path) :
    components (before ++ '/' :: after) = components before ++ components after := by
  simp only [components, List.splitOn]
  rw [splitOnP_append_cons (p := (· == '/')) _ _ (beq_self_eq_true '/'), filter_append, map_append]

@[simp] theorem components_slash (path : Path) : components ('/' :: path) = components path := by
  simpa using components_append [] path

theorem components_word {word : Path} (nonempty : word ≠ []) (plain : '/' ∉ word) :
    components word = [word.take DIRSIZ] := by
  simp [components, splitOn_eq_singleton plain, nonempty]

@[simp] theorem components_dropWhile (path : Path) :
    components (path.dropWhile (· == '/')) = components path := by
  induction path with
  | nil => rfl
  | cons c path ih =>
    rw [dropWhile_cons]
    split
    · rename_i slash
      rw [beq_iff_eq.mp slash, components_slash, ih]
    · rfl

/-- A path that begins with a name splits at the first slash behind it. -/
theorem components_name {path : Path} (nonempty : path ≠ []) (name : path.head? ≠ some '/') :
    components path =
      (path.takeWhile (· != '/')).take DIRSIZ :: components (path.dropWhile (· != '/')) := by
  have plain : '/' ∉ path.takeWhile (· != '/') := fun found => by
    simpa using all_takeWhile (p := (· != '/')) (l := path) |> all_eq_true.mp |> (· _ found)
  have some_word : path.takeWhile (· != '/') ≠ [] := by
    cases path with
    | nil => exact absurd rfl nonempty
    | cons c path =>
      have letter : c ≠ '/' := by simpa using name
      simp [letter]
  have parts := takeWhile_append_dropWhile (p := (· != '/')) (l := path)
  have stop := head?_dropWhile_not (· != '/') path
  cases rest : path.dropWhile (· != '/') with
  | nil =>
    rw [rest, append_nil] at parts
    rw [components_nil, ← components_word some_word plain, parts]
  | cons c later =>
    rw [rest] at parts stop
    obtain rfl : c = '/' := by simpa using stop
    rw [components_slash, ← singleton_append, ← components_word some_word plain,
      ← components_append, parts]

/-! One round of the loop takes one component. -/

theorem skipelem_shorter {path rest : Path} {name : Name} (next : skipelem path = some (name, rest)) :
    rest.length < path.length := by
  unfold skipelem at next
  simp only at next
  split at next
  · cases next
  · rename_i more
    obtain ⟨-, rfl⟩ := Prod.mk.inj (Option.some.inj next)
    have first := head?_dropWhile_not (· == '/') path
    have start := (dropWhile_suffix (l := path) (· == '/')).length_le
    cases same : path.dropWhile (· == '/') with
    | nil => exact absurd same more
    | cons c later =>
      rw [same] at first start
      have isName : (c != '/') = true := by simpa using first
      have tail := (dropWhile_suffix (l := later) (· != '/')).length_le
      have last := (dropWhile_suffix (l := later.dropWhile (· != '/')) (· == '/')).length_le
      rw [dropWhile_cons, if_pos isName]
      simp only [length_cons] at start
      omega

theorem head?_dropWhile_slash (path : Path) : (path.dropWhile (· == '/')).head? ≠ some '/' := by
  intro slash
  have stop := head?_dropWhile_not (· == '/') path
  rw [slash] at stop
  exact absurd stop (by simp)

theorem components_eq_nil_of_skipelem {path : Path} (ends : skipelem path = none) :
    components path = [] := by
  unfold skipelem at ends
  simp only at ends
  split at ends
  · rename_i slashes
    rw [← components_dropWhile, slashes, components_nil]
  · cases ends

theorem components_of_skipelem {path rest : Path} {name : Name}
    (next : skipelem path = some (name, rest)) : components path = name :: components rest := by
  unfold skipelem at next
  simp only at next
  split at next
  · cases next
  · rename_i more
    obtain ⟨rfl, rfl⟩ := Prod.mk.inj (Option.some.inj next)
    rw [← components_dropWhile path, components_name more (head?_dropWhile_slash path),
      components_dropWhile]

/-- The look-ahead of `namex`: nothing is left exactly when no component is. -/
theorem rest_eq_nil_iff {path rest : Path} {name : Name}
    (next : skipelem path = some (name, rest)) : rest = [] ↔ components rest = [] := by
  refine ⟨fun done => by rw [done, components_nil], fun done => ?_⟩
  unfold skipelem at next
  simp only at next
  split at next
  · cases next
  · obtain ⟨-, rfl⟩ := Prod.mk.inj (Option.some.inj next)
    by_contra more
    rw [components_name more (head?_dropWhile_slash _)] at done
    cases done

/-! The walk. -/

/-- The entry of the directory `ip` with this name. -/
def State.child (s : State) (ip : Nat) (name : Name) : Option Nat :=
  match s.inode ip with
  | some ⟨_, .dir slots⟩ => dirlookup slots name
  | _ => none

def State.walk (s : State) (ip : Nat) (names : List Name) : Option Nat := names.foldlM s.child ip

def State.isDir (s : State) (ip : Nat) : Bool :=
  match s.inode ip with
  | some ⟨_, .dir _⟩ => true
  | _ => false

/-- The directory that holds the last name, and that name. -/
def State.walkParent (s : State) (ip : Nat) (names : List Name) : Option (Nat × Name) := do
  let last ← names.getLast?
  let dir ← s.walk ip names.dropLast
  if s.isDir dir then some (dir, last) else none

def start (cwd : Nat) (path : Path) : Nat := if path.head? = some '/' then ROOTINO else cwd

/-- The inodes of a directory tree: a used entry names an inode in use. -/
structure Tree (s : State) (cwd : Nat) : Prop where
  root : (s.inode ROOTINO).isSome
  cwd : (s.inode cwd).isSome
  entry : ∀ dir name ip, s.child dir name = some ip → (s.inode ip).isSome

theorem Tree.start {s : State} {cwd : Nat} (tree : Tree s cwd) (path : Path) :
    (s.inode (start cwd path)).isSome := by
  unfold Fs.start
  split
  · exact tree.root
  · exact tree.cwd

variable {s : State} {cwd : Nat}

theorem walk_cons (ip : Nat) (name : Name) (names : List Name) :
    s.walk ip (name :: names) = (s.child ip name).bind fun next => s.walk next names := rfl

theorem walkParent_cons (ip : Nat) (name : Name) {names : List Name} (more : names ≠ []) :
    s.walkParent ip (name :: names) =
      (s.child ip name).bind fun next => s.walkParent next names := by
  obtain ⟨second, names, rfl⟩ := exists_cons_of_ne_nil more
  unfold walkParent
  rw [getLast?_cons_cons, dropLast_cons_cons, walk_cons]
  cases s.child ip name with
  | none => simp
  | some next => simp

/-- What the loop returns from `ip`, with and without `parent`. -/
def State.target (s : State) (parent : Bool) (ip : Nat) (names : List Name) (name : Name) :
    Option (Nat × Name) :=
  if parent then s.walkParent ip names
  else (s.walk ip names).map fun ip => (ip, names.getLastD name)

theorem target_of_not_dir {ip : Nat} (parent : Bool) (names : List Name) (first name : Name)
    (other : s.isDir ip = false) : s.target parent ip (first :: names) name = none := by
  have missing : s.child ip first = none := by
    unfold isDir at other
    unfold child
    split at other
    · cases other
    · rfl
  cases names with
  | nil => cases parent <;> simp [target, walkParent, walk, other, missing]
  | cons second names =>
    cases parent <;> simp [target, walkParent_cons, walk_cons, missing]

theorem target_cons {ip : Nat} (parent : Bool) (names : List Name) (first name : Name)
    (more : parent = true → names ≠ []) :
    s.target parent ip (first :: names) name =
      (s.child ip first).bind fun next => s.target parent next names first := by
  cases parent with
  | true => exact walkParent_cons ip first (more rfl)
  | false =>
    simp only [target, walk_cons, Bool.false_eq_true, if_false, getLastD_cons]
    cases s.child ip first <;> rfl

/-- The induction is on the fuel; each round takes the first component. -/
theorem namexLoop_eq (tree : Tree s cwd) (parent : Bool) {fuel ip : Nat} {path : Path} {name : Name}
    (used : (s.inode ip).isSome) (enough : path.length < fuel) :
    s.namexLoop parent fuel ip path name = .ok (s.target parent ip (components path) name) := by
  induction fuel generalizing ip path name with
  | zero => omega
  | succ fuel ih =>
    unfold namexLoop
    cases next : skipelem path with
    | none =>
      rw [components_eq_nil_of_skipelem next]
      cases parent <;> rfl
    | some found =>
      obtain ⟨first, rest⟩ := found
      have shorter := skipelem_shorter next
      rw [components_of_skipelem next]
      obtain ⟨⟨nlink, body⟩, here⟩ := Option.isSome_iff_exists.mp used
      cases body with
      | file _ | dev _ _ =>
        rw [target_of_not_dir parent _ _ _ (by simp [isDir, here])]
        simp [here]
      | dir slots =>
        have entry : s.child ip first = dirlookup slots first := by simp [child, here]
        simp only [here]
        split
        · rename_i last
          obtain ⟨rfl, rfl⟩ := last
          simp [target, walkParent, walk, isDir, here]
        · rename_i last
          rw [target_cons parent _ _ _ fun only => mt (rest_eq_nil_iff next).mpr
            fun done => last ⟨only, done⟩, entry]
          split
          · rename_i missing
            rw [missing]
            rfl
          · rename_i ip' found
            rw [found, ih (tree.entry _ _ _ (entry.trans found)) (by omega)]
            rfl

theorem namei_eq (tree : Tree s cwd) (path : Path) :
    s.namei cwd path = .ok (s.walk (start cwd path) (components path)) := by
  have loop := @namexLoop_eq _ _ tree false _ _ path [] (tree.start path) (Nat.lt_succ_self path.length)
  unfold namei namex
  rw [show (if path.head? = some '/' then ROOTINO else cwd) = start cwd path from rfl, loop]
  simp [target, bind, Except.bind, pure, Except.pure, Option.map_map, Function.comp_def]

theorem nameiparent_eq (tree : Tree s cwd) (path : Path) :
    s.nameiparent cwd path = .ok (s.walkParent (start cwd path) (components path)) :=
  namexLoop_eq tree true (tree.start path) (Nat.lt_succ_self path.length)

/-- A walk fails at the first component it cannot look up. -/
theorem walk_eq_none_iff {ip : Nat} {names : List Name} :
    s.walk ip names = none ↔
      ∃ before name after, names = before ++ name :: after ∧
        ∃ dir, s.walk ip before = some dir ∧ s.child dir name = none := by
  induction names generalizing ip with
  | nil => simp [walk]
  | cons first names ih =>
    rw [walk_cons]
    constructor
    · intro fails
      cases found : s.child ip first with
      | none => exact ⟨[], first, names, rfl, ip, rfl, found⟩
      | some next =>
        rw [found, Option.bind_some] at fails
        obtain ⟨before, name, after, rfl, dir, reached, missing⟩ := ih.mp fails
        exact ⟨first :: before, name, after, rfl, dir, by rw [walk_cons, found]; exact reached,
          missing⟩
    · rintro ⟨before, name, after, split, dir, reached, missing⟩
      cases before with
      | nil =>
        obtain ⟨rfl, rfl⟩ := List.cons.inj split
        obtain rfl : ip = dir := by simpa [walk] using reached
        rw [missing]
        rfl
      | cons _ before =>
        obtain ⟨rfl, rfl⟩ := List.cons.inj split
        obtain ⟨next, found, reached⟩ := Option.bind_eq_some_iff.mp reached
        rw [found]
        exact ih.mpr ⟨before, name, after, rfl, dir, reached, missing⟩

theorem child_eq_none_iff {dir : Nat} {name : Name} :
    s.child dir name = none ↔
      s.isDir dir = false ∨ ∃ nlink slots, s.inode dir = some ⟨nlink, .dir slots⟩ ∧
        dirlookup slots name = none := by
  unfold child isDir
  split
  · rename_i same
    simp [same]
  · rename_i other
    simp

theorem walkParent_eq_some_iff {ip dir : Nat} {names : List Name} {name : Name} :
    s.walkParent ip names = some (dir, name) ↔
      ∃ before, names = before ++ [name] ∧ s.walk ip before = some dir ∧ s.isDir dir = true := by
  unfold walkParent
  constructor
  · intro found
    obtain ⟨last, isLast, found⟩ := Option.bind_eq_some_iff.mp found
    obtain ⟨dir', reached, found⟩ := Option.bind_eq_some_iff.mp found
    split at found
    · rename_i isDir
      obtain ⟨rfl, rfl⟩ := Prod.mk.inj (Option.some.inj found)
      obtain ⟨before, rfl⟩ := getLast?_eq_some_iff.mp isLast
      rw [dropLast_concat] at reached
      exact ⟨before, rfl, reached, isDir⟩
    · cases found
  · rintro ⟨before, rfl, reached, isDir⟩
    simp [reached, isDir]

theorem start_append {before : Path} (nonempty : before ≠ []) (after : Path) :
    start cwd (before ++ after) = start cwd before := by
  unfold start
  rw [head?_append_of_ne_nil _ nonempty]

/-- Resolution follows the components. -/
structure Resolves (s : State) (cwd : Nat) : Prop where
  namei : ∀ path, s.namei cwd path = .ok (s.walk (start cwd path) (components path))
  namei_zero : ∀ path, s.namei cwd path = .ok none ↔
    ∃ before name after, components path = before ++ name :: after ∧
      ∃ dir, s.walk (start cwd path) before = some dir ∧
        (s.isDir dir = false ∨ ∃ nlink slots, s.inode dir = some ⟨nlink, .dir slots⟩ ∧
          dirlookup slots name = none)
  nameiparent : ∀ path, ∃ found, s.nameiparent cwd path = .ok found ∧ ∀ dir name,
    found = some (dir, name) ↔ ∃ before, components path = before ++ [name] ∧
      s.walk (start cwd path) before = some dir ∧ s.isDir dir = true
  repeated : ∀ before after,
    s.namei cwd (before ++ '/' :: '/' :: after) = s.namei cwd (before ++ '/' :: after) ∧
      s.nameiparent cwd (before ++ '/' :: '/' :: after) = s.nameiparent cwd (before ++ '/' :: after)
  trailing : ∀ path, path ≠ [] → s.namei cwd (path ++ ['/']) = s.namei cwd path ∧
    s.nameiparent cwd (path ++ ['/']) = s.nameiparent cwd path
  /-- The loop has ended before its bound: a larger one changes nothing. -/
  ends : ∀ path parent fuel, path.length < fuel →
    s.namexLoop parent fuel (start cwd path) path [] = s.namex cwd path parent

theorem resolves_of_tree (tree : Tree s cwd) : Resolves s cwd where
  namei := namei_eq tree
  namei_zero path := by
    rw [namei_eq tree, Except.ok.injEq, walk_eq_none_iff]
    simp only [child_eq_none_iff]
  nameiparent path := ⟨_, nameiparent_eq tree path, fun _ _ => walkParent_eq_some_iff⟩
  repeated before after := by
    have same : components (before ++ '/' :: '/' :: after) = components (before ++ '/' :: after) := by
      simp only [components_append, components_slash]
    have from_same : start cwd (before ++ '/' :: '/' :: after) =
        start cwd (before ++ '/' :: after) := by
      cases before with
      | nil => rfl
      | cons c before => rfl
    simp only [namei_eq tree, nameiparent_eq tree, same, from_same, and_self]
  trailing path nonempty := by
    have same : components (path ++ ['/']) = components path := by
      rw [components_append, components_nil, List.append_nil]
    simp only [namei_eq tree, nameiparent_eq tree, same, start_append nonempty, and_self]
  ends path parent fuel enough := by
    rw [namexLoop_eq tree parent (tree.start path) enough]
    exact (namexLoop_eq tree parent (tree.start path) (Nat.lt_succ_self _)).symm

theorem resolves_two_levels : ∃ s : State, Tree s ROOTINO ∧ Resolves s ROOTINO ∧
    s.namei ROOTINO ['/', '/', 'a', '/'] = .ok (some 2) := by
  let s : State :=
    { inode := fun i => if i = 1 then some ⟨1, .dir [(['a'], 2)]⟩
        else if i = 2 then some ⟨1, .dir []⟩ else none
      ftable := fun _ => ⟨0, 0, false, false⟩
      proc := fun _ => none
      nextpid := 1
      paged := fun _ _ => none }
  have tree : Tree s ROOTINO := by
    refine ⟨rfl, rfl, fun dir name ip found => ?_⟩
    have two : ip = 2 := by
      by_cases first : dir = 1
      · subst first
        simp only [s, State.child, if_true, dirlookup] at found
        split at found
        · exact (Option.some.inj found).symm
        · cases found
      · by_cases second : dir = 2
        · subst second
          cases found
        · simp [s, State.child, first, second] at found
    rw [two]
    rfl
  exact ⟨s, tree, resolves_of_tree tree, by decide⟩

end Xv6.Fs
