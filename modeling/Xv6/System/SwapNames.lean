import Xv6.Library.Lts
import Xv6.System.FileSystem

/-!
Swap files among the user's files.

A swap file is an ordinary file of the root directory. As long as nobody opens the
swap file of a live process for writing, links to it or unlinks it, and the name of a
new one is not taken, the files keep what was paged out and can be removed at the end.
The invariant says so much about the inodes and open files behind the swap files that
every call keeps it by what it does to inodes one at a time.
-/

namespace Xv6.Fs

open Function List State

variable {name name' : Name} {slots : Slots} {i o : Nat} {e : Name × Nat} {p : Fin NPROC} {u : User}
  {v : Option INode} {s' : State}

theorem dirlookup_addSlot_of_ne (other : name' ≠ name) (inum : Nat) (slots : Slots) :
    dirlookup (addSlot name inum slots) name' = dirlookup slots name' := by
  induction slots with
  | nil => simp [addSlot, dirlookup, Ne.symm other]
  | cons e rest ih =>
    by_cases free : e.2 = 0
    · simp [addSlot, dirlookup, free, Ne.symm other]
    · simp only [addSlot, free, if_false, dirlookup, ih]

theorem dirlookup_addSlot_self {inum : Nat} (pos : inum ≠ 0)
    (absent : dirlookup slots name = none) :
    dirlookup (addSlot name inum slots) name = some inum := by
  induction slots with
  | nil => simp [addSlot, dirlookup, pos]
  | cons e rest ih =>
    by_cases free : e.2 = 0
    · simp [addSlot, dirlookup, free, pos]
    · have other : e.1 ≠ name := fun same => by simp [dirlookup, free, same] at absent
      have rest' : dirlookup rest name = none := by simpa [dirlookup, other] using absent
      simpa [addSlot, free, dirlookup, other] using ih rest'

theorem dirlookup_clearSlot_of_ne (other : name' ≠ name) (slots : Slots) :
    dirlookup (clearSlot name slots) name' = dirlookup slots name' := by
  induction slots with
  | nil => rfl
  | cons e rest ih =>
    by_cases here : e.2 ≠ 0 ∧ e.1 = name
    · simp [clearSlot, dirlookup, here, Ne.symm other]
    · simp only [clearSlot, if_neg here, dirlookup, ih]

theorem mem_of_dirlookup (found : dirlookup slots name = some i) : (name, i) ∈ slots ∧ i ≠ 0 := by
  induction slots with
  | nil => cases found
  | cons e rest ih =>
    simp only [dirlookup] at found
    split at found
    · rename_i here
      cases found
      exact ⟨by simp [← here.2], here.1⟩
    · exact ⟨mem_cons_of_mem e (ih found).1, (ih found).2⟩

theorem mem_addSlot (h : e ∈ addSlot name i slots) : e = (name, i) ∨ e ∈ slots := by
  induction slots with
  | nil => exact .inl (mem_singleton.mp h)
  | cons first rest ih =>
    simp only [addSlot] at h
    split at h
    · exact (mem_cons.mp h).imp_right (mem_cons_of_mem first)
    · cases mem_cons.mp h with
      | inl h => exact .inr (h ▸ mem_cons_self)
      | inr h => exact (ih h).imp_right (mem_cons_of_mem first)

theorem mem_clearSlot (h : e ∈ clearSlot name slots) : e = ([], 0) ∨ e ∈ slots := by
  induction slots with
  | nil => exact .inr h
  | cons first rest ih =>
    simp only [clearSlot] at h
    split at h
    · exact (mem_cons.mp h).imp_right (mem_cons_of_mem first)
    · cases mem_cons.mp h with
      | inl h => exact .inr (h ▸ mem_cons_self)
      | inr h => exact (ih h).imp_right (mem_cons_of_mem first)

/-- Digits are no slashes. -/
theorem slash_not_mem_itoaLoop (fuel i : Nat) (acc : List Char) (clear : '/' ∉ acc) :
    '/' ∉ itoaLoop fuel i acc := by
  induction fuel generalizing i acc with
  | zero => exact clear
  | succ fuel ih =>
    have digit : '/' ≠ Char.ofNat (48 + i % 10) := by
      have small : i % 10 < 10 := Nat.mod_lt _ (by decide)
      generalize i % 10 = d at small
      revert d
      decide
    have clear' : '/' ∉ Char.ofNat (48 + i % 10) :: acc := by
      simp [digit, clear]
    simp only [itoaLoop]
    split
    · exact clear'
    · exact ih _ _ clear'

/-- The path of a swap file has one element. -/
theorem skipelem_swapPath_take (pid : Nat) :
    skipelem (swapPath pid) = some ((swapName pid).take DIRSIZ, []) := by
  have clear : ∀ c ∈ swapName pid, (c != '/') = true := by
    intro c h
    have absent : '/' ∉ swapName pid := by
      simp only [swapName, mem_append, not_or]
      exact ⟨by decide, slash_not_mem_itoaLoop _ _ _ (by simp)⟩
    simpa using fun same : c = '/' => absent (same ▸ h)
  have start : (swapPath pid).dropWhile (· == '/') = swapName pid := rfl
  have whole : (swapName pid).takeWhile (· != '/') = swapName pid := takeWhile_eq_self_iff.mpr clear
  have rest : (swapName pid).dropWhile (· != '/') = [] := dropWhile_eq_nil_iff.mpr clear
  unfold skipelem
  simp only [start, whole, rest]
  rfl

/-- The path of a swap file has the root directory and its name as the last element. -/
theorem skipelem_swapPath {pid : Nat} (fits : PathFits pid) :
    skipelem (swapPath pid) = some (swapName pid, []) := by
  have short : (swapName pid).length ≤ DIRSIZ := by
    have bound : (swapName pid).length + 1 < 14 := fits
    change _ ≤ 14
    omega
  rw [skipelem_swapPath_take, take_of_length_le short]

/-- The process has a swap file, open as `o`. -/
structure Swaps (s : State) (p : Fin NPROC) (u : User) (o : Nat) : Prop where
  proc : s.proc p = some u
  file : u.swapFile = some o

/-- The inode of a live process's swap file. -/
def SwapInode (s : State) (i : Nat) : Prop := ∃ p u o, Swaps s p u o ∧ (s.ftable o).ip = i

/-- The bytes of a slot. -/
def Stored (file : File) (slot : Slot) (page : Page) : Prop :=
  slot.val * PGSIZE + PGSIZE ≤ file.size ∧
    ∀ k : Fin PGSIZE, file.data (slot.val * PGSIZE + k) = page k

structure Sound (s : State) : Prop where
  /-- The root directory leads to every swap file under its name. -/
  root : ∃ nlink slots, s.inode ROOTINO = some ⟨nlink, .dir slots⟩ ∧
    ∀ p u o, Swaps s p u o → dirlookup slots (swapName u.pid) = some (s.ftable o).ip
  /-- No entry but dots leads to the root directory. -/
  rooted : ∀ d nlink slots, s.inode d = some ⟨nlink, .dir slots⟩ →
    ∀ e ∈ slots, e.2 = ROOTINO → isDots e.1 = true
  /-- A swap file has one link and holds what was paged out. -/
  swap : ∀ p u o, Swaps s p u o → ∃ file, s.inode (s.ftable o).ip = some ⟨1, .file file⟩ ∧
    ∀ slot page, s.paged p slot = some page → Stored file slot page
  fits : ∀ p u o, Swaps s p u o → PathFits u.pid
  apart : ∀ p u o q v o', Swaps s p u o → Swaps s q v o' →
    (s.ftable o).ip = (s.ftable o').ip → p = q
  unlisted : ∀ p u o q v, Swaps s p u o → s.proc q = some v → o ∉ v.ofile
  readonly : ∀ q v o, s.proc q = some v → o ∈ v.ofile → SwapInode s (s.ftable o).ip →
    (s.ftable o).writable = false
  opened : ∀ q v o, s.proc q = some v → o ∈ v.ofile → s.inode (s.ftable o).ip ≠ none
  pids : ∀ p u, s.proc p = some u → u.pid < s.nextpid
  onePid : ∀ p u q v, s.proc p = some u → s.proc q = some v → u.pid = v.pid → p = q
  /-- The initial process stays in the root directory. -/
  init : ∃ p u, s.proc p = some u ∧ u.pid = 1 ∧ u.cwd = ROOTINO
  /-- The shell has been started. -/
  booted : 2 < s.nextpid

/-- Every process past the shell has a swap file. -/
def Made (s : State) : Prop := ∀ p u, s.proc p = some u → 2 < u.pid → ∃ o, u.swapFile = some o

/-! Inodes. -/

variable {s : State}

theorem inodeUsed_of_cwd (proc : s.proc p = some u) :
    s.inodeUsed u.cwd = true := by
  unfold inodeUsed
  rw [any_eq_true]
  exact ⟨p, mem_finRange p, by simp [proc]⟩

theorem inodeUsed_of_open (proc : s.proc p = some u) (h : o ∈ u.ofile) :
    s.inodeUsed (s.ftable o).ip = true := by
  unfold inodeUsed
  rw [any_eq_true]
  refine ⟨p, mem_finRange p, ?_⟩
  simp only [proc, Bool.or_eq_true, any_eq_true]
  exact .inl (.inr ⟨o, h, by simp⟩)

theorem inodeUsed_of_swaps (swaps : Swaps s p u o) :
    s.inodeUsed (s.ftable o).ip = true := by
  unfold inodeUsed
  rw [any_eq_true]
  exact ⟨p, mem_finRange p, by simp [swaps.proc, swaps.file]⟩

theorem swaps_setInode : Swaps (s.setInode i v) p u o ↔ Swaps s p u o :=
  ⟨fun h => ⟨h.proc, h.file⟩, fun h => ⟨h.proc, h.file⟩⟩

/-- Changing an inode that is no swap file. -/
theorem Sound.setInode (sound : Sound s) (other : ¬ SwapInode s i)
    (root : i = ROOTINO → ∃ nlink slots, v = some ⟨nlink, .dir slots⟩ ∧
      ∀ p u o, Swaps s p u o → dirlookup slots (swapName u.pid) = some (s.ftable o).ip)
    (rooted : ∀ nlink slots, v = some ⟨nlink, .dir slots⟩ → ∀ e ∈ slots, e.2 = ROOTINO → isDots e.1 = true)
    (unused : v = none → s.inodeUsed i = false) : Sound (s.setInode i v) where
  root := by
    by_cases here : i = ROOTINO
    · obtain ⟨nlink, slots, value, leads⟩ := root here
      subst here
      exact ⟨nlink, slots, by simp [State.setInode, value], fun p u o h =>
        leads p u o (swaps_setInode.mp h)⟩
    · obtain ⟨nlink, slots, value, leads⟩ := sound.root
      refine ⟨nlink, slots, ?_, fun p u o h => leads p u o (swaps_setInode.mp h)⟩
      exact (update_of_ne (Ne.symm here) _ _).trans value
  rooted := by
    intro d nlink slots value
    by_cases here : d = i
    · subst here
      exact rooted nlink slots (by simpa [State.setInode] using value)
    · exact sound.rooted d nlink slots ((update_of_ne here _ _).symm.trans value)
  swap := by
    intro p u o swaps
    have swaps := swaps_setInode.mp swaps
    obtain ⟨file, value, stored⟩ := sound.swap p u o swaps
    refine ⟨file, ?_, stored⟩
    exact (update_of_ne (fun same => other ⟨p, u, o, swaps, same⟩) _ _).trans value
  fits p u o swaps := sound.fits p u o (swaps_setInode.mp swaps)
  apart p u o q v o' h h' := sound.apart p u o q v o' (swaps_setInode.mp h) (swaps_setInode.mp h')
  unlisted p u o q v h := sound.unlisted p u o q v (swaps_setInode.mp h)
  readonly := by
    intro q v o proc listed swap
    obtain ⟨p, u, o', swaps, same⟩ := swap
    exact sound.readonly q v o proc listed ⟨p, u, o', swaps_setInode.mp swaps, same⟩
  opened := by
    intro q w o proc listed
    by_cases here : (s.ftable o).ip = i
    · intro gone
      have value : v = none := by simpa [State.setInode, here] using gone
      have used := inodeUsed_of_open (s := s) proc listed
      rw [here, unused value] at used
      cases used
    · intro gone
      exact sound.opened q w o proc listed ((update_of_ne here _ _).symm.trans gone)
  pids := sound.pids
  onePid := sound.onePid
  init := sound.init
  booted := sound.booted

/-- Dropping a reference frees only what nobody uses. -/
theorem Sound.iput (sound : Sound s) (i : Nat) : Sound (s.iput i) := by
  unfold State.iput
  split
  · exact sound
  · split
    · rename_i free
      refine sound.setInode ?_ ?_ nofun fun _ => free.2
      · rintro ⟨p, u, o, swaps, rfl⟩
        rw [inodeUsed_of_swaps swaps] at free
        cases free.2
      · rintro rfl
        obtain ⟨p, u, proc, _, cwd⟩ := sound.init
        have used := inodeUsed_of_cwd proc
        rw [cwd, free.2] at used
        cases used
    · exact sound

/-- Only inodes differ. -/
structure SameUsers (s s' : State) : Prop where
  proc : s'.proc = s.proc
  ftable : s'.ftable = s.ftable
  nextpid : s'.nextpid = s.nextpid
  paged : s'.paged = s.paged

theorem SameUsers.trans {s'' : State} (h : SameUsers s s') (h' : SameUsers s' s'') :
    SameUsers s s'' :=
  ⟨h'.proc.trans h.proc, h'.ftable.trans h.ftable, h'.nextpid.trans h.nextpid,
    h'.paged.trans h.paged⟩

theorem SameUsers.swaps (h : SameUsers s s') : Swaps s' p u o ↔ Swaps s p u o :=
  ⟨fun swaps => ⟨h.proc ▸ swaps.proc, swaps.file⟩, fun swaps => ⟨h.proc ▸ swaps.proc, swaps.file⟩⟩

theorem SameUsers.swapInode (h : SameUsers s s') :
    SwapInode s' i ↔ SwapInode s i := by
  unfold SwapInode
  simp only [h.swaps, h.ftable]

theorem SameUsers.made (h : SameUsers s s') (made : Made s) : Made s' :=
  fun p u proc => made p u (h.proc ▸ proc)

theorem sameUsers_setInode (s : State) (i : Nat) (v : Option INode) :
    SameUsers s (s.setInode i v) := ⟨rfl, rfl, rfl, rfl⟩

theorem sameUsers_iput (s : State) (i : Nat) : SameUsers s (s.iput i) := by
  unfold State.iput
  split
  · exact ⟨rfl, rfl, rfl, rfl⟩
  · split
    · exact sameUsers_setInode _ _ _
    · exact ⟨rfl, rfl, rfl, rfl⟩

theorem ialloc_free (h : s.ialloc = some i) : s.inode i = none ∧ i ≠ 0 := by
  have free := find?_some h
  have mem := mem_of_find?_eq_some h
  rw [mem_range'_1] at mem
  exact ⟨by simpa using free, by omega⟩

theorem filealloc_unused (h : s.filealloc = some o) (proc : s.proc p = some u) :
    o ∉ u.ofile ∧ u.swapFile ≠ some o := by
  have unused : s.fileUsed o = false := by simpa using find?_some h
  unfold fileUsed at unused
  rw [any_eq_false] at unused
  have here := unused p (mem_finRange p)
  simpa [proc, not_or] using here

section Calls

variable {s s' : State} (sound : Sound s) {i cwd o pid : Nat} {name : Name} {kind : State.Kind}
  {r : Int} {path : Path} {creates : Bool} {mode : State.Mode} {u' : User} {c : Fin NPROC}
  {slot : Slot} {page : Page}
include sound

theorem Sound.swap_file (swap : SwapInode s i) :
    ∃ file, s.inode i = some ⟨1, .file file⟩ := by
  obtain ⟨p, u, o, swaps, rfl⟩ := swap
  obtain ⟨file, value, _⟩ := sound.swap p u o swaps
  exact ⟨file, value⟩

variable {nlink : Nat} {slots : Slots} {u : User} {p : Fin NPROC}

/-- A directory is no swap file. -/
theorem Sound.dir_not_swap {d : Nat} (dir : s.inode d = some ⟨nlink, .dir slots⟩) :
    ¬ SwapInode s d := by
  intro swap
  obtain ⟨file, value⟩ := sound.swap_file swap
  rw [dir] at value
  cases value

theorem Sound.free_not_swap (free : s.inode i = none) : ¬ SwapInode s i := by
  intro swap
  obtain ⟨file, value⟩ := sound.swap_file swap
  rw [free] at value
  cases value

theorem Sound.not_root (other : ∀ nlink slots, s.inode i ≠ some ⟨nlink, .dir slots⟩) :
    i ≠ ROOTINO := by
  rintro rfl
  obtain ⟨nlink, slots, value, _⟩ := sound.root
  exact other nlink slots value

/-- Replacing the contents of a directory, with the names of the swap files kept. -/
theorem Sound.setDir {d nlink' : Nat} {slots' : Slots} (dir : s.inode d = some ⟨nlink, .dir slots⟩)
    (names : ∀ name i, SwapInode s i → dirlookup slots name = some i → dirlookup slots' name = some i)
    (rooted : ∀ e ∈ slots', e.2 = ROOTINO → isDots e.1 = true ∨ e ∈ slots) :
    Sound (s.setInode d (some ⟨nlink', .dir slots'⟩)) := by
  refine sound.setInode (sound.dir_not_swap dir) ?_ ?_ nofun
  · rintro rfl
    obtain ⟨rootLinks, rootSlots, value, leads⟩ := sound.root
    obtain ⟨rfl, rfl⟩ : rootLinks = nlink ∧ rootSlots = slots := by simpa [value] using dir
    exact ⟨nlink', slots', rfl, fun p u o swaps =>
      names _ _ ⟨p, u, o, swaps, rfl⟩ (leads p u o swaps)⟩
  · intro n ss value e mem here
    cases value
    exact (rooted e mem here).elim id fun old => sound.rooted d nlink slots dir e old here

/-- Changing an inode that is neither a directory nor a swap file. -/
theorem Sound.setPlain {n : INode} (other : ¬ SwapInode s i)
    (plain : ∀ nlink slots, s.inode i ≠ some ⟨nlink, .dir slots⟩)
    (plain' : ∀ slots, n.body ≠ .dir slots) : Sound (s.setInode i (some n)) := by
  refine sound.setInode other (fun here => absurd here (sound.not_root plain)) ?_ nofun
  rintro nlink slots value
  obtain rfl : n = ⟨nlink, .dir slots⟩ := by simpa using value
  exact absurd rfl (plain' slots)

theorem createIn_sound {dp : Nat} {r : Option Nat} (dir : s.inode dp = some ⟨nlink, .dir slots⟩)
    (created : s.createIn dp nlink slots name kind = .ok (r, s')) :
    Sound s' ∧ SameUsers s s' ∧ ∀ i, r = some i → s'.inode i ≠ none := by
  unfold createIn at created
  split at created
  · rename_i ip found
    split at created
    · cases created
    · rename_i value
      cases created
      refine ⟨sound, ⟨rfl, rfl, rfl, rfl⟩, fun i same => ?_⟩
      split at same
      · cases same
        simp [value]
      · cases same
    · cases created
      exact ⟨sound, ⟨rfl, rfl, rfl, rfl⟩, nofun⟩
  · rename_i absent
    split at created
    · cases created
    · rename_i i alloc
      cases created
      obtain ⟨free, pos⟩ := ialloc_free alloc
      have notRoot : i ≠ ROOTINO := sound.not_root (by simp [free])
      have apart : dp ≠ i := by
        rintro rfl
        rw [free] at dir
        cases dir
      have first : Sound (s.setInode i (some ⟨1, kind.body i dp⟩)) := by
        refine sound.setInode (sound.free_not_swap free) (fun here => absurd here notRoot) ?_ nofun
        rintro n ss value e mem _
        cases kind with
        | dir =>
          cases value
          simp only [mem_cons, not_mem_nil, or_false] at mem
          obtain rfl | rfl := mem <;> rfl
        | file | dev _ _ => cases value
      have dir' : (s.setInode i (some ⟨1, kind.body i dp⟩)).inode dp = some ⟨nlink, .dir slots⟩ :=
        (update_of_ne apart _ _).trans dir
      refine ⟨first.setDir dir' ?_ ?_, ⟨rfl, rfl, rfl, rfl⟩, ?_⟩
      · intro name' j _ found
        have other : name' ≠ name := by
          rintro rfl
          rw [absent] at found
          cases found
        rw [dirlookup_addSlot_of_ne other, found]
      · intro e mem here
        cases mem_addSlot mem with
        | inl new => exact absurd (by simpa [new] using here) notRoot
        | inr old => exact .inr old
      · intro j same
        cases same
        simp [State.setInode, update_of_ne (Ne.symm apart)]

theorem create_sound {r : Option Nat} (created : s.create cwd path kind = .ok (r, s')) :
    Sound s' ∧ SameUsers s s' ∧ ∀ i, r = some i → s'.inode i ≠ none := by
  unfold create at created
  cases parent : s.nameiparent cwd path with
  | error e =>
    rw [parent] at created
    cases created
  | ok found =>
    rw [parent] at created
    cases found with
    | none =>
      cases created
      exact ⟨sound, ⟨rfl, rfl, rfl, rfl⟩, nofun⟩
    | some at' =>
      obtain ⟨dp, name⟩ := at'
      simp only [bind, Except.bind] at created
      split at created
      · rename_i dir
        exact createIn_sound sound dir created
      · cases created
      · cases created

theorem openInode_sound {r : Option Nat}
    (opened : s.openInode cwd path creates mode = .ok (r, s')) :
    Sound s' ∧ SameUsers s s' ∧ ∀ i, r = some i → s'.inode i ≠ none := by
  unfold openInode at opened
  split at opened
  · exact create_sound sound opened
  · cases found : s.namei cwd path with
    | error e =>
      rw [found] at opened
      cases opened
    | ok ip =>
      rw [found] at opened
      cases ip with
      | none =>
        cases opened
        exact ⟨sound, ⟨rfl, rfl, rfl, rfl⟩, nofun⟩
      | some ip =>
        simp only [bind, Except.bind] at opened
        split at opened
        · cases opened
        · rename_i value
          cases opened
          refine ⟨sound, ⟨rfl, rfl, rfl, rfl⟩, fun i same => ?_⟩
          split at same
          · cases same
            simp [value]
          · cases same
        · rename_i value
          cases opened
          refine ⟨sound, ⟨rfl, rfl, rfl, rfl⟩, fun i same => ?_⟩
          cases same
          simp [value]

/-- The processes and open files change, without a new swap file. -/
theorem Sound.users (inode : s'.inode = s.inode) (paged : s'.paged = s.paged)
    (nextpid : s'.nextpid = s.nextpid)
    (swaps : ∀ p u o, Swaps s' p u o →
      ∃ v, Swaps s p v o ∧ u.pid = v.pid ∧ (s'.ftable o).ip = (s.ftable o).ip)
    (listed : ∀ q v o, s'.proc q = some v → o ∈ v.ofile → (∀ p u, ¬ Swaps s' p u o) ∧
      (SwapInode s (s'.ftable o).ip → (s'.ftable o).writable = false) ∧
        s.inode (s'.ftable o).ip ≠ none)
    (procs : ∀ p u, s'.proc p = some u → ∃ v, s.proc p = some v ∧ u.pid = v.pid)
    (init : ∃ p u, s'.proc p = some u ∧ u.pid = 1 ∧ u.cwd = ROOTINO) : Sound s' where
  root := by
    obtain ⟨nlink, slots, value, leads⟩ := sound.root
    refine ⟨nlink, slots, inode ▸ value, fun p u o h => ?_⟩
    obtain ⟨v, h, pid, ip⟩ := swaps p u o h
    rw [pid, ip]
    exact leads p v o h
  rooted d nlink slots value := sound.rooted d nlink slots (inode ▸ value)
  swap := by
    intro p u o h
    obtain ⟨v, h, _, ip⟩ := swaps p u o h
    rw [ip, inode, paged]
    exact sound.swap p v o h
  fits := by
    intro p u o h
    obtain ⟨v, h, pid, _⟩ := swaps p u o h
    rw [pid]
    exact sound.fits p v o h
  apart := by
    intro p u o q v o' h h' same
    obtain ⟨u, h, _, ip⟩ := swaps p u o h
    obtain ⟨v, h', _, ip'⟩ := swaps q v o' h'
    exact sound.apart p u o q v o' h h' (ip ▸ ip' ▸ same)
  unlisted := by
    intro p u o q v h proc mem
    exact (listed q v o proc mem).1 p u h
  readonly := by
    intro q v o proc mem swap
    refine (listed q v o proc mem).2.1 ?_
    obtain ⟨p, u, o', h, same⟩ := swap
    obtain ⟨u, h, _, ip⟩ := swaps p u o' h
    exact ⟨p, u, o', h, ip ▸ same⟩
  opened := by
    intro q v o proc mem
    rw [inode]
    exact (listed q v o proc mem).2.2
  pids := by
    intro p u proc
    obtain ⟨v, proc, pid⟩ := procs p u proc
    rw [pid, nextpid]
    exact sound.pids p v proc
  onePid := by
    intro p u q v proc proc' same
    obtain ⟨u', proc, pid⟩ := procs p u proc
    obtain ⟨v', proc', pid'⟩ := procs q v proc'
    exact sound.onePid p u' q v' proc proc' (pid ▸ pid' ▸ same)
  init := init
  booted := nextpid ▸ sound.booted

/-- What is true of a listed file. -/
theorem Sound.listed {q : Fin NPROC} {v : User} (proc : s.proc q = some v) (mem : o ∈ v.ofile) :
    (∀ p u, ¬ Swaps s p u o) ∧
      (SwapInode s (s.ftable o).ip → (s.ftable o).writable = false) ∧
        s.inode (s.ftable o).ip ≠ none :=
  ⟨fun p u h => sound.unlisted p u o q v h proc mem, sound.readonly q v o proc mem,
    sound.opened q v o proc mem⟩

/-- The process is replaced by one with the same pid and directory and at most the same swap
file, whose files are all known to be harmless. -/
theorem Sound.setUser (proc : s.proc p = some u) (proc' : s'.proc = update s.proc p (some u'))
    (pid : u'.pid = u.pid) (cwd : u'.cwd = u.cwd)
    (file : ∀ o, u'.swapFile = some o → u.swapFile = some o)
    (ftable : ∀ q v o, Swaps s q v o → (s'.ftable o).ip = (s.ftable o).ip)
    (same : s'.inode = s.inode ∧ s'.paged = s.paged ∧ s'.nextpid = s.nextpid)
    (listed : ∀ q v o, s'.proc q = some v → o ∈ v.ofile → (∀ p u, ¬ Swaps s p u o) ∧
      (SwapInode s (s'.ftable o).ip → (s'.ftable o).writable = false) ∧
      s.inode (s'.ftable o).ip ≠ none) :
    Sound s' := by
  have here : s'.proc p = some u' := by simp [proc']
  have there : ∀ q, q ≠ p → s'.proc q = s.proc q := fun q other => by
    rw [proc']
    exact update_of_ne other _ _
  have swaps : ∀ q v o, Swaps s' q v o →
      ∃ w, Swaps s q w o ∧ v.pid = w.pid ∧ (s'.ftable o).ip = (s.ftable o).ip := by
    intro q v o h
    by_cases self : q = p
    · subst self
      obtain rfl : v = u' := Option.some.inj (h.proc.symm.trans here)
      have old : Swaps s q u o := ⟨proc, file o h.file⟩
      exact ⟨u, old, pid, ftable q u o old⟩
    · have old : Swaps s q v o := ⟨(there q self) ▸ h.proc, h.file⟩
      exact ⟨v, old, rfl, ftable q v o old⟩
  refine sound.users same.1 same.2.1 same.2.2 swaps ?_ ?_ ?_
  · intro q v o proc mem
    refine ⟨fun p₁ u₁ h => ?_, (listed q v o proc mem).2⟩
    obtain ⟨w, h, _⟩ := swaps p₁ u₁ o h
    exact (listed q v o proc mem).1 p₁ w h
  · intro q v proc''
    by_cases self : q = p
    · subst self
      obtain rfl : v = u' := Option.some.inj (proc''.symm.trans here)
      exact ⟨u, proc, pid⟩
    · exact ⟨v, (there q self) ▸ proc'', rfl⟩
  · obtain ⟨q, v, qv, one, root⟩ := sound.init
    by_cases self : q = p
    · subst self
      obtain rfl : v = u := Option.some.inj (qv.symm.trans proc)
      exact ⟨q, u', here, pid.trans one, cwd.trans root⟩
    · exact ⟨q, v, (there q self).trans qv, one, root⟩

/-- One more open file of an inode in use. -/
theorem Sound.addFile (proc : s.proc p = some u) {ip : Nat}
    (free : ∀ q v, s.proc q = some v → o ∉ v.ofile ∧ v.swapFile ≠ some o) (used : s.inode ip ≠ none)
    {r w : Bool} (guard : SwapInode s ip → w = false) :
    Sound ((s.setFile o ⟨ip, 0, r, w⟩).setProc p (some { u with ofile := u.ofile ++ [o] })) := by
  have kept : ∀ o', o' ≠ o → update s.ftable o ⟨ip, 0, r, w⟩ o' = s.ftable o' :=
    fun o' other => update_of_ne other _ _
  refine sound.setUser proc rfl rfl rfl (fun _ h => h) ?_ ⟨rfl, rfl, rfl⟩ ?_
  · intro q v o' h
    exact congrArg OpenFile.ip (kept o' fun same => (free q v h.proc).2 (same ▸ h.file))
  · intro q v o' proc' mem
    change _ ∧ (SwapInode s (update s.ftable o _ o').ip →
      (update s.ftable o _ o').writable = false) ∧ s.inode (update s.ftable o _ o').ip ≠ none
    by_cases new : o' = o
    · subst new
      rw [update_self]
      exact ⟨fun p₁ u₁ h => (free p₁ u₁ h.proc).2 h.file, guard, used⟩
    · rw [kept o' new]
      by_cases self : q = p
      · subst self
        have value : some { u with ofile := u.ofile ++ [o] } = some v :=
          (update_self (f := s.proc) q _).symm.trans proc'
        cases value
        have old : o' ∈ u.ofile := by simpa [new] using mem
        exact sound.listed proc old
      · exact sound.listed ((update_of_ne self _ _).symm.trans proc') mem

theorem sysOpen_sound (proc : s.proc p = some u)
    (clear : mode ≠ .rdonly → ∀ i s', s.openInode u.cwd path creates mode = .ok (some i, s') → ¬ SwapInode s i)
    (made : Made s) (opened : s.sysOpen p u path creates mode = .ok (r, s')) :
    Sound s' ∧ Made s' := by
  unfold sysOpen at opened
  cases found : s.openInode u.cwd path creates mode with
  | error e =>
    rw [found] at opened
    cases opened
  | ok result =>
    obtain ⟨ip, s₁⟩ := result
    obtain ⟨sound₁, same, used⟩ := openInode_sound sound found
    rw [found] at opened
    cases ip with
    | none =>
      cases opened
      exact ⟨sound₁, same.made made⟩
    | some ip =>
      have left : Sound (s₁.iput ip) ∧ Made (s₁.iput ip) :=
        ⟨sound₁.iput ip, (same.trans (sameUsers_iput s₁ ip)).made made⟩
      simp only [bind, Except.bind] at opened
      split at opened
      · cases opened
        exact left
      · rename_i o alloc
        split at opened
        · cases opened
          have proc₁ : s₁.proc p = some u := same.proc ▸ proc
          refine ⟨sound₁.addFile proc₁ (fun q v h => filealloc_unused alloc h) (used ip rfl)
            fun swap => ?_, ?_⟩
          · by_contra writable
            refine clear (fun readonly => writable (by simp [readonly])) ip s₁ found ?_
            exact same.swapInode.mp swap
          · intro q v proc' past
            by_cases self : q = p
            · subst self
              have value := (update_self (f := s₁.proc) q _).symm.trans proc'
              cases value
              exact made q u proc past
            · exact made q v (same.proc ▸ (update_of_ne self _ _).symm.trans proc') past
        · cases opened
          exact left

/-- The offset of an open file is nobody else's concern. -/
theorem Sound.setOff (o off : Nat) : Sound (s.setFile o { s.ftable o with off }) := by
  have ip : ∀ o', ((s.setFile o { s.ftable o with off }).ftable o').ip = (s.ftable o').ip := by
    intro o'
    by_cases here : o' = o
    · subst here
      simp [setFile]
    · simp [setFile, here]
  have writable : ∀ o', ((s.setFile o { s.ftable o with off }).ftable o').writable =
      (s.ftable o').writable := by
    intro o'
    by_cases here : o' = o
    · subst here
      simp [setFile]
    · simp [setFile, here]
  refine sound.users rfl rfl rfl (fun p u o' h => ⟨u, ⟨h.proc, h.file⟩, rfl, ip o'⟩) ?_
    (fun p u proc => ⟨u, proc, rfl⟩) sound.init
  intro q v o' proc mem
  rw [ip, writable]
  have old := sound.listed (s := s) proc mem
  exact ⟨fun p u h => old.1 p u ⟨h.proc, h.file⟩, old.2⟩

theorem sysWrite_sound (proc : s.proc p = some u) {fd : Nat} {src : Nat → UInt8} {n : Nat}
    (made : Made s) (written : s.sysWrite u fd src n = .ok (r, s')) :
    Sound s' ∧ Made s' := by
  unfold sysWrite at written
  split at written
  · cases written
    exact ⟨sound, made⟩
  · rename_i o listed
    have mem : o ∈ u.ofile := mem_of_getElem? listed
    simp only at written
    split at written
    · cases written
      exact ⟨sound, made⟩
    · rename_i writable
      have other : ¬ SwapInode s (s.ftable o).ip := fun swap =>
        writable (sound.readonly p u o proc mem swap)
      split at written
      · cases written
      · rename_i nlink file value
        cases written
        have first := sound.setPlain (n := ⟨nlink, .file (writeLoop n file src (s.ftable o).off n).1⟩)
          other (by simp [value]) (by simp)
        exact ⟨first.setOff o _, made⟩
      · cases written
        exact ⟨sound, made⟩
      · cases written
        exact ⟨sound, made⟩

theorem unlinkIn_sound {dp : Nat} (dir : s.inode dp = some ⟨nlink, .dir slots⟩)
    (clear : ∀ i, dirlookup slots name = some i → ¬ SwapInode s i)
    (unlinked : s.unlinkIn dp nlink slots name = .ok (r, s')) : Sound s' ∧ SameUsers s s' := by
  have none : Sound s ∧ SameUsers s s := ⟨sound, ⟨rfl, rfl, rfl, rfl⟩⟩
  unfold unlinkIn at unlinked
  split at unlinked
  · cases unlinked
    exact none
  · rename_i plainName
    split at unlinked
    · cases unlinked
      exact none
    · rename_i ip found
      have notRoot : ip ≠ ROOTINO := by
        rintro rfl
        have entry := (mem_of_dirlookup found).1
        exact plainName (sound.rooted dp nlink slots dir _ entry rfl)
      have cleared : ∀ nlink', Sound (s.setInode dp (some ⟨nlink', .dir (clearSlot name slots)⟩)) := by
        intro nlink'
        refine sound.setDir dir ?_ ?_
        · intro name' i swap found'
          have other : name' ≠ name := by
            rintro rfl
            exact clear i found' swap
          rw [dirlookup_clearSlot_of_ne other, found']
        · intro e mem here
          cases mem_clearSlot mem with
          | inl zero => simp [zero] at here
          | inr old => exact .inr old
      have dropped : ∀ nlink' n, (∀ m ss, n = INode.mk m (.dir ss) →
            ∀ e ∈ ss, e.2 = ROOTINO → isDots e.1 = true) →
          Sound ((s.setInode dp (some ⟨nlink', .dir (clearSlot name slots)⟩)).setInode ip (some n)) := by
        intro nlink' n rooted
        refine (cleared nlink').setInode ?_ (fun here => absurd here notRoot) ?_ nofun
        · rintro ⟨p, u, o, h, same⟩
          exact clear ip found ⟨p, u, o, ⟨h.proc, h.file⟩, same⟩
        · intro m ss value
          exact rooted m ss (Option.some.inj value)
      split at unlinked
      · cases unlinked
      · rename_i n value
        split at unlinked
        · cases unlinked
        · split at unlinked
          · rename_i inner body
            split at unlinked
            · cases unlinked
              refine ⟨(dropped _ _ ?_).iput ip, ?_⟩
              · rintro m ss same
                cases same
                exact sound.rooted ip n.nlink inner (by rw [value, ← body])
              · exact ((sameUsers_setInode _ _ _).trans (sameUsers_setInode _ _ _)).trans
                  (sameUsers_iput _ ip)
            · cases unlinked
              exact none
          · rename_i plain
            cases unlinked
            refine ⟨(dropped _ _ ?_).iput ip, ?_⟩
            · intro m ss same
              exact absurd (INode.mk.inj same).2 (plain ss)
            · exact ((sameUsers_setInode _ _ _).trans (sameUsers_setInode _ _ _)).trans
                (sameUsers_iput _ ip)

theorem unlink_sound
    (clear : ∀ dp name nlink slots i, s.nameiparent cwd path = .ok (some (dp, name)) →
      s.inode dp = some ⟨nlink, .dir slots⟩ → dirlookup slots name = some i → ¬ SwapInode s i)
    (unlinked : s.unlink cwd path = .ok (r, s')) : Sound s' ∧ SameUsers s s' := by
  unfold unlink at unlinked
  cases parent : s.nameiparent cwd path with
  | error e =>
    rw [parent] at unlinked
    cases unlinked
  | ok found =>
    rw [parent] at unlinked
    cases found with
    | none =>
      cases unlinked
      exact ⟨sound, ⟨rfl, rfl, rfl, rfl⟩⟩
    | some at' =>
      obtain ⟨dp, name⟩ := at'
      simp only [bind, Except.bind] at unlinked
      split at unlinked
      · rename_i nlink slots dir
        exact unlinkIn_sound sound dir (clear dp name nlink slots · parent dir) unlinked
      · cases unlinked
      · cases unlinked

theorem sysLink_sound {old new : Path}
    (clear : ∀ i, s.namei cwd old = .ok (some i) → ¬ SwapInode s i)
    (linked : s.sysLink cwd old new = .ok (r, s')) : Sound s' ∧ SameUsers s s' := by
  unfold sysLink at linked
  cases target : s.namei cwd old with
  | error e =>
    rw [target] at linked
    cases linked
  | ok found =>
    rw [target] at linked
    cases found with
    | none =>
      cases linked
      exact ⟨sound, ⟨rfl, rfl, rfl, rfl⟩⟩
    | some ip =>
      simp only [bind, Except.bind] at linked
      split at linked
      · cases linked
      · cases linked
        exact ⟨sound, ⟨rfl, rfl, rfl, rfl⟩⟩
      · rename_i nlink body plain value
        have noDir : ∀ m slots, s.inode ip ≠ some ⟨m, .dir slots⟩ := by
          intro m slots dir
          rw [value] at dir
          exact plain slots (INode.mk.inj (Option.some.inj dir)).2
        have first := sound.setPlain (n := ⟨nlink + 1, body⟩) (clear ip target) noDir plain
        have kept : Sound (s.iput ip) ∧ SameUsers s (s.iput ip) :=
          ⟨sound.iput ip, sameUsers_iput s ip⟩
        split at linked
        · cases linked
        · rename_i parent _
          cases parent with
          | none =>
            cases linked
            exact kept
          | some at' =>
            obtain ⟨dp, name⟩ := at'
            simp only at linked
            split at linked
            · rename_i dnlink slots dir
              split at linked
              · rename_i absent
                cases linked
                refine ⟨first.setDir dir ?_ ?_, ?_⟩
                · intro name' i _ found
                  have other : name' ≠ name := by
                    rintro rfl
                    rw [absent] at found
                    cases found
                  rw [dirlookup_addSlot_of_ne other, found]
                · intro e mem here
                  cases mem_addSlot mem with
                  | inl new => exact absurd (by simpa [new] using here) (sound.not_root noDir)
                  | inr old => exact .inr old
                · exact (sameUsers_setInode _ _ _).trans (sameUsers_setInode _ _ _)
              · cases linked
                exact kept
            · cases linked
            · cases linked

theorem sysMake_sound (created : s.sysMake cwd path kind = .ok (r, s')) :
    Sound s' ∧ SameUsers s s' := by
  unfold sysMake at created
  cases made : s.create cwd path kind with
  | error e =>
    rw [made] at created
    cases created
  | ok result =>
    obtain ⟨ip, s₁⟩ := result
    obtain ⟨sound₁, same, _⟩ := create_sound sound made
    rw [made] at created
    cases ip <;> (cases created; exact ⟨sound₁, same⟩)

/-- The parent of a swap file's path is the root directory. -/
theorem nameiparent_swapPath (fits : PathFits pid) :
    s.nameiparent cwd (swapPath pid) = .ok (some (ROOTINO, swapName pid)) := by
  obtain ⟨nlink, slots, value, _⟩ := sound.root
  have start : (if (swapPath pid).head? = some '/' then ROOTINO else cwd) = ROOTINO := rfl
  simp only [nameiparent, namex, start, namexLoop, skipelem_swapPath fits, value, and_self, if_true]

/-- The state in which `create` leaves a new swap file. -/
def newSwapFile (s : State) (pid nlink : Nat) (slots : Slots) (i : Nat) : State :=
  (s.setInode i (some ⟨1, .file .empty⟩)).setInode ROOTINO
    (some ⟨nlink, .dir (addSlot (swapName pid) i slots)⟩)

/-- A swap file whose name is free is a new one. -/
theorem create_swapPath (fits : PathFits pid) (root : s.inode ROOTINO = some ⟨nlink, .dir slots⟩)
    (absent : dirlookup slots (swapName pid) = none) :
    s.create cwd (swapPath pid) .file =
      match s.ialloc with
      | none => .error .iallocNoInodes
      | some i => .ok (some i, newSwapFile s pid nlink slots i) := by
  simp only [create, nameiparent_swapPath sound fits, bind, Except.bind, root, createIn, absent]
  cases s.ialloc <;> rfl

/-- A new process with a swap file of its own. -/
theorem Sound.addSwap (child : User) (vacant : s.proc c = none) (fits : PathFits child.pid)
    (young : child.pid < s.nextpid) (single : ∀ q v, s.proc q = some v → v.pid ≠ child.pid)
    (free : ∀ q v, s.proc q = some v → o ∉ v.ofile ∧ v.swapFile ≠ some o)
    (value : s.inode i = some ⟨1, .file .empty⟩) (other : ¬ SwapInode s i)
    (closed : ∀ q v o', s.proc q = some v → o' ∈ v.ofile → (s.ftable o').ip ≠ i)
    (name : ∀ nlink slots, s.inode ROOTINO = some ⟨nlink, .dir slots⟩ →
      dirlookup slots (swapName child.pid) = some i) (blank : ∀ slot, s.paged c slot = none)
    (files : ∀ o' ∈ child.ofile, ∃ q v, s.proc q = some v ∧ o' ∈ v.ofile) :
    Sound ((s.setFile o ⟨i, 0, true, true⟩).setProc c (some { child with swapFile := some o })) := by
  generalize final : (s.setFile o ⟨i, 0, true, true⟩).setProc c
    (some { child with swapFile := some o }) = t
  have here : t.proc c = some { child with swapFile := some o } := by simp [← final, setProc]
  have there : ∀ q, q ≠ c → t.proc q = s.proc q := fun q h => by
    rw [← final]
    exact update_of_ne h _ _
  have new : (t.ftable o).ip = i := by simp [← final, setProc, setFile]
  have kept : ∀ o', o' ≠ o → t.ftable o' = s.ftable o' := fun o' h => by
    rw [← final]
    exact update_of_ne h _ _
  have inode : t.inode = s.inode := by rw [← final]; rfl
  have paged : t.paged = s.paged := by rw [← final]; rfl
  have nextpid : t.nextpid = s.nextpid := by rw [← final]; rfl
  have ofSwaps : ∀ p u o', Swaps t p u o' →
      (p = c ∧ o' = o ∧ u.pid = child.pid) ∨
        (p ≠ c ∧ Swaps s p u o' ∧ (t.ftable o').ip = (s.ftable o').ip) := by
    intro p u o' h
    by_cases self : p = c
    · subst self
      obtain rfl := Option.some.inj (h.proc.symm.trans here)
      exact .inl ⟨rfl, (Option.some.inj h.file).symm, rfl⟩
    · have old : Swaps s p u o' := ⟨there p self ▸ h.proc, h.file⟩
      have apart : o' ≠ o := fun same => (free p u old.proc).2 (same ▸ old.file)
      exact .inr ⟨self, old, by rw [kept o' apart]⟩
  have ofProc : ∀ q v, t.proc q = some v →
      (q = c ∧ v = { child with swapFile := some o }) ∨ (q ≠ c ∧ s.proc q = some v) := by
    intro q v h
    by_cases self : q = c
    · subst self
      exact .inl ⟨rfl, Option.some.inj (h.symm.trans here)⟩
    · exact .inr ⟨self, there q self ▸ h⟩
  -- A file listed by the child is listed by somebody already.
  have ofListed : ∀ q v o', t.proc q = some v → o' ∈ v.ofile →
      ∃ q v, s.proc q = some v ∧ o' ∈ v.ofile := by
    intro q v o' h mem
    obtain ⟨_, rfl⟩ | ⟨_, h⟩ := ofProc q v h
    · exact files o' mem
    · exact ⟨q, v, h, mem⟩
  constructor
  · obtain ⟨nlink, slots, rootValue, leads⟩ := sound.root
    refine ⟨nlink, slots, inode ▸ rootValue, fun p u o' h => ?_⟩
    obtain ⟨rfl, rfl, pid⟩ | ⟨_, old, ip⟩ := ofSwaps p u o' h
    · rw [new, pid]
      exact name nlink slots rootValue
    · rw [ip]
      exact leads p u o' old
  · rw [inode]
    exact sound.rooted
  · intro p u o' h
    obtain ⟨rfl, rfl, _⟩ | ⟨_, old, ip⟩ := ofSwaps p u o' h
    · refine ⟨.empty, by rw [new, inode, value], fun slot page there => ?_⟩
      rw [paged, blank slot] at there
      cases there
    · rw [ip, inode, paged]
      exact sound.swap p u o' old
  · intro p u o' h
    obtain ⟨_, _, pid⟩ | ⟨_, old, _⟩ := ofSwaps p u o' h
    · exact pid ▸ fits
    · exact sound.fits p u o' old
  · intro p u o₁ q v o₂ h h' same
    obtain ⟨rfl, rfl, _⟩ | ⟨_, old, ip⟩ := ofSwaps p u o₁ h
    · obtain ⟨rfl, _⟩ | ⟨_, old', ip'⟩ := ofSwaps q v o₂ h'
      · rfl
      · exact absurd ⟨q, v, o₂, old', ip'.symm.trans (same.symm.trans new)⟩ other
    · obtain ⟨rfl, rfl, _⟩ | ⟨_, old', ip'⟩ := ofSwaps q v o₂ h'
      · exact absurd ⟨p, u, o₁, old, ip.symm.trans (same.trans new)⟩ other
      · exact sound.apart p u o₁ q v o₂ old old' (ip.symm.trans (same.trans ip'))
  · intro p u o₁ q v h proc mem
    obtain ⟨q, v, proc, mem⟩ := ofListed q v o₁ proc mem
    obtain ⟨_, rfl, _⟩ | ⟨_, old, _⟩ := ofSwaps p u o₁ h
    · exact (free q v proc).1 mem
    · exact sound.unlisted p u o₁ q v old proc mem
  · intro q v o' proc mem swap
    obtain ⟨q, v, proc, mem⟩ := ofListed q v o' proc mem
    have apart : o' ≠ o := fun same => (free q v proc).1 (same ▸ mem)
    rw [kept o' apart] at swap ⊢
    obtain ⟨p, u, o₁, h, same⟩ := swap
    obtain ⟨rfl, rfl, _⟩ | ⟨_, old, ip⟩ := ofSwaps p u o₁ h
    · exact absurd (same.symm.trans new) (closed q v o' proc mem)
    · exact sound.readonly q v o' proc mem ⟨p, u, o₁, old, ip.symm.trans same⟩
  · intro q v o' proc mem
    obtain ⟨q, v, proc, mem⟩ := ofListed q v o' proc mem
    have apart : o' ≠ o := fun same => (free q v proc).1 (same ▸ mem)
    rw [kept o' apart, inode]
    exact sound.opened q v o' proc mem
  · intro p u proc
    rw [nextpid]
    obtain ⟨_, rfl⟩ | ⟨_, proc⟩ := ofProc p u proc
    · exact young
    · exact sound.pids p u proc
  · intro p u q v proc proc' same
    obtain ⟨rfl, rfl⟩ | ⟨_, proc⟩ := ofProc p u proc
    · obtain ⟨rfl, _⟩ | ⟨_, proc'⟩ := ofProc q v proc'
      · rfl
      · exact absurd same.symm (single q v proc')
    · obtain ⟨rfl, rfl⟩ | ⟨_, proc'⟩ := ofProc q v proc'
      · exact absurd same (single p u proc)
      · exact sound.onePid p u q v proc proc' same
  · obtain ⟨p, u, proc, one, root⟩ := sound.init
    have apart : p ≠ c := by
      rintro rfl
      rw [vacant] at proc
      cases proc
    exact ⟨p, u, (there p apart).trans proc, one, root⟩
  · exact nextpid ▸ sound.booted

/-- The next pid is given out to a process that is being made. -/
def nextPid (s : State) (c : Fin NPROC) : State :=
  { s with nextpid := s.nextpid + 1, paged := Function.update s.paged c fun _ => none }

theorem Sound.nextPid (vacant : s.proc c = none) : Sound (nextPid s c) where
  root := by
    obtain ⟨nlink, slots, value, leads⟩ := sound.root
    exact ⟨nlink, slots, value, fun p u o h => leads p u o ⟨h.proc, h.file⟩⟩
  rooted := sound.rooted
  swap := by
    intro p u o h
    have old : Swaps s p u o := ⟨h.proc, h.file⟩
    have other : p ≠ c := fun same => by
      have proc := same ▸ old.proc
      rw [vacant] at proc
      cases proc
    obtain ⟨file, value, stored⟩ := sound.swap p u o old
    refine ⟨file, value, fun slot page there => stored slot page ?_⟩
    exact (congrFun (update_of_ne other _ s.paged) slot).symm.trans there
  fits p u o h := sound.fits p u o ⟨h.proc, h.file⟩
  apart p u o q v o' h h' := sound.apart p u o q v o' ⟨h.proc, h.file⟩ ⟨h'.proc, h'.file⟩
  unlisted p u o q v h := sound.unlisted p u o q v ⟨h.proc, h.file⟩
  readonly := by
    intro q v o proc mem swap
    obtain ⟨p, u, o', h, same⟩ := swap
    exact sound.readonly q v o proc mem ⟨p, u, o', ⟨h.proc, h.file⟩, same⟩
  opened := sound.opened
  pids p u proc := Nat.lt_succ_of_lt (sound.pids p u proc)
  onePid := sound.onePid
  init := sound.init
  booted := Nat.lt_succ_of_lt sound.booted

/-- What `fork` comes to when the name of the child's swap file is free. -/
theorem fork_eq (vacant : s.proc c = none) (root : s.inode ROOTINO = some ⟨nlink, .dir slots⟩)
    (absent : dirlookup slots (swapName s.nextpid) = none) :
    s.fork u c = if ¬ PathFits s.nextpid then .error .pathOverflow
      else
        match s.ialloc with
        | none => .error .iallocNoInodes
        | some i =>
          match (newSwapFile (nextPid s c) s.nextpid nlink slots i).filealloc with
          | none => .error .noSlotForFiles
          | some o =>
            .ok (((newSwapFile (nextPid s c) s.nextpid nlink slots i).setFile o
              ⟨i, 0, true, true⟩).setProc c
                (some ⟨s.nextpid, u.cwd, u.ofile, some o⟩)) := by
  unfold fork
  simp only [vacant, if_pos sound.booted]
  change (nextPid s c).createSwapFile c ⟨s.nextpid, u.cwd, u.ofile, none⟩ = _
  unfold createSwapFile
  by_cases fits : PathFits s.nextpid
  · simp only [fits, not_true_eq_false, if_false]
    rw [create_swapPath (sound.nextPid vacant) fits root absent]
    have alloc : (nextPid s c).ialloc = s.ialloc := rfl
    rw [alloc]
    cases s.ialloc with
    | none => rfl
    | some i => rfl
  · simp only [fits, not_false_eq_true, if_true]

theorem newSwapFile_sound (fits : PathFits pid) (root : s.inode ROOTINO = some ⟨nlink, .dir slots⟩)
    (absent : dirlookup slots (swapName pid) = none) (alloc : s.ialloc = some i) :
    Sound (newSwapFile s pid nlink slots i) := by
  have created : s.create ROOTINO (swapPath pid) .file =
      .ok (some i, newSwapFile s pid nlink slots i) := by
    rw [create_swapPath sound fits root absent, alloc]
  exact (create_sound sound created).1

theorem fork_sound (proc : s.proc p = some u) (made : Made s)
    (clear : ∀ nlink slots, s.inode ROOTINO = some ⟨nlink, .dir slots⟩ →
      dirlookup slots (swapName s.nextpid) = none)
    (forked : s.fork u c = .ok s') : Sound s' ∧ Made s' := by
  cases vacant : s.proc c with
  | some v => simp [fork, vacant] at forked
  | none =>
    obtain ⟨nlink, slots, root, _⟩ := sound.root
    have absent := clear nlink slots root
    rw [fork_eq sound vacant root absent] at forked
    by_cases fits : PathFits s.nextpid
    · simp only [fits, not_true_eq_false, if_false] at forked
      cases alloc : s.ialloc with
      | none => simp [alloc] at forked
      | some i =>
        simp only [alloc] at forked
        have started := sound.nextPid vacant
        have created := newSwapFile_sound started fits root absent alloc
        have users : SameUsers (nextPid s c)
            (newSwapFile (nextPid s c) s.nextpid nlink slots i) := ⟨rfl, rfl, rfl, rfl⟩
        obtain ⟨free, pos⟩ := ialloc_free alloc
        have notRoot : i ≠ ROOTINO := by
          rintro rfl
          rw [root] at free
          cases free
        generalize same : newSwapFile (nextPid s c) s.nextpid nlink slots i = t
          at forked created users
        split at forked
        · cases forked
        · rename_i o unused
          cases forked
          refine ⟨created.addSwap ⟨s.nextpid, u.cwd, u.ofile, none⟩ (users.proc ▸ vacant) fits
            ?_ ?_ ?_ ?_ ?_ ?_ ?_ ?_ ?_, ?_⟩
          · rw [users.nextpid]
            exact Nat.lt_succ_self s.nextpid
          · intro q v old
            exact Nat.ne_of_lt (sound.pids q v (users.proc ▸ old))
          · exact fun q v old => filealloc_unused unused old
          · rw [← same]
            simp [newSwapFile, State.setInode, update_of_ne notRoot]
          · intro swap
            exact started.free_not_swap free (users.swapInode.mp swap)
          · intro q v o' old mem here
            refine sound.opened q v o' (users.proc ▸ old) mem ?_
            have ip : (t.ftable o').ip = (s.ftable o').ip := by rw [users.ftable]; rfl
            rw [← ip, here, free]
          · intro nlink' slots' value
            rw [← same] at value
            have new : slots' = addSlot (swapName s.nextpid) i slots := by
              simpa [newSwapFile, State.setInode, eq_comm] using
                congrArg (Option.map INode.body) value
            rw [new]
            exact dirlookup_addSlot_self pos absent
          · intro slot
            rw [users.paged]
            simp [nextPid]
          · exact fun o' mem => ⟨p, u, users.proc ▸ proc, mem⟩
          · intro q v new past
            by_cases self : q = c
            · subst self
              obtain rfl := Option.some.inj ((update_self (f := t.proc) q _).symm.trans new)
              exact ⟨o, rfl⟩
            · exact made q v (users.proc ▸ (update_of_ne self _ _).symm.trans new) past
    · simp [fits] at forked

omit sound in
/-- A page is stored whole or, beyond the end of the file, not at all. -/
theorem writeToSwapFile_slot (file : File) (page : Page) (slot : Slot) :
    writeToSwapFile file page (slot.val * PGSIZE) = (false, file) ∨
      ∃ file', writeToSwapFile file page (slot.val * PGSIZE) = (true, file') ∧
        Stored file' slot page ∧
        ∀ slot' page', slot' ≠ slot → Stored file slot' page' → Stored file' slot' page' := by
  by_cases beyond : file.size < slot.val * PGSIZE
  · exact .inl (writeToSwapFile_beyond file page beyond)
  · have room : slot.val * PGSIZE + PGSIZE ≤ MAXFILE * BSIZE := by
      have bound : slot.val < 16 := slot.isLt
      change slot.val * 4096 + 4096 ≤ 71680
      omega
    refine .inr ⟨_, writeToSwapFile_ok file page (Nat.le_of_not_lt beyond) room, ?_, ?_⟩
    · refine ⟨Nat.le_max_right _ _, fun k => ?_⟩
      have inside : slot.val * PGSIZE ≤ slot.val * PGSIZE + k.val ∧
          slot.val * PGSIZE + k.val < slot.val * PGSIZE + PGSIZE :=
        ⟨Nat.le_add_right _ _, Nat.add_lt_add_left k.isLt _⟩
      simp only [if_pos inside, Nat.add_sub_cancel_left, byteAt_val]
    · intro slot' page' other ⟨size, bytes⟩
      refine ⟨Nat.le_trans size (Nat.le_max_left _ _), fun k => ?_⟩
      have outside : ¬ (slot.val * PGSIZE ≤ slot'.val * PGSIZE + k.val ∧
          slot'.val * PGSIZE + k.val < slot.val * PGSIZE + PGSIZE) := by
        have apart : slot'.val ≠ slot.val := fun same => other (Fin.ext same)
        have small : k.val < 4096 := k.isLt
        change ¬ (slot.val * 4096 ≤ slot'.val * 4096 + k.val ∧
          slot'.val * 4096 + k.val < slot.val * 4096 + 4096)
        omega
      simp only [if_neg outside, bytes k]

/-- A page stored in the swap file of its process. -/
theorem Sound.setSwap (h : Swaps s p u o) {file file' : File}
    (value : s.inode (s.ftable o).ip = some ⟨1, .file file⟩) (stored : Stored file' slot page)
    (kept : ∀ slot' page', slot' ≠ slot → Stored file slot' page' → Stored file' slot' page') :
    Sound { s.setInode (s.ftable o).ip (some ⟨1, .file file'⟩) with
      paged := update s.paged p (update (s.paged p) slot (some page)) } := by
  have plain : (s.ftable o).ip ≠ ROOTINO := sound.not_root (by simp [value])
  constructor
  · obtain ⟨nlink, slots, root, leads⟩ := sound.root
    refine ⟨nlink, slots, (update_of_ne plain.symm _ _).trans root, ?_⟩
    exact fun q v o' h' => leads q v o' ⟨h'.proc, h'.file⟩
  · intro d nlink slots dir
    by_cases here : d = (s.ftable o).ip
    · subst here
      simp [State.setInode] at dir
    · exact sound.rooted d nlink slots ((update_of_ne here _ _).symm.trans dir)
  · intro q v o' h'
    have old : Swaps s q v o' := ⟨h'.proc, h'.file⟩
    obtain ⟨file₁, value₁, stored₁⟩ := sound.swap q v o' old
    by_cases self : q = p
    · subst self
      obtain rfl : v = u := Option.some.inj (old.proc.symm.trans h.proc)
      obtain rfl : o' = o := Option.some.inj (old.file.symm.trans h.file)
      obtain rfl : file₁ = file := by simpa [value] using value₁.symm
      refine ⟨file', by simp [State.setInode], fun slot' page' there => ?_⟩
      simp only [update_self] at there
      by_cases same : slot' = slot
      · subst same
        obtain rfl : page = page' := by simpa using there
        exact stored
      · rw [update_of_ne same] at there
        exact kept slot' page' same (stored₁ slot' page' there)
    · have apart : (s.ftable o').ip ≠ (s.ftable o).ip := fun same =>
        self (sound.apart q v o' p u o old h same)
      refine ⟨file₁, (update_of_ne apart _ _).trans value₁, fun slot' page' there => ?_⟩
      refine stored₁ slot' page' ?_
      exact (congrFun (update_of_ne self _ s.paged) slot').symm.trans there
  · exact fun q v o' h' => sound.fits q v o' ⟨h'.proc, h'.file⟩
  · exact fun q v o₁ q' v' o₂ h₁ h₂ =>
      sound.apart q v o₁ q' v' o₂ ⟨h₁.proc, h₁.file⟩ ⟨h₂.proc, h₂.file⟩
  · exact fun q v o₁ q' v' h₁ => sound.unlisted q v o₁ q' v' ⟨h₁.proc, h₁.file⟩
  · intro q v o' proc mem swap
    obtain ⟨q', v', o₂, h₂, same⟩ := swap
    exact sound.readonly q v o' proc mem ⟨q', v', o₂, ⟨h₂.proc, h₂.file⟩, same⟩
  · intro q v o' proc mem gone
    by_cases here : (s.ftable o').ip = (s.ftable o).ip
    · simp [State.setInode, here] at gone
    · exact sound.opened q v o' proc mem ((update_of_ne here _ _).symm.trans gone)
  · exact sound.pids
  · exact sound.onePid
  · exact sound.init
  · exact sound.booted

theorem pageOut_sound (proc : s.proc p = some u) (made : Made s)
    (paged : s.pageOut p u slot page = .ok s') :
    Sound s' ∧ Made s' := by
  unfold pageOut at paged
  split at paged
  · cases paged
  · rename_i o file
    have h : Swaps s p u o := ⟨proc, file⟩
    obtain ⟨file, value, _⟩ := sound.swap p u o h
    simp only [value] at paged
    obtain refused | ⟨file', done, stored, kept⟩ := writeToSwapFile_slot file page slot
    · simp only [refused, Bool.false_eq_true, if_false] at paged
      cases paged
      have unchanged : s.setInode (s.ftable o).ip (some ⟨1, .file file⟩) = s := by
        unfold State.setInode
        rw [← value, update_eq_self]
      rw [unchanged]
      exact ⟨sound, made⟩
    · simp only [done, if_true] at paged
      cases paged
      exact ⟨sound.setSwap h value stored kept, made⟩

/-- The process closes some of its files, its swap file perhaps among them. -/
theorem Sound.shrinkUser (proc : s.proc p = some u) (pid : u'.pid = u.pid) (cwd : u'.cwd = u.cwd)
    (files : ∀ o ∈ u'.ofile, o ∈ u.ofile) (file : ∀ o, u'.swapFile = some o → u.swapFile = some o) :
    Sound (s.setProc p (some u')) := by
  refine sound.setUser proc rfl pid cwd file (fun _ _ _ _ => rfl) ⟨rfl, rfl, rfl⟩ ?_
  intro q v o proc' mem
  by_cases self : q = p
  · subst self
    obtain rfl := Option.some.inj ((update_self (f := s.proc) q _).symm.trans proc')
    exact sound.listed proc (files o mem)
  · exact sound.listed ((update_of_ne self _ _).symm.trans proc') mem

theorem Sound.dropUser (proc : s.proc p = some u) (other : u.pid ≠ 1) :
    Sound (s.setProc p none) := by
  have old : ∀ q v, (s.setProc p none).proc q = some v → s.proc q = some v := by
    intro q v h
    by_cases self : q = p
    · subst self
      simp [setProc] at h
    · exact (update_of_ne self _ _).symm.trans h
  refine sound.users rfl rfl rfl (fun q v o h => ⟨v, ⟨old q v h.proc, h.file⟩, rfl, rfl⟩) ?_
    (fun q v h => ⟨v, old q v h, rfl⟩) ?_
  · intro q v o proc' mem
    have known := sound.listed (old q v proc') mem
    exact ⟨fun q' v' h => known.1 q' v' ⟨old q' v' h.proc, h.file⟩, known.2⟩
  · obtain ⟨q, v, proc', one, root⟩ := sound.init
    have apart : q ≠ p := by
      rintro rfl
      obtain rfl : v = u := Option.some.inj (proc'.symm.trans proc)
      exact other one
    exact ⟨q, v, (update_of_ne apart _ _).trans proc', one, root⟩

theorem foldl_iput_sound (files : List Nat) :
    Sound (files.foldl (fun s o => s.iput (s.ftable o).ip) s) ∧
      SameUsers s (files.foldl (fun s o => s.iput (s.ftable o).ip) s) := by
  induction files generalizing s with
  | nil => exact ⟨sound, ⟨rfl, rfl, rfl, rfl⟩⟩
  | cons o rest ih =>
    have ⟨rest', users⟩ := ih (sound.iput (s.ftable o).ip)
    exact ⟨rest', (sameUsers_iput s _).trans users⟩

/-- `removeSwapFile` finds the file it is to remove. -/
theorem removeSwapFile_sound (h : Swaps s p u o) :
    ∃ s', s.removeSwapFile p u = .ok (0, s') ∧ Sound s' ∧
      s'.proc = update s.proc p (some { u with swapFile := none }) := by
  obtain ⟨file, value, _⟩ := sound.swap p u o h
  have fits := sound.fits p u o h
  obtain ⟨nlink, slots, root, leads⟩ := sound.root
  have found := leads p u o h
  have closed : Sound (s.setProc p (some { u with swapFile := none })) :=
    sound.shrinkUser h.proc rfl rfl (fun _ mem => mem) nofun
  -- The file keeps its one link, so closing it frees nothing.
  have linked : (s.setProc p (some { u with swapFile := none })).iput (s.ftable o).ip =
      s.setProc p (some { u with swapFile := none }) := by
    have value' : (s.setProc p (some { u with swapFile := none })).inode (s.ftable o).ip =
      some ⟨1, .file file⟩ := value
    unfold State.iput
    rw [value']
    simp
  obtain ⟨t, unlinked⟩ : ∃ t, (s.setProc p (some { u with swapFile := none })).unlinkIn ROOTINO
      nlink slots (swapName u.pid) = .ok (0, t) := by
    have value' : (s.setProc p (some { u with swapFile := none })).inode (s.ftable o).ip =
      some ⟨1, .file file⟩ := value
    have name : isDots (swapName u.pid) = false := rfl
    unfold unlinkIn
    simp only [name, Bool.false_eq_true, if_false, found, value', Nat.lt_irrefl]
    exact ⟨_, rfl⟩
  have others : ∀ i, dirlookup slots (swapName u.pid) = some i →
      ¬ SwapInode (s.setProc p (some { u with swapFile := none })) i := by
    rintro i same ⟨q, v, o', h', ip⟩
    obtain rfl : (s.ftable o).ip = i := Option.some.inj (found.symm.trans same)
    by_cases self : q = p
    · subst self
      obtain rfl := Option.some.inj ((update_self (f := s.proc) q _).symm.trans h'.proc)
      cases h'.file
    · have old : Swaps s q v o' := ⟨(update_of_ne self _ _).symm.trans h'.proc, h'.file⟩
      exact self (sound.apart q v o' p u o old h ip)
  have ⟨after, users⟩ := unlinkIn_sound closed root others unlinked
  refine ⟨t, ?_, after, users.proc⟩
  unfold removeSwapFile
  simp only [h.file, linked]
  unfold unlink
  have root' : (s.setProc p (some { u with swapFile := none })).inode ROOTINO =
    some ⟨nlink, .dir slots⟩ := root
  rw [nameiparent_swapPath closed fits]
  simp only [bind, Except.bind, root']
  exact unlinked

/-- The end of `exit`. -/
theorem Sound.leave (proc : s.proc p = some u) (other : u.pid ≠ 1)
    (made : ∀ q v, q ≠ p → s.proc q = some v → 2 < v.pid → ∃ o, v.swapFile = some o) :
    Sound ((s.setProc p none).iput u.cwd) ∧ Made ((s.setProc p none).iput u.cwd) := by
  refine ⟨(sound.dropUser proc other).iput u.cwd, ?_⟩
  refine (sameUsers_iput _ u.cwd).made fun q v proc' past => ?_
  by_cases self : q = p
  · subst self
    simp [setProc] at proc'
  · exact made q v self ((update_of_ne self _ _).symm.trans proc') past

/-- Every process but the initial one can exit. -/
theorem exit_sound (proc : s.proc p = some u) (made : Made s) (other : u.pid ≠ 1) :
    ∃ s', s.exit p u = .ok s' ∧ Sound s' ∧ Made s' := by
  have emptied : Sound (s.setProc p (some { u with ofile := [] })) :=
    sound.shrinkUser proc rfl rfl nofun fun _ h => h
  have ⟨closed, users⟩ := foldl_iput_sound emptied u.ofile
  change Sound (s.closeFiles p u) at closed
  change SameUsers _ (s.closeFiles p u) at users
  unfold exit
  rw [if_neg other]
  generalize s.closeFiles p u = t at closed users
  have here : t.proc p = some { u with ofile := [] } := by
    rw [users.proc]
    simp [setProc]
  have there : ∀ q, q ≠ p → t.proc q = s.proc q := fun q self => by
    rw [users.proc]
    exact update_of_ne self _ _
  unfold exitClosed
  by_cases past : 2 < u.pid
  · obtain ⟨o, file⟩ := made p u proc past
    obtain ⟨t', removed, sound', proc'⟩ := removeSwapFile_sound closed ⟨here, file⟩
    have here' : t'.proc p = some { { u with ofile := [] } with swapFile := none } := by
      rw [proc']
      simp
    refine ⟨_, ?_, sound'.leave here' other fun q v self old => ?_⟩
    · simp only [if_pos past, removed, bind, Except.bind]
      rfl
    · rw [proc', update_of_ne self, there q self] at old
      exact made q v old
  · refine ⟨_, by rw [if_neg past], closed.leave here other fun q v self old => ?_⟩
    exact made q v (there q self ▸ old)

end Calls

/-- A call leaves the live swap files alone: it opens none of them for writing and neither links nor
unlinks one, and if it is a `fork`, the name of the child's swap file is free. -/
def Clear (s : State) (a : Fin NPROC × State.Call) : Prop :=
  ∀ u, s.proc a.1 = some u →
    match a.2 with
    | .openFile path creates mode => mode ≠ .rdonly → ∀ i s',
        s.openInode u.cwd path creates mode = .ok (some i, s') → ¬ SwapInode s i
    | .unlink path => ∀ dp name nlink slots i, s.nameiparent u.cwd path = .ok (some (dp, name)) →
        s.inode dp = some ⟨nlink, .dir slots⟩ → dirlookup slots name = some i → ¬ SwapInode s i
    | .link old _ => ∀ i, s.namei u.cwd old = .ok (some i) → ¬ SwapInode s i
    | .fork _ => ∀ nlink slots, s.inode ROOTINO = some ⟨nlink, .dir slots⟩ →
        dirlookup slots (swapName s.nextpid) = none
    | _ => True

/-- Steps that leave the live swap files alone. -/
def ClearStep (s : State) (a : Fin NPROC × State.Call) (s' : State) : Prop :=
  Clear s a ∧ s.step a = .ok s'

theorem map_snd_ok {x : Except FsPanic (Int × State)} (h : (·.2) <$> x = .ok s') :
    ∃ r, x = .ok (r, s') := by
  cases x with
  | error e => cases h
  | ok v =>
    cases h
    exact ⟨v.1, rfl⟩

theorem step_sound {a : Fin NPROC × State.Call} (sound : Sound s) (made : Made s)
    (last : ClearStep s a s') : Sound s' ∧ Made s' := by
  obtain ⟨p, call⟩ := a
  obtain ⟨clear, last⟩ := last
  unfold step at last
  simp only at last
  split at last
  · cases last
  · rename_i u proc
    have clear := clear u proc
    cases call with
    | openFile path creates mode =>
      obtain ⟨r, last⟩ := map_snd_ok last
      exact sysOpen_sound sound proc clear made last
    | write fd src n =>
      obtain ⟨r, last⟩ := map_snd_ok last
      exact sysWrite_sound sound proc made last
    | unlink path =>
      obtain ⟨r, last⟩ := map_snd_ok last
      have ⟨sound', users⟩ := unlink_sound sound clear last
      exact ⟨sound', users.made made⟩
    | link old new =>
      obtain ⟨r, last⟩ := map_snd_ok last
      have ⟨sound', users⟩ := sysLink_sound sound clear last
      exact ⟨sound', users.made made⟩
    | mkdir path | mknod path _ _ =>
      obtain ⟨r, last⟩ := map_snd_ok last
      have ⟨sound', users⟩ := sysMake_sound sound last
      exact ⟨sound', users.made made⟩
    | fork c => exact fork_sound sound proc made clear last
    | pageOut slot page => exact pageOut_sound sound proc made last
    | pageIn slot =>
      cases last
      exact ⟨sound, made⟩
    | exit =>
      by_cases one : u.pid = 1
      · simp [exit, one] at last
      · obtain ⟨s₁, done, sound', made'⟩ := exit_sound sound proc made one
        obtain rfl : s₁ = s' := Except.ok.inj (done.symm.trans last)
        exact ⟨sound', made'⟩

/-- The file system after boot: a root directory that only dots lead to, the initial process in it,
and no swap files yet. -/
structure Booted (s : State) : Prop where
  root : ∃ nlink slots, s.inode ROOTINO = some ⟨nlink, .dir slots⟩
  rooted : ∀ d nlink slots, s.inode d = some ⟨nlink, .dir slots⟩ →
    ∀ e ∈ slots, e.2 = ROOTINO → isDots e.1 = true
  old : ∀ p u, s.proc p = some u → u.pid ≤ 2 ∧ u.swapFile = none
  opened : ∀ q v o, s.proc q = some v → o ∈ v.ofile → s.inode (s.ftable o).ip ≠ none
  onePid : ∀ p u q v, s.proc p = some u → s.proc q = some v → u.pid = v.pid → p = q
  init : ∃ p u, s.proc p = some u ∧ u.pid = 1 ∧ u.cwd = ROOTINO
  booted : 2 < s.nextpid

theorem Booted.sound (booted : Booted s) : Sound s ∧ Made s := by
  have none : ∀ p u o, ¬ Swaps s p u o := fun p u o h => by
    have file := h.file
    rw [(booted.old p u h.proc).2] at file
    cases file
  refine ⟨?_, fun p u proc past => absurd past (Nat.not_lt.mpr (booted.old p u proc).1)⟩
  constructor
  · obtain ⟨nlink, slots, root⟩ := booted.root
    exact ⟨nlink, slots, root, fun p u o h => absurd h (none p u o)⟩
  · exact booted.rooted
  · exact fun p u o h => absurd h (none p u o)
  · exact fun p u o h => absurd h (none p u o)
  · exact fun p u o _ _ _ h => absurd h (none p u o)
  · exact fun p u o _ _ h => absurd h (none p u o)
  · exact fun q v o proc mem ⟨p, u, o', h, _⟩ => absurd h (none p u o')
  · exact booted.opened
  · exact fun p u proc => Nat.lt_of_le_of_lt (booted.old p u proc).1 booted.booted
  · exact booted.onePid
  · exact booted.init
  · exact booted.booted

/-- The initial process and the shell with an empty root directory. -/
def atBoot : State where
  inode i := if i = ROOTINO then some ⟨1, .dir [(['.'], 1), (['.', '.'], 1)]⟩ else none
  ftable _ := ⟨0, 0, false, false⟩
  proc p := if p = 0 then some ⟨1, 1, [], none⟩ else if p = 1 then some ⟨2, 1, [], none⟩ else none
  nextpid := 3
  paged _ _ := none

theorem atBoot_proc (h : atBoot.proc p = some u) :
    (p = 0 ∧ u = ⟨1, 1, [], none⟩) ∨ (p = 1 ∧ u = ⟨2, 1, [], none⟩) := by
  simp only [atBoot] at h
  split at h
  · rename_i zero
    exact .inl ⟨zero, (Option.some.inj h).symm⟩
  · split at h
    · rename_i one
      exact .inr ⟨one, (Option.some.inj h).symm⟩
    · cases h

theorem atBoot_booted : Booted atBoot where
  root := ⟨1, _, rfl⟩
  rooted := by
    intro d nlink slots dir e mem _
    simp only [atBoot] at dir
    split at dir
    · cases dir
      simp only [mem_cons, not_mem_nil, or_false] at mem
      obtain rfl | rfl := mem <;> rfl
    · cases dir
  old := by
    intro p u h
    obtain ⟨_, rfl⟩ | ⟨_, rfl⟩ := atBoot_proc h <;> exact ⟨by decide, rfl⟩
  opened := by
    intro q v o h mem
    obtain ⟨_, rfl⟩ | ⟨_, rfl⟩ := atBoot_proc h <;> cases mem
  onePid := by
    intro p u q v h h' same
    obtain ⟨rfl, rfl⟩ | ⟨rfl, rfl⟩ := atBoot_proc h <;>
      obtain ⟨rfl, rfl⟩ | ⟨rfl, rfl⟩ := atBoot_proc h' <;> first | rfl | cases same
  init := ⟨0, _, rfl, rfl, rfl⟩
  booted := by decide

end Xv6.Fs
