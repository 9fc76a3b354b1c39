import Xv6.System.DirectoryGraph

/-!
Link counts under the calls of `FileSystem`.

Between calls the directories form a graph in which every link is counted, and whatever has no
links is in somebody's hands. The one call that breaks it removes a directory that is still
in use. The puts on the way of `namex` are left out of the calls; an inode they could
free would be without links and without users, and there is none.
-/

namespace Xv6.Fs

open Function List State

structure LinksCounted (s : State) : Prop where
  counted : ∀ i n, s.inode i = some n → n.nlink = s.links i
  kept : ∀ i n, s.inode i = some n → n.nlink = 0 → s.inodeUsed i = true

/-- The empty directory that `unlinkIn` would remove. -/
def State.removesIn (s : State) (slots : Slots) (name : Name) : Option Nat :=
  if isDots name then none
  else
    match dirlookup slots name with
    | none => none
    | some ip =>
      match s.inode ip with
      | some ⟨_, .dir inner⟩ => if isdirempty inner then some ip else none
      | _ => none

/-- The empty directory that `sys_unlink` of the path would remove. -/
def State.removes (s : State) (cwd : Nat) (path : Path) : Option Nat :=
  match s.nameiparent cwd path with
  | .ok (some (dp, name)) =>
    match s.inode dp with
    | some ⟨_, .dir slots⟩ => s.removesIn slots name
    | _ => none
  | _ => none

/-! Users of inodes. -/

/-- The process refers to the inode. -/
def Uses (s : State) (u : User) (i : Nat) : Prop :=
  u.cwd = i ∨ (∃ o ∈ u.ofile, (s.ftable o).ip = i) ∨ ∃ o, u.swapFile = some o ∧ (s.ftable o).ip = i

variable {s : State} {put : List Nat} {i x nlink : Nat} {p : Fin NPROC} {u : User} {s' t : State}
  {put' : List Nat} {slots : Slots}

theorem inodeUsed_iff :
    s.inodeUsed i = true ↔ ∃ p u, s.proc p = some u ∧ Uses s u i := by
  unfold State.inodeUsed
  rw [any_eq_true]
  refine ⟨fun ⟨p, _, used⟩ => ?_, fun ⟨p, u, proc, uses⟩ => ⟨p, mem_finRange p, ?_⟩⟩
  · match proc : s.proc p with
    | none => simp [proc] at used
    | some u =>
      refine ⟨p, u, proc, ?_⟩
      cases file : u.swapFile <;> simpa [proc, Uses, or_assoc, file] using used
  · cases file : u.swapFile <;> simpa [proc, Uses, or_assoc, file] using uses

theorem setInode_of_ne {j : Nat} (ne : j ≠ i) (v : Option INode) :
    (s.setInode i v).inode j = s.inode j := by
  simp [setInode, ne]

theorem used_setFile {o : Nat} (alloc : s.filealloc = some o) (f : OpenFile)
    (used : s.inodeUsed i = true) : (s.setFile o f).inodeUsed i = true := by
  obtain ⟨p, u, proc, uses⟩ := inodeUsed_iff.mp used
  obtain ⟨notOpen, notSwap⟩ := filealloc_unused alloc proc
  refine inodeUsed_iff.mpr ⟨p, u, proc, ?_⟩
  have other : ∀ {o'}, o' ≠ o → (s.setFile o f).ftable o' = s.ftable o' := fun ne => by
    simp [State.setFile, ne]
  obtain here | ⟨o', mem, here⟩ | ⟨o', file, here⟩ := uses
  · exact .inl here
  · exact .inr (.inl ⟨o', mem, by rwa [other fun same => notOpen (same ▸ mem)]⟩)
  · exact .inr (.inr ⟨o', file, by rwa [other fun same => notSwap (same ▸ file)]⟩)

theorem used_setProc (p : Fin NPROC) (v : Option User) (used : s.inodeUsed i = true) :
    (s.setProc p v).inodeUsed i = true ∨ ∃ u, s.proc p = some u ∧ Uses s u i := by
  obtain ⟨q, u, proc, uses⟩ := inodeUsed_iff.mp used
  by_cases here : q = p
  · subst here
    exact .inr ⟨u, proc, uses⟩
  · refine .inl (inodeUsed_iff.mpr ⟨q, u, ?_, uses⟩)
    simpa [setProc, here] using proc

theorem used_of_setProc (used : (s.setProc p none).inodeUsed i = true) :
    s.inodeUsed i = true := by
  obtain ⟨q, u, proc, uses⟩ := inodeUsed_iff.mp used
  have other : q ≠ p := fun here => by simp [setProc, here] at proc
  exact inodeUsed_iff.mpr ⟨q, u, by simpa [setProc, other] using proc, uses⟩

theorem used_setProc_self (uses : Uses s u i) : (s.setProc p (some u)).inodeUsed i = true :=
  inodeUsed_iff.mpr ⟨p, u, by simp [setProc], uses⟩

/-- The state between calls, but for some inodes that still have to be put. -/
structure Linked (put : List Nat) (s : State) : Prop where
  graph : Graph s.inode
  kept : ∀ i n, s.inode i = some n → n.nlink = 0 → s.inodeUsed i = true ∨ i ∈ put
  early : ∀ p u, s.proc p = some u → u.pid ≤ 2 → u.swapFile = none

theorem Linked.linksCounted (linked : Linked [] s) : LinksCounted s where
  counted := linked.graph.counted
  kept i n value zero := (linked.kept i n value zero).resolve_right (List.not_mem_nil)

theorem SameUsers.inodeUsed (users : SameUsers s s') (i : Nat) :
    s'.inodeUsed i = s.inodeUsed i := by
  unfold State.inodeUsed
  rw [users.proc, users.ftable]

/-- Only inodes change. -/
theorem Linked.change (linked : Linked put s) (users : SameUsers s s') (graph : Graph s'.inode)
    (zero : ∀ i n, s'.inode i = some n → n.nlink = 0 →
      (∃ n', s.inode i = some n' ∧ n'.nlink = 0 ∧ (i ∈ put → i ∈ put')) ∨ i ∈ put') :
    Linked put' s' where
  graph := graph
  kept i n value unlinked := by
    obtain ⟨n', before, unlinked', still⟩ | mem := zero i n value unlinked
    · rw [users.inodeUsed]
      exact (linked.kept i n' before unlinked').imp_right still
    · exact .inr mem
  early := users.proc ▸ linked.early

/-- Only users change. -/
theorem Linked.users (linked : Linked put s) (inode : s'.inode = s.inode)
    (used : ∀ i, s.inodeUsed i = true → s'.inodeUsed i = true ∨ i ∈ put')
    (more : ∀ i ∈ put, i ∈ put')
    (early : ∀ p u, s'.proc p = some u → u.pid ≤ 2 → u.swapFile = none) : Linked put' s' where
  graph := inode ▸ linked.graph
  kept i n value unlinked := by
    obtain isUsed | mem := linked.kept i n (inode ▸ value) unlinked
    · exact used i isUsed
    · exact .inr (more i mem)
  early := early

theorem Linked.mono (linked : Linked put s) (more : ∀ i ∈ put, i ∈ put') : Linked put' s :=
  linked.users rfl (fun _ isUsed => .inl isUsed) more linked.early

theorem Linked.iput (linked : Linked (i :: put) s) :
    Linked put (s.iput i) := by
  have other : ∀ {j}, j ≠ i → j ∈ i :: put → j ∈ put := fun ne mem =>
    (mem_cons.mp mem).resolve_left ne
  unfold State.iput
  split
  · rename_i none
    refine linked.change ⟨rfl, rfl, rfl, rfl⟩ linked.graph fun j n value unlinked => .inl ?_
    exact ⟨n, value, unlinked, other fun same => by simp [← same, value] at none⟩
  · rename_i n value
    split
    · rename_i gone
      refine linked.change (sameUsers_setInode _ _ _) (linked.graph.release value gone.1) ?_
      intro j n' value' unlinked
      have ne : j ≠ i := fun same => by simp [setInode, same] at value'
      refine .inl ⟨n', ?_, unlinked, other ne⟩
      rwa [setInode_of_ne ne] at value'
    · rename_i stays
      refine ⟨linked.graph, fun j n' value' unlinked => ?_, linked.early⟩
      by_cases same : j = i
      · subst same
        cases value.symm.trans value'
        exact .inl (Bool.eq_true_of_not_eq_false fun unused => stays ⟨unlinked, unused⟩)
      · exact (linked.kept j n' value' unlinked).imp_right (other same)

theorem Linked.iput_self (linked : Linked put s) (i : Nat) : Linked put (s.iput i) :=
  (linked.mono fun _ mem => mem_cons_of_mem i mem).iput

theorem Linked.foldl_iput (files : List Nat)
    (linked : Linked (files.map (fun o => (s.ftable o).ip) ++ put) s) :
    Linked put (files.foldl (fun s o => s.iput (s.ftable o).ip) s) := by
  induction files generalizing s with
  | nil => exact linked
  | cons o files ih =>
    rw [foldl_cons]
    refine ih ?_
    rw [(sameUsers_iput s _).ftable]
    exact linked.iput

/-- A directory and one other inode change. -/
theorem Linked.setTwo (linked : Linked put s) {dp : Nat} {v : Option INode}
    (graph : Graph ((s.setInode x v).setInode dp (some ⟨nlink, .dir slots⟩)).inode)
    (atX : ∀ n, v = some n → n.nlink = 0 → x ∈ put') (more : ∀ i ∈ put, i ∈ put') :
    Linked put' ((s.setInode x v).setInode dp (some ⟨nlink, .dir slots⟩)) := by
  refine linked.change ((sameUsers_setInode s x v).trans (sameUsers_setInode _ dp _)) graph ?_
  intro j n value unlinked
  by_cases isDp : j = dp
  · subst isDp
    have isDir : some ⟨nlink, .dir slots⟩ = some n := by simpa [setInode] using value
    cases isDir
    exact absurd unlinked (graph.dir_linked value)
  · rw [setInode_of_ne isDp] at value
    by_cases isX : j = x
    · subst isX
      exact .inr (atX n (by simpa [setInode] using value) unlinked)
    · rw [setInode_of_ne isX] at value
      exact .inl ⟨n, value, unlinked, more j⟩

theorem Linked.root_ne (linked : Linked put s) (other : ∀ slots, ¬ IsDir s.inode i slots) :
    ROOTINO ≠ i := fun same => by
  obtain ⟨slots, root, _⟩ := linked.graph.root
  exact other slots (same ▸ root)

theorem ialloc_small (alloc : s.ialloc = some i) : i < NINODES := by
  have mem := mem_of_find?_eq_some alloc
  rw [mem_range'_1] at mem
  omega

/-- A directory has been removed although somebody uses it. -/
structure Removed (put : List Nat) (x : Nat) (s : State) : Prop where
  graph : Graph (Function.update s.inode x none)
  small : x < NINODES
  dir : ∃ inner dp slots, s.inode x = some ⟨0, .dir inner⟩ ∧ linksIn dp inner = 1 ∧ dp ≠ x ∧
    IsDir s.inode dp slots
  kept : ∀ i n, i ≠ x → s.inode i = some n → n.nlink = 0 → s.inodeUsed i = true ∨ i ∈ put
  early : ∀ p u, s.proc p = some u → u.pid ≤ 2 → u.swapFile = none

/-- Its second entry still leads to the parent, which has given up the link. -/
theorem Removed.broken (removed : Removed put x s) :
    ¬ LinksCounted s := by
  intro good
  obtain ⟨inner, dp, slots, value, up, apart, nlink, parent⟩ := removed.dir
  have counted := good.counted dp _ parent
  have counted' := removed.graph.counted dp ⟨nlink, .dir slots⟩ (by rwa [update_of_ne apart])
  have change := total_update (linksIn dp) s.inode removed.small none
  rw [value] at change
  change _ + linksIn dp inner = _ + 0 at change
  unfold links at counted
  omega

theorem Removed.freed (removed : Removed (x :: put) x s) (unused : s.inodeUsed x = false) :
    Linked put (s.iput x) := by
  obtain ⟨inner, dp, slots, value, -⟩ := removed.dir
  have gone : s.iput x = s.setInode x none := by
    simp [State.iput, value, unused]
  rw [gone]
  refine ⟨removed.graph, fun i n value' unlinked => ?_, removed.early⟩
  have ne : i ≠ x := fun same => by simp [setInode, same] at value'
  rw [setInode_of_ne ne] at value'
  exact (removed.kept i n ne value' unlinked).imp_right fun mem =>
    (mem_cons.mp mem).resolve_left ne

theorem Removed.iput (removed : Removed (i :: put) x s) (busy : s.inodeUsed x = true) :
    Removed put x (s.iput i) := by
  have other : ∀ {j}, j ≠ i → j ∈ i :: put → j ∈ put := fun ne mem =>
    (mem_cons.mp mem).resolve_left ne
  unfold State.iput
  split
  · rename_i none
    refine ⟨removed.graph, removed.small, removed.dir, fun j n ne value unlinked => ?_,
      removed.early⟩
    exact (removed.kept j n ne value unlinked).imp_right
      (other fun same => by simp [← same, value] at none)
  · rename_i n value
    split
    · rename_i gone
      have notX : x ≠ i := fun same => by simp [same, gone.2] at busy
      obtain ⟨inner, dp, slots, atX, up, apart, nlink, parent⟩ := removed.dir
      have notDp : dp ≠ i := by
        rintro rfl
        cases value.symm.trans parent
        exact removed.graph.dir_linked (by rwa [update_of_ne apart]) gone.1
      refine ⟨?_, removed.small, ⟨inner, dp, slots, ?_, up, apart, nlink, ?_⟩, ?_, removed.early⟩
      · have graph := removed.graph.release (i := i) (n := n)
          (by rwa [update_of_ne (Ne.symm notX)]) gone.1
        rwa [update_comm notX] at graph
      · rwa [setInode_of_ne notX]
      · rwa [setInode_of_ne notDp]
      · intro j n' ne value' unlinked
        have notI : j ≠ i := fun same => by simp [setInode, same] at value'
        rw [setInode_of_ne notI] at value'
        exact (removed.kept j n' ne value' unlinked).imp_right (other notI)
    · rename_i stays
      refine ⟨removed.graph, removed.small, removed.dir, fun j n' ne value' unlinked => ?_,
        removed.early⟩
      by_cases same : j = i
      · subst same
        cases value.symm.trans value'
        exact .inl (Bool.eq_true_of_not_eq_false fun unused => stays ⟨unlinked, unused⟩)
      · exact (removed.kept j n' ne value' unlinked).imp_right (other same)

theorem setInode_comm {a b : Nat} (apart : a ≠ b) (s : State) (v w : Option INode) :
    (s.setInode a v).setInode b w = (s.setInode b w).setInode a v := by
  simp only [setInode, update_comm apart]

/-! The calls. -/

section Calls

variable {put : List Nat} {s s' : State} (linked : Linked put s) {dp nlink cwd : Nat}
  {slots : Slots} {name : Name} {kind : State.Kind} {r : Int} {path : Path} {creates : Bool}
  {mode : State.Mode} {v : Option User} {u : User} {c : Fin NPROC}
include linked

theorem createIn_linked {r : Option Nat} (dir : s.inode dp = some ⟨nlink, .dir slots⟩)
    (created : s.createIn dp nlink slots name kind = .ok (r, s')) :
    Linked put s' ∧ SameUsers s s' := by
  unfold createIn at created
  split at created
  · split at created
    · cases created
    · cases created
      exact ⟨linked, ⟨rfl, rfl, rfl, rfl⟩⟩
    · cases created
      exact ⟨linked, ⟨rfl, rfl, rfl, rfl⟩⟩
  · rename_i absent
    split at created
    · cases created
    · rename_i i alloc
      cases created
      obtain ⟨fresh, pos⟩ := ialloc_free alloc
      have apart : dp ≠ i := fun same => by simp [same, fresh] at dir
      have notRoot := linked.root_ne (i := i) fun slots isDir => isDir.ne_none fresh
      refine ⟨linked.setTwo (linked.graph.addEntry dir absent apart pos (ialloc_small alloc) notRoot
        (by rw [fresh]; rfl) ?_ ?_ ?_) ?_ fun _ mem => mem,
        (sameUsers_setInode s i _).trans (sameUsers_setInode _ dp _)⟩
      · cases kind with
        | dir => exact .inr ⟨fresh, rfl⟩
        | file | dev => exact .inl nofun
      · cases kind with
        | dir => simp [State.Kind.body, slotsOf, linksIn, leadsTo]
        | file | dev => rfl
      · rw [linked.graph.free i pos fresh]
      · intro n value unlinked
        cases value
        cases unlinked

theorem create_linked {r : Option Nat} (created : s.create cwd path kind = .ok (r, s')) :
    Linked put s' ∧ SameUsers s s' := by
  unfold create at created
  cases found : s.nameiparent cwd path with
  | error e => simp [found, bind, Except.bind] at created
  | ok result =>
    simp only [found, bind, Except.bind] at created
    split at created
    · cases created
      exact ⟨linked, ⟨rfl, rfl, rfl, rfl⟩⟩
    · split at created
      · rename_i dir
        exact createIn_linked linked dir created
      · cases created
      · cases created

theorem openInode_linked {r : Option Nat}
    (opened : s.openInode cwd path creates mode = .ok (r, s')) :
    Linked put s' ∧ SameUsers s s' := by
  unfold openInode at opened
  split at opened
  · exact create_linked linked opened
  · have none : Linked put s ∧ SameUsers s s := ⟨linked, ⟨rfl, rfl, rfl, rfl⟩⟩
    cases found : s.namei cwd path with
    | error e => simp [found, bind, Except.bind] at opened
    | ok result =>
      simp only [found, bind, Except.bind] at opened
      split at opened
      · cases opened
        exact none
      · split at opened
        · cases opened
        · cases opened
          exact none
        · cases opened
          exact none

variable {p : Fin NPROC}

theorem Linked.early_setProc (early : ∀ u, v = some u → u.pid ≤ 2 → u.swapFile = none) :
    ∀ q u, (s.setProc p v).proc q = some u → u.pid ≤ 2 → u.swapFile = none := by
  intro q u proc
  by_cases here : q = p
  · exact early u (by simpa [setProc, here] using proc)
  · exact linked.early q u (by simpa [setProc, here] using proc)

/-- A process keeps what it has, or is new. -/
theorem Linked.growUser {u' : User} (keeps : ∀ u, s.proc p = some u → ∀ i, Uses s u i → Uses s u' i)
    (early : u'.pid ≤ 2 → u'.swapFile = none) : Linked put (s.setProc p (some u')) := by
  refine linked.users rfl (fun i used => .inl ?_) (fun _ mem => mem)
    (linked.early_setProc fun _ same => Option.some.inj same ▸ early)
  obtain other | ⟨u, proc, uses⟩ := used_setProc p (some u') used
  · exact other
  · exact used_setProc_self (keeps u proc i uses)

/-- A process lets go of what is still to be put. -/
theorem Linked.dropUser (proc : s.proc p = some u) {put' : List Nat} (more : ∀ i ∈ put, i ∈ put')
    (drops : ∀ i, Uses s u i → (∃ u', v = some u' ∧ Uses s u' i) ∨ i ∈ put')
    (early : ∀ u', v = some u' → u'.pid = u.pid ∧ (u'.swapFile = u.swapFile ∨ u'.swapFile = none)) :
    Linked put' (s.setProc p v) := by
  have kept : ∀ u', v = some u' → u'.pid ≤ 2 → u'.swapFile = none := by
    intro u' same low
    obtain ⟨pid, swap | none⟩ := early u' same
    · exact swap.trans (linked.early p u proc (pid ▸ low))
    · exact none
  refine linked.users rfl (fun i used => ?_) more (linked.early_setProc kept)
  obtain other | ⟨u', proc', uses⟩ := used_setProc p v used
  · exact .inl other
  · cases proc.symm.trans proc'
    obtain ⟨u', rfl, uses⟩ | mem := drops i uses
    · exact .inl (used_setProc_self uses)
    · exact .inr mem

theorem Linked.setFile {o : Nat} (alloc : s.filealloc = some o) (f : OpenFile) :
    Linked put (s.setFile o f) :=
  linked.users rfl (fun _ used => .inl (used_setFile alloc f used)) (fun _ mem => mem) linked.early

theorem sysOpen_linked (proc : s.proc p = some u)
    (opened : s.sysOpen p u path creates mode = .ok (r, s')) :
    Linked put s' := by
  unfold sysOpen at opened
  cases found : s.openInode u.cwd path creates mode with
  | error e => simp [found, bind, Except.bind] at opened
  | ok result =>
    obtain ⟨ip, s₁⟩ := result
    have ⟨linked₁, users⟩ := openInode_linked linked found
    simp only [found, bind, Except.bind] at opened
    cases ip with
    | none =>
      cases opened
      exact linked₁
    | some ip =>
      simp only at opened
      split at opened
      · cases opened
        exact linked₁.iput_self _
      · rename_i o alloc
        split at opened
        · cases opened
          refine (linked₁.setFile alloc _).growUser (fun u' proc' i uses => ?_)
            (linked.early p u proc)
          have same : s₁.proc p = some u' := proc'
          rw [users.proc, proc] at same
          cases same
          exact uses.imp_right (Or.imp_left fun ⟨o', mem, here⟩ =>
            ⟨o', mem_append_left _ mem, here⟩)
        · cases opened
          exact linked₁.iput_self _

theorem Linked.setOff (o off : Nat) : Linked put (s.setFile o { s.ftable o with off }) := by
  have same : ∀ o', ((s.setFile o { s.ftable o with off }).ftable o').ip = (s.ftable o').ip := by
    intro o'
    by_cases here : o' = o
    · simp [State.setFile, here]
    · simp [State.setFile, here]
  refine linked.users rfl (fun i used => .inl ?_) (fun _ mem => mem) linked.early
  obtain ⟨p, u, proc, uses⟩ := inodeUsed_iff.mp used
  refine inodeUsed_iff.mpr ⟨p, u, proc, ?_⟩
  simpa only [Uses, same] using uses

theorem Linked.setFileBody {i : Nat} {file : File} (value : s.inode i = some ⟨nlink, .file file⟩)
    (file' : File) :
    Linked put (s.setInode i (some ⟨nlink, .file file'⟩)) := by
  have graph := linked.graph.setPlain (v := some ⟨nlink, .file file'⟩) value nofun
    (fun n same => by cases same; exact nofun) rfl
  refine linked.change (sameUsers_setInode s i _) graph fun j n value' unlinked => .inl ?_
  by_cases here : j = i
  · subst here
    have same : some ⟨nlink, .file file'⟩ = some n := by simpa [setInode] using value'
    cases same
    exact ⟨_, value, unlinked, id⟩
  · exact ⟨n, by rwa [setInode_of_ne here] at value', unlinked, id⟩

theorem sysWrite_linked {fd n : Nat} {src : Nat → UInt8}
    (written : s.sysWrite u fd src n = .ok (r, s')) : Linked put s' := by
  unfold sysWrite at written
  split at written
  · cases written
    exact linked
  · rename_i o _
    simp only at written
    split at written
    · cases written
      exact linked
    · split at written
      · cases written
      · rename_i nlink file value
        cases written
        exact (linked.setFileBody value _).setOff o _
      · cases written
        exact linked
      · cases written
        exact linked

theorem pageOut_linked {slot : Slot} {page : Page} (stored : s.pageOut p u slot page = .ok s') :
    Linked put s' := by
  unfold pageOut at stored
  split at stored
  · cases stored
  · split at stored
    · rename_i nlink file value
      simp only at stored
      have body := linked.setFileBody value (writeToSwapFile file page (slot.val * PGSIZE)).2
      split at stored
      · cases stored
        exact body.users rfl (fun _ used => .inl used) (fun _ mem => mem) body.early
      · cases stored
        exact body
    · cases stored
      exact linked
    · cases stored

theorem sysMake_linked (made : s.sysMake cwd path kind = .ok (r, s')) : Linked put s' := by
  unfold sysMake at made
  cases found : s.create cwd path kind with
  | error e => simp [found, bind, Except.bind] at made
  | ok result =>
    obtain ⟨ip, s₁⟩ := result
    have linked₁ := (create_linked linked found).1
    simp only [found, bind, Except.bind] at made
    cases ip <;> (cases made; exact linked₁)

theorem sysLink_linked {old new : Path} (made : s.sysLink cwd old new = .ok (r, s')) :
    Linked put s' := by
  unfold sysLink at made
  cases found : s.namei cwd old with
  | error e => simp [found, bind, Except.bind] at made
  | ok result =>
    simp only [found, bind, Except.bind] at made
    split at made
    · cases made
      exact linked
    · rename_i ip
      split at made
      · cases made
      · cases made
        exact linked
      · rename_i nlink body notDir value
        have plain : (⟨nlink, body⟩ : INode).Plain := notDir
        have plain' : (⟨nlink + 1, body⟩ : INode).Plain := notDir
        split at made
        · cases made
        · split at made
          · cases made
            exact linked.iput_self _
          · split at made
            · rename_i dp name _ _ dnlink slots dir
              split at made
              · rename_i absent
                cases made
                have apart : dp ≠ ip := by
                  rintro rfl
                  simp only [setInode, update_self, Option.some.injEq, INode.mk.injEq] at dir
                  exact notDir slots dir.2
                rw [setInode_of_ne apart] at dir
                obtain ⟨pos, small⟩ := linked.graph.small ip (by simp [value])
                have notRoot := linked.root_ne (i := ip) fun slots dir => by
                  obtain ⟨nlink', isDir⟩ := dir
                  cases value.symm.trans isDir
                  exact notDir slots rfl
                refine linked.setTwo (linked.graph.addEntry dir absent apart (Nat.ne_of_gt pos)
                  small notRoot (by rw [value, plain.slotsOf]) (.inl plain') ?_ ?_) ?_
                  fun _ mem => mem
                · rw [plain'.slotsOf]
                  rfl
                · rw [← linked.graph.counted ip _ value]
                · intro n same unlinked
                  cases same
                  cases unlinked
              · cases made
                exact linked.iput_self _
            · cases made
            · cases made

section

variable (dir : s.inode dp = some ⟨nlink, .dir slots⟩)
include dir

/-- An empty directory is freed unless somebody uses it. -/
theorem rmdir_linked {ip nlink' : Nat} {inner : Slots}
    (plain : isDots name = false) (found : dirlookup slots name = some ip)
    (sub : s.inode ip = some ⟨nlink', .dir inner⟩) (empty : isdirempty inner = true) :
    let s' := ((s.setInode dp (some ⟨nlink - 1, .dir (clearSlot name slots)⟩)).setInode ip
      (some ⟨nlink' - 1, .dir inner⟩)).iput ip
    SameUsers s s' ∧
      ((∀ x, some ip = some x → s.inodeUsed x = false) ∧ Linked put s' ∨
        ∃ x, some ip = some x ∧ s.inodeUsed x = true ∧ Removed put x s') := by
  obtain ⟨rfl, one, bare, apart⟩ := linked.graph.empty_dir dir plain found sub empty
  have slotsIp : slotsOf (s.inode ip) = inner := by rw [sub]; rfl
  have positive := linked.graph.dir_linked dir
  have atDp : nlink - 1 + linksIn dp (slotsOf (s.inode ip)) = nlink := by
    rw [slotsIp]
    omega
  have graph := linked.graph.clearEntry (v := none) dir plain found
    (slotsIp.symm ▸ bare) nofun atDp (linked.graph.counted ip _ sub)
  intro s'
  have users := (sameUsers_setInode s dp (some ⟨nlink - 1, .dir (clearSlot name slots)⟩)).trans
    (sameUsers_setInode _ ip (some ⟨1 - 1, .dir inner⟩))
  have removed : Removed (ip :: put) ip
      ((s.setInode dp (some ⟨nlink - 1, .dir (clearSlot name slots)⟩)).setInode ip
        (some ⟨1 - 1, .dir inner⟩)) := by
    refine ⟨?_, (linked.graph.isDir_small ⟨1, sub⟩).2, ⟨inner, dp, clearSlot name slots, ?_, one,
      apart, nlink - 1, ?_⟩, fun i n ne value unlinked => ?_, linked.early⟩
    · rw [update_comm (Ne.symm apart)] at graph
      simpa only [setInode, update_idem] using graph
    · simp [setInode]
    · rw [setInode_of_ne apart]
      simp [setInode]
    · rw [setInode_of_ne ne] at value
      rw [users.inodeUsed]
      by_cases isDp : i = dp
      · subst isDp
        have same : some ⟨nlink - 1, .dir (clearSlot name slots)⟩ = some n := by
          simpa [setInode] using value
        cases same
        exact absurd unlinked (graph.dir_linked (update_self ..))
      · rw [setInode_of_ne isDp] at value
        exact (linked.kept i n value unlinked).imp_right (mem_cons_of_mem ip)
  refine ⟨users.trans (sameUsers_iput _ ip), ?_⟩
  by_cases used : s.inodeUsed ip = true
  · refine .inr ⟨ip, rfl, used, removed.iput ?_⟩
    rwa [users.inodeUsed]
  · have unused : s.inodeUsed ip = false := by simpa using used
    refine .inl ⟨fun x same => Option.some.inj same ▸ unused, removed.freed ?_⟩
    rwa [users.inodeUsed]

/-- A file or a device is unlinked. -/
theorem unlinkPlain_linked {ip : Nat} {n : INode}
    (plain : isDots name = false) (found : dirlookup slots name = some ip)
    (value : s.inode ip = some n) (plainNode : n.Plain) (positive : ¬ n.nlink < 1)
    (unlinked : ((s.setInode dp (some ⟨nlink, .dir (clearSlot name slots)⟩)).setInode ip
      (some { n with nlink := n.nlink - 1 })).iput ip = s') :
    SameUsers s s' ∧ Linked put s' := by
  subst unlinked
  have apart : dp ≠ ip := by
    rintro rfl
    cases value.symm.trans dir
    exact plainNode slots rfl
  have counted := linked.graph.counted ip n value
  refine ⟨((sameUsers_setInode _ _ _).trans (sameUsers_setInode _ _ _)).trans
    (sameUsers_iput _ ip), Linked.iput ?_⟩
  rw [setInode_comm apart]
  refine linked.setTwo (linked.graph.clearEntry dir plain found
    (.inl (by rw [value, plainNode.slotsOf])) ?_ ?_ ?_) (fun _ _ _ => mem_cons_self)
    fun _ mem => mem_cons_of_mem _ mem
  · intro n' same
    cases same
    exact plainNode
  · rw [value, plainNode.slotsOf]
    rfl
  · change n.nlink - 1 + 1 = _
    omega

theorem unlinkIn_linked (unlinked : s.unlinkIn dp nlink slots name = .ok (r, s')) :
    SameUsers s s' ∧
      ((∀ x, s.removesIn slots name = some x → s.inodeUsed x = false) ∧ Linked put s' ∨
        ∃ x, s.removesIn slots name = some x ∧ s.inodeUsed x = true ∧ Removed put x s') := by
  unfold unlinkIn at unlinked
  unfold removesIn
  split at unlinked
  · rename_i dots
    cases unlinked
    exact ⟨⟨rfl, rfl, rfl, rfl⟩, .inl ⟨by simp [dots], linked⟩⟩
  · rename_i plain
    have plain : isDots name = false := by simpa using plain
    rw [if_neg (by simp [plain])]
    cases found : dirlookup slots name with
    | none =>
      rw [found] at unlinked
      cases unlinked
      exact ⟨⟨rfl, rfl, rfl, rfl⟩, .inl ⟨nofun, linked⟩⟩
    | some ip =>
      rw [found] at unlinked
      simp only at unlinked ⊢
      cases value : s.inode ip with
      | none =>
        rw [value] at unlinked
        cases unlinked
      | some n =>
        rw [value] at unlinked
        simp only at unlinked
        split at unlinked
        · cases unlinked
        · rename_i positive
          obtain ⟨nlink', body⟩ := n
          cases body with
          | dir inner =>
            simp only at unlinked ⊢
            split at unlinked
            · rename_i empty
              cases unlinked
              rw [if_pos empty]
              exact rmdir_linked linked dir plain found value empty
            · rename_i full
              cases unlinked
              exact ⟨⟨rfl, rfl, rfl, rfl⟩, .inl ⟨by simp [full], linked⟩⟩
          | file _ | dev _ _ =>
            cases unlinked
            obtain ⟨users, linked'⟩ := unlinkPlain_linked linked dir plain found value
              nofun positive rfl
            exact ⟨users, .inl ⟨nofun, linked'⟩⟩

end

theorem unlink_linked (unlinked : s.unlink cwd path = .ok (r, s')) :
    SameUsers s s' ∧
      ((∀ x, s.removes cwd path = some x → s.inodeUsed x = false) ∧ Linked put s' ∨
        ∃ x, s.removes cwd path = some x ∧ s.inodeUsed x = true ∧ Removed put x s') := by
  unfold unlink at unlinked
  unfold State.removes
  cases found : s.nameiparent cwd path with
  | error e => simp [found, bind, Except.bind] at unlinked
  | ok result =>
    simp only [found, bind, Except.bind] at unlinked
    cases result with
    | none =>
      cases unlinked
      exact ⟨⟨rfl, rfl, rfl, rfl⟩, .inl ⟨nofun, linked⟩⟩
    | some result =>
      obtain ⟨dp, name⟩ := result
      simp only at unlinked ⊢
      split at unlinked
      · rename_i nlink slots dir
        rw [dir]
        exact unlinkIn_linked linked dir unlinked
      · cases unlinked
      · cases unlinked

theorem createSwapFile_linked (vacant : s.proc c = none) (past : 2 < u.pid)
    (created : s.createSwapFile c u = .ok s') : Linked put s' := by
  unfold createSwapFile at created
  split at created
  · cases created
  · cases found : s.create u.cwd (swapPath u.pid) .file with
    | error e => simp [found, bind, Except.bind] at created
    | ok result =>
      obtain ⟨ip, s₁⟩ := result
      have ⟨linked₁, users⟩ := create_linked linked found
      simp only [found, bind, Except.bind] at created
      cases ip with
      | none => cases created
      | some i =>
        simp only at created
        split at created
        · cases created
        · rename_i o alloc
          cases created
          refine (linked₁.setFile alloc _).growUser (fun u' proc => ?_)
            fun low => absurd past (Nat.not_lt.mpr low)
          have same : s₁.proc c = some u' := proc
          rw [users.proc, vacant] at same
          cases same

theorem fork_linked (forked : s.fork u c = .ok s') : Linked put s' := by
  unfold fork at forked
  split at forked
  · cases forked
  · rename_i vacant
    have linked₁ : Linked put (nextPid s c) :=
      linked.users rfl (fun _ used => .inl used) (fun _ mem => mem) linked.early
    simp only at forked
    split at forked
    · rename_i past
      exact createSwapFile_linked linked₁ vacant past forked
    · cases forked
      refine linked₁.growUser (fun u' proc => ?_) fun _ => rfl
      cases vacant.symm.trans proc

theorem sysChdir_linked (proc : s.proc p = some u) (changed : s.sysChdir p u path = .ok (r, s')) :
    Linked put s' := by
  unfold sysChdir at changed
  cases found : s.namei u.cwd path with
  | error e => simp [found, bind, Except.bind] at changed
  | ok result =>
    simp only [found, bind, Except.bind] at changed
    split at changed
    · cases changed
      exact linked
    · split at changed
      · cases changed
      · cases changed
        refine (linked.dropUser proc (fun _ mem => mem_cons_of_mem _ mem) (fun i uses => ?_)
          ?_).iput
        · obtain here | files := uses
          · exact .inr (here ▸ mem_cons_self)
          · exact .inl ⟨_, rfl, .inr files⟩
        · rintro _ ⟨⟩
          exact ⟨rfl, .inl rfl⟩
      · cases changed
        exact linked.iput_self _

theorem sysClose_linked (proc : s.proc p = some u) {fd : Nat}
    (closed : s.sysClose p u fd = .ok (r, s')) : Linked put s' := by
  unfold sysClose at closed
  split at closed
  · cases closed
    exact linked
  · rename_i o atFd
    cases closed
    refine (linked.dropUser proc (fun _ mem => mem_cons_of_mem _ mem) (fun i uses => ?_) ?_).iput
    · obtain here | ⟨o', mem, here⟩ | swap := uses
      · exact .inl ⟨_, rfl, .inl here⟩
      · by_cases same : o' = o
        · exact .inr (here ▸ same ▸ mem_cons_self)
        · refine .inl ⟨_, rfl, .inr (.inl ⟨o', ?_, here⟩)⟩
          obtain ⟨k, at'⟩ := mem_iff_getElem?.mp mem
          refine mem_eraseIdx_iff_getElem?.mpr ⟨k, ?_, at'⟩
          rintro rfl
          exact same (Option.some.inj (at'.symm.trans atFd))
      · exact .inl ⟨_, rfl, .inr (.inr swap)⟩
    · rintro _ ⟨⟩
      exact ⟨rfl, .inl rfl⟩

omit linked in
theorem sameUsers_foldl_iput (files : List Nat) (s : State) :
    SameUsers s (files.foldl (fun s o => s.iput (s.ftable o).ip) s) := by
  induction files generalizing s with
  | nil => exact ⟨rfl, rfl, rfl, rfl⟩
  | cons o files ih =>
    rw [foldl_cons]
    exact (sameUsers_iput s _).trans (ih _)

theorem closeFiles_linked (proc : s.proc p = some u) :
    Linked put (s.closeFiles p u) := by
  refine Linked.foldl_iput u.ofile (linked.dropUser proc
    (fun _ mem => mem_append_right _ mem) (fun i uses => ?_)
    fun | _, rfl => ⟨rfl, .inl rfl⟩)
  obtain here | ⟨o, mem, here⟩ | swap := uses
  · exact .inl ⟨_, rfl, .inl here⟩
  · exact .inr (mem_append_left _ (mem_map.mpr ⟨o, mem, here⟩))
  · exact .inl ⟨_, rfl, .inr (.inr swap)⟩

end Calls

/-- Some inodes without links have been freed. -/
def Freed (s t : State) : Prop :=
  ∀ j, t.inode j = s.inode j ∨ t.inode j = none ∧ ∃ n, s.inode j = some n ∧ n.nlink = 0

theorem Freed.iput (freed : Freed s t) (i : Nat) : Freed s (t.iput i) := by
  intro j
  unfold State.iput
  split
  · exact freed j
  · rename_i n value
    split
    · rename_i gone
      by_cases here : j = i
      · subst here
        refine .inr ⟨by simp [setInode], n, ?_, gone.1⟩
        obtain same | ⟨none, _⟩ := freed j
        · exact same ▸ value
        · simp [none] at value
      · rw [setInode_of_ne here]
        exact freed j
    · exact freed j

theorem Freed.foldl_iput (files : List Nat) (freed : Freed s t) :
    Freed s (files.foldl (fun s o => s.iput (s.ftable o).ip) t) := by
  induction files generalizing t with
  | nil => exact freed
  | cons o files ih =>
    rw [foldl_cons]
    exact ih (freed.iput _)

theorem Freed.dir (freed : Freed s t) (graph : Graph s.inode) {d : Nat}
    (dir : s.inode d = some ⟨nlink, .dir slots⟩) :
    t.inode d = some ⟨nlink, .dir slots⟩ := by
  obtain same | ⟨-, n, value, unlinked⟩ := freed d
  · rw [same, dir]
  · cases dir.symm.trans value
    exact absurd unlinked (graph.dir_linked dir)

theorem nameiparent_swapPath_take (root : s.inode ROOTINO = some ⟨nlink, .dir slots⟩)
    (pid cwd : Nat) :
    s.nameiparent cwd (swapPath pid) = .ok (some (ROOTINO, (swapName pid).take DIRSIZ)) := by
  have start : (if (swapPath pid).head? = some '/' then ROOTINO else cwd) = ROOTINO := rfl
  simp only [nameiparent, namex, start, namexLoop, skipelem_swapPath_take, root, and_self, if_true]

/-- Directories stay, and so does what `removeSwapFile` would remove. -/
theorem Freed.removes (freed : Freed s t) (graph : Graph s.inode) (cwd pid : Nat) :
    t.removes cwd (swapPath pid) = s.removes cwd (swapPath pid) := by
  obtain ⟨slots, ⟨nlink, root⟩, _⟩ := graph.root
  have root' := freed.dir graph root
  unfold State.removes
  rw [nameiparent_swapPath_take root, nameiparent_swapPath_take root']
  simp only [root, root', removesIn]
  split
  · rfl
  · cases dirlookup slots ((swapName pid).take DIRSIZ) with
    | none => rfl
    | some ip =>
      simp only
      match value : s.inode ip with
      | some ⟨nlink, .dir inner⟩ => rw [freed.dir graph value]
      | none | some ⟨_, .file _⟩ | some ⟨_, .dev _ _⟩ =>
        obtain same | ⟨none, _⟩ := freed ip
        · rw [same, value]
        · rw [none]

/-- The call removes no directory that somebody else uses. -/
def Quiet (s : State) (a : Fin NPROC × State.Op) : Prop :=
  ∀ u, s.proc a.1 = some u →
    match a.2 with
    | .call (.unlink path) => ∀ x, s.removes u.cwd path = some x → s.inodeUsed x = false
    | .call .exit => 2 < u.pid → ∀ x, s.removes u.cwd (swapPath u.pid) = some x →
        (s.setProc a.1 none).inodeUsed x = false
    | _ => True

theorem Removed.dropUser (removed : Removed put x s) (more : ∀ i ∈ put, i ∈ put')
    (drops : ∀ u, s.proc p = some u → ∀ i, Uses s u i → i ∈ put') :
    Removed put' x (s.setProc p none) where
  graph := removed.graph
  small := removed.small
  dir := removed.dir
  kept i n ne value unlinked := by
    obtain used | mem := removed.kept i n ne value unlinked
    · obtain other | ⟨u, proc, uses⟩ := used_setProc p none used
      · exact .inl other
      · exact .inr (drops u proc i uses)
    · exact .inr (more i mem)
  early q u proc := by
    by_cases here : q = p
    · simp [setProc, here] at proc
    · exact removed.early q u (by simpa [setProc, here] using proc)

/-- Who else uses an inode depends on the other processes only. -/
theorem inodeUsed_without (others : ∀ q, q ≠ p → t.proc q = s.proc q) (ftable : t.ftable = s.ftable)
    (i : Nat) :
    (t.setProc p none).inodeUsed i = (s.setProc p none).inodeUsed i := by
  have same : (t.setProc p none).proc = (s.setProc p none).proc := by
    funext q
    by_cases here : q = p
    · simp [setProc, here]
    · simp [setProc, here, others q here]
  unfold State.inodeUsed
  rw [same]
  simp only [setProc, ftable]

/-- A directory that only the exiting process is in goes with it. -/
theorem exitRemoved (linked : Linked [] t)
    (here : t.proc p = some { u with ofile := [], swapFile := none })
    (others : ∀ q, q ≠ p → t.proc q = s.proc q) (ftable : t.ftable = s.ftable) (past : 2 < u.pid)
    (removes : t.removes u.cwd (swapPath u.pid) = s.removes u.cwd (swapPath u.pid))
    (exited : (do
      let (result, t) ← t.unlink u.cwd (swapPath u.pid)
      if result = -1 then .error .exitFailedToRemoveSwapFile
      else .ok ((t.setProc p none).iput u.cwd)) = Except.ok s') :
    (2 < u.pid → ∀ x, s.removes u.cwd (swapPath u.pid) = some x →
        (s.setProc p none).inodeUsed x = false) ∧ Linked [] s' ∨
      (2 < u.pid ∧ ∃ x, s.removes u.cwd (swapPath u.pid) = some x ∧
        (s.setProc p none).inodeUsed x = true) ∧ ¬ LinksCounted s' := by
  cases unlinked : t.unlink u.cwd (swapPath u.pid) with
  | error e => simp [unlinked, bind, Except.bind] at exited
  | ok result =>
    obtain ⟨r, t₁⟩ := result
    simp only [unlinked, bind, Except.bind] at exited
    split at exited
    · cases exited
    · cases exited
      have ⟨users, outcome⟩ := unlink_linked linked unlinked
      have here₁ : t₁.proc p = some { u with ofile := [], swapFile := none } := users.proc ▸ here
      have others₁ : ∀ q, q ≠ p → t₁.proc q = s.proc q := users.proc ▸ others
      have onlyCwd : ∀ i, Uses t₁ { u with ofile := [], swapFile := none } i → u.cwd = i := by
        intro i uses
        obtain cwd | ⟨_, mem, _⟩ | ⟨_, file, _⟩ := uses
        · exact cwd
        · cases mem
        · cases file
      have without := inodeUsed_without others₁ (users.ftable.trans ftable)
      obtain ⟨quiet, linked₁⟩ | ⟨x, target, busy, removed⟩ := outcome
      · refine .inl ⟨fun _ x target => ?_, ?_⟩
        · have unused := quiet x (removes.trans target)
          by_contra used
          rw [Bool.not_eq_false, ← without] at used
          have used := used_of_setProc used
          rw [users.inodeUsed, unused] at used
          cases used
        · refine (linked₁.dropUser (v := none) here₁ (fun _ mem => absurd mem not_mem_nil)
            (fun i uses => ?_) nofun).iput
          exact .inr (onlyCwd i uses ▸ mem_cons_self)
      · have gone : Removed [u.cwd] x (t₁.setProc p none) := by
          refine removed.dropUser (fun _ mem => absurd mem not_mem_nil) fun v proc i uses => ?_
          cases here₁.symm.trans proc
          exact onlyCwd i uses ▸ mem_cons_self
        rw [removes] at target
        by_cases used : (s.setProc p none).inodeUsed x = true
        · refine .inr ⟨⟨past, x, target, used⟩, (gone.iput ?_).broken⟩
          rwa [without]
        · have unused : (s.setProc p none).inodeUsed x = false := by simpa using used
          have isCwd : u.cwd = x := by
            obtain other | ⟨v, proc, uses⟩ := used_setProc p none (users.inodeUsed x ▸ busy)
            · rw [without] at other
              exact absurd other used
            · cases here₁.symm.trans proc
              exact onlyCwd x uses
          refine .inl ⟨fun _ x' target' => ?_, ?_⟩
          · cases target.symm.trans target'
            exact unused
          · rw [isCwd] at gone ⊢
            exact gone.freed (by rwa [without])

/-- The files go first, then the swap file, then the current directory. -/
theorem exit_linked (linked : Linked [] s) (proc : s.proc p = some u)
    (exited : s.exit p u = .ok s') :
    (2 < u.pid → ∀ x, s.removes u.cwd (swapPath u.pid) = some x →
        (s.setProc p none).inodeUsed x = false) ∧ Linked [] s' ∨
      (2 < u.pid ∧ ∃ x, s.removes u.cwd (swapPath u.pid) = some x ∧
        (s.setProc p none).inodeUsed x = true) ∧ ¬ LinksCounted s' := by
  unfold exit at exited
  split at exited
  · cases exited
  · have closed := closeFiles_linked linked proc
    have users := sameUsers_foldl_iput u.ofile (s.setProc p (some { u with ofile := [] }))
    change SameUsers _ (s.closeFiles p u) at users
    have freed : Freed s (s.closeFiles p u) := Freed.foldl_iput u.ofile (fun j => .inl rfl)
    generalize s.closeFiles p u = t at exited closed users freed
    have here : t.proc p = some { u with ofile := [] } := by
      rw [users.proc]
      simp [setProc]
    have others : ∀ q, q ≠ p → t.proc q = s.proc q := fun q self => by
      rw [users.proc]
      simp [setProc, self]
    have ftable : t.ftable = s.ftable := users.ftable
    unfold exitClosed at exited
    split at exited
    · rename_i past
      have past : 2 < u.pid := past
      unfold removeSwapFile at exited
      cases file : u.swapFile with
      | none => simp [file, bind, Except.bind] at exited
      | some o =>
        simp only [file] at exited
        have dropped : Linked [] ((t.setProc p (some { u with ofile := [], swapFile := none })).iput
            (t.ftable o).ip) := by
          refine (closed.dropUser here (fun _ mem => absurd mem not_mem_nil)
            (fun i uses => ?_) ?_).iput
          · obtain cwd | ⟨_, mem, _⟩ | ⟨o', isO, at'⟩ := uses
            · exact .inl ⟨_, rfl, .inl cwd⟩
            · cases mem
            · cases isO.symm.trans file
              exact .inr (at' ▸ mem_cons_self)
          · rintro _ ⟨⟩
            exact ⟨rfl, .inr rfl⟩
        have users₁ := sameUsers_iput (t.setProc p (some { u with ofile := [], swapFile := none }))
          (t.ftable o).ip
        have freed₁ := Freed.iput
          (t := t.setProc p (some { u with ofile := [], swapFile := none })) freed (t.ftable o).ip
        generalize (t.setProc p (some { u with ofile := [], swapFile := none })).iput
          (t.ftable o).ip = t₁ at exited dropped users₁ freed₁
        have removes := freed₁.removes linked.graph u.cwd u.pid
        have others₁ : ∀ q, q ≠ p → t₁.proc q = s.proc q := fun q self => by
          rw [users₁.proc]
          simp [setProc, self, others q self]
        have here₁ : t₁.proc p = some { u with ofile := [], swapFile := none } := by
          rw [users₁.proc]
          simp [setProc]
        exact exitRemoved dropped here₁ others₁ (users₁.ftable.trans ftable) past removes exited
    · rename_i early
      have early : ¬ 2 < u.pid := early
      cases exited
      refine .inl ⟨fun past => absurd past early, ?_⟩
      refine (closed.dropUser (v := none) here (fun _ mem => absurd mem not_mem_nil)
        (fun i uses => ?_) (by simp)).iput
      obtain cwd | ⟨_, mem, _⟩ | ⟨o, file, _⟩ := uses
      · exact .inr (cwd ▸ mem_cons_self)
      · cases mem
      · have none : u.swapFile = none := linked.early p u proc (Nat.not_lt.mp early)
        cases none.symm.trans file

theorem operate_linked (linked : Linked [] s) {a : Fin NPROC × State.Op}
    (done : s.operate a = .ok s') :
    Quiet s a ∧ Linked [] s' ∨ ¬ Quiet s a ∧ ¬ LinksCounted s' := by
  obtain ⟨p, op⟩ := a
  unfold operate step at done
  unfold Quiet
  cases proc : s.proc p with
  | none =>
    simp only [proc] at done
    cases op <;> cases done
  | some u =>
    simp only [proc] at done
    simp only [Option.some.injEq, forall_eq']
    cases op with
    | chdir path =>
      obtain ⟨r, done⟩ := map_snd_ok done
      exact .inl ⟨trivial, sysChdir_linked linked proc done⟩
    | close fd =>
      obtain ⟨r, done⟩ := map_snd_ok done
      exact .inl ⟨trivial, sysClose_linked linked proc done⟩
    | call call =>
      cases call with
      | openFile path creates mode =>
        obtain ⟨r, done⟩ := map_snd_ok done
        exact .inl ⟨trivial, sysOpen_linked linked proc done⟩
      | write fd src n =>
        obtain ⟨r, done⟩ := map_snd_ok done
        exact .inl ⟨trivial, sysWrite_linked linked done⟩
      | unlink path =>
        obtain ⟨r, done⟩ := map_snd_ok done
        obtain quiet | ⟨x, target, busy, removed⟩ := (unlink_linked linked done).2
        · exact .inl quiet
        · refine .inr ⟨fun quiet => ?_, removed.broken⟩
          simp [quiet x target] at busy
      | link old new =>
        obtain ⟨r, done⟩ := map_snd_ok done
        exact .inl ⟨trivial, sysLink_linked linked done⟩
      | mkdir path | mknod path _ _ =>
        obtain ⟨r, done⟩ := map_snd_ok done
        exact .inl ⟨trivial, sysMake_linked linked done⟩
      | fork c => exact .inl ⟨trivial, fork_linked linked done⟩
      | pageOut slot page => exact .inl ⟨trivial, pageOut_linked linked done⟩
      | pageIn slot =>
        cases done
        exact .inl ⟨trivial, linked⟩
      | exit =>
        obtain quiet | ⟨⟨past, x, target, busy⟩, broken⟩ := exit_linked linked proc done
        · exact .inl quiet
        · refine .inr ⟨fun quiet => ?_, broken⟩
          simp [quiet past x target] at busy

/-- The image with only the root directory; no process has a swap file yet. -/
structure Blank (s : State) : Prop where
  root : s.inode ROOTINO = some ⟨1, .dir (dots ROOTINO ROOTINO)⟩
  only : ∀ i, i ≠ ROOTINO → s.inode i = none
  old : ∀ p u, s.proc p = some u → u.swapFile = none

theorem Blank.linked (blank : Blank s) : Linked [] s := by
  have inode : s.inode = update (fun _ => none) ROOTINO
      (some ⟨1, .dir (dots ROOTINO ROOTINO)⟩) := by
    funext i
    by_cases here : i = ROOTINO
    · rw [here, blank.root, update_self]
    · rw [blank.only i here, update_of_ne here]
  have count : ∀ count : Slots → Nat, count [] = 0 →
      total count s.inode = count (dots ROOTINO ROOTINO) := by
    intro count none
    have zero : total count (fun _ => Option.none) = 0 := Finset.sum_eq_zero fun _ _ => none
    have one := total_update count (fun _ => Option.none) (d := ROOTINO) (by decide)
      (some ⟨1, .dir (dots ROOTINO ROOTINO)⟩)
    rw [← inode, zero] at one
    simpa [slotsOf, none] using one
  have isDir : ∀ d slots, IsDir s.inode d slots → d = ROOTINO ∧ slots = dots ROOTINO ROOTINO := by
    rintro d slots ⟨nlink, dir⟩
    by_cases here : d = ROOTINO
    · rw [here, blank.root] at dir
      cases dir
      exact ⟨here, rfl⟩
    · simp [blank.only d here] at dir
  refine ⟨⟨?_, ?_, ?_, ?_, ?_, ?_⟩, ?_, fun p u proc _ => blank.old p u proc⟩
  · intro i some
    have here : i = ROOTINO := Classical.byContradiction fun ne => some (blank.only i ne)
    exact here ▸ ⟨by decide, by decide⟩
  · intro d slots dir
    obtain ⟨rfl, rfl⟩ := isDir d slots dir
    exact ⟨ROOTINO, [], rfl, by decide, by simp, by simp, by simp⟩
  · intro d slots dir
    obtain ⟨rfl, rfl⟩ := isDir d slots dir
    rw [count _ rfl]
    rfl
  · exact ⟨_, ⟨1, blank.root⟩, rfl⟩
  · intro i n value
    have here : i = ROOTINO := Classical.byContradiction fun ne => by simp [blank.only i ne] at value
    rw [here, blank.root] at value
    cases value
    rw [here, count _ rfl]
    rfl
  · intro i pos none
    have ne : i ≠ ROOTINO := fun here => by simp [here, blank.root] at none
    rw [count _ rfl]
    simp [linksIn, dots, leadsTo, Ne.symm ne]
  · intro i n value unlinked
    have here : i = ROOTINO := Classical.byContradiction fun ne => by simp [blank.only i ne] at value
    rw [here, blank.root] at value
    cases value
    cases unlinked

/-- Steps that remove no directory in use. -/
def QuietStep (s : State) (a : Fin NPROC × State.Op) (s' : State) : Prop :=
  Quiet s a ∧ s.operate a = .ok s'

/-- From the image with only the root directory, `nlink` counts the entries that lead to an inode
and what has no links and no users is free, as long as no directory is removed while
somebody uses it; the first such removal breaks it. -/
theorem links_counted_iff_quiet {s s' : State} {as : List (Fin NPROC × State.Op)} (blank : Blank s)
    (run : Lts.Run QuietStep s as s') :
    LinksCounted s' ∧
      ∀ a s'', s'.operate a = .ok s'' → (LinksCounted s'' ↔ Quiet s' a) := by
  have linked : Linked [] s' := by
    refine run.invariant (I := Linked []) (fun s a s' linked last => ?_) blank.linked
    obtain ⟨_, linked'⟩ | ⟨loud, _⟩ := operate_linked linked last.2
    · exact linked'
    · exact absurd last.1 loud
  refine ⟨linked.linksCounted, fun a s'' done => ?_⟩
  obtain ⟨quiet, linked'⟩ | ⟨loud, broken⟩ := operate_linked linked done
  · exact ⟨fun _ => quiet, fun _ => linked'.linksCounted⟩
  · exact ⟨fun counted => absurd counted broken, fun quiet => absurd quiet loud⟩

theorem atBoot_blank : Blank atBoot where
  root := rfl
  only _ ne := if_neg ne
  old p u proc := by
    obtain ⟨_, rfl⟩ | ⟨_, rfl⟩ := atBoot_proc proc <;> rfl

/-- The shell makes a directory, goes into it and comes back, and removes it. -/
theorem links_counted_sample :
    ∃ s', Lts.Run QuietStep atBoot [(1, .call (.mkdir ['a'])), (1, .chdir ['a']), (1, .chdir ['/']),
      (1, .call (.unlink ['a']))] s' ∧ LinksCounted s' := by
  obtain ⟨s', run⟩ : ∃ s', Lts.Run QuietStep atBoot [(1, .call (.mkdir ['a'])), (1, .chdir ['a']),
      (1, .chdir ['/']), (1, .call (.unlink ['a']))] s' := by
    refine ⟨_, .cons ⟨fun _ _ => trivial, rfl⟩ (.cons ⟨fun _ _ => trivial, rfl⟩
      (.cons ⟨fun _ _ => trivial, rfl⟩ (.cons ⟨fun u proc x target => ?_, rfl⟩ (.nil _))))⟩
    cases proc
    cases target
    rfl
  exact ⟨s', run, (links_counted_iff_quiet atBoot_blank run).1⟩

/-- A device is made in a current directory that has been removed. When the shell leaves, the directory
and with it the only entry for the device are gone, and the device stays with one link. -/
theorem links_miscounted :
    ∃ s, [(1, .call (.mkdir ['a'])), (1, .chdir ['a']), (1, .call (.unlink ['/', 'a'])),
        (1, .call (.mknod ['f'] 1 1)), (1, .chdir ['/'])].foldlM State.operate atBoot = .ok s ∧
      (∃ n, s.inode 3 = some n ∧ n.nlink = 1) ∧ s.links 3 = 0 ∧ s.inodeUsed 3 = false ∧
      ¬ LinksCounted s := by
  have found : ∃ s, [(1, .call (.mkdir ['a'])), (1, .chdir ['a']), (1, .call (.unlink ['/', 'a'])),
        (1, .call (.mknod ['f'] 1 1)), (1, .chdir ['/'])].foldlM State.operate atBoot = .ok s ∧
      ∃ n, s.inode 3 = some n ∧ n.nlink = 1 ∧ s.links 3 = 0 ∧ s.inodeUsed 3 = false :=
    ⟨_, rfl, _, rfl, rfl, by decide +kernel, rfl⟩
  obtain ⟨s, done, n, value, one, none, unused⟩ := found
  refine ⟨s, done, ⟨n, value, one⟩, none, unused, fun good => ?_⟩
  have counted := good.counted 3 n value
  omega

end Xv6.Fs
