import Xv6.Library.Ledger
import Xv6.System.BlockOwnership
import Xv6.System.FileCalls
import Xv6.System.PathReferences

/-!
Inode references balance over whole calls.

An open file and a current directory hold one reference each. While a call runs, the references of
the current directories stay, those of the files follow the table of files, and the rest is what
the call itself holds; at its end it holds nothing.
-/

namespace Xv6.Inodes

open Function List Outcome Sys
open Fs (Path)

/-- The reference of an open file. -/
def OpenFile.handle (v : OpenFile) (e : Fin NINODE) : Nat :=
  if 0 < v.ref ∧ v.type = .FD_INODE ∧ v.ip = e then 1 else 0

/-- The reference of a current directory. -/
def Proc.handle (u : Proc) (e : Fin NINODE) : Nat := if u.cwd = some e then 1 else 0

namespace Sys

def files (s : Sys) (e : Fin NINODE) : Nat := ∑ f, (s.ftable f).handle e

def cwds (s : Sys) (e : Fin NINODE) : Nat := ∑ p, (s.proc p).handle e

/-- The handles on an inode in open files, swap files and current directories. -/
def handles (s : Sys) (e : Fin NINODE) : Nat := s.files e + s.cwds e

end Sys

/-- What a call does not change of a process. -/
def Proc.label (u : Proc) : Bool × Pid × Option (Fin NINODE) := (u.used, u.pid, u.cwd)

/-- A call under way. -/
structure Holds (stay : Fin NINODE → Nat) (locked : Fin NINODE → Option Pid) (me : Pid)
    (procs : Fin NPROC → Bool × Pid × Option (Fin NINODE)) (refs locks : List (Fin NINODE))
    (s : Sys) : Prop where
  held : Held (fun e => s.files e + stay e) locked me refs locks s.fs
  closed : ∀ f, (s.ftable f).ref = 0 → (s.ftable f).type = .FD_NONE
  procs : ∀ p, (s.proc p).label = procs p

variable {s : Sys}

section Holding

variable {stay : Fin NINODE → Nat} {locked : Fin NINODE → Option Pid} {me : Pid}
  {procs : Fin NPROC → Bool × Pid × Option (Fin NINODE)} {refs locks : List (Fin NINODE)} {s : Sys}

variable {refs' : List (Fin NINODE)} {count : Fin NINODE → Nat} {locks' : List (Fin NINODE)}
  {α : Type} {f : Fin NFILE} {v : OpenFile} {p : Fin NPROC} {cwd ip : Fin NINODE}

theorem Held.recount {count' : Fin NINODE → Nat} {refs : List (Fin NINODE)} {s : State}
    (h : Held count locked me refs locks s)
    (same : ∀ e, count e + refs.count e = count' e + refs'.count e) :
    Held count' locked me refs' locks s := by
  refine ⟨h.unique, fun e => ?_, h.lock, h.free, h.nodup⟩
  rw [h.ref]
  exact_mod_cast same e

/-- References change hands between the call and the processes. -/
theorem Holds.recount {stay' : Fin NINODE → Nat} (h : Holds stay locked me procs refs locks s)
    (same : ∀ e, stay e + refs.count e = stay' e + refs'.count e) :
    Holds stay' locked me procs refs' locks s :=
  ⟨h.held.recount fun e => by have := same e; omega, h.closed, h.procs⟩

theorem Holds.setFs {fs : State} (h : Holds stay locked me procs refs locks s)
    (held : Held (fun e => s.files e + stay e) locked me refs' locks' fs) :
    Holds stay locked me procs refs' locks' { s with fs } :=
  ⟨held, h.closed, h.procs⟩

theorem onFs_holds {x : Except Stop (α × State)} (refs' locks' : α → List (Fin NINODE))
    (h : Holds stay locked me procs refs locks s)
    (sat : Returns (fun r => Held (fun e => s.files e + stay e) locked me (refs' r.1) (locks' r.1) r.2)
      x) :
    Returns (fun r => Holds stay locked me procs (refs' r.1) (locks' r.1) r.2) (s.onFs x) :=
  sat.bind fun _ held => .ok (h.setFs held)

theorem doFs_holds {x : Except Stop State} (h : Holds stay locked me procs refs locks s)
    (sat : Returns (fun fs => Held (fun e => s.files e + stay e) locked me refs' locks' fs) x) :
    Returns (fun s' => Holds stay locked me procs refs' locks' s') (s.doFs x) :=
  sat.bind fun _ held => .ok (h.setFs held)

theorem doFs_ftable (x : Except Stop State) : Returns (fun s' => s'.ftable = s.ftable) (s.doFs x) :=
  (sat_true x).bind fun _ _ => .ok rfl

section

variable (h : Holds stay locked me procs refs locks s)
include h

/-- A file changes, and its reference comes from the call or goes to it. -/
theorem Holds.setFile
    (same : ∀ e, v.handle e + refs'.count e = (s.ftable f).handle e + refs.count e)
    (closed : v.ref = 0 → v.type = .FD_NONE) :
    Holds stay locked me procs refs' locks (s.setFile f v) := by
  refine ⟨h.held.recount fun e => ?_, fun f' unused => ?_, h.procs⟩
  · have change := Ledger.sum_update (Finset.mem_univ f) (fun v : OpenFile => v.handle e) s.ftable v
    have moved := same e
    simp only [files, Sys.setFile]
    omega
  · by_cases here : f' = f
    · simp only [Sys.setFile, here, update_self] at unused ⊢
      exact closed unused
    · simp only [Sys.setFile, update_of_ne here] at unused ⊢
      exact h.closed f' unused

/-- A file keeps its inode. -/
theorem Holds.moveFile (type : v.type = (s.ftable f).type) (ip : v.ip = (s.ftable f).ip)
    (ref : 0 < v.ref ↔ 0 < (s.ftable f).ref) :
    Holds stay locked me procs refs locks (s.setFile f v) := by
  refine h.setFile (fun e => ?_) fun unused => ?_
  · simp only [OpenFile.handle, type, ip, ref]
  · rw [type]
    exact h.closed f (by omega)

/-- A process gets other files. -/
theorem Holds.setProc {u : Proc} (same : u.label = (s.proc p).label) :
    Holds stay locked me procs refs locks (s.setProc p u) := by
  refine ⟨h.held, h.closed, fun p' => ?_⟩
  by_cases here : p' = p
  · simp only [Sys.setProc, here, update_self]
    rw [same, h.procs]
  · simp only [Sys.setProc, update_of_ne here]
    exact h.procs p'

theorem Holds.setFd (p : Fin NPROC) (fd : Fin NOFILE)
    (f : Option (Fin NFILE)) : Holds stay locked me procs refs locks (s.setFd p fd f) :=
  h.setProc rfl

theorem Holds.pid (isMe : (procs p).2.1 = me) :
    s.pid p = me := by
  rw [← isMe, ← h.procs p]
  rfl

end

/-! Files. -/

section

variable (h : Holds stay locked me procs refs locks s)
include h

theorem filealloc_holds {s' : Sys} (found : s.filealloc = some (f, s')) :
    Holds stay locked me procs refs locks s' ∧ (s'.ftable f).ref = 1 ∧
      (s'.ftable f).type = .FD_NONE := by
  obtain ⟨f', isFree, same⟩ := Option.map_eq_some_iff.mp found
  obtain ⟨rfl, rfl⟩ := Prod.mk.inj same
  have unused : (s.ftable f').ref = 0 := by simpa using find?_some isFree
  have none := h.closed f' unused
  refine ⟨h.setFile (fun e => ?_) nofun, ?_, ?_⟩
  · simp [OpenFile.handle, none]
  · simp [Sys.setFile]
  · simpa [Sys.setFile] using none

theorem filedup_holds (f : Fin NFILE) :
    Returns (fun s' => Holds stay locked me procs refs locks s') (s.filedup f) := by
  unfold filedup
  split
  · exact .error trivial
  · rename_i used
    exact .ok (h.moveFile rfl rfl (by simp only; omega))

/-- The last reference to a file gives up that of the inode. -/
theorem fileclose_holds (f : Fin NFILE) :
    Returns (fun s' => Holds stay locked me procs refs locks s') (s.fileclose me f) := by
  unfold fileclose
  simp only
  split
  · exact .error trivial
  · split
    · exact .ok (h.moveFile rfl rfl (by simp only; omega))
    · rename_i used last
      cases type : (s.ftable f).type with
      | FD_INODE =>
        have dropped : Holds stay locked me procs ((s.ftable f).ip :: refs) locks
            (s.setFile f { s.ftable f with ref := 0, type := .FD_NONE }) := by
          refine h.setFile (fun e => ?_) fun _ => rfl
          have pos : 0 < (s.ftable f).ref := by omega
          simp only [OpenFile.handle, type, pos, true_and, count_cons, beq_iff_eq]
          simp only [Nat.lt_irrefl, false_and, if_false]
          omega
        exact doFs_holds dropped (iput_held dropped.held)
      | FD_PIPE | FD_NONE =>
        refine .ok (h.setFile (fun e => ?_) fun _ => rfl)
        simp [OpenFile.handle, type]

theorem fileread_holds (f : Fin NFILE) (n : Nat) :
    Returns (fun r => Holds stay locked me procs refs locks r.2) (s.fileread me f n) := by
  unfold fileread
  simp only
  split
  · exact .ok h
  · cases type : (s.ftable f).type with
    | FD_NONE | FD_PIPE => exact .error trivial
    | FD_INODE =>
      refine (ilock_held h.held).bind fun fs₁ h₁ => ?_
      refine (readi_held h₁ (mem_cons_self ..) _ _).bind fun ⟨read, fs₂⟩ h₂ => ?_
      refine (iunlock_held h₂).bind fun fs₃ h₃ => .ok ?_
      exact (h.setFs h₃).moveFile type.symm rfl .rfl

end

theorem filewriteLoop_holds (f : Fin NFILE) (fuel : Nat) (src : Nat → UInt8) (n : Nat)
    (h : Holds stay locked me procs refs locks s) :
    Returns (fun r => Holds stay locked me procs refs locks r.2)
      (Sys.filewriteLoop me f fuel s src n) := by
  induction fuel generalizing s src n with
  | zero => exact .ok h
  | succ fuel ih =>
    unfold Sys.filewriteLoop
    split
    · exact .ok h
    · refine (ilock_held h.held).bind fun fs₁ h₁ => ?_
      refine (writei_held h₁ (mem_cons_self ..) _ _ _).bind fun ⟨written, fs₂⟩ h₂ => ?_
      refine (iunlock_held h₂).bind fun fs₃ h₃ => ?_
      cases written with
      | none => exact .ok (h.setFs h₃)
      | some r =>
        simp only
        split
        · exact .error trivial
        · exact ih _ _ ((h.setFs h₃).moveFile rfl rfl .rfl)

theorem filewrite_holds (h : Holds stay locked me procs refs locks s) (f : Fin NFILE)
    (src : Nat → UInt8) (n : Nat) :
    Returns (fun r => Holds stay locked me procs refs locks r.2) (s.filewrite me f src n) := by
  unfold Sys.filewrite
  split
  · exact .ok h
  · cases (s.ftable f).type with
    | FD_NONE | FD_PIPE => exact .error trivial
    | FD_INODE => exact filewriteLoop_holds f n src n h

/-! Swap files. -/

theorem swap_holds (h : Holds stay locked me procs refs locks s) (p : Fin NPROC) (a : Access) :
    Returns (fun r => Holds stay locked me procs refs locks r.2) (s.swap me p a) := by
  unfold Sys.swap
  cases (s.proc p).swapFile with
  | none => exact .error trivial
  | some f =>
    cases a with
    | write placeOnFile buffer =>
      have moved := h.moveFile (f := f) (v := { s.ftable f with off := placeOnFile }) rfl rfl .rfl
      exact (filewrite_holds moved f buffer PGSIZE).bind fun r h' => .ok h'
    | read placeOnFile =>
      have moved := h.moveFile (f := f) (v := { s.ftable f with off := placeOnFile }) rfl rfl .rfl
      exact (fileread_holds moved f PGSIZE).bind fun r h' => .ok h'

theorem Returns.snd {P : Sys → Prop} {x : Except Stop (α × Sys)}
    (sat : Returns (fun r => P r.2) x) : Returns P (Prod.snd <$> x) := by
  cases sat with
  | ok value => exact .ok value
  | error => exact .error trivial

theorem swaps_holds (h : Holds stay locked me procs refs locks s) (isMe : (procs p).2.1 = me)
    (l : List Access) :
    Returns (fun s' => Holds stay locked me procs refs locks s') (s.swaps p l) := by
  refine Sat.foldlM l (fun s' a _ h' => ?_) h
  rw [h'.pid isMe]
  exact Returns.snd (swap_holds h' p a)

/-! Calls that leave the processes where they are. -/

theorem openInode_held {s : State} (h : Held count locked me refs locks s) (here : 0 < count cwd)
    (path : Path) (omode : UInt32) :
    Returns (Made count locked me refs locks) (Sys.openInode s me cwd path omode) := by
  unfold openInode
  split
  · exact create_held h here path _ _ _
  · refine (namei_held h here path).bind fun ⟨there, s₁⟩ h₁ => ?_
    cases there with
    | none => exact .ok h₁
    | some ip =>
      refine (ilock_held h₁).bind fun s₂ h₂ => ?_
      split
      · exact (iunlockput_held h₂).bind fun s₃ h₃ => .ok h₃
      · exact .ok h₂

theorem openBad_holds (h : Holds stay locked me procs [ip] [ip] s) :
    Returns (fun r => Holds stay locked me procs [] [] r.2) (s.openBad me ip) := by
  unfold openBad
  exact (doFs_holds h (iunlockput_held h.held)).bind fun s' h' => .ok h'

/-- A file without an inode takes over the reference. -/
theorem Holds.storeFile (h : Holds stay locked me procs (ip :: refs) locks s)
    (none : (s.ftable f).type = .FD_NONE) (used : 0 < v.ref) (type : v.type = .FD_INODE)
    (isIp : v.ip = ip) :
    Holds stay locked me procs refs locks (s.setFile f v) := by
  refine h.setFile (fun e => ?_) fun unused => by omega
  simp [OpenFile.handle, none, used, type, isIp, count_cons, Nat.add_comm]

theorem createSwapFile_holds (h : Holds stay locked me procs [] [] s) (pos : 0 < stay cwd)
    (np : Fin NPROC) :
    Returns (fun r => Holds stay locked me procs [] [] r.2) (s.createSwapFile me cwd np) := by
  unfold createSwapFile
  have made : Returns (fun r => Held (fun e => s.files e + stay e) locked me r.1.toList r.1.toList
      r.2) (s.fs.create me cwd (Fs.swapPath (s.pid np)) .T_FILE 0 0) := by
    have made := create_held h.held (Nat.add_pos_right (s.files cwd) pos)
      (Fs.swapPath (s.pid np)) .T_FILE 0 0
    exact made.weaken fun _ made => made.alone
  refine (onFs_holds Option.toList Option.toList h made).bind fun ⟨made, s₁⟩ h₁ => ?_
  cases made with
  | none => exact .error trivial
  | some ip =>
    have h₁ : Holds stay locked me procs [ip] [ip] s₁ := h₁
    refine (doFs_holds h₁ (iunlock_held h₁.held)).bind fun s₂ h₂ => ?_
    cases found : s₂.filealloc with
    | none => exact .error trivial
    | some r =>
      obtain ⟨f, s₃⟩ := r
      obtain ⟨h₃, used, none⟩ := filealloc_holds h₂ found
      have h₄ := h₃.setProc (p := np) (u := { s₃.proc np with swapFile := some f }) rfl
      exact .ok (h₄.storeFile none (by simp [Sys.setProc, used]) rfl rfl)

section Calls

variable {p : Fin NPROC} (isMe : (procs p).2.1 = me) {ip : Fin NINODE}
include isMe

omit isMe in
theorem readAll_holds (h : Holds stay locked me procs refs locks s) (mine : ip ∈ locks)
    (off n : Nat) :
    Returns (fun r => Holds stay locked me procs refs locks r.2) (s.readAll me ip off n) := by
  unfold readAll
  have read := onFs_holds (fun _ => refs) (fun _ => locks) h
    (readi_held h.held mine (.ofNat off) (.ofNat n))
  exact read.bind fun r h' => .ok h'

omit isMe in
theorem loaduvmLoop_holds (mine : ip ∈ locks) (fuel off sz : Nat)
    (h : Holds stay locked me procs refs locks s) :
    Returns (fun r => Holds stay locked me procs refs locks r.2)
      (Sys.loaduvmLoop me ip fuel s off sz) := by
  induction fuel generalizing s off sz with
  | zero => exact .ok h
  | succ fuel ih =>
    unfold loaduvmLoop
    split
    · exact .ok h
    · refine (readAll_holds h mine _ _).bind fun ⟨read, s'⟩ h' => ?_
      cases read with
      | none => exact .ok h'
      | some bytes => exact ih _ _ h'

theorem loadSegment_holds (h : Holds stay locked me procs refs locks s) (mine : ip ∈ locks)
    (off : Nat) (answer : UInt32 × List Access) :
    Returns (fun r => Holds stay locked me procs refs locks r.2)
      (s.loadSegment p ip off answer) := by
  unfold loadSegment
  rw [h.pid isMe]
  refine (readAll_holds h mine _ _).bind fun ⟨read, s₁⟩ h₁ => ?_
  cases read with
  | none => exact .ok h₁
  | some bytes =>
    simp only
    split
    · exact .ok h₁
    · split
      · exact .ok h₁
      · refine (swaps_holds h₁ isMe answer.2).bind fun s₂ h₂ => ?_
        split
        · exact .ok h₂
        · rw [h₂.pid isMe]
          exact loaduvmLoop_holds mine _ _ _ h₂

theorem loadSegments_holds (mine : ip ∈ locks) (answers : Answers) (n i off : Nat)
    (h : Holds stay locked me procs refs locks s) :
    Returns (fun r => Holds stay locked me procs refs locks r.2)
      (Sys.loadSegments p ip answers n s i off) := by
  induction n generalizing s i off with
  | zero => exact .ok h
  | succ n ih =>
    unfold loadSegments
    refine (loadSegment_holds isMe h mine _ _).bind fun ⟨loaded, s'⟩ h' => ?_
    simp only
    split
    · exact ih _ _ h'
    · exact .ok h'

theorem load_holds (h : Holds stay locked me procs refs locks s) (mine : ip ∈ locks)
    (answers : Answers) :
    Returns (fun r => Holds stay locked me procs refs locks r.2) (s.load p ip answers) := by
  unfold load
  rw [h.pid isMe]
  refine (readAll_holds h mine _ _).bind fun ⟨read, s'⟩ h' => ?_
  cases read with
  | none => exact .ok h'
  | some bytes =>
    simp only
    split
    · exact .ok h'
    · exact loadSegments_holds isMe mine answers _ _ _ h'

theorem execStack_holds (h : Holds stay locked me procs refs locks s) (answers : Answers) :
    Returns (fun r => Holds stay locked me procs refs locks r.2) (s.execStack p answers) := by
  unfold execStack
  refine (swaps_holds h isMe _).bind fun s₁ h₁ => ?_
  split
  · exact .ok h₁
  · exact (swaps_holds h₁ isMe _).bind fun s₂ h₂ => .ok h₂

variable (stays : ∀ e, (procs p).2.2 = some e → 0 < stay e)
include stays

omit isMe in
/-- The current directory has a reference that stays. -/
theorem cwd_holds (h : Holds stay locked me procs refs locks s) :
    Returns (fun cwd => 0 < stay cwd ∧ (procs p).2.2 = some cwd) (s.cwd p) := by
  unfold cwd
  split
  · exact .error trivial
  · rename_i ip value
    have isCwd : (procs p).2.2 = some ip := by
      rw [← h.procs p]
      exact value
    exact .ok ⟨stays ip isCwd, isCwd⟩

section

variable (h : Holds stay locked me procs [] [] s)
include h

theorem atInodes_holds {f : State → Pid → Fin NINODE → Except Stop (Int × State)}
    (sat : ∀ cwd, 0 < s.files cwd + stay cwd →
      Returns (fun r => Held (fun e => s.files e + stay e) locked me [] [] r.2) (f s.fs me cwd)) :
    Returns (fun r => Holds stay locked me procs [] [] r.2) (s.atInodes p f) := by
  unfold atInodes
  refine (cwd_holds stays h).bind fun cwd ⟨pos, _⟩ => ?_
  rw [h.pid isMe]
  exact onFs_holds (fun _ => []) (fun _ => []) h (sat cwd (by omega))

theorem sysOpen_holds (path : Path) (omode : UInt32) :
    Returns (fun r => Holds stay locked me procs [] [] r.2) (s.sysOpen p path omode) := by
  unfold sysOpen
  refine (cwd_holds stays h).bind fun cwd ⟨pos, _⟩ => ?_
  rw [h.pid isMe]
  have opened : Returns (fun r => Held (fun e => s.files e + stay e) locked me r.1.toList r.1.toList
      r.2) (openInode s.fs me cwd path omode) := by
    have opened := openInode_held h.held (Nat.add_pos_right (s.files cwd) pos) path omode
    exact opened.weaken fun _ made => made.alone
  refine (onFs_holds Option.toList Option.toList h opened).bind fun ⟨made, s₁⟩ h₁ => ?_
  cases made with
  | none => exact .ok h₁
  | some ip =>
    have h₁ : Holds stay locked me procs [ip] [ip] s₁ := h₁
    simp only [h₁.pid isMe]
    cases found : s₁.filealloc with
    | none => exact openBad_holds h₁
    | some r =>
      obtain ⟨f, s₂⟩ := r
      obtain ⟨h₂, used, none⟩ := filealloc_holds h₁ found
      simp only [h₂.pid isMe]
      cases fdalloc (s₂.proc p) with
      | none =>
        refine (fileclose_holds h₂ f).bind fun s₃ h₃ => ?_
        rw [h₃.pid isMe]
        exact openBad_holds h₃
      | some fd =>
        have h₃ := h₂.setFd p fd (some f)
        simp only [h₃.pid isMe]
        have unlocked := (doFs_holds h₃ (iunlock_held h₃.held)).and (doFs_ftable _)
        refine unlocked.bind fun s₄ ⟨h₄, ftable⟩ => .ok ?_
        exact h₄.storeFile (ftable ▸ none) (by simp [ftable, Sys.setFd, Sys.setProc, used])
          rfl rfl

theorem removeSwapFile_holds :
    Returns (fun r => Holds stay locked me procs [] [] r.2) (s.removeSwapFile p) := by
  unfold removeSwapFile
  cases (s.proc p).swapFile with
  | none => exact .ok h
  | some f =>
    refine (cwd_holds stays h).bind fun cwd ⟨pos, _⟩ => ?_
    rw [h.pid isMe]
    refine (fileclose_holds h f).bind fun s₁ h₁ => ?_
    rw [h₁.pid isMe]
    exact onFs_holds (fun _ => []) (fun _ => []) h₁
      (unlink_held h₁.held (Nat.add_pos_right (s₁.files cwd) pos) _)

theorem exec_holds (path : Path) (answers : Answers) :
    Returns (fun r => Holds stay locked me procs [] [] r.2) (s.exec p path answers) := by
  unfold exec
  refine (cwd_holds stays h).bind fun cwd ⟨pos, _⟩ => ?_
  rw [h.pid isMe]
  have named : Returns (fun r => Held (fun e => s.files e + stay e) locked me r.1.toList [] r.2)
      (s.fs.namei me cwd path) := by
    have named := namei_held h.held (Nat.add_pos_right (s.files cwd) pos) path
    simpa only [append_nil] using named
  refine (onFs_holds Option.toList (fun _ => []) h named).bind fun ⟨there, s₁⟩ h₁ => ?_
  cases there with
  | none => exact .ok h₁
  | some ip =>
    have h₁ : Holds stay locked me procs [ip] [] s₁ := h₁
    simp only [h₁.pid isMe]
    refine (doFs_holds h₁ (ilock_held h₁.held)).bind fun s₂ h₂ => ?_
    refine (load_holds isMe h₂ (mem_singleton_self ip) answers).bind fun ⟨loaded, s₃⟩ h₃ => ?_
    simp only [h₃.pid isMe]
    refine (doFs_holds h₃ (iunlockput_held h₃.held)).bind fun s₄ h₄ => ?_
    split
    · exact execStack_holds isMe h₄ answers
    · exact .ok h₄

end

end Calls

theorem sysDup_holds (h : Holds stay locked me procs refs locks s) (p : Fin NPROC)
    (fd : Fin NOFILE) :
    Returns (fun r => Holds stay locked me procs refs locks r.2) (s.sysDup p fd) := by
  unfold sysDup
  cases (s.proc p).ofile fd with
  | none => exact .ok h
  | some f =>
    cases fdalloc (s.proc p) with
    | none => exact .ok h
    | some fd' => exact (filedup_holds (h.setFd p fd' (some f)) f).bind fun s' h' => .ok h'

theorem sysClose_holds (h : Holds stay locked me procs refs locks s) (isMe : (procs p).2.1 = me)
    (fd : Fin NOFILE) :
    Returns (fun r => Holds stay locked me procs refs locks r.2) (s.sysClose p fd) := by
  unfold sysClose
  rw [h.pid isMe]
  cases (s.proc p).ofile fd with
  | none => exact .ok h
  | some f => exact (fileclose_holds (h.setFd p fd none) f).bind fun s' h' => .ok h'

/-! Calls that move a process. -/

/-- The handles of current directories. -/
def cwdsOf (procs : Fin NPROC → Bool × Pid × Option (Fin NINODE)) (e : Fin NINODE) : Nat :=
  ∑ p, if (procs p).2.2 = some e then 1 else 0

theorem Holds.cwds (h : Holds stay locked me procs refs locks s) (e : Fin NINODE) :
    s.cwds e = cwdsOf procs e := by
  refine Finset.sum_congr rfl fun p _ => ?_
  rw [← h.procs p]
  rfl

theorem cwdsOf_update (procs : Fin NPROC → Bool × Pid × Option (Fin NINODE)) (p : Fin NPROC)
    (l : Bool × Pid × Option (Fin NINODE)) (e : Fin NINODE) :
    cwdsOf (update procs p l) e + (if (procs p).2.2 = some e then 1 else 0) =
      cwdsOf procs e + if l.2.2 = some e then 1 else 0 :=
  Ledger.sum_update (Finset.mem_univ p)
    (fun l : Bool × Pid × Option (Fin NINODE) => if l.2.2 = some e then 1 else 0) procs l

theorem Holds.relabel (h : Holds stay locked me procs refs locks s) (p : Fin NPROC) (u : Proc) :
    Holds stay locked me (update procs p u.label) refs locks (s.setProc p u) := by
  refine ⟨h.held, h.closed, fun p' => ?_⟩
  by_cases here : p' = p
  · simp [Sys.setProc, here]
  · simpa [Sys.setProc, here] using h.procs p'

end Holding

/-- The state between calls; `slack` are references of calls of other processes that are under way,
and `locked` their locks. -/
structure Settled (slack : Fin NINODE → Nat) (locked : Fin NINODE → Option Pid) (s : Sys) : Prop where
  unique : Unique s.fs
  ref : ∀ e, (s.fs.icache e).ref = s.handles e + slack e
  lock : ∀ e, (s.fs.icache e).lock = locked e
  closed : ∀ f, (s.ftable f).ref = 0 → (s.ftable f).type = .FD_NONE
  unused : ∀ p, (s.proc p).used = false → (s.proc p).cwd = none

section Settled

variable {slack : Fin NINODE → Nat} {locked : Fin NINODE → Option Pid} {me : Pid} {s : Sys}
  {procs : Fin NPROC → Bool × Pid × Option (Fin NINODE)} {refs locks : List (Fin NINODE)}

theorem Settled.holds (settled : Settled slack locked s) (me : Pid) :
    Holds (fun e => cwdsOf (fun p => (s.proc p).label) e + slack e) locked me
      (fun p => (s.proc p).label) [] [] s := by
  refine ⟨⟨settled.unique, fun e => ?_, fun e => ?_, nofun, .nil⟩, settled.closed, fun _ => rfl⟩
  · have ref := settled.ref e
    rw [handles] at ref
    have cwds : s.cwds e = cwdsOf (fun p => (s.proc p).label) e := rfl
    simp only [count_nil]
    omega
  · simpa using settled.lock e

theorem Holds.settled (h : Holds (fun e => cwdsOf procs e + slack e) locked me procs [] [] s)
    (unused : ∀ p, (procs p).1 = false → (procs p).2.2 = none) : Settled slack locked s := by
  refine ⟨h.held.unique, fun e => ?_, fun e => ?_, h.closed, fun p isUnused => ?_⟩
  · have ref := h.held.ref e
    rw [handles, h.cwds e]
    simp only [count_nil] at ref
    omega
  · simpa using h.held.lock e
  · have gone := unused p
    rw [← h.procs p] at gone
    exact gone isUnused

/-- The handle of a current directory comes from the call or goes to it. -/
theorem Holds.lend (h : Holds (fun e => cwdsOf procs e + slack e) locked me procs refs locks s)
    (p : Fin NPROC) (l : Bool × Pid × Option (Fin NINODE)) (refs' : List (Fin NINODE))
    (same : ∀ e, (if (procs p).2.2 = some e then 1 else 0) + refs.count e =
      (if l.2.2 = some e then 1 else 0) + refs'.count e) :
    Holds (fun e => cwdsOf (update procs p l) e + slack e) locked me procs refs' locks s := by
  refine h.recount fun e => ?_
  have change := cwdsOf_update procs p l e
  have moved := same e
  omega

theorem stays_cwd (p : Fin NPROC) (e : Fin NINODE) (isCwd : (procs p).2.2 = some e) :
    0 < cwdsOf procs e + slack e := by
  have le : (if (procs p).2.2 = some e then 1 else 0) ≤ cwdsOf procs e :=
    Finset.single_le_sum (f := fun p => if (procs p).2.2 = some e then 1 else 0)
      (fun _ _ => Nat.zero_le _) (Finset.mem_univ p)
  rw [if_pos isCwd] at le
  omega

theorem unused_update (unused : ∀ p, (procs p).1 = false → (procs p).2.2 = none) (p : Fin NPROC)
    {l : Bool × Pid × Option (Fin NINODE)} (isUnused : l.1 = false → l.2.2 = none) (p' : Fin NPROC) :
    (update procs p l p').1 = false → (update procs p l p').2.2 = none := by
  by_cases here : p' = p
  · rw [here, update_self]
    exact isUnused
  · rw [update_of_ne here]
    exact unused p'

/-- A process moves to another directory, or leaves its own. -/
theorem Holds.move {p : Fin NPROC} {cwd : Option (Fin NINODE)}
    (h : Holds (fun e => cwdsOf (update procs p ((procs p).1, (procs p).2.1, cwd)) e + slack e)
      locked me procs [] [] s)
    (unused : ∀ p, (procs p).1 = false → (procs p).2.2 = none)
    (isUnused : (procs p).1 = false → cwd = none) :
    Settled slack locked (s.setProc p { s.proc p with cwd }) := by
  have label : ({ s.proc p with cwd } : Proc).label = ((procs p).1, (procs p).2.1, cwd) := by
    rw [← h.procs p]
    rfl
  have moved := h.relabel p { s.proc p with cwd }
  rw [label] at moved
  exact moved.settled (unused_update unused p isUnused)

/-- A process keeps its directory. -/
theorem Holds.relabelSame
    (h : Holds (fun e => cwdsOf procs e + slack e) locked me procs refs locks s) (p : Fin NPROC)
    (u : Proc) (same : u.cwd = (procs p).2.2) :
    Holds (fun e => cwdsOf (update procs p u.label) e + slack e) locked me
      (update procs p u.label) refs locks (s.setProc p u) :=
  (h.lend p u.label refs fun e => by rw [← same]; rfl).relabel p u

section Moves

variable (h : Holds (fun e => cwdsOf procs e + slack e) locked me procs [] [] s)
  (unused : ∀ p, (procs p).1 = false → (procs p).2.2 = none)
include h unused

variable {p c : Fin NPROC}

theorem sysChdir_settled (isMe : (procs p).2.1 = me) (path : Path) :
    Returns (fun r => Settled slack locked r.2) (s.sysChdir p path) := by
  unfold sysChdir
  refine (cwd_holds (stays_cwd p) h).bind fun cwd ⟨pos, isCwd⟩ => ?_
  rw [h.pid isMe]
  have named := namei_held h.held (Nat.add_pos_right (s.files cwd) pos) path
  simp only [append_nil] at named
  refine (onFs_holds Option.toList (fun _ => []) h named).bind fun ⟨there, s₁⟩ h₁ => ?_
  cases there with
  | none => exact .ok (h₁.settled unused)
  | some ip =>
    have h₁ : Holds _ locked me procs [ip] [] s₁ := h₁
    simp only [h₁.pid isMe]
    refine (doFs_holds h₁ (ilock_held h₁.held)).bind fun s₂ h₂ => ?_
    simp only [h₂.pid isMe]
    split
    · exact (doFs_holds h₂ (iunlockput_held h₂.held)).bind fun s₃ h₃ => .ok (h₃.settled unused)
    · refine (doFs_holds h₂ (iunlock_held h₂.held)).bind fun s₃ h₃ => ?_
      rw [h₃.pid isMe]
      -- The new directory is handed over before the old one is put.
      have h₄ := h₃.lend p ((procs p).1, (procs p).2.1, some ip) [cwd] fun e => by
        simp [isCwd, count_cons, Nat.add_comm]
      refine (doFs_holds h₄ (iput_held h₄.held)).bind fun s₅ h₅ => .ok (h₅.move unused ?_)
      intro isUnused
      cases (unused p isUnused).symm.trans isCwd

theorem exit_settled (isMe : (procs p).2.1 = me) :
    Returns (fun r => Settled slack locked r.2) (s.exit p) := by
  unfold exit
  refine (cwd_holds (stays_cwd p) h).bind fun cwd ⟨pos, isCwd⟩ => ?_
  simp only
  split
  · exact .error trivial
  · have closed : Returns (fun s' => Holds (fun e => cwdsOf procs e + slack e) locked me procs [] [] s')
        ((List.finRange NOFILE).foldlM (closeFd p) s) := by
      refine Sat.foldlM _ (fun s' fd _ h' => ?_) h
      unfold closeFd
      rw [h'.pid isMe]
      cases (s'.proc p).ofile fd with
      | none => exact .ok h'
      | some f => exact (fileclose_holds h' f).bind fun s'' h'' => .ok (h''.setFd p fd none)
    refine closed.bind fun s₁ h₁ => ?_
    have removed : Returns (fun s' => Holds (fun e => cwdsOf procs e + slack e) locked me procs [] [] s')
        (s₁.exitSwapFile p) := by
      unfold exitSwapFile
      split
      · refine (removeSwapFile_holds isMe (stays_cwd p) h₁).bind fun ⟨r, s'⟩ h' => ?_
        simp only
        split
        · exact .error trivial
        · exact .ok h'
      · exact .ok h₁
    refine removed.bind fun s₂ h₂ => ?_
    rw [h₂.pid isMe]
    have h₃ := h₂.lend p ((procs p).1, (procs p).2.1, none) [cwd] fun e => by
      simp [isCwd, count_cons]
    exact (doFs_holds h₃ (iput_held h₃.held)).bind fun s₄ h₄ => .ok (h₄.move unused fun _ => rfl)

theorem wait_settled (c : Fin NPROC) : Returns (fun r => Settled slack locked r.2) (s.wait c) := by
  unfold wait
  split
  · rename_i zombie
    have cwd : (procs c).2.2 = none := by
      rw [← h.procs c]
      exact zombie.2
    refine .ok ((h.relabelSame c { s.proc c with used := false, pid := 0 } ?_).settled
      (unused_update unused c fun _ => zombie.2))
    exact zombie.2.trans cwd.symm
  · exact .error trivial

omit unused in
/-- A page of the swap file is copied. -/
theorem copySwap_holds (isMe : (procs p).2.1 = me) (place : UInt32) :
    Returns (fun s' => Holds (fun e => cwdsOf procs e + slack e) locked me procs [] [] s')
      (Sys.copySwap p c s place) := by
  unfold copySwap
  rw [h.pid isMe]
  refine (swap_holds h p _).bind fun ⟨buffer, s₁⟩ h₁ => ?_
  simp only [h₁.pid isMe]
  exact (swap_holds h₁ c _).bind fun r h₂ => .ok h₂

omit unused in
theorem copyFd_holds (fd : Fin NOFILE) :
    Returns (fun s' => Holds (fun e => cwdsOf procs e + slack e) locked me procs [] [] s')
      (Sys.copyFd p c s fd) := by
  unfold copyFd
  cases (s.proc p).ofile fd with
  | none => exact .ok h
  | some f => exact filedup_holds (h.setFd c fd (some f)) f

omit unused in
/-- The child has a position of its own, without a directory. -/
theorem allocproc_holds (isMe : (procs p).2.1 = me) {cwd : Fin NINODE}
    (isCwd : (procs p).2.2 = some cwd) (unused : ∀ p, (procs p).1 = false → (procs p).2.2 = none) :
    Returns (fun s' => p ≠ c ∧ ∃ pid, Holds (fun e =>
        cwdsOf (update procs c (true, pid, none)) e + slack e) locked me
      (update procs c (true, pid, none)) [] [] s') (s.allocproc p c cwd) := by
  unfold allocproc
  split
  · exact .error trivial
  · rename_i isFree
    have label := h.procs c
    have isFree : (procs c).1 = false := by
      rw [← label]
      simpa [Proc.label] using isFree
    have cwdC := unused c isFree
    have apart : p ≠ c := fun same => by
      rw [← same, isCwd] at cwdC
      cases cwdC
    have cwdC' : (s.proc c).cwd = none := by
      rw [← cwdC, ← label]
      rfl
    have label' : ({ s.proc c with used := true, pid := s.nextpid } : Proc).label =
        (true, s.nextpid, none) := by
      simp only [Proc.label, cwdC']
    have h₁ := h.relabelSame c { s.proc c with used := true, pid := s.nextpid } (by rw [cwdC, cwdC'])
    rw [label'] at h₁
    have h₂ : Holds (fun e => cwdsOf (update procs c (true, s.nextpid, none)) e + slack e)
        locked me (update procs c (true, s.nextpid, none)) [] []
        { s.setProc c { s.proc c with used := true, pid := s.nextpid } with
          nextpid := s.nextpid + 1 } := ⟨h₁.held, h₁.closed, h₁.procs⟩
    have isMe' : (update procs c (true, s.nextpid, none) p).2.1 = me := by
      rw [update_of_ne apart]
      exact isMe
    have isCwd' : (update procs c (true, s.nextpid, none) p).2.2 = some cwd := by
      rw [update_of_ne apart]
      exact isCwd
    simp only
    split
    · rw [h₂.pid isMe']
      refine (Returns.snd (createSwapFile_holds h₂ (stays_cwd p cwd isCwd') c)).weaken
        fun s' h' => ⟨apart, _, h'⟩
    · exact .ok ⟨apart, _, h₂⟩

theorem fork_settled (isMe : (procs p).2.1 = me) (cowuvm : Bool) (places : List UInt32) :
    Returns (fun r => Settled slack locked r.2) (s.fork p c cowuvm places) := by
  unfold fork
  refine (cwd_holds (stays_cwd p) h).bind fun cwd ⟨pos, isCwd⟩ => ?_
  refine (allocproc_holds h isMe isCwd unused).bind fun s₁ ⟨apart, pid, h₁⟩ => ?_
  have unused₁ := unused_update unused c (l := (true, pid, none)) nofun
  have isMe₁ : (update procs c (true, pid, none) p).2.1 = me := by
    rw [update_of_ne apart]
    exact isMe
  have isCwd₁ : (update procs c (true, pid, none) p).2.2 = some cwd := by
    rw [update_of_ne apart]
    exact isCwd
  have cwdC : (update procs c (true, pid, none) c).2.2 = none := by
    rw [update_self]
  have usedC : (update procs c (true, pid, none) c).1 = true := by
    rw [update_self]
  generalize update procs c (true, pid, none) = procs₁ at *
  split
  · have gone : (s₁.proc c).cwd = none := by
      rw [← cwdC, ← h₁.procs c]
      rfl
    exact .ok ((h₁.relabelSame c { s₁.proc c with used := false } (gone.trans cwdC.symm)).settled
      (unused_update unused₁ c fun _ => gone))
  · have copied : Returns (fun s' => Holds (fun e => cwdsOf procs₁ e + slack e) locked me procs₁ [] []
        s') (places.foldlM (copySwap p c) s₁) :=
      Sat.foldlM places (fun s' place _ h' => copySwap_holds h' isMe₁ place) h₁
    refine copied.bind fun s₂ h₂ => ?_
    have shared : Returns (fun s' => Holds (fun e => cwdsOf procs₁ e + slack e) locked me procs₁ [] []
        s') ((List.finRange NOFILE).foldlM (copyFd p c) s₂) :=
      Sat.foldlM _ (fun s' fd _ h' => copyFd_holds h' fd) h₂
    refine shared.bind fun s₃ h₃ => .ok ?_
    have held : Held (fun e => s₃.files e + (cwdsOf procs₁ e + slack e)) locked me [cwd] []
        (s₃.fs.idup cwd) :=
      idup_held h₃.held (Nat.add_pos_right (s₃.files cwd) (stays_cwd p cwd isCwd₁))
    have h₄ := (h₃.setFs held).lend c ((procs₁ c).1, (procs₁ c).2.1, some cwd) [] fun e => by
      simp [cwdC, count_cons]
    refine h₄.move unused₁ fun isUnused => ?_
    rw [usedC] at isUnused
    cases isUnused

end Moves

theorem call_settled (settled : Settled slack locked s) (p : Fin NPROC) (c : Sys.Call) :
    Returns (fun r => Settled slack locked r.2) (s.call p c) := by
  have h := settled.holds (s.pid p)
  have unused : ∀ p, (s.proc p).label.1 = false → (s.proc p).label.2.2 = none := settled.unused
  have isMe : (s.proc p).label.2.1 = s.pid p := rfl
  have stays : ∀ e, (s.proc p).label.2.2 = some e →
      0 < cwdsOf (fun p => (s.proc p).label) e + slack e := fun e isCwd => stays_cwd p e isCwd
  have finish : ∀ {x : Except Stop (Int × Sys)}, Returns (fun r => Holds
      (fun e => cwdsOf (fun p => (s.proc p).label) e + slack e) locked (s.pid p)
      (fun p => (s.proc p).label) [] [] r.2) x → Returns (fun r => Settled slack locked r.2) x :=
    fun sat => sat.weaken fun _ h' => h'.settled unused
  cases c with
  | sysOpen path omode =>
    cases path with
    | none => exact .ok settled
    | some path => exact finish (sysOpen_holds isMe stays h path omode)
  | sysLink old new =>
    cases old with
    | none => exact .ok settled
    | some old =>
      cases new with
      | none => exact .ok settled
      | some new =>
        rw [call]
        exact finish (atInodes_holds isMe stays h fun cwd pos => sysLink_held h.held pos old new)
  | sysUnlink path =>
    cases path with
    | none => exact .ok settled
    | some path =>
      rw [call]
      exact finish (atInodes_holds isMe stays h fun cwd pos => unlink_held h.held pos path)
  | sysMkdir path =>
    cases path with
    | none => exact .ok settled
    | some path =>
      rw [call]
      exact finish (atInodes_holds isMe stays h fun cwd pos => sysMake_held h.held pos path _ _ _)
  | sysMknod path major minor =>
    cases path with
    | none => exact .ok settled
    | some path =>
      rw [call]
      exact finish (atInodes_holds isMe stays h fun cwd pos => sysMake_held h.held pos path _ _ _)
  | sysChdir path =>
    cases path with
    | none => exact .ok settled
    | some path => exact sysChdir_settled h unused isMe path
  | exec path answers => exact finish (exec_holds isMe stays h path answers)
  | removeSwapFile => exact finish (removeSwapFile_holds isMe stays h)
  | createSwapFile np =>
    refine finish ((cwd_holds stays h).bind fun cwd ⟨pos, _⟩ => ?_)
    exact createSwapFile_holds h pos np
  | swap a => exact finish ((swap_holds h p a).bind fun r h' => .ok h')
  | sysDup fd => exact finish (sysDup_holds h p fd)
  | sysClose fd => exact finish (sysClose_holds h isMe fd)
  | fork c cowuvm places => exact fork_settled h unused isMe cowuvm places
  | exit => exact exit_settled h unused isMe
  | wait c => exact wait_settled h unused c

end Settled

/-- The invariant between calls: no inode has two entries, every handle has its reference, a file
that is not open has no inode, and a position without a process has no directory. -/
structure Sys.WellFormed (s : Sys) : Prop where
  unique : Unique s.fs
  counted : ∀ e, (s.handles e : Int) ≤ (s.fs.icache e).ref
  closed : ∀ f, (s.ftable f).ref = 0 → (s.ftable f).type = .FD_NONE
  unused : ∀ p, (s.proc p).used = false → (s.proc p).cwd = none

theorem Sys.WellFormed.settled (wf : s.WellFormed) :
    Settled (fun e => ((s.fs.icache e).ref - s.handles e).toNat) (fun e => (s.fs.icache e).lock) s := by
  refine ⟨wf.unique, fun e => ?_, fun _ => rfl, wf.closed, wf.unused⟩
  have counted := wf.counted e
  omega

theorem Settled.wellFormed {slack : Fin NINODE → Nat} {locked : Fin NINODE → Option Pid}
    (settled : Settled slack locked s) : s.WellFormed := by
  refine ⟨settled.unique, fun e => ?_, settled.closed, settled.unused⟩
  have ref := settled.ref e
  omega

theorem booted_wellFormed (sb : Superblock) (disk : Dev → Disk) (console : Nat → Option (List UInt8)) :
    (Sys.booted sb disk console).WellFormed := by
  refine ⟨fun e e' used used' _ _ => ?_, fun e => ?_, fun _ _ => rfl, fun p isUnused => ?_⟩
  · have first : ∀ e, 0 < ((booted sb disk console).fs.icache e).ref → e = 0 := fun e used => by
      by_contra other
      simp [booted, State.booted, State.setInode, other] at used
    rw [first e used, first e' used']
  · have files : (booted sb disk console).files e = 0 :=
      Finset.sum_eq_zero fun f _ => by simp [OpenFile.handle, booted]
    have cwds : (booted sb disk console).cwds e = if e = 0 then 1 else 0 := by
      rw [Sys.cwds, Finset.sum_eq_single 0 (fun p _ other => ?_) (fun absent => ?_)]
      · simp [Proc.handle, booted, eq_comm]
      · simp [Proc.handle, booted, other]
      · exact absurd (Finset.mem_univ 0) absent
    rw [handles, files, cwds]
    by_cases first : e = 0
    · simp [first, booted, State.setInode]
    · simp [first, booted, State.setInode, State.booted]
  · by_cases first : p = 0
    · simp [booted, first] at isUnused
    · simp [booted, first]

/-- After `userinit` the invariant holds, and a call that returns keeps it. Over the call the count
of every entry changes as the handles on it do, and so does their sum; no inode has two entries,
and every lock is as it was. -/
theorem inode_references_balance :
    (∀ sb disk console, (Sys.booted sb disk console).WellFormed) ∧
    ∀ (s : Sys) (p : Fin NPROC) (c : Sys.Call) (r : Int) (s' : Sys), s.WellFormed →
      s.call p c = .ok (r, s') →
      s'.WellFormed ∧
      (∀ e, (s'.fs.icache e).ref - (s.fs.icache e).ref = (s'.handles e : Int) - s.handles e) ∧
      (∑ e, (s'.fs.icache e).ref) - ∑ e, (s.fs.icache e).ref =
        (∑ e, (s'.handles e : Int)) - ∑ e, (s.handles e : Int) ∧
      Unique s'.fs ∧
      ∀ e, (s'.fs.icache e).lock = (s.fs.icache e).lock := by
  refine ⟨booted_wellFormed, fun s p c r s' wf returns => ?_⟩
  have settled : Settled _ _ s' := (call_settled wf.settled p c).of_ok returns
  have each : ∀ e, (s'.fs.icache e).ref - (s.fs.icache e).ref =
      (s'.handles e : Int) - s.handles e := fun e => by
    have before := wf.settled.ref e
    have after := settled.ref e
    omega
  refine ⟨settled.wellFormed, each, ?_, settled.unique, settled.lock⟩
  rw [← Finset.sum_sub_distrib, ← Finset.sum_sub_distrib]
  exact Finset.sum_congr rfl fun e _ => each e

/-- The state after `userinit` on a disk whose root directory is empty. -/
def bootedEmpty : Sys :=
  .booted sampleSuperblock
    (fun _ => {
      bit := fun b => b < 3
      dinode := fun i => if i = ROOTINO then ⟨.T_DIR, 0, 0, 1, 0, fun _ => 0⟩ else .zeroed
      data := fun _ _ => 0 })
    fun _ => none

/-- The first process makes a file and keeps it open. -/
theorem inode_references_balance_sample :
    ∃ r s', bootedEmpty.call 0 (.sysOpen (some ['f']) (O_CREATE ||| O_RDWR)) = .ok (r, s') ∧ r = 0 ∧
      (∑ e, (s'.fs.icache e).ref) - ∑ e, (bootedEmpty.fs.icache e).ref =
        (∑ e, (s'.handles e : Int)) - ∑ e, (bootedEmpty.handles e : Int) := by
  have opens : (bootedEmpty.call 0 (.sysOpen (some ['f']) (O_CREATE ||| O_RDWR))).toOption.any
      (fun r => r.1 == 0) = true := by decide +kernel
  cases result : bootedEmpty.call 0 (.sysOpen (some ['f']) (O_CREATE ||| O_RDWR)) with
  | error e =>
    rw [result] at opens
    cases opens
  | ok r =>
    rw [result] at opens
    obtain ⟨-, -, sums, -⟩ :=
      inode_references_balance.2 _ _ _ _ _ (booted_wellFormed _ _ _) result
    exact ⟨r.1, r.2, rfl, eq_of_beq opens, sums⟩

end Xv6.Inodes
