import Xv6.System.PathWalk
import Xv6.System.References

/-!
References and locks along paths: what the functions on directories and paths, and the system calls
that only use inodes, give back.
-/

namespace Xv6.Inodes

open Outcome State
open Fs (Name Path skipelem skipelem_shorter)

/-- The reference that comes with a result. -/
def found {α : Type} (r : Option (Fin NINODE × α)) : List (Fin NINODE) := (r.map (·.1)).toList

section

variable {count : Fin NINODE → Nat} {locked : Fin NINODE → Option Pid} {me : Pid}
  {refs locks : List (Fin NINODE)} {s : State} {dp ip cwd : Fin NINODE}

/-! Directories. -/

theorem readDirent_held (h : Held count locked me refs locks s) (mine : dp ∈ locks) (off : Nat)
    (stop : Stop) :
    Returns (fun r => Held count locked me refs locks r.2) (s.readDirent me dp off stop) := by
  unfold readDirent
  refine (readi_held h mine _ _).bind fun ⟨read, s'⟩ h' => ?_
  cases read with
  | none => exact .error trivial
  | some bytes =>
    simp only
    split
    · exact .ok h'
    · exact .error trivial

theorem writeDirent_held (h : Held count locked me refs locks s) (mine : dp ∈ locks)
    (bytes : Nat → UInt8) (off : Nat) (stop : Stop) :
    Returns (fun s' => Held count locked me refs locks s') (s.writeDirent me dp bytes off stop) := by
  unfold writeDirent
  refine (writei_held h mine _ _ _).bind fun ⟨written, s'⟩ h' => ?_
  simp only
  split
  · exact .ok h'
  · exact .error trivial

variable {s : State}

theorem lookupLoop_held (mine : dp ∈ locks) (name : Name) (fuel off : Nat)
    (h : Held count locked me refs locks s) :
    Returns (fun r => Held count locked me (found r.1 ++ refs) locks r.2)
      (State.lookupLoop me dp name fuel s off) := by
  induction fuel generalizing s off with
  | zero => exact .ok h
  | succ fuel ih =>
    unfold lookupLoop
    split
    · exact .ok h
    · refine (readDirent_held h mine _ _).bind fun ⟨de, s'⟩ h' => ?_
      simp only
      split
      · exact (iget_held h' _ _).bind fun ⟨ip, s''⟩ h'' => .ok h''
      · exact ih _ h'

theorem dirlookup_held (h : Held count locked me refs locks s) (mine : dp ∈ locks) (name : Name) :
    Returns (fun r => Held count locked me (found r.1 ++ refs) locks r.2) (s.dirlookup me dp name) := by
  unfold dirlookup
  split
  · exact .error trivial
  · exact lookupLoop_held mine name _ _ h

theorem emptyLoop_held (mine : dp ∈ locks) (fuel off : Nat)
    (h : Held count locked me refs locks s) :
    Returns (fun r => Held count locked me refs locks r.2) (State.emptyLoop me dp fuel s off) := by
  induction fuel generalizing s off with
  | zero => exact .ok h
  | succ fuel ih =>
    unfold emptyLoop
    split
    · exact .ok h
    · refine (readDirent_held h mine _ _).bind fun ⟨de, s'⟩ h' => ?_
      simp only
      split
      · exact .ok h'
      · exact ih _ h'

theorem dirlink_held (h : Held count locked me refs locks s) (mine : dp ∈ locks) (name : Name)
    (inum : Nat) :
    Returns (fun r => Held count locked me refs locks r.2) (s.dirlink me dp name inum) := by
  unfold dirlink
  refine (dirlookup_held h mine name).bind fun ⟨there, s'⟩ h' => ?_
  cases there with
  | some e => exact (iput_held h').bind fun s'' h'' => .ok h''
  | none =>
    refine (emptyLoop_held mine _ _ h').bind fun ⟨off, s₁⟩ h₁ => ?_
    exact (writeDirent_held h₁ mine _ _ _).bind fun s₂ h₂ => .ok h₂

theorem isdiremptyLoop_held (mine : dp ∈ locks) (fuel off : Nat)
    (h : Held count locked me refs locks s) :
    Returns (fun r => Held count locked me refs locks r.2) (State.isdiremptyLoop me dp fuel s off) := by
  induction fuel generalizing s off with
  | zero => exact .ok h
  | succ fuel ih =>
    unfold isdiremptyLoop
    split
    · exact .ok h
    · refine (readDirent_held h mine _ _).bind fun ⟨de, s'⟩ h' => ?_
      simp only
      split
      · exact .ok h'
      · exact ih _ h'

theorem hasEntries_held (h : Held count locked me refs locks s) (mine : ip ∈ locks) :
    Returns (fun r => Held count locked me refs locks r.2) (s.hasEntries me ip) := by
  unfold hasEntries
  split
  · exact (isdiremptyLoop_held mine _ _ h).bind fun r h' => .ok h'
  · exact .ok h

/-! Paths. -/

theorem namexStart_held (h : Held count locked me refs locks s) (here : 0 < count cwd) (path : Path) :
    Returns (fun r => Held count locked me (r.1 :: refs) locks r.2) (s.namexStart cwd path) := by
  unfold namexStart
  split
  · exact iget_held h _ _
  · exact .ok (idup_held h here)

/-- The induction is on the elements of the path; one reference is held at each. -/
theorem namexLoop_held (parent : Bool) (fuel : Nat) (path : Path) (name : Name)
    (enough : path.length < fuel) {ip : Fin NINODE}
    (h : Held count locked me (ip :: refs) locks s) :
    Returns (fun r => Held count locked me (found r.1 ++ refs) locks r.2)
      (State.namexLoop me parent fuel s ip path name) := by
  induction fuel generalizing s ip path name with
  | zero => omega
  | succ fuel ih =>
    unfold namexLoop
    cases next : skipelem path with
    | none =>
      simp only
      split
      · exact (iput_held h).bind fun s' h' => .ok h'
      · exact .ok h
    | some e =>
      obtain ⟨name', rest⟩ := e
      have shorter := skipelem_shorter next
      refine (ilock_held h).bind fun s₁ h₁ => ?_
      simp only
      split
      · exact (iunlockput_held h₁).bind fun s' h' => .ok h'
      · split
        · exact (iunlock_held h₁).bind fun s' h' => .ok h'
        · refine (dirlookup_held h₁ (List.mem_cons_self ..) name').bind fun ⟨there, s₂⟩ h₂ => ?_
          cases there with
          | none => exact (iunlockput_held h₂).bind fun s₃ h₃ => .ok h₃
          | some e =>
            refine (iunlockput_held (h₂.perm (.swap ..) .rfl)).bind fun s₃ h₃ => ?_
            exact ih rest name' (by omega) h₃

theorem namex_held (h : Held count locked me refs locks s) (here : 0 < count cwd) (path : Path)
    (parent : Bool) :
    Returns (fun r => Held count locked me (found r.1 ++ refs) locks r.2)
      (s.namex me cwd path parent) := by
  unfold namex
  refine (namexStart_held h here path).bind fun ⟨ip, s'⟩ h' => ?_
  exact namexLoop_held parent _ path [] (Nat.lt_succ_self _) h'

theorem namei_held (h : Held count locked me refs locks s) (here : 0 < count cwd) (path : Path) :
    Returns (fun r => Held count locked me (r.1.toList ++ refs) locks r.2) (s.namei me cwd path) := by
  unfold namei
  refine (namex_held h here path false).bind fun ⟨there, s'⟩ h' => ?_
  exact .ok h'

/-! System calls. -/

theorem linkBad_held (h : Held count locked me (ip :: refs) locks s) :
    Returns (fun r => Held count locked me refs locks r.2) (s.linkBad me ip) := by
  unfold linkBad
  refine (ilock_held h).bind fun s₁ h₁ => ?_
  refine (setNlink_held h₁ _).bind fun s₂ h₂ => ?_
  exact (iunlockput_held h₂).bind fun s₃ h₃ => .ok h₃

theorem linkIn_held (h : Held count locked me refs locks s) (mine : dp ∈ locks) (name : Name) :
    Returns (fun r => Held count locked me refs locks r.2) (s.linkIn me dp ip name) := by
  unfold linkIn
  split
  · exact .ok h
  · exact dirlink_held h mine name _

theorem sysLink_held (h : Held count locked me refs locks s) (here : 0 < count cwd)
    (old new : Path) :
    Returns (fun r => Held count locked me refs locks r.2) (s.sysLink me cwd old new) := by
  unfold sysLink
  refine (namei_held h here old).bind fun ⟨there, s₁⟩ h₁ => ?_
  cases there with
  | none => exact .ok h₁
  | some ip =>
    refine (ilock_held h₁).bind fun s₂ h₂ => ?_
    simp only
    split
    · exact (iunlockput_held h₂).bind fun s₃ h₃ => .ok h₃
    · refine (setNlink_held h₂ _).bind fun s₃ h₃ => ?_
      refine (iunlock_held h₃).bind fun s₄ h₄ => ?_
      refine (namex_held h₄ here new true).bind fun ⟨there, s₅⟩ h₅ => ?_
      cases there with
      | none => exact linkBad_held h₅
      | some e =>
        refine (ilock_held h₅).bind fun s₆ h₆ => ?_
        refine (linkIn_held h₆ (List.mem_cons_self ..) e.2).bind fun ⟨linked, s₇⟩ h₇ => ?_
        refine (iunlockput_held h₇).bind fun s₈ h₈ => ?_
        simp only
        split
        · exact (iput_held h₈).bind fun s₉ h₉ => .ok h₉
        · exact linkBad_held h₈

theorem unlinkBad_held (h : Held count locked me (dp :: refs) (dp :: locks) s) :
    Returns (fun r => Held count locked me refs locks r.2) (s.unlinkBad me dp) := by
  unfold unlinkBad
  exact (iunlockput_held h).bind fun s' h' => .ok h'

theorem dropDots_held (h : Held count locked me refs locks s) :
    Returns (fun s' => Held count locked me refs locks s') (s.dropDots dp ip) := by
  unfold dropDots
  split
  · exact setNlink_held h _
  · exact .ok h

theorem unlinkEntry_held (h : Held count locked me (ip :: dp :: refs) (dp :: locks) s) (off : Nat) :
    Returns (fun r => Held count locked me refs locks r.2) (s.unlinkEntry me dp ip off) := by
  unfold unlinkEntry
  refine (ilock_held h).bind fun s₁ h₁ => ?_
  simp only
  split
  · exact .error trivial
  · refine (hasEntries_held h₁ (List.mem_cons_self ..)).bind fun ⟨full, s₂⟩ h₂ => ?_
    simp only
    split
    · exact (iunlockput_held h₂).bind fun s₃ h₃ => unlinkBad_held h₃
    · refine (writeDirent_held h₂ (by simp) _ _ _).bind fun s₃ h₃ => ?_
      refine (dropDots_held h₃).bind fun s₄ h₄ => ?_
      refine (iunlockput_held (h₄.perm (.swap ..) (.swap ..))).bind fun s₅ h₅ => ?_
      refine (setNlink_held h₅ _).bind fun s₆ h₆ => ?_
      exact (iunlockput_held h₆).bind fun s₇ h₇ => .ok h₇

theorem unlink_held (h : Held count locked me refs locks s) (here : 0 < count cwd) (path : Path) :
    Returns (fun r => Held count locked me refs locks r.2) (s.unlink me cwd path) := by
  unfold unlink
  refine (namex_held h here path true).bind fun ⟨there, s₁⟩ h₁ => ?_
  cases there with
  | none => exact .ok h₁
  | some e =>
    refine (ilock_held h₁).bind fun s₂ h₂ => ?_
    simp only
    split
    · exact unlinkBad_held h₂
    · refine (dirlookup_held h₂ (List.mem_cons_self ..) e.2).bind fun ⟨there, s₃⟩ h₃ => ?_
      cases there with
      | none => exact unlinkBad_held h₃
      | some entry => exact unlinkEntry_held h₃ entry.2

theorem createBody_held (h : Held count locked me refs locks s) (mine : ip ∈ locks)
    (type : FileType) :
    Returns (fun s' => Held count locked me refs locks s') (s.createBody me dp ip type) := by
  unfold createBody
  split
  · unfold createDots
    refine (setNlink_held h _).bind fun s₁ h₁ => ?_
    refine (dirlink_held h₁ mine _ _).bind fun ⟨linked, s₂⟩ h₂ => ?_
    simp only
    split
    · refine (dirlink_held h₂ mine _ _).bind fun ⟨linked, s₃⟩ h₃ => ?_
      simp only
      split
      · exact .ok h₃
      · exact .error trivial
    · exact .error trivial
  · exact .ok h

/-- The result of `create` is locked. -/
def Made (count : Fin NINODE → Nat) (locked : Fin NINODE → Option Pid) (me : Pid)
    (refs locks : List (Fin NINODE)) (r : Option (Fin NINODE) × State) : Prop :=
  Held count locked me (r.1.toList ++ refs) (r.1.toList ++ locks) r.2

theorem Made.alone {r : Option (Fin NINODE) × State} (made : Made count locked me [] [] r) :
    Held count locked me r.1.toList r.1.toList r.2 := by
  simpa only [Made, List.append_nil] using made

theorem createIn_held (h : Held count locked me (dp :: refs) (dp :: locks) s) (name : Name)
    (type : FileType) (major minor : Int16) :
    Returns (Made count locked me refs locks) (s.createIn me dp name type major minor) := by
  unfold createIn
  refine (ialloc_held h _ type).bind fun ⟨ip, s₁⟩ h₁ => ?_
  refine (ilock_held h₁).bind fun s₂ h₂ => ?_
  refine (iupdate_same ip).bind fun s₃ same => ?_
  have h₃ := h₂.same ((SameCache.setCopy s₂ ip _).trans same)
  refine (createBody_held h₃ (List.mem_cons_self ..) type).bind fun s₄ h₄ => ?_
  refine (dirlink_held h₄ (by simp) name _).bind fun ⟨linked, s₅⟩ h₅ => ?_
  simp only
  split
  · exact (iunlockput_held (h₅.perm (.swap ..) (.swap ..))).bind fun s₆ h₆ => .ok h₆
  · exact .error trivial

theorem create_held (h : Held count locked me refs locks s) (here : 0 < count cwd) (path : Path)
    (type : FileType) (major minor : Int16) :
    Returns (Made count locked me refs locks) (s.create me cwd path type major minor) := by
  unfold create
  refine (namex_held h here path true).bind fun ⟨there, s₁⟩ h₁ => ?_
  cases there with
  | none => exact .ok h₁
  | some e =>
    refine (ilock_held h₁).bind fun s₂ h₂ => ?_
    refine (dirlookup_held h₂ (List.mem_cons_self ..) e.2).bind fun ⟨there, s₃⟩ h₃ => ?_
    cases there with
    | none => exact createIn_held h₃ _ _ _ _
    | some entry =>
      refine (iunlockput_held (h₃.perm (.swap ..) .rfl)).bind fun s₄ h₄ => ?_
      refine (ilock_held h₄).bind fun s₅ h₅ => ?_
      split
      · exact .ok h₅
      · exact (iunlockput_held h₅).bind fun s₆ h₆ => .ok h₆

theorem sysMake_held (h : Held count locked me refs locks s) (here : 0 < count cwd) (path : Path)
    (type : FileType) (major minor : Int16) :
    Returns (fun r => Held count locked me refs locks r.2)
      (s.sysMake me cwd path type major minor) := by
  unfold sysMake
  refine (create_held h here path type major minor).bind fun ⟨made, s₁⟩ h₁ => ?_
  cases made with
  | none => exact .ok h₁
  | some ip => exact (iunlockput_held h₁).bind fun s₂ h₂ => .ok h₂

end

end Xv6.Inodes
