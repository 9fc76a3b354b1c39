import Xv6.System.FileSystem
import Xv6.System.Inodes

/-!
Directories and path names over the inode cache: `fs.c` from `namecmp` to `nameiparent`, and what
`sysfile.c` does to inodes with them.

`FileSystem` has these calls by what they do to the tree. Here they take and give back the
references and the locks of the cached inodes as the code does, and read and write the entries of
directories as bytes. The transactions around them are those of `Log`.
-/

namespace Xv6.Inodes

open Fs (Name Path skipelem)

/-- The size of `struct dirent`. -/
abbrev DIRENT : Nat := 16

structure Dirent where
  inum : Nat
  name : List UInt8

def Dirent.ofBytes (bytes : List UInt8) : Dirent :=
  ⟨(bytes.getD 0 0).toNat + 256 * (bytes.getD 1 0).toNat, bytes.drop 2⟩

def nameBytes (name : Name) : List UInt8 := name.map fun c => UInt8.ofNat c.toNat

/-- The bytes of an entry; `strncpy` fills up with zeros. -/
def direntBytes (inum : Nat) (name : Name) (i : Nat) : UInt8 :=
  if i = 0 then UInt8.ofNat inum
  else if i = 1 then UInt8.ofNat (inum / 256)
  else (nameBytes name).getD (i - 2) 0

/-- `namecmp` gives 0 for a name and what an entry has stored. -/
def namecmp (name : Name) (stored : List UInt8) : Bool :=
  stored.takeWhile (· != 0) == nameBytes name

namespace State

/-! Directories. -/

/-- `readi` of an entry; anything but a whole entry is a panic. -/
def readDirent (s : State) (me : Pid) (dp : Fin NINODE) (off : Nat) (stop : Stop) :
    Except Stop (Dirent × State) := do
  let (read, s) ← s.readi me dp (.ofNat off) (.ofNat DIRENT)
  match read with
  | none => .error stop
  | some bytes => if bytes.length = DIRENT then .ok (.ofBytes bytes, s) else .error stop

/-- `writei` of an entry. -/
def writeDirent (s : State) (me : Pid) (dp : Fin NINODE) (bytes : Nat → UInt8) (off : Nat)
    (stop : Stop) : Except Stop State := do
  let (written, s) ← s.writei me dp bytes (.ofNat off) (.ofNat DIRENT)
  if written = some DIRENT then .ok s else .error stop

/-- The loop of `dirlookup`. -/
def lookupLoop (me : Pid) (dp : Fin NINODE) (name : Name) :
    Nat → State → Nat → Except Stop (Option (Fin NINODE × Nat) × State)
  | 0, s, _ => .ok (none, s)
  | fuel + 1, s, off =>
    if (s.icache dp).copy.size ≤ off then .ok (none, s)
    else do
      let (de, s) ← s.readDirent me dp off .dirlookupRead
      if de.inum ≠ 0 ∧ namecmp name de.name then
        let (ip, s) ← s.iget (s.icache dp).dev de.inum
        return (some (ip, off), s)
      else lookupLoop me dp name fuel s (off + DIRENT)

/-- The inode and the offset of its entry. -/
def dirlookup (s : State) (me : Pid) (dp : Fin NINODE) (name : Name) :
    Except Stop (Option (Fin NINODE × Nat) × State) :=
  if (s.icache dp).copy.type ≠ .T_DIR then .error .dirlookupNotDir
  else lookupLoop me dp name ((s.icache dp).copy.size / DIRENT + 1) s 0

/-- The loop of `dirlink`: the offset of an empty entry, or the end. -/
def emptyLoop (me : Pid) (dp : Fin NINODE) : Nat → State → Nat → Except Stop (Nat × State)
  | 0, s, off => .ok (off, s)
  | fuel + 1, s, off =>
    if (s.icache dp).copy.size ≤ off then .ok (off, s)
    else do
      let (de, s) ← s.readDirent me dp off .dirlinkRead
      if de.inum = 0 then return (off, s)
      else emptyLoop me dp fuel s (off + DIRENT)

/-- False is the result -1. -/
def dirlink (s : State) (me : Pid) (dp : Fin NINODE) (name : Name) (inum : Nat) :
    Except Stop (Bool × State) := do
  let (found, s) ← s.dirlookup me dp name
  match found with
  | some (ip, _) =>
    let s ← s.iput me ip
    return (false, s)
  | none =>
    let (off, s) ← emptyLoop me dp ((s.icache dp).copy.size / DIRENT + 1) s 0
    let s ← s.writeDirent me dp (direntBytes inum name) off .dirlink
    return (true, s)

/-- The loop of `isdirempty`. -/
def isdiremptyLoop (me : Pid) (dp : Fin NINODE) : Nat → State → Nat → Except Stop (Bool × State)
  | 0, s, _ => .ok (true, s)
  | fuel + 1, s, off =>
    if (s.icache dp).copy.size ≤ off then .ok (true, s)
    else do
      let (de, s) ← s.readDirent me dp off .isdiremptyReadi
      if de.inum ≠ 0 then return (false, s)
      else isdiremptyLoop me dp fuel s (off + DIRENT)

def isdirempty (s : State) (me : Pid) (dp : Fin NINODE) : Except Stop (Bool × State) :=
  isdiremptyLoop me dp ((s.icache dp).copy.size / DIRENT + 1) s (2 * DIRENT)

/-! Paths. -/

/-- Where `namex` starts. -/
def namexStart (s : State) (cwd : Fin NINODE) (path : Path) : Except Stop (Fin NINODE × State) :=
  if path.head? = some '/' then s.iget ROOTDEV ROOTINO else .ok (cwd, s.idup cwd)

/-- The loop of `namex`; a path has fewer elements than `fuel`. -/
def namexLoop (me : Pid) (parent : Bool) :
    Nat → State → Fin NINODE → Path → Name → Except Stop (Option (Fin NINODE × Name) × State)
  | 0, s, _, _, _ => .ok (none, s)
  | fuel + 1, s, ip, path, name =>
    match skipelem path with
    | none =>
      if parent then do
        let s ← s.iput me ip
        return (none, s)
      else .ok (some (ip, name), s)
    | some (name, rest) => do
      let s ← s.ilock me ip
      if (s.icache ip).copy.type ≠ .T_DIR then
        let s ← s.iunlockput me ip
        return (none, s)
      else if parent ∧ rest = [] then
        let s ← s.iunlock me ip
        return (some (ip, name), s)
      else
        let (found, s) ← s.dirlookup me ip name
        let s ← s.iunlockput me ip
        match found with
        | none => return (none, s)
        | some (next, _) => namexLoop me parent fuel s next rest name

def namex (s : State) (me : Pid) (cwd : Fin NINODE) (path : Path) (parent : Bool) :
    Except Stop (Option (Fin NINODE × Name) × State) := do
  let (ip, s) ← s.namexStart cwd path
  namexLoop me parent (path.length + 1) s ip path []

def namei (s : State) (me : Pid) (cwd : Fin NINODE) (path : Path) :
    Except Stop (Option (Fin NINODE) × State) := do
  let (found, s) ← s.namex me cwd path false
  return (found.map (·.1), s)

def nameiparent (s : State) (me : Pid) (cwd : Fin NINODE) (path : Path) :
    Except Stop (Option (Fin NINODE × Name) × State) :=
  s.namex me cwd path true

/-! System calls. -/

/-- A new `nlink`, with the `iupdate` behind it. -/
def setNlink (s : State) (ip : Fin NINODE) (nlink : Int16) : Except Stop State :=
  (s.setCopy ip { (s.icache ip).copy with nlink }).iupdate ip

/-- The label `bad` of `sys_link`. -/
def linkBad (s : State) (me : Pid) (ip : Fin NINODE) : Except Stop (Int × State) := do
  let s ← s.ilock me ip
  let s ← s.setNlink ip ((s.icache ip).copy.nlink - 1)
  let s ← s.iunlockput me ip
  return (-1, s)

/-- The entry `sys_link` makes, or not. -/
def linkIn (s : State) (me : Pid) (dp ip : Fin NINODE) (name : Name) : Except Stop (Bool × State) :=
  if (s.icache dp).dev ≠ (s.icache ip).dev then .ok (false, s)
  else s.dirlink me dp name (s.icache ip).inum

def sysLink (s : State) (me : Pid) (cwd : Fin NINODE) (old new : Path) : Except Stop (Int × State) := do
  let (found, s) ← s.namei me cwd old
  match found with
  | none => return (-1, s)
  | some ip =>
    let s ← s.ilock me ip
    if (s.icache ip).copy.type = .T_DIR then
      let s ← s.iunlockput me ip
      return (-1, s)
    else
      let s ← s.setNlink ip ((s.icache ip).copy.nlink + 1)
      let s ← s.iunlock me ip
      let (found, s) ← s.nameiparent me cwd new
      match found with
      | none => s.linkBad me ip
      | some (dp, name) =>
        let s ← s.ilock me dp
        let (linked, s) ← s.linkIn me dp ip name
        let s ← s.iunlockput me dp
        if linked then
          let s ← s.iput me ip
          return (0, s)
        else s.linkBad me ip

/-- The label `bad` of `sys_unlink`. -/
def unlinkBad (s : State) (me : Pid) (dp : Fin NINODE) : Except Stop (Int × State) := do
  let s ← s.iunlockput me dp
  return (-1, s)

/-- The inode is a directory with entries. -/
def hasEntries (s : State) (me : Pid) (ip : Fin NINODE) : Except Stop (Bool × State) :=
  if (s.icache ip).copy.type = .T_DIR then do
    let (empty, s) ← s.isdirempty me ip
    return (!empty, s)
  else .ok (false, s)

/-- The parent of a directory loses the link of "..". -/
def dropDots (s : State) (dp ip : Fin NINODE) : Except Stop State :=
  if (s.icache ip).copy.type = .T_DIR then s.setNlink dp ((s.icache dp).copy.nlink - 1) else .ok s

/-- `sys_unlink` from `ilock(ip)` on. -/
def unlinkEntry (s : State) (me : Pid) (dp ip : Fin NINODE) (off : Nat) :
    Except Stop (Int × State) := do
  let s ← s.ilock me ip
  if (s.icache ip).copy.nlink < 1 then .error .unlinkNlink
  else
    let (full, s) ← s.hasEntries me ip
    if full then
      let s ← s.iunlockput me ip
      s.unlinkBad me dp
    else
      let s ← s.writeDirent me dp (fun _ => 0) off .unlinkWritei
      let s ← s.dropDots dp ip
      let s ← s.iunlockput me dp
      let s ← s.setNlink ip ((s.icache ip).copy.nlink - 1)
      let s ← s.iunlockput me ip
      return (0, s)

/-- `sys_unlink`, which is also the second part of `removeSwapFile`. -/
def unlink (s : State) (me : Pid) (cwd : Fin NINODE) (path : Path) : Except Stop (Int × State) := do
  let (found, s) ← s.nameiparent me cwd path
  match found with
  | none => return (-1, s)
  | some (dp, name) =>
    let s ← s.ilock me dp
    if Fs.isDots name then s.unlinkBad me dp
    else
      let (found, s) ← s.dirlookup me dp name
      match found with
      | none => s.unlinkBad me dp
      | some (ip, off) => s.unlinkEntry me dp ip off

/-- The entries "." and ".." of a new directory. -/
def createDots (s : State) (me : Pid) (dp ip : Fin NINODE) : Except Stop State := do
  let s ← s.setNlink dp ((s.icache dp).copy.nlink + 1)
  let (linked, s) ← s.dirlink me ip ['.'] (s.icache ip).inum
  if linked then
    let (linked, s) ← s.dirlink me ip ['.', '.'] (s.icache dp).inum
    if linked then .ok s else .error .createDots
  else .error .createDots

/-- What a new inode of this type contains. -/
def createBody (s : State) (me : Pid) (dp ip : Fin NINODE) (type : FileType) : Except Stop State :=
  if type = .T_DIR then s.createDots me dp ip else .ok s

/-- `create` from `ialloc` on. -/
def createIn (s : State) (me : Pid) (dp : Fin NINODE) (name : Name) (type : FileType)
    (major minor : Int16) : Except Stop (Option (Fin NINODE) × State) := do
  let (ip, s) ← s.ialloc (s.icache dp).dev type
  let s ← s.ilock me ip
  let s ← (s.setCopy ip { (s.icache ip).copy with major, minor, nlink := 1 }).iupdate ip
  let s ← s.createBody me dp ip type
  let (linked, s) ← s.dirlink me dp name (s.icache ip).inum
  if linked then
    let s ← s.iunlockput me dp
    return (some ip, s)
  else .error .createDirlink

def create (s : State) (me : Pid) (cwd : Fin NINODE) (path : Path) (type : FileType)
    (major minor : Int16) : Except Stop (Option (Fin NINODE) × State) := do
  let (found, s) ← s.nameiparent me cwd path
  match found with
  | none => return (none, s)
  | some (dp, name) =>
    let s ← s.ilock me dp
    let (found, s) ← s.dirlookup me dp name
    match found with
    | some (ip, _) =>
      let s ← s.iunlockput me dp
      let s ← s.ilock me ip
      if type = .T_FILE ∧ (s.icache ip).copy.type = .T_FILE then return (some ip, s)
      else
        let s ← s.iunlockput me ip
        return (none, s)
    | none => s.createIn me dp name type major minor

/-- `sys_mkdir` and `sys_mknod`. -/
def sysMake (s : State) (me : Pid) (cwd : Fin NINODE) (path : Path) (type : FileType)
    (major minor : Int16) : Except Stop (Int × State) := do
  let (made, s) ← s.create me cwd path type major minor
  match made with
  | none => return (-1, s)
  | some ip =>
    let s ← s.iunlockput me ip
    return (0, s)

def sysMkdir (s : State) (me : Pid) (cwd : Fin NINODE) (path : Path) : Except Stop (Int × State) :=
  s.sysMake me cwd path .T_DIR 0 0

def sysMknod (s : State) (me : Pid) (cwd : Fin NINODE) (path : Path) (major minor : Int16) :
    Except Stop (Int × State) :=
  s.sysMake me cwd path .T_DEV major minor

end State

end Xv6.Inodes
