import Xv6.Memory.Paging
import Xv6.Memory.SwapFile

/-!
Directories, path names and the system calls that use them, with the swap files in
the root directory: `fs.c` from `dirlookup` on, and `sysfile.c`.

A system call is one step, since its transaction keeps others out of the inodes it
locks. The counts `ref` of inodes and open files are represented by who refers to
them. A process's descriptors are a list, so that closing one moves the later ones up.
Blocks and the indirect block are those of `SwapFile`.
-/

namespace Xv6.Fs

abbrev DIRSIZ : Nat := 14
abbrev DIGITS : Nat := 14
abbrev NOFILE : Nat := 16
abbrev NFILE : Nat := 100
abbrev NINODES : Nat := 200
abbrev ROOTINO : Nat := 1

abbrev Name := List Char
abbrev Path := List Char

/-- The contents of a directory; a slot with inode number 0 is free. -/
abbrev Slots := List (Name × Nat)

inductive Body where
  | dir (slots : Slots)
  | file (file : File)
  | dev (major minor : Int)

/-- An inode in use. -/
structure INode where
  nlink : Nat
  body : Body

/-- `struct file` of an inode. -/
structure OpenFile where
  ip : Nat
  off : Nat
  readable : Bool
  writable : Bool

/-- The part of `struct proc` the file system uses; files are positions in `ftable`. -/
structure User where
  pid : Nat
  cwd : Nat
  ofile : List Nat
  swapFile : Option Nat

inductive FsPanic where
  | ilockNoType
  | dirlookupNotDir
  | iallocNoInodes
  | unlinkNlink
  /-- `iunlock` of the null pointer that `create` returned. -/
  | iunlock
  | noSlotForFiles
  | exitFailedToRemoveSwapFile
  | initExiting
  /-- `itoa` writes past the end of `path`. -/
  | pathOverflow
  /-- There is no such process, or no room for the child. -/
  | disabled
  deriving DecidableEq

structure State where
  inode : Nat → Option INode
  ftable : Nat → OpenFile
  proc : Fin NPROC → Option User
  nextpid : Nat
  /-- What each process last paged out to a slot; it influences nothing. -/
  paged : Fin NPROC → Slot → Option Page

/-! Directory contents. -/

def dirlookup : Slots → Name → Option Nat
  | [], _ => none
  | e :: rest, name => if e.2 ≠ 0 ∧ e.1 = name then some e.2 else dirlookup rest name

/-- The slot `dirlink` writes is the first free one, or a new one. -/
def addSlot (name : Name) (inum : Nat) : Slots → Slots
  | [] => [(name, inum)]
  | e :: rest => if e.2 = 0 then (name, inum) :: rest else e :: addSlot name inum rest

/-- Zero the slot `dirlookup` finds. -/
def clearSlot (name : Name) : Slots → Slots
  | [] => []
  | e :: rest => if e.2 ≠ 0 ∧ e.1 = name then ([], 0) :: rest else e :: clearSlot name rest

def isdirempty (slots : Slots) : Bool := (slots.drop 2).all fun e => e.2 == 0

def isDots (name : Name) : Bool := name == ['.'] || name == ['.', '.']

/-! Path names. -/

/-- The next element of a path and the rest behind its slashes. -/
def skipelem (path : Path) : Option (Name × Path) :=
  let path := path.dropWhile (· == '/')
  if path = [] then none
  else
    some ((path.takeWhile (· != '/')).take DIRSIZ,
      (path.dropWhile (· != '/')).dropWhile (· == '/'))

namespace State

def setInode (s : State) (i : Nat) (v : Option INode) : State :=
  { s with inode := Function.update s.inode i v }

def setProc (s : State) (p : Fin NPROC) (u : Option User) : State :=
  { s with proc := Function.update s.proc p u }

def setFile (s : State) (o : Nat) (f : OpenFile) : State :=
  { s with ftable := Function.update s.ftable o f }

/-- The loop of `namex`; with `parent` the name of the last element comes along. -/
def namexLoop (s : State) (parent : Bool) :
    Nat → Nat → Path → Name → Except FsPanic (Option (Nat × Name))
  | 0, _, _, _ => .ok none
  | fuel + 1, ip, path, name =>
    match skipelem path with
    | none => .ok (if parent then none else some (ip, name))
    | some (name, rest) =>
      match s.inode ip with
      | none => .error .ilockNoType
      | some ⟨_, .dir slots⟩ =>
        if parent ∧ rest = [] then .ok (some (ip, name))
        else
          match dirlookup slots name with
          | none => .ok none
          | some next => s.namexLoop parent fuel next rest name
      | some _ => .ok none

def namex (s : State) (cwd : Nat) (path : Path) (parent : Bool) :
    Except FsPanic (Option (Nat × Name)) :=
  s.namexLoop parent (path.length + 1) (if path.head? = some '/' then ROOTINO else cwd) path []

def namei (s : State) (cwd : Nat) (path : Path) : Except FsPanic (Option Nat) := do
  let found ← s.namex cwd path false
  return found.map (·.1)

def nameiparent (s : State) (cwd : Nat) (path : Path) : Except FsPanic (Option (Nat × Name)) :=
  s.namex cwd path true

/-! Inodes and open files. -/

def fileUsed (s : State) (o : Nat) : Bool :=
  (List.finRange NPROC).any fun p =>
    match s.proc p with
    | none => false
    | some u => u.ofile.contains o || u.swapFile == some o

def filealloc (s : State) : Option Nat := (List.range NFILE).find? fun o => !s.fileUsed o

def inodeUsed (s : State) (i : Nat) : Bool :=
  (List.finRange NPROC).any fun p =>
    match s.proc p with
    | none => false
    | some u =>
      u.cwd == i || u.ofile.any (fun o => (s.ftable o).ip == i) ||
        u.swapFile.any fun o => (s.ftable o).ip == i

/-- After a reference to the inode is gone. -/
def iput (s : State) (i : Nat) : State :=
  match s.inode i with
  | none => s
  | some n => if n.nlink = 0 ∧ s.inodeUsed i = false then s.setInode i none else s

def ialloc (s : State) : Option Nat :=
  (List.range' 1 (NINODES - 1)).find? fun i => (s.inode i).isNone

inductive Kind where
  | dir
  | file
  | dev (major minor : Int)
  deriving DecidableEq

/-- The contents of a new inode. -/
def Kind.body (i dp : Nat) : Kind → Body
  | dir => .dir [(['.'], i), (['.', '.'], dp)]
  | file => .file .empty
  | dev major minor => .dev major minor

/-- The second half of `create`, in the directory found. -/
def createIn (s : State) (dp nlink : Nat) (slots : Slots) (name : Name) (kind : Kind) :
    Except FsPanic (Option Nat × State) :=
  match dirlookup slots name with
  | some ip =>
    match s.inode ip with
    | none => .error .ilockNoType
    | some ⟨_, .file _⟩ => .ok (if kind = .file then some ip else none, s)
    | some _ => .ok (none, s)
  | none =>
    match s.ialloc with
    | none => .error .iallocNoInodes
    | some i =>
      .ok (some i, (s.setInode i (some ⟨1, kind.body i dp⟩)).setInode dp
        (some ⟨if kind = .dir then nlink + 1 else nlink, .dir (addSlot name i slots)⟩))

def create (s : State) (cwd : Nat) (path : Path) (kind : Kind) :
    Except FsPanic (Option Nat × State) := do
  match ← s.nameiparent cwd path with
  | none => .ok (none, s)
  | some (dp, name) =>
    match s.inode dp with
    | some ⟨nlink, .dir slots⟩ => s.createIn dp nlink slots name kind
    | some _ => .error .dirlookupNotDir
    | none => .error .ilockNoType

inductive Mode where
  | rdonly
  | wronly
  | rdwr
  deriving DecidableEq

/-- The inode of `sys_open`. -/
def openInode (s : State) (cwd : Nat) (path : Path) (creates : Bool) (mode : Mode) :
    Except FsPanic (Option Nat × State) :=
  if creates then s.create cwd path .file
  else do
    match ← s.namei cwd path with
    | none => .ok (none, s)
    | some ip =>
      match s.inode ip with
      | none => .error .ilockNoType
      | some ⟨_, .dir _⟩ => .ok (if mode = .rdonly then some ip else none, s)
      | some _ => .ok (some ip, s)

def sysOpen (s : State) (p : Fin NPROC) (u : User) (path : Path) (creates : Bool) (mode : Mode) :
    Except FsPanic (Int × State) := do
  match ← s.openInode u.cwd path creates mode with
  | (none, s) => .ok (-1, s)
  | (some ip, s) =>
    match s.filealloc with
    | none => .ok (-1, s.iput ip)
    | some o =>
      if u.ofile.length < NOFILE then
        .ok (u.ofile.length,
          (s.setFile o ⟨ip, 0, mode != .wronly, mode != .rdonly⟩).setProc p
            (some { u with ofile := u.ofile ++ [o] }))
      else .ok (-1, s.iput ip)

/-- The loop of `filewrite`, with the offset. -/
def writeLoop : Nat → File → (Nat → UInt8) → Nat → Nat → File × Nat
  | 0, file, _, off, _ => (file, off)
  | fuel + 1, file, src, off, n =>
    if n = 0 then (file, off)
    else
      let n1 := min n WRITEMAX
      match writei file src off n1 with
      | none => (file, off)
      | some file => writeLoop fuel file (fun i => src (i + n1)) (off + n1) (n - n1)

/-- A directory is never open for writing, and a device keeps no contents here. -/
def sysWrite (s : State) (u : User) (fd : Nat) (src : Nat → UInt8) (n : Nat) :
    Except FsPanic (Int × State) :=
  match u.ofile[fd]? with
  | none => .ok (-1, s)
  | some o =>
    let f := s.ftable o
    if f.writable = false then .ok (-1, s)
    else
      match s.inode f.ip with
      | none => .error .ilockNoType
      | some ⟨nlink, .file file⟩ =>
        let (file, off) := writeLoop n file src f.off n
        .ok (if off = f.off + n then n else -1,
          (s.setInode f.ip (some ⟨nlink, .file file⟩)).setFile o { f with off })
      | some ⟨_, .dir _⟩ | some ⟨_, .dev _ _⟩ => .ok (n, s)

/-- `sys_unlink` in the directory found, and the same code in `removeSwapFile`. -/
def unlinkIn (s : State) (dp nlink : Nat) (slots : Slots) (name : Name) :
    Except FsPanic (Int × State) :=
  if isDots name then .ok (-1, s)
  else
    match dirlookup slots name with
    | none => .ok (-1, s)
    | some ip =>
      match s.inode ip with
      | none => .error .ilockNoType
      | some n =>
        if n.nlink < 1 then .error .unlinkNlink
        else
          match n.body with
          | .dir inner =>
            if isdirempty inner then
              .ok (0, ((s.setInode dp (some ⟨nlink - 1, .dir (clearSlot name slots)⟩)).setInode
                ip (some ⟨n.nlink - 1, .dir inner⟩)).iput ip)
            else .ok (-1, s)
          | body =>
            .ok (0, ((s.setInode dp (some ⟨nlink, .dir (clearSlot name slots)⟩)).setInode
              ip (some ⟨n.nlink - 1, body⟩)).iput ip)

def unlink (s : State) (cwd : Nat) (path : Path) : Except FsPanic (Int × State) := do
  match ← s.nameiparent cwd path with
  | none => .ok (-1, s)
  | some (dp, name) =>
    match s.inode dp with
    | some ⟨nlink, .dir slots⟩ => s.unlinkIn dp nlink slots name
    | some _ => .error .dirlookupNotDir
    | none => .error .ilockNoType

def sysLink (s : State) (cwd : Nat) (old new : Path) : Except FsPanic (Int × State) := do
  match ← s.namei cwd old with
  | none => .ok (-1, s)
  | some ip =>
    match s.inode ip with
    | none => .error .ilockNoType
    | some ⟨_, .dir _⟩ => .ok (-1, s)
    | some ⟨nlink, body⟩ =>
      let linked := s.setInode ip (some ⟨nlink + 1, body⟩)
      match ← linked.nameiparent cwd new with
      | none => .ok (-1, s.iput ip)
      | some (dp, name) =>
        match linked.inode dp with
        | some ⟨dnlink, .dir slots⟩ =>
          if dirlookup slots name = none then
            .ok (0, linked.setInode dp (some ⟨dnlink, .dir (addSlot name ip slots)⟩))
          else .ok (-1, s.iput ip)
        | some _ => .error .dirlookupNotDir
        | none => .error .ilockNoType

/-- `sys_mkdir` and `sys_mknod`. -/
def sysMake (s : State) (cwd : Nat) (path : Path) (kind : Kind) :
    Except FsPanic (Int × State) := do
  match ← s.create cwd path kind with
  | (none, s) => .ok (-1, s)
  | (some _, s) => .ok (0, s)

end State

/-! Swap files. -/

/-- The digits of `i` in front of `acc`. -/
def itoaLoop : Nat → Nat → List Char → List Char
  | 0, _, acc => acc
  | fuel + 1, i, acc =>
    let acc := Char.ofNat (48 + i % 10) :: acc
    if i / 10 = 0 then acc else itoaLoop fuel (i / 10) acc

def itoa (i : Nat) : List Char := itoaLoop (i + 1) i []

def swapName (pid : Nat) : Name := ['.', 's', 'w', 'a', 'p'] ++ itoa pid

def swapPath (pid : Nat) : Path := '/' :: swapName pid

/-- The path with its terminating zero fits into `path`. -/
def PathFits (pid : Nat) : Prop := (swapPath pid).length < DIGITS

instance (pid : Nat) : Decidable (PathFits pid) := inferInstanceAs (Decidable (_ < _))

namespace State

/-- `createSwapFile` of a process that is being made, with the rest of its `fork`. -/
def createSwapFile (s : State) (c : Fin NPROC) (u : User) : Except FsPanic State :=
  if ¬ PathFits u.pid then .error .pathOverflow
  else do
    match ← s.create u.cwd (swapPath u.pid) .file with
    | (none, _) => .error .iunlock
    | (some i, s) =>
      match s.filealloc with
      | none => .error .noSlotForFiles
      | some o =>
        .ok ((s.setFile o ⟨i, 0, true, true⟩).setProc c (some { u with swapFile := some o }))

/-- `fork` into the free position `c`. -/
def fork (s : State) (u : User) (c : Fin NPROC) : Except FsPanic State :=
  match s.proc c with
  | some _ => .error .disabled
  | none =>
    let child : User := ⟨s.nextpid, u.cwd, u.ofile, none⟩
    let s := { s with
      nextpid := s.nextpid + 1
      paged := Function.update s.paged c fun _ => none }
    if 2 < child.pid then s.createSwapFile c child else .ok (s.setProc c (some child))

def pageOut (s : State) (p : Fin NPROC) (u : User) (slot : Slot) (page : Page) :
    Except FsPanic State :=
  match u.swapFile with
  | none => .error .disabled
  | some o =>
    match s.inode (s.ftable o).ip with
    | some ⟨nlink, .file file⟩ =>
      let (stored, file) := writeToSwapFile file page (slot.val * PGSIZE)
      let s := s.setInode (s.ftable o).ip (some ⟨nlink, .file file⟩)
      .ok (if stored then
        { s with paged := Function.update s.paged p (Function.update (s.paged p) slot (some page)) }
      else s)
    | some _ => .ok s
    | none => .error .ilockNoType

/-- The files of the process are closed one by one. -/
def closeFiles (s : State) (p : Fin NPROC) (u : User) : State :=
  u.ofile.foldl (fun s o => s.iput (s.ftable o).ip) (s.setProc p (some { u with ofile := [] }))

def removeSwapFile (s : State) (p : Fin NPROC) (u : User) : Except FsPanic (Int × State) :=
  match u.swapFile with
  | none => .ok (-1, s)
  | some o =>
    let s := (s.setProc p (some { u with swapFile := none })).iput (s.ftable o).ip
    s.unlink u.cwd (swapPath u.pid)

/-- `exit` behind the closing of the files. -/
def exitClosed (s : State) (p : Fin NPROC) (u : User) : Except FsPanic State :=
  if 2 < u.pid then do
    let (result, s) ← s.removeSwapFile p u
    if result = -1 then .error .exitFailedToRemoveSwapFile
    else .ok ((s.setProc p none).iput u.cwd)
  else .ok ((s.setProc p none).iput u.cwd)

/-- The initial process, which has pid 1, never exits. -/
def exit (s : State) (p : Fin NPROC) (u : User) : Except FsPanic State :=
  if u.pid = 1 then .error .initExiting
  else (s.closeFiles p u).exitClosed p { u with ofile := [] }

inductive Call where
  | openFile (path : Path) (creates : Bool) (mode : Mode)
  | write (fd : Nat) (src : Nat → UInt8) (n : Nat)
  | unlink (path : Path)
  | link (old new : Path)
  | mkdir (path : Path)
  | mknod (path : Path) (major minor : Int)
  | fork (c : Fin NPROC)
  | pageOut (slot : Slot) (page : Page)
  | pageIn (slot : Slot)
  | exit

def step (s : State) (a : Fin NPROC × Call) : Except FsPanic State :=
  match s.proc a.1 with
  | none => .error .disabled
  | some u =>
    match a.2 with
    | .openFile path creates mode => (·.2) <$> s.sysOpen a.1 u path creates mode
    | .write fd src n => (·.2) <$> s.sysWrite u fd src n
    | .unlink path => (·.2) <$> s.unlink u.cwd path
    | .link old new => (·.2) <$> s.sysLink u.cwd old new
    | .mkdir path => (·.2) <$> s.sysMake u.cwd path .dir
    | .mknod path major minor => (·.2) <$> s.sysMake u.cwd path (.dev major minor)
    | .fork c => s.fork u c
    | .pageOut slot page => s.pageOut a.1 u slot page
    | .pageIn _ => .ok s
    | .exit => s.exit a.1 u

def sysChdir (s : State) (p : Fin NPROC) (u : User) (path : Path) :
    Except FsPanic (Int × State) := do
  match ← s.namei u.cwd path with
  | none => .ok (-1, s)
  | some ip =>
    match s.inode ip with
    | none => .error .ilockNoType
    | some ⟨_, .dir _⟩ => .ok (0, (s.setProc p (some { u with cwd := ip })).iput u.cwd)
    | some _ => .ok (-1, s.iput ip)

/-- The later descriptors move up. -/
def sysClose (s : State) (p : Fin NPROC) (u : User) (fd : Nat) : Except FsPanic (Int × State) :=
  match u.ofile[fd]? with
  | none => .ok (-1, s)
  | some o =>
    .ok (0, (s.setProc p (some { u with ofile := u.ofile.eraseIdx fd })).iput (s.ftable o).ip)

/-- The calls of `step`, and those that let go of a directory or a file. -/
inductive Op where
  | call (call : Call)
  | chdir (path : Path)
  | close (fd : Nat)

def operate (s : State) (a : Fin NPROC × Op) : Except FsPanic State :=
  match a.2 with
  | .call call => s.step (a.1, call)
  | .chdir path =>
    match s.proc a.1 with
    | none => .error .disabled
    | some u => (·.2) <$> s.sysChdir a.1 u path
  | .close fd =>
    match s.proc a.1 with
    | none => .error .disabled
    | some u => (·.2) <$> s.sysClose a.1 u fd

end State

end Xv6.Fs
