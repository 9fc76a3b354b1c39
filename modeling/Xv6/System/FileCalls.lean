import Xv6.Memory.Exec
import Xv6.System.Paths

/-!
Open files, current directories and swap files: `file.c`, the system calls of `sysfile.c` that use
them, the swap files of `fs.c`, and what `exec`, `fork` and `exit` do with inodes.

The memory that `exec` and `fork` work on is that of other modules. Here it only answers: whether a
step succeeds, and which pages are written to the swap file or read from it meanwhile. The ends of
pipes are files without an inode. A call is made by the process at a position of the process table.
-/

namespace Xv6.Inodes

open Fs (Path swapPath)

abbrev NOFILE : Nat := 16
abbrev NFILE : Nat := 100
abbrev O_RDONLY : UInt32 := 0x000
abbrev O_WRONLY : UInt32 := 0x001
abbrev O_RDWR : UInt32 := 0x002
abbrev O_CREATE : UInt32 := 0x200

inductive FdType where
  | FD_NONE
  | FD_PIPE
  | FD_INODE
  deriving DecidableEq

/-- `struct file`. -/
structure OpenFile where
  type : FdType
  ref : Nat
  readable : Bool
  writable : Bool
  ip : Fin NINODE
  off : UInt32

/-- The part of `struct proc` for files; a process that runs has a current directory. -/
structure Proc where
  used : Bool
  pid : Pid
  cwd : Option (Fin NINODE)
  ofile : Fin NOFILE → Option (Fin NFILE)
  swapFile : Option (Fin NFILE)

structure Sys where
  fs : State
  ftable : Fin NFILE → OpenFile
  proc : Fin NPROC → Proc
  nextpid : Nat

/-- A page that goes to the swap file or comes from it. -/
inductive Access where
  | write (placeOnFile : UInt32) (buffer : Nat → UInt8)
  | read (placeOnFile : UInt32)

/-- What the memory answers to an `exec`. -/
structure Answers where
  setupkvm : Bool
  /-- The result of `allocuvm` for each program header. -/
  allocuvm : Nat → UInt32 × List Access
  stack : UInt32 × List Access
  /-- Whether the arguments are copied; to fetch them may need pages. -/
  arguments : Bool × List Access

namespace Sys

def setFile (s : Sys) (f : Fin NFILE) (v : OpenFile) : Sys :=
  { s with ftable := Function.update s.ftable f v }

def setProc (s : Sys) (p : Fin NPROC) (u : Proc) : Sys :=
  { s with proc := Function.update s.proc p u }

/-- What a function of the inode layer returns. -/
def onFs {α : Type} (s : Sys) (x : Except Stop (α × State)) : Except Stop (α × Sys) := do
  let (a, fs) ← x
  return (a, { s with fs })

def doFs (s : Sys) (x : Except Stop State) : Except Stop Sys := do
  let fs ← x
  return { s with fs }

/-- `myproc()->cwd`. -/
def cwd (s : Sys) (p : Fin NPROC) : Except Stop (Fin NINODE) :=
  match (s.proc p).cwd with
  | none => .error .disabled
  | some ip => .ok ip

def pid (s : Sys) (p : Fin NPROC) : Pid := (s.proc p).pid

/-! Files. -/

def filealloc (s : Sys) : Option (Fin NFILE × Sys) :=
  ((List.finRange NFILE).find? fun f => (s.ftable f).ref == 0).map fun f =>
    (f, s.setFile f { s.ftable f with ref := 1 })

def filedup (s : Sys) (f : Fin NFILE) : Except Stop Sys :=
  if (s.ftable f).ref < 1 then .error .filedup
  else .ok (s.setFile f { s.ftable f with ref := (s.ftable f).ref + 1 })

/-- `pipeclose` does nothing to inodes. -/
def fileclose (s : Sys) (me : Pid) (f : Fin NFILE) : Except Stop Sys :=
  let ff := s.ftable f
  if ff.ref < 1 then .error .fileclose
  else if 1 < ff.ref then .ok (s.setFile f { ff with ref := ff.ref - 1 })
  else
    let s := s.setFile f { ff with ref := 0, type := .FD_NONE }
    match ff.type with
    | .FD_INODE => s.doFs (s.fs.iput me ff.ip)
    | .FD_PIPE | .FD_NONE => .ok s

/-- `fileread` of an inode; nothing means -1. -/
def fileread (s : Sys) (me : Pid) (f : Fin NFILE) (n : Nat) :
    Except Stop (Option (List UInt8) × Sys) :=
  let file := s.ftable f
  if ¬ file.readable then .ok (none, s)
  else
    match file.type with
    | .FD_NONE => .error .fileread
    | .FD_PIPE => .error .disabled
    | .FD_INODE => do
      let fs ← s.fs.ilock me file.ip
      let (read, fs) ← fs.readi me file.ip file.off (.ofNat n)
      let fs ← fs.iunlock me file.ip
      let moved := file.off + UInt32.ofNat (read.getD []).length
      return (read, { s with fs }.setFile f { file with off := moved })

/-- The loop of `filewrite` of an inode; false means -1. -/
def filewriteLoop (me : Pid) (f : Fin NFILE) :
    Nat → Sys → (Nat → UInt8) → Nat → Except Stop (Bool × Sys)
  | 0, s, _, _ => .ok (true, s)
  | fuel + 1, s, src, n =>
    if n = 0 then .ok (true, s)
    else do
      let file := s.ftable f
      let n1 := min n WRITEMAX
      let fs ← s.fs.ilock me file.ip
      let (written, fs) ← fs.writei me file.ip src file.off (.ofNat n1)
      let fs ← fs.iunlock me file.ip
      match written with
      | none => return (false, { s with fs })
      | some r =>
        if r ≠ n1 then .error .shortFilewrite
        else
          filewriteLoop me f fuel
            ({ s with fs }.setFile f { file with off := file.off + UInt32.ofNat r })
            (fun i => src (i + n1)) (n - n1)

def filewrite (s : Sys) (me : Pid) (f : Fin NFILE) (src : Nat → UInt8) (n : Nat) :
    Except Stop (Bool × Sys) :=
  if ¬ (s.ftable f).writable then .ok (false, s)
  else
    match (s.ftable f).type with
    | .FD_NONE => .error .filewrite
    | .FD_PIPE => .error .disabled
    | .FD_INODE => filewriteLoop me f n s src n

/-! Descriptors. -/

/-- The first free descriptor. -/
def fdalloc (u : Proc) : Option (Fin NOFILE) :=
  (List.finRange NOFILE).find? fun fd => (u.ofile fd).isNone

def setFd (s : Sys) (p : Fin NPROC) (fd : Fin NOFILE) (f : Option (Fin NFILE)) : Sys :=
  s.setProc p { s.proc p with ofile := Function.update (s.proc p).ofile fd f }

def sysDup (s : Sys) (p : Fin NPROC) (fd : Fin NOFILE) : Except Stop (Int × Sys) :=
  match (s.proc p).ofile fd with
  | none => .ok (-1, s)
  | some f =>
    match fdalloc (s.proc p) with
    | none => .ok (-1, s)
    | some fd => do
      let s ← (s.setFd p fd (some f)).filedup f
      return (fd.val, s)

def sysClose (s : Sys) (p : Fin NPROC) (fd : Fin NOFILE) : Except Stop (Int × Sys) :=
  match (s.proc p).ofile fd with
  | none => .ok (-1, s)
  | some f => do
    let s ← (s.setFd p fd none).fileclose (s.pid p) f
    return (0, s)

/-- The first part of `sys_open`: the inode, locked. -/
def openInode (s : State) (me : Pid) (cwd : Fin NINODE) (path : Path) (omode : UInt32) :
    Except Stop (Option (Fin NINODE) × State) :=
  if omode &&& O_CREATE ≠ 0 then s.create me cwd path .T_FILE 0 0
  else do
    let (found, s) ← s.namei me cwd path
    match found with
    | none => return (none, s)
    | some ip =>
      let s ← s.ilock me ip
      if (s.icache ip).copy.type = .T_DIR ∧ omode ≠ O_RDONLY then
        let s ← s.iunlockput me ip
        return (none, s)
      else return (some ip, s)

/-- The way out of `sys_open` when no file or no descriptor is left. -/
def openBad (s : Sys) (me : Pid) (ip : Fin NINODE) : Except Stop (Int × Sys) := do
  let s ← s.doFs (s.fs.iunlockput me ip)
  return (-1, s)

def sysOpen (s : Sys) (p : Fin NPROC) (path : Path) (omode : UInt32) : Except Stop (Int × Sys) := do
  let cwd ← s.cwd p
  let (made, s) ← s.onFs (openInode s.fs (s.pid p) cwd path omode)
  match made with
  | none => return (-1, s)
  | some ip =>
    match s.filealloc with
    | none => s.openBad (s.pid p) ip
    | some (f, s) =>
      match fdalloc (s.proc p) with
      | none =>
        let s ← s.fileclose (s.pid p) f
        s.openBad (s.pid p) ip
      | some fd =>
        let s := s.setFd p fd (some f)
        let s ← s.doFs (s.fs.iunlock (s.pid p) ip)
        return (fd.val, s.setFile f {
          type := .FD_INODE
          ref := (s.ftable f).ref
          readable := omode &&& O_WRONLY = 0
          writable := omode &&& O_WRONLY ≠ 0 ∨ omode &&& O_RDWR ≠ 0
          ip := ip
          off := 0 })

def sysChdir (s : Sys) (p : Fin NPROC) (path : Path) : Except Stop (Int × Sys) := do
  let cwd ← s.cwd p
  let (found, s) ← s.onFs (s.fs.namei (s.pid p) cwd path)
  match found with
  | none => return (-1, s)
  | some ip =>
    let s ← s.doFs (s.fs.ilock (s.pid p) ip)
    if (s.fs.icache ip).copy.type ≠ .T_DIR then
      let s ← s.doFs (s.fs.iunlockput (s.pid p) ip)
      return (-1, s)
    else
      let s ← s.doFs (s.fs.iunlock (s.pid p) ip)
      let s ← s.doFs (s.fs.iput (s.pid p) cwd)
      return (0, s.setProc p { s.proc p with cwd := some ip })

/-! Swap files. -/

/-- `createSwapFile` for `np`, called by `me`. -/
def createSwapFile (s : Sys) (me : Pid) (cwd : Fin NINODE) (np : Fin NPROC) :
    Except Stop (Int × Sys) := do
  let (made, s) ← s.onFs (s.fs.create me cwd (swapPath (s.pid np)) .T_FILE 0 0)
  match made with
  | none => .error .iunlock
  | some ip =>
    let s ← s.doFs (s.fs.iunlock me ip)
    match s.filealloc with
    | none => .error .noSlotForFiles
    | some (f, s) =>
      let s := s.setProc np { s.proc np with swapFile := some f }
      return (0, s.setFile f {
        type := .FD_INODE
        ref := (s.ftable f).ref
        readable := true
        writable := true
        ip := ip
        off := 0 })

def removeSwapFile (s : Sys) (p : Fin NPROC) : Except Stop (Int × Sys) :=
  match (s.proc p).swapFile with
  | none => .ok (-1, s)
  | some f => do
    let cwd ← s.cwd p
    let s ← s.fileclose (s.pid p) f
    s.onFs (s.fs.unlink (s.pid p) cwd (swapPath (s.pid p)))

/-- `writeToSwapFile` and `readFromSwapFile` of the process `p`, called by `me`. -/
def swap (s : Sys) (me : Pid) (p : Fin NPROC) (a : Access) : Except Stop (List UInt8 × Sys) :=
  match (s.proc p).swapFile with
  | none => .error .disabled
  | some f =>
    match a with
    | .write placeOnFile buffer => do
      let s := s.setFile f { s.ftable f with off := placeOnFile }
      let (_, s) ← s.filewrite me f buffer PGSIZE
      return ([], s)
    | .read placeOnFile => do
      let s := s.setFile f { s.ftable f with off := placeOnFile }
      let (read, s) ← s.fileread me f PGSIZE
      return (read.getD [], s)

/-- The pages that move during a step of the memory. -/
def swaps (s : Sys) (p : Fin NPROC) (l : List Access) : Except Stop Sys :=
  l.foldlM (fun s a => Prod.snd <$> s.swap (s.pid p) p a) s

/-! `exec`. -/

def elfhdrOf (bytes : List UInt8) : Elfhdr where
  magic := numberAt (bytes.getD · 0) 0 4
  phoff := numberAt (bytes.getD · 0) 28 4
  phnum := numberAt (bytes.getD · 0) 44 2

def proghdrOf (bytes : List UInt8) : Proghdr where
  type := numberAt (bytes.getD · 0) 0 4
  off := numberAt (bytes.getD · 0) 4 4
  vaddr := numberAt (bytes.getD · 0) 8 4
  filesz := numberAt (bytes.getD · 0) 16 4
  memsz := numberAt (bytes.getD · 0) 20 4

/-- `readi` of `n` bytes by a caller that takes no fewer. -/
def readAll (s : Sys) (me : Pid) (ip : Fin NINODE) (off n : Nat) :
    Except Stop (Option (List UInt8) × Sys) := do
  let (read, s) ← s.onFs (s.fs.readi me ip (.ofNat off) (.ofNat n))
  return (read.filter fun bytes => bytes.length == n, s)

/-- The loop of `loaduvm`, with the bytes still to load. -/
def loaduvmLoop (me : Pid) (ip : Fin NINODE) : Nat → Sys → Nat → Nat → Except Stop (Bool × Sys)
  | 0, s, _, _ => .ok (true, s)
  | fuel + 1, s, off, sz =>
    if sz = 0 then .ok (true, s)
    else do
      let (read, s) ← s.readAll me ip off (min sz PGSIZE)
      match read with
      | none => return (false, s)
      | some _ => loaduvmLoop me ip fuel s (off + PGSIZE) (sz - PGSIZE)

/-- A program header; false is the way to `bad`. -/
def loadSegment (s : Sys) (p : Fin NPROC) (ip : Fin NINODE) (off : Nat) (answer : UInt32 × List Access) :
    Except Stop (Bool × Sys) := do
  let (read, s) ← s.readAll (s.pid p) ip off PROGHDRSIZE
  match read with
  | none => return (false, s)
  | some bytes =>
    let ph := proghdrOf bytes
    if ph.type ≠ ELF_PROG_LOAD then return (true, s)
    else if ph.memsz < ph.filesz ∨ (ph.vaddr + ph.memsz) % 2 ^ 32 < ph.vaddr then return (false, s)
    else
      let s ← s.swaps p answer.2
      if answer.1 = 0 ∨ ph.vaddr % PGSIZE ≠ 0 then return (false, s)
      else loaduvmLoop (s.pid p) ip (ph.filesz / PGSIZE + 1) s ph.off ph.filesz

def loadSegments (p : Fin NPROC) (ip : Fin NINODE) (answers : Answers) :
    Nat → Sys → Nat → Nat → Except Stop (Bool × Sys)
  | 0, s, _, _ => .ok (true, s)
  | n + 1, s, i, off => do
    let (loaded, s) ← s.loadSegment p ip off (answers.allocuvm i)
    if loaded then loadSegments p ip answers n s (i + 1) (off + PROGHDRSIZE)
    else return (false, s)

/-- `exec` while it has the inode. -/
def load (s : Sys) (p : Fin NPROC) (ip : Fin NINODE) (answers : Answers) :
    Except Stop (Bool × Sys) := do
  let (read, s) ← s.readAll (s.pid p) ip 0 ELFHDRSIZE
  match read with
  | none => return (false, s)
  | some bytes =>
    let elf := elfhdrOf bytes
    if elf.magic ≠ ELF_MAGIC ∨ ¬ answers.setupkvm then return (false, s)
    else loadSegments p ip answers elf.phnum s 0 elf.phoff

/-- `exec` behind `ip = 0`. -/
def execStack (s : Sys) (p : Fin NPROC) (answers : Answers) : Except Stop (Int × Sys) := do
  let s ← s.swaps p answers.stack.2
  if answers.stack.1 = 0 then return (-1, s)
  else
    let s ← s.swaps p answers.arguments.2
    return (if answers.arguments.1 then 0 else -1, s)

def exec (s : Sys) (p : Fin NPROC) (path : Path) (answers : Answers) : Except Stop (Int × Sys) := do
  let cwd ← s.cwd p
  let (found, s) ← s.onFs (s.fs.namei (s.pid p) cwd path)
  match found with
  | none => return (-1, s)
  | some ip =>
    let s ← s.doFs (s.fs.ilock (s.pid p) ip)
    let (loaded, s) ← s.load p ip answers
    let s ← s.doFs (s.fs.iunlockput (s.pid p) ip)
    if loaded then s.execStack p answers else return (-1, s)

/-! Processes. -/

/-- `allocproc`, called by `p`. -/
def allocproc (s : Sys) (p c : Fin NPROC) (cwd : Fin NINODE) : Except Stop Sys :=
  if (s.proc c).used then .error .disabled
  else
    let pid := s.nextpid
    let s := { s.setProc c { s.proc c with used := true, pid } with nextpid := pid + 1 }
    if 2 < pid then Prod.snd <$> s.createSwapFile (s.pid p) cwd c else .ok s

/-- A page of the swap file of `p` for that of `c`. -/
def copySwap (p c : Fin NPROC) (s : Sys) (placeOnFile : UInt32) : Except Stop Sys := do
  let (buffer, s) ← s.swap (s.pid p) p (.read placeOnFile)
  let (_, s) ← s.swap (s.pid p) c (.write placeOnFile (buffer.getD · 0))
  return s

/-- The child takes over a descriptor. -/
def copyFd (p c : Fin NPROC) (s : Sys) (fd : Fin NOFILE) : Except Stop Sys :=
  match (s.proc p).ofile fd with
  | none => .ok s
  | some f => (s.setFd c fd (some f)).filedup f

/-- `fork` into a free position; `cowuvm` may fail, and the pages on the swap file are copied. -/
def fork (s : Sys) (p c : Fin NPROC) (cowuvm : Bool) (places : List UInt32) :
    Except Stop (Int × Sys) := do
  let cwd ← s.cwd p
  let s ← s.allocproc p c cwd
  if ¬ cowuvm then return (-1, s.setProc c { s.proc c with used := false })
  else
    let s ← places.foldlM (copySwap p c) s
    let s ← (List.finRange NOFILE).foldlM (copyFd p c) s
    let s := { s with fs := s.fs.idup cwd }
    return (s.pid c, s.setProc c { s.proc c with cwd := some cwd })

def closeFd (p : Fin NPROC) (s : Sys) (fd : Fin NOFILE) : Except Stop Sys :=
  match (s.proc p).ofile fd with
  | none => .ok s
  | some f => do
    let s ← s.fileclose (s.pid p) f
    return s.setFd p fd none

def exitSwapFile (s : Sys) (p : Fin NPROC) : Except Stop Sys :=
  if 2 < s.pid p then do
    let (removed, s) ← s.removeSwapFile p
    if removed = -1 then .error .exitFailedToRemoveSwapFile else .ok s
  else .ok s

/-- The process at the first position is `initproc`. -/
def exit (s : Sys) (p : Fin NPROC) : Except Stop (Int × Sys) := do
  let cwd ← s.cwd p
  if p.val = 0 then .error .initExiting
  else
    let s ← (List.finRange NOFILE).foldlM (closeFd p) s
    let s ← s.exitSwapFile p
    let s ← s.doFs (s.fs.iput (s.pid p) cwd)
    return (0, s.setProc p { s.proc p with cwd := none })

/-- The end of `wait` for a child that has exited. -/
def wait (s : Sys) (c : Fin NPROC) : Except Stop (Int × Sys) :=
  if (s.proc c).used ∧ (s.proc c).cwd = none then
    .ok ((s.proc c).pid, s.setProc c { s.proc c with used := false, pid := 0 })
  else .error .disabled

/-- The calls; an argument `none` is one that `argstr` refuses. -/
inductive Call where
  | sysOpen (path : Option Path) (omode : UInt32)
  | sysLink (old new : Option Path)
  | sysUnlink (path : Option Path)
  | sysMkdir (path : Option Path)
  | sysMknod (path : Option Path) (major minor : Int16)
  | sysChdir (path : Option Path)
  | exec (path : Path) (answers : Answers)
  | removeSwapFile
  | createSwapFile (np : Fin NPROC)
  | swap (a : Access)
  | sysDup (fd : Fin NOFILE)
  | sysClose (fd : Fin NOFILE)
  | fork (c : Fin NPROC) (cowuvm : Bool) (places : List UInt32)
  | exit
  | wait (c : Fin NPROC)

/-- A call on inodes alone. -/
def atInodes (s : Sys) (p : Fin NPROC)
    (f : State → Pid → Fin NINODE → Except Stop (Int × State)) : Except Stop (Int × Sys) := do
  let cwd ← s.cwd p
  s.onFs (f s.fs (s.pid p) cwd)

def call (s : Sys) (p : Fin NPROC) : Call → Except Stop (Int × Sys)
  | .sysOpen (some path) omode => s.sysOpen p path omode
  | .sysLink (some old) (some new) => s.atInodes p fun fs me cwd => fs.sysLink me cwd old new
  | .sysUnlink (some path) => s.atInodes p fun fs me cwd => fs.unlink me cwd path
  | .sysMkdir (some path) => s.atInodes p fun fs me cwd => fs.sysMkdir me cwd path
  | .sysMknod (some path) major minor =>
    s.atInodes p fun fs me cwd => fs.sysMknod me cwd path major minor
  | .sysChdir (some path) => s.sysChdir p path
  | .sysOpen none _ | .sysLink _ _ | .sysUnlink none | .sysMkdir none | .sysMknod none _ _ | .sysChdir none =>
    .ok (-1, s)
  | .exec path answers => s.exec p path answers
  | .removeSwapFile => s.removeSwapFile p
  | .createSwapFile np => do
    let cwd ← s.cwd p
    s.createSwapFile (s.pid p) cwd np
  | .swap a => do
    let (_, s) ← s.swap (s.pid p) p a
    return (0, s)
  | .sysDup fd => s.sysDup p fd
  | .sysClose fd => s.sysClose p fd
  | .fork c cowuvm places => s.fork p c cowuvm places
  | .exit => s.exit p
  | .wait c => s.wait c

/-- The state after `userinit`: the first process has the root directory. -/
def booted (sb : Superblock) (disk : Dev → Disk) (console : Nat → Option (List UInt8)) : Sys where
  fs := (State.booted sb disk console).setInode 0
    ⟨ROOTDEV, ROOTINO, 1, none, false, .zeroed⟩
  ftable _ := ⟨.FD_NONE, 0, false, false, 0, 0⟩
  proc p :=
    if p = 0 then ⟨true, 1, some 0, fun _ => none, none⟩ else ⟨false, 0, none, fun _ => none, none⟩
  nextpid := 2

end Sys

end Xv6.Inodes
