import Xv6.System.BlockOwnership
import Xv6.System.Log
import Xv6.System.Paths

/-!
`mkfs`, the program that makes the first image of the file system.

The image is a file of sectors. A sector beyond its end cannot be read, and then `mkfs` exits with
status 1; a failed assertion aborts it. Numbers are kept in the byte order of the disk. The host's file
operations do not fail otherwise, and the input files are given by their names and bytes.

The image is read back as the kernel does, as a disk with a bitmap, inodes and data blocks.
-/

namespace Xv6.Mkfs

open Inodes

abbrev NINODES : Nat := 200
abbrev FSSIZE : Nat := 1000
/-- The size of `struct dinode` is 64. -/
abbrev IPB : Nat := BSIZE / 64

abbrev nbitmap : Nat := FSSIZE / (BSIZE * 8) + 1
abbrev ninodeblocks : Nat := NINODES / IPB + 1
abbrev nlog : Nat := LOGSIZE
abbrev nmeta : Nat := 2 + nlog + ninodeblocks + nbitmap
abbrev nblocks : Nat := FSSIZE - nmeta
abbrev inodestart : Nat := 2 + nlog
abbrev bmapstart : Nat := 2 + nlog + ninodeblocks

/-- The fields of `sb` in order. -/
def superblock : List Nat := [FSSIZE, nblocks, NINODES, nlog, 2, inodestart, bmapstart]

/-- What the kernel uses of the superblock. -/
def sb : Superblock := ⟨FSSIZE, nblocks, NINODES, by decide, by decide⟩

inductive Stop
  /-- `exit(1)`. -/
  | failed
  /-- An assertion does not hold. -/
  | aborted
  deriving DecidableEq

structure State where
  /-- The image file. -/
  sector : Nat → Block
  /-- Its length in sectors. -/
  count : Nat
  freeinode : Nat
  freeblock : Nat

/-- `struct dinode`. -/
structure Dinode where
  type : Nat
  major : Nat
  minor : Nat
  nlink : Nat
  size : Nat
  addrs : Fin (Inodes.NDIRECT + 1) → Nat

namespace Dinode

/-- The structure as numbers of four bytes. -/
def words (d : Dinode) (j : Nat) : Nat :=
  if j = 0 then d.type + 2 ^ 16 * d.major
  else if j = 1 then d.minor + 2 ^ 16 * d.nlink
  else if j = 2 then d.size
  else if h : j - 3 < Inodes.NDIRECT + 1 then d.addrs ⟨j - 3, h⟩ else 0

/-- The inode at place `r` of a block. -/
def get (block : Block) (r : Nat) : Dinode where
  type := word block (16 * r) % 2 ^ 16
  major := word block (16 * r) / 2 ^ 16
  minor := word block (16 * r + 1) % 2 ^ 16
  nlink := word block (16 * r + 1) / 2 ^ 16
  size := word block (16 * r + 2)
  addrs k := word block (16 * r + 3 + k)

def put (block : Block) (r : Nat) (d : Dinode) : Block := fun i =>
  if i / 64 = r then UInt8.ofNat (d.words (i / 4 % 16) / 2 ^ (8 * (i % 4))) else block i

def zeroed : Dinode := ⟨0, 0, 0, 0, 0, fun _ => 0⟩

end Dinode

namespace State

def wsect (m : State) (sec : Nat) (buf : Block) : State :=
  { m with sector := Function.update m.sector sec buf, count := max m.count (sec + 1) }

def rsect (m : State) (sec : Nat) : Except Stop Block :=
  if sec < m.count then .ok (m.sector sec) else .error .failed

def winode (m : State) (inum : Nat) (ip : Dinode) : Except Stop State := do
  let bn := inum / IPB + inodestart
  let buf ← m.rsect bn
  return m.wsect bn (Dinode.put buf (inum % IPB) ip)

def rinode (m : State) (inum : Nat) : Except Stop Dinode := do
  let bn := inum / IPB + inodestart
  let buf ← m.rsect bn
  return Dinode.get buf (inum % IPB)

abbrev T_DIR : Nat := 1
abbrev T_FILE : Nat := 2

def ialloc (m : State) (type : Nat) : Except Stop (Nat × State) := do
  let inum := m.freeinode
  let m := { m with freeinode := m.freeinode + 1 }
  let m ← m.winode inum { Dinode.zeroed with type := type, nlink := 1 }
  return (inum, m)

/-- `freeblock++` for an address of the inode that is 0. -/
def allocAddr (m : State) (din : Dinode) (k : Fin (Inodes.NDIRECT + 1)) : State × Dinode :=
  if din.addrs k = 0 then
    ({ m with freeblock := m.freeblock + 1 },
      { din with addrs := Function.update din.addrs k m.freeblock })
  else (m, din)

/-- The sector of block `fbn` of a file, which is allocated if need be. -/
def locate (m : State) (din : Dinode) (fbn : Nat) : Except Stop (State × Dinode × Nat) :=
  if h : fbn < Inodes.NDIRECT then
    let (m, din) := m.allocAddr din ⟨fbn, Nat.lt_succ_of_lt h⟩
    .ok (m, din, din.addrs ⟨fbn, Nat.lt_succ_of_lt h⟩)
  else do
    let (m, din) := m.allocAddr din indirect
    let entries ← m.rsect (din.addrs indirect)
    if word entries (fbn - Inodes.NDIRECT) = 0 then
      let entries := setWord entries (fbn - Inodes.NDIRECT) m.freeblock
      let m := { m with freeblock := m.freeblock + 1 }.wsect (din.addrs indirect) entries
      return (m, din, word entries (fbn - Inodes.NDIRECT))
    else return (m, din, word entries (fbn - Inodes.NDIRECT))

/-- The loop of `iappend`. -/
def appendLoop (m : State) (din : Dinode) (p : List UInt8) (off : Nat) :
    Except Stop (State × Dinode × Nat) :=
  match p with
  | [] => .ok (m, din, off)
  | c :: cs => do
    let fbn := off / BSIZE
    if fbn < MAXFILE then
      let (m, din, x) ← m.locate din fbn
      let n1 := min (c :: cs).length ((fbn + 1) * BSIZE - off)
      let buf ← m.rsect x
      let m := m.wsect x (patch buf (off - fbn * BSIZE) n1 fun i => (c :: cs).getD i 0)
      appendLoop m din ((c :: cs).drop n1) (off + n1)
    else .error .aborted
termination_by p.length
decreasing_by
  unfold BSIZE
  simp only [List.length_drop, List.length_cons]
  omega

def iappend (m : State) (inum : Nat) (p : List UInt8) : Except Stop State := do
  let din ← m.rinode inum
  let (m, din, off) ← m.appendLoop din p din.size
  m.winode inum { din with size := off }

/-- The bitmap block with the first `used` bits set. -/
def bitmap (used : Nat) : Block :=
  (List.range used).foldl
    (fun buf i => Function.update buf (i / 8) (buf (i / 8) ||| 1 <<< UInt8.ofNat (i % 8))) fun _ => 0

def balloc (m : State) (used : Nat) : Except Stop State :=
  if used < BSIZE * 8 then .ok (m.wsect bmapstart (bitmap used)) else .error .aborted

end State

/-- An input file. -/
structure File where
  name : List UInt8
  contents : List UInt8

/-- The first `_` of a name is skipped. -/
def File.stored (file : File) : List UInt8 :=
  if file.name.head? = some 95 then file.name.tail else file.name

/-- An entry of the root directory; `strncpy` cuts the name and fills up with zeros. -/
def dirent (inum : Nat) (name : List UInt8) : List UInt8 :=
  UInt8.ofNat inum :: UInt8.ofNat (inum / 256) ::
    (List.range Fs.DIRSIZ).map fun i => name.getD i 0

namespace State

/-- The loop that reads an input file. -/
def copy (m : State) (inum : Nat) (contents : List UInt8) : Except Stop State :=
  match contents with
  | [] => .ok m
  | c :: cs => do
    let m ← m.iappend inum ((c :: cs).take BSIZE)
    copy m inum ((c :: cs).drop BSIZE)
termination_by contents.length
decreasing_by
  unfold BSIZE
  simp only [List.length_drop, List.length_cons]
  omega

/-- The part of `main` for one input file. -/
def add (rootino : Nat) (m : State) (file : File) : Except Stop State :=
  if file.name.contains 47 then .error .aborted
  else do
    let (inum, m) ← m.ialloc T_FILE
    let m ← m.iappend rootino (dirent inum file.stored)
    m.copy inum file.contents

/-- The image before the root directory is made. -/
def start : State :=
  let m : State := { sector := fun _ _ => 0, count := 0, freeinode := 1, freeblock := nmeta }
  let m := (List.range FSSIZE).foldl (fun m i => m.wsect i fun _ => 0) m
  m.wsect 1 fun i => UInt8.ofNat (superblock.getD (i / 4) 0 / 2 ^ (8 * (i % 4)))

/-- The size of the root directory goes up to the end of a block. -/
def fixRoot (m : State) (rootino : Nat) : Except Stop State := do
  let din ← m.rinode rootino
  m.winode rootino { din with size := (din.size / BSIZE + 1) * BSIZE }

end State

/-- `main`; a value means status 0. -/
def main (files : List File) : Except Stop State := do
  let (rootino, m) ← State.start.ialloc State.T_DIR
  if rootino = ROOTINO then
    let m ← m.iappend rootino (dirent rootino [46])
    let m ← m.iappend rootino (dirent rootino [46, 46])
    let m ← files.foldlM (State.add rootino) m
    let m ← m.fixRoot rootino
    m.balloc m.freeblock
  else .error .aborted

/-- What the kernel takes the type of an inode for; `mkfs` writes 1 and 2. -/
def fileType : Nat → FileType
  | 1 => .T_DIR
  | 2 => .T_FILE
  | 3 => .T_DEV
  | _ => .FREE

def Dinode.inode (d : Dinode) : DInode where
  type := fileType d.type
  major := .ofNat d.major
  minor := .ofNat d.minor
  nlink := .ofNat d.nlink
  size := d.size
  addrs := d.addrs

/-- The image as the kernel reads it. -/
def State.disk (m : State) : Disk where
  bit b := (m.sector (b / (BSIZE * 8) + bmapstart) (b % (BSIZE * 8) / 8)).toNat.testBit (b % 8)
  dinode i := (Dinode.get (m.sector (i / IPB + inodestart)) (i % IPB)).inode
  data b := m.sector b

/-- The bytes of a file, by its inode and the addresses of its blocks. -/
def readBytes (d : Disk) (inum : Nat) : List UInt8 :=
  (List.range (d.dinode inum).size).map fun p =>
    match slotAt (p / BSIZE) with
    | some slot => d.data (entry d.data (d.dinode inum) slot) (p % BSIZE)
    | none => 0

end Xv6.Mkfs
