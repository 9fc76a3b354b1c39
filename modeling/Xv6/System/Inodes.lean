import Xv6.Memory.SwapFile

/-!
Disk blocks, inodes and the inode cache: `fs.c` from `balloc` to `writei`.

A disk is kept by what its areas hold, the bitmap, the inodes and the data blocks; a data
block is bytes, and an indirect block is one of them read as numbers. What would reach into
another area, or past the disk, stops as `outside` or `noInode`. The buffer cache and the log
below are those of other modules. A call runs without interruption; one that has to wait for the lock
of an inode stops as `waits`.
-/

namespace Xv6.Inodes

abbrev NINODE : Nat := 50
abbrev NDIRECT : Nat := 12
abbrev NINDIRECT : Nat := BSIZE / 4
abbrev ROOTDEV : Nat := 1
abbrev ROOTINO : Nat := 1
abbrev CONSOLE : Int16 := 1

abbrev Pid := Nat
abbrev Dev := Nat

/-- The bytes of a block. -/
abbrev Block := Nat → UInt8

/-- The number at place `j` of a block. -/
def word (block : Block) (j : Nat) : Nat :=
  (block (4 * j)).toNat + 2 ^ 8 * (block (4 * j + 1)).toNat + 2 ^ 16 * (block (4 * j + 2)).toNat +
    2 ^ 24 * (block (4 * j + 3)).toNat

def setWord (block : Block) (j v : Nat) : Block := fun i =>
  if i / 4 = j then UInt8.ofNat (v / 2 ^ (8 * (i % 4))) else block i

/-- `memmove` of `m` bytes to offset `at'` of a block. -/
def patch (block : Block) (at' m : Nat) (src : Nat → UInt8) : Block := fun i =>
  if at' ≤ i ∧ i < at' + m then src (i - at') else block i

/-- The fields of the superblock in use; the data blocks are the last ones, and there are others
before them. -/
structure Superblock where
  size : Nat
  nblocks : Nat
  ninodes : Nat
  fits : size < 2 ^ 32
  apart : nblocks < size

/-- The type 0 of a free inode is `FREE`. -/
inductive FileType where
  | FREE
  | T_DIR
  | T_FILE
  | T_DEV
  deriving DecidableEq

structure DInode where
  type : FileType
  major : Int16
  minor : Int16
  nlink : Int16
  size : Nat
  addrs : Fin (NDIRECT + 1) → Nat

def DInode.zeroed : DInode := ⟨.FREE, 0, 0, 0, 0, fun _ => 0⟩

structure Disk where
  bit : Nat → Bool
  dinode : Nat → DInode
  data : Nat → Block

/-- `struct inode`; the fields behind `valid` are a copy of those on disk. -/
structure CInode where
  dev : Dev
  inum : Nat
  ref : Int
  lock : Option Pid
  valid : Bool
  copy : DInode

inductive Stop where
  | ballocOutOfBlocks
  | freeingFreeBlock
  | iallocNoInodes
  | igetNoInodes
  | ilock
  | ilockNoType
  | iunlock
  | bmapOutOfRange
  | dirlookupNotDir
  | dirlookupRead
  | dirlinkRead
  | dirlink
  | isdiremptyReadi
  | unlinkNlink
  | unlinkWritei
  | createDots
  | createDirlink
  | noSlotForFiles
  | filedup
  | fileclose
  | fileread
  | filewrite
  | shortFilewrite
  | exitFailedToRemoveSwapFile
  | initExiting
  /-- A lock is not free. -/
  | waits
  /-- A block number outside the data blocks. -/
  | outside
  /-- An inode number outside the inodes. -/
  | noInode
  /-- The caller does not hold what the function expects it to hold. -/
  | disabled
  deriving DecidableEq

/-- An address of an inode: in the inode itself, or in its indirect block. -/
inductive Slot where
  | addr (k : Fin (NDIRECT + 1))
  | ind (j : Fin NINDIRECT)
  deriving DecidableEq

def Slot.all : List Slot := (List.finRange _).map .addr ++ (List.finRange _).map .ind

/-- The indirect block's place in `addrs`. -/
def indirect : Fin (NDIRECT + 1) := ⟨NDIRECT, Nat.lt_succ_self _⟩

/-- The block number at an address; 0 is none. -/
def entry (data : Nat → Block) (n : DInode) : Slot → Nat
  | .addr k => n.addrs k
  | .ind j => if n.addrs indirect = 0 then 0 else word (data (n.addrs indirect)) j

/-- A block that `balloc` has returned, and whether some inode had it already. -/
structure Grant where
  dev : Dev
  block : Nat
  inUse : Bool

structure State where
  sb : Superblock
  disk : Dev → Disk
  icache : Fin NINODE → CInode
  /-- What the console answers to a read of `n` bytes; nothing means -1. -/
  console : Nat → Option (List UInt8)
  /-- The blocks allocated so far; they influence nothing. -/
  granted : List Grant

namespace State

def isData (s : State) (b : Nat) : Bool := s.sb.size - s.sb.nblocks ≤ b && b < s.sb.size

/-- The cache entry that holds the inode's fields. -/
def cached (s : State) (dev : Dev) (i : Nat) : Option (Fin NINODE) :=
  (List.finRange NINODE).find? fun e =>
    0 < (s.icache e).ref && (s.icache e).valid && (s.icache e).dev == dev && (s.icache e).inum == i

/-- The fields of an inode, from the cache or from the disk. -/
def inode (s : State) (dev : Dev) (i : Nat) : DInode :=
  match s.cached dev i with
  | some e => (s.icache e).copy
  | none => (s.disk dev).dinode i

def inUse (s : State) (dev : Dev) (b : Nat) : Bool :=
  (List.range s.sb.ninodes).any fun i =>
    (s.inode dev i).type != .FREE &&
      Slot.all.any fun slot => entry (s.disk dev).data (s.inode dev i) slot == b

def setDisk (s : State) (dev : Dev) (d : Disk) : State :=
  { s with disk := Function.update s.disk dev d }

def setInode (s : State) (ip : Fin NINODE) (c : CInode) : State :=
  { s with icache := Function.update s.icache ip c }

def setCopy (s : State) (ip : Fin NINODE) (n : DInode) : State :=
  s.setInode ip { s.icache ip with copy := n }

/-! Blocks. -/

def bread (s : State) (dev : Dev) (b : Nat) : Except Stop Block :=
  if s.isData b then .ok ((s.disk dev).data b) else .error .outside

/-- The buffer is changed and given to `log_write`. -/
def bwrite (s : State) (dev : Dev) (b : Nat) (block : Block) : Except Stop State :=
  if s.isData b then
    .ok (s.setDisk dev { s.disk dev with data := Function.update (s.disk dev).data b block })
  else .error .outside

def setBit (s : State) (dev : Dev) (b : Nat) (v : Bool) : State :=
  s.setDisk dev { s.disk dev with bit := Function.update (s.disk dev).bit b v }

/-- The loops over the blocks of the bitmap and their bits are one. -/
def balloc (s : State) (dev : Dev) : Except Stop (Nat × State) :=
  match (List.range s.sb.size).find? fun b => !(s.disk dev).bit b with
  | none => .error .ballocOutOfBlocks
  | some b => do
    let s' ← (s.setBit dev b true).bwrite dev b fun _ => 0
    return (b, { s' with granted := ⟨dev, b, s.inUse dev b⟩ :: s'.granted })

def bfree (s : State) (dev : Dev) (b : Nat) : Except Stop State :=
  if s.sb.size ≤ b then .error .outside
  else if (s.disk dev).bit b then .ok (s.setBit dev b false)
  else .error .freeingFreeBlock

/-! Inodes. -/

def iupdate (s : State) (ip : Fin NINODE) : Except Stop State :=
  let c := s.icache ip
  if c.inum < s.sb.ninodes then
    .ok (s.setDisk c.dev
      { s.disk c.dev with dinode := Function.update (s.disk c.dev).dinode c.inum c.copy })
  else .error .noInode

def iget (s : State) (dev : Dev) (inum : Nat) : Except Stop (Fin NINODE × State) :=
  match (List.finRange NINODE).find? fun e =>
      0 < (s.icache e).ref && (s.icache e).dev == dev && (s.icache e).inum == inum with
  | some ip => .ok (ip, s.setInode ip { s.icache ip with ref := (s.icache ip).ref + 1 })
  | none =>
    match (List.finRange NINODE).find? fun e => (s.icache e).ref == 0 with
    | none => .error .igetNoInodes
    | some ip => .ok (ip, s.setInode ip { s.icache ip with dev, inum, ref := 1, valid := false })

def ialloc (s : State) (dev : Dev) (type : FileType) : Except Stop (Fin NINODE × State) :=
  match (List.range' 1 (s.sb.ninodes - 1)).find? fun i => ((s.disk dev).dinode i).type == .FREE with
  | none => .error .iallocNoInodes
  | some i =>
    (s.setDisk dev { s.disk dev with
      dinode := Function.update (s.disk dev).dinode i { DInode.zeroed with type } }).iget dev i

def idup (s : State) (ip : Fin NINODE) : State :=
  s.setInode ip { s.icache ip with ref := (s.icache ip).ref + 1 }

def acquiresleep (s : State) (me : Pid) (ip : Fin NINODE) : Except Stop State :=
  if (s.icache ip).lock = none then .ok (s.setInode ip { s.icache ip with lock := some me })
  else .error .waits

def releasesleep (s : State) (ip : Fin NINODE) : State :=
  s.setInode ip { s.icache ip with lock := none }

def ilock (s : State) (me : Pid) (ip : Fin NINODE) : Except Stop State :=
  if (s.icache ip).ref < 1 then .error .ilock
  else do
    let s ← s.acquiresleep me ip
    let c := s.icache ip
    if c.valid then return s
    else if s.sb.ninodes ≤ c.inum then .error .noInode
    else
      let n := (s.disk c.dev).dinode c.inum
      if n.type = .FREE then .error .ilockNoType
      else return s.setInode ip { c with valid := true, copy := n }

def iunlock (s : State) (me : Pid) (ip : Fin NINODE) : Except Stop State :=
  if (s.icache ip).lock ≠ some me ∨ (s.icache ip).ref < 1 then .error .iunlock
  else .ok (s.releasesleep ip)

/-- The address in `addrs`, which is allocated if there is none. -/
def addrAt (s : State) (ip : Fin NINODE) (k : Fin (NDIRECT + 1)) : Except Stop (Nat × State) :=
  let c := s.icache ip
  if c.copy.addrs k = 0 then do
    let (b, s) ← s.balloc c.dev
    return (b, s.setCopy ip { c.copy with addrs := Function.update c.copy.addrs k b })
  else .ok (c.copy.addrs k, s)

/-- The entry of an indirect block, which is allocated if there is none. -/
def entryAt (s : State) (dev : Dev) (addr j : Nat) : Except Stop (Nat × State) := do
  let a ← s.bread dev addr
  if word a j = 0 then
    let (b, s) ← s.balloc dev
    let s ← s.bwrite dev addr (setWord a j b)
    return (b, s)
  else return (word a j, s)

def bmap (s : State) (ip : Fin NINODE) (bn : Nat) : Except Stop (Nat × State) :=
  if h : bn < NDIRECT then s.addrAt ip ⟨bn, Nat.lt_succ_of_lt h⟩
  else if bn - NDIRECT < NINDIRECT then do
    let (addr, s) ← s.addrAt ip indirect
    s.entryAt (s.icache ip).dev addr (bn - NDIRECT)
  else .error .bmapOutOfRange

/-- A round of the first loop of `itrunc`. -/
def freeAddr (s : State) (ip : Fin NINODE) (k : Fin (NDIRECT + 1)) : Except Stop State :=
  let c := s.icache ip
  if c.copy.addrs k = 0 then .ok s
  else do
    let s ← s.bfree c.dev (c.copy.addrs k)
    return s.setCopy ip { c.copy with addrs := Function.update c.copy.addrs k 0 }

/-- A round of the second loop. -/
def freeWord (dev : Dev) (a : Block) (s : State) (j : Fin NINDIRECT) : Except Stop State :=
  if word a j = 0 then .ok s else s.bfree dev (word a j)

/-- What `itrunc` does with an indirect block. -/
def freeIndirect (s : State) (ip : Fin NINODE) : Except Stop State := do
  let c := s.icache ip
  let a ← s.bread c.dev (c.copy.addrs indirect)
  let s ← (List.finRange NINDIRECT).foldlM (freeWord c.dev a) s
  s.freeAddr ip indirect

def itrunc (s : State) (ip : Fin NINODE) : Except Stop State := do
  let s ← (List.finRange NDIRECT).foldlM (fun s k => s.freeAddr ip k.castSucc) s
  let s ← if (s.icache ip).copy.addrs indirect = 0 then .ok s else s.freeIndirect ip
  (s.setCopy ip { (s.icache ip).copy with size := 0 }).iupdate ip

/-- What `iput` does with an inode that has no names left. -/
def discard (s : State) (ip : Fin NINODE) : Except Stop State := do
  let s ← s.itrunc ip
  let s ← (s.setCopy ip { (s.icache ip).copy with type := .FREE }).iupdate ip
  return s.setInode ip { s.icache ip with valid := false }

def iput (s : State) (me : Pid) (ip : Fin NINODE) : Except Stop State := do
  let s ← s.acquiresleep me ip
  let s ←
    if (s.icache ip).valid ∧ (s.icache ip).copy.nlink = 0 ∧ (s.icache ip).ref = 1 then s.discard ip
    else .ok s
  let s := s.releasesleep ip
  return s.setInode ip { s.icache ip with ref := (s.icache ip).ref - 1 }

def iunlockput (s : State) (me : Pid) (ip : Fin NINODE) : Except Stop State := do
  let s ← s.iunlock me ip
  s.iput me ip

/-! Contents. -/

/-- The loop of `readi`, with what has been read. -/
def readLoop (ip : Fin NINODE) : Nat → State → Nat → Nat → List UInt8 →
    Except Stop (List UInt8 × State)
  | 0, s, _, _, read => .ok (read, s)
  | fuel + 1, s, off, n, read =>
    if n = 0 then .ok (read, s)
    else do
      let (b, s) ← s.bmap ip (off / BSIZE)
      let bp ← s.bread (s.icache ip).dev b
      let m := min n (BSIZE - off % BSIZE)
      readLoop ip fuel s (off + m) (n - m)
        (read ++ (List.range m).map fun i => bp (off % BSIZE + i))

/-- The device functions give up the lock for a while. -/
def device (s : State) (me : Pid) (ip : Fin NINODE) : Except Stop State := do
  let s ← s.iunlock me ip
  s.ilock me ip

/-- What has been read; nothing means -1. -/
def readi (s : State) (me : Pid) (ip : Fin NINODE) (off n : UInt32) :
    Except Stop (Option (List UInt8) × State) :=
  let c := (s.icache ip).copy
  if c.type = .T_DEV then
    if c.major = CONSOLE then do
      let s ← s.device me ip
      return (s.console n.toNat, s)
    else .ok (none, s)
  else if c.size < off.toNat ∨ off + n < off then .ok (none, s)
  else do
    let n := min n.toNat (c.size - off.toNat)
    let (read, s) ← readLoop ip n s off.toNat n []
    return (some read, s)

/-- The loop of `writei`. -/
def writeLoop (ip : Fin NINODE) : Nat → State → (Nat → UInt8) → Nat → Nat → Except Stop State
  | 0, s, _, _, _ => .ok s
  | fuel + 1, s, src, off, n =>
    if n = 0 then .ok s
    else do
      let (b, s) ← s.bmap ip (off / BSIZE)
      let bp ← s.bread (s.icache ip).dev b
      let m := min n (BSIZE - off % BSIZE)
      let s ← s.bwrite (s.icache ip).dev b (patch bp (off % BSIZE) m src)
      writeLoop ip fuel s (fun i => src (i + m)) (off + m) (n - m)

/-- The number of bytes written; nothing means -1. -/
def writei (s : State) (me : Pid) (ip : Fin NINODE) (src : Nat → UInt8) (off n : UInt32) :
    Except Stop (Option Nat × State) :=
  let c := (s.icache ip).copy
  if c.type = .T_DEV then
    if c.major = CONSOLE then do
      let s ← s.device me ip
      return (some n.toNat, s)
    else .ok (none, s)
  else if c.size < off.toNat ∨ off + n < off then .ok (none, s)
  else if MAXFILE * BSIZE < off.toNat + n.toNat then .ok (none, s)
  else do
    let s ← writeLoop ip n.toNat s src off.toNat n.toNat
    if 0 < n.toNat ∧ (s.icache ip).copy.size < off.toNat + n.toNat then
      let s ← (s.setCopy ip { (s.icache ip).copy with size := off.toNat + n.toNat }).iupdate ip
      return (some n.toNat, s)
    else return (some n.toNat, s)

/-- The state after `iinit`, with these disks. -/
def booted (sb : Superblock) (disk : Dev → Disk) (console : Nat → Option (List UInt8)) :
    State where
  sb := sb
  disk := disk
  icache _ := ⟨0, 0, 0, none, false, .zeroed⟩
  console := console
  granted := []

end State

end Xv6.Inodes
