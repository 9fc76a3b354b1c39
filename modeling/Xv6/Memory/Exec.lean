import Xv6.Memory.Process

/-!
`exec`: building a new image from an executable file, with the backup and the
restoration of the paging metadata around it.

The executable is a regular file given by its bytes; `none` stands for a path that
`namei` does not find. The argument strings are values: the reads through the old
page table that fetch them are not represented, and neither are the trap frame, the
name of the process and the transactions around the reads of the file. The copies
that save and restore `prioArr` are taken to move exactly that array.
-/

namespace Xv6

abbrev MAXARG : Nat := 32
abbrev ELF_MAGIC : Nat := 0x464C457F
abbrev ELF_PROG_LOAD : Nat := 1

/-- `readi` of a regular file: the number of bytes read, which are those of the file
from `off` on; `none` is the result -1. -/
def readi (ip : File) (off n : Nat) : Option Nat :=
  if ip.size < off ∨ (off + n) % 2 ^ 32 < off then none else some (min n (ip.size - off))

/-- A little-endian number of `n` bytes. -/
def numberAt (data : Nat → UInt8) (off : Nat) : Nat → Nat
  | 0 => 0
  | n + 1 => (data off).toNat + 256 * numberAt data (off + 1) n

/-- The bytes of a 32-bit word. -/
def wordBytes (w : Nat) : List UInt8 :=
  (List.range 4).map (fun i => UInt8.ofNat (w / 256 ^ i))

/-- The fields of `struct elfhdr` that `exec` uses. -/
structure Elfhdr where
  magic : Nat
  phoff : Nat
  phnum : Nat

/-- The fields of `struct proghdr` that `exec` uses. -/
structure Proghdr where
  type : Nat
  off : Nat
  vaddr : Nat
  filesz : Nat
  memsz : Nat

abbrev ELFHDRSIZE : Nat := 52
abbrev PROGHDRSIZE : Nat := 32

def readElfhdr (ip : File) : Option Elfhdr :=
  if readi ip 0 ELFHDRSIZE = some ELFHDRSIZE then
    some {
      magic := numberAt ip.data 0 4
      phoff := numberAt ip.data 28 4
      phnum := numberAt ip.data 44 2 }
  else none

def readProghdr (ip : File) (off : Nat) : Option Proghdr :=
  if readi ip off PROGHDRSIZE = some PROGHDRSIZE then
    some {
      type := numberAt ip.data off 4
      off := numberAt ip.data (off + 4) 4
      vaddr := numberAt ip.data (off + 8) 4
      filesz := numberAt ip.data (off + 16) 4
      memsz := numberAt ip.data (off + 20) 4 }
  else none

/-- A page with `n` bytes from `start` on replaced. -/
def overwrite (page : Page) (start n : Nat) (src : Nat → UInt8) : Page :=
  fun i => if start ≤ i.val ∧ i.val < start + n then src (i.val - start) else page i

namespace Kernel

/-- The loop of `loaduvm`; false is the result -1. -/
def loadLoop (pgdir addr : Nat) (ip : File) (offset sz : Nat) :
    Nat → Kernel → Nat → Res (Bool × Kernel)
  | 0, k, _ => .ok (true, k)
  | turns + 1, k, i =>
    match walkpgdir (k.dirs pgdir) ((addr + i) % 2 ^ 32) with
    | none => .error .loaduvmNoPte
    | some pte =>
      let n := if sz - i < PGSIZE then sz - i else PGSIZE
      let off := (offset + i) % 2 ^ 32
      match readi ip off n with
      | none => .ok (false, k)
      | some r =>
        let k := k.fill pte.frame
          (overwrite (k.mem pte.frame) 0 r (fun j => ip.data (off + j)))
        if r = n then loadLoop pgdir addr ip offset sz turns k (i + PGSIZE)
        else .ok (false, k)

def loaduvm (k : Kernel) (pgdir addr : Nat) (ip : File) (offset sz : Nat) : Res (Bool × Kernel) :=
  if addr % PGSIZE ≠ 0 then .error .loaduvmAlign
  else loadLoop pgdir addr ip offset sz ((sz + PGSIZE - 1) / PGSIZE) k 0

def clearpteu (k : Kernel) (pgdir uva : Nat) : Res Kernel :=
  match walkpgdir (k.dirs pgdir) uva with
  | none => .error .clearpteu
  | some pte => .ok (k.setPte pgdir uva { pte with u := false })

/-- The frame of a user page, as a page number. -/
def uva2ka (k : Kernel) (pgdir uva : Nat) : Res (Option Nat) :=
  match walkpgdir (k.dirs pgdir) uva with
  | none => .error .nullDeref
  | some pte => .ok (if ¬ pte.p then none else if ¬ pte.u then none else some pte.frame)

/-- The loop of `copyout`. Every turn copies a byte at least, so the first argument
bounds the number of turns. -/
def copyoutLoop (pgdir : Nat) : Nat → Kernel → Nat → List UInt8 → Res (Bool × Kernel)
  | 0, k, _, _ => .ok (true, k)
  | turns + 1, k, va, buf =>
    if buf.isEmpty then .ok (true, k)
    else do
      let va0 := PGROUNDDOWN va
      match ← k.uva2ka pgdir va0 with
      | none => .ok (false, k)
      | some f =>
        let n := min (PGSIZE - (va - va0)) buf.length
        let k := k.fill f (overwrite (k.mem f) (va - va0) n (fun j => buf.getD j 0))
        copyoutLoop pgdir turns k ((va0 + PGSIZE) % 2 ^ 32) (buf.drop n)

/-- False is the result -1. -/
def copyout (k : Kernel) (pgdir va : Nat) (buf : List UInt8) : Res (Bool × Kernel) :=
  copyoutLoop pgdir buf.length k va buf

/-- The loop over `argv`: the stack pointer and the entries of `ustack` from the third
on. -/
def pushStrings (pgdir : Nat) :
    List (List UInt8) → Kernel → Nat → List Nat → Res (Option (Nat × List Nat) × Kernel)
  | [], k, sp, ustack => .ok (some (sp, ustack), k)
  | s :: argv, k, sp, ustack =>
    if MAXARG ≤ ustack.length then .ok (none, k)
    else do
      let sp := (sp + 2 ^ 32 - (s.length + 1)) % 2 ^ 32 / 4 * 4
      match ← k.copyout pgdir sp (s ++ [0]) with
      | (false, k) => .ok (none, k)
      | (true, k) => pushStrings pgdir argv k sp (ustack ++ [sp])

/-- The arguments and the vector that points to them; the result is the stack pointer. -/
def pushArgs (k : Kernel) (pgdir sp : Nat) (argv : List (List UInt8)) :
    Res (Option Nat × Kernel) := do
  match ← pushStrings pgdir argv k sp [] with
  | (none, k) => .ok (none, k)
  | (some (sp, ptrs), k) => do
    let argc := ptrs.length
    let ustack := [0xffffffff, argc, (sp + 2 ^ 32 - (argc + 1) * 4) % 2 ^ 32] ++ ptrs ++ [0]
    let sp := (sp + 2 ^ 32 - (3 + argc + 1) * 4) % 2 ^ 32
    match ← k.copyout pgdir sp (ustack.flatMap wordBytes) with
    | (false, k) => .ok (none, k)
    | (true, k) => .ok (some sp, k)

/-- One program header: the size of the image afterwards, or failure. -/
def loadSegment (cfg : Config) (k : Kernel) (me : ProcNo) (pgdir : Nat) (ip : File) (off sz : Nat) :
    Res (Option Nat × Kernel) :=
  match readProghdr ip off with
  | none => .ok (none, k)
  | some ph =>
    if ph.type ≠ ELF_PROG_LOAD then .ok (some sz, k)
    else if ph.memsz < ph.filesz then .ok (none, k)
    else if (ph.vaddr + ph.memsz) % 2 ^ 32 < ph.vaddr then .ok (none, k)
    else do
      let (sz, k) ← k.allocuvm cfg me pgdir sz ((ph.vaddr + ph.memsz) % 2 ^ 32)
      if sz = 0 then .ok (none, k)
      else if ph.vaddr % PGSIZE ≠ 0 then .ok (none, k)
      else do
        match ← k.loaduvm pgdir ph.vaddr ip ph.off ph.filesz with
        | (false, k) => .ok (none, k)
        | (true, k) => .ok (some sz, k)

def loadSegments (cfg : Config) (me : ProcNo) (pgdir : Nat) (ip : File) :
    Nat → Kernel → Nat → Nat → Res (Option Nat × Kernel)
  | 0, k, _, sz => .ok (some sz, k)
  | n + 1, k, off, sz => do
    match ← k.loadSegment cfg me pgdir ip off sz with
    | (none, k) => .ok (none, k)
    | (some sz, k) => loadSegments cfg me pgdir ip n k ((off + PROGHDRSIZE) % 2 ^ 32) sz

/-- The new image in an empty directory: its size, or failure. -/
def buildImage (cfg : Config) (k : Kernel) (me : ProcNo) (pgdir : Nat) (ip : File) (elf : Elfhdr)
    (argv : List (List UInt8)) : Res (Option Nat × Kernel) := do
  match ← loadSegments cfg me pgdir ip elf.phnum k elf.phoff 0 with
  | (none, k) => .ok (none, k)
  | (some sz, k) => do
    let sz := PGROUNDUP sz
    let (sz, k) ← k.allocuvm cfg me pgdir sz ((sz + 2 * PGSIZE) % 2 ^ 32)
    if sz = 0 then .ok (none, k)
    else do
      let k ← k.clearpteu pgdir ((sz + 2 ^ 32 - 2 * PGSIZE) % 2 ^ 32)
      match ← k.pushArgs pgdir sz argv with
      | (none, k) => .ok (none, k)
      | (some _, k) => .ok (some sz, k)

/-- The label `bad`: the metadata is restored before the partial image is freed. -/
def execBad (cfg : Config) (k : Kernel) (me : ProcNo) (backup : Paging) (pgdir : Option Nat) :
    Res (Int × Kernel) :=
  let k := k.setPaging me backup
  match pgdir with
  | none => .ok (-1, k)
  | some d => do
    let k ← k.freevm cfg me d
    .ok (-1, k)

def exec (cfg : Config) (k : Kernel) (me : ProcNo) (file : Option File)
    (argv : List (List UInt8)) : Res (Int × Kernel) :=
  match file with
  | none => .ok (-1, k)
  | some ip =>
    let backup := (k.proc me).paging
    let k := k.setPaging me backup.reset
    match readElfhdr ip with
    | none => k.execBad cfg me backup none
    | some elf =>
      if elf.magic ≠ ELF_MAGIC then k.execBad cfg me backup none
      else do
        match ← k.setupkvm cfg me with
        | (none, k) => k.execBad cfg me backup none
        | (some d, k) => do
          match ← k.buildImage cfg me d ip elf argv with
          | (none, k) => k.execBad cfg me backup (some d)
          | (some sz, k) => do
            let oldpgdir := (k.proc me).pgdir
            let k := k.setProc me { k.proc me with pgdir := d, sz := sz }
            let k ← k.freevm cfg me oldpgdir
            .ok (0, k)

end Kernel

end Xv6
