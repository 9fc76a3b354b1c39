import Xv6.Memory.Kernel

/-!
Virtual memory: the functions of `vm.c` that work on page tables, frames, the
swap file and the metadata of the current process, which is the argument `me`.

A function whose result tells success from failure returns it with the state;
`none` or `false` is the source's 0 or -1.
-/

namespace Xv6

namespace Kernel

/-- The metadata update of `deallocuvm`, made for processes that page. -/
def releaseMeta (k : Kernel) (me : ProcNo) (pgdir a : Nat) : Kernel :=
  if 2 < (k.proc me).pid then k.setPaging me ((k.proc me).paging.release pgdir a) else k

/-- What `deallocuvm` does for one page that has a page table entry. -/
def deallocPage (cfg : Config) (k : Kernel) (me : ProcNo) (pgdir a : Nat) (pte : Pte) :
    Res Kernel :=
  if pte.p ∨ pte.pg then
    if pte.frame = 0 then .error .kfree
    else do
      let k ← k.dropFrame cfg pte.frame
      .ok ((k.releaseMeta me pgdir a).setPte pgdir a .zero)
  else .ok k

/-- The loop of `deallocuvm`. An absent page table sends it to the next one. The
first argument bounds the number of turns. -/
def deallocLoop (cfg : Config) (me : ProcNo) (pgdir oldsz : Nat) : Nat → Kernel → Nat → Res Kernel
  | 0, k, a => if a < oldsz then .error .noReturn else .ok k
  | n + 1, k, a =>
    if a < oldsz then
      match walkpgdir (k.dirs pgdir) a with
      | none => deallocLoop cfg me pgdir oldsz n k (PGADDR (PDX a + 1) 0 0)
      | some pte => do
        let k ← k.deallocPage cfg me pgdir a pte
        deallocLoop cfg me pgdir oldsz n k ((a + PGSIZE) % 2 ^ 32)
    else .ok k

def deallocuvm (cfg : Config) (k : Kernel) (me : ProcNo) (pgdir oldsz newsz : Nat) :
    Res (Nat × Kernel) :=
  if oldsz ≤ newsz then .ok (oldsz, k)
  else do
    let a := PGROUNDUP newsz
    let k ← deallocLoop cfg me pgdir oldsz (oldsz / PGSIZE + 1) k a
    .ok (newsz, k)

/-- The loop of `freevm` over the directory. -/
def freeTables (cfg : Config) (pgdir : Nat) (k : Kernel) (i : Nat) : Res Kernel :=
  match tableAt (k.dirs pgdir) i with
  | none => .ok k
  | some f => k.dropFrame cfg f

def freevm (cfg : Config) (k : Kernel) (me : ProcNo) (pgdir : Nat) : Res Kernel :=
  if pgdir = 0 then .error .freevmNoPgdir
  else do
    let (_, k) ← k.deallocuvm cfg me pgdir KERNBASE 0
    let k ← (List.range NPDENTRIES).foldlM (freeTables cfg pgdir) k
    k.kfree cfg pgdir

/-- `struct kmap`; the permission is `PTE_W` or 0. -/
structure Kmap where
  virt : Nat
  physStart : Nat
  physEnd : Nat
  w : Bool

def kmap (cfg : Config) : List Kmap := [
  ⟨KERNBASE, 0, EXTMEM, true⟩,
  ⟨KERNLINK, V2P KERNLINK, V2P cfg.kernelData, false⟩,
  ⟨cfg.kernelData, V2P cfg.kernelData, PHYSTOP, true⟩,
  ⟨DEVSPACE, DEVSPACE, 0, true⟩]

def mapKernel (cfg : Config) (pgdir : Nat) : List Kmap → Kernel → Res (Bool × Kernel)
  | [], k => .ok (true, k)
  | e :: rest, k => do
    match ← k.mappages cfg pgdir e.virt ((e.physEnd + 2 ^ 32 - e.physStart) % 2 ^ 32)
      (e.physStart / PGSIZE) { w := e.w } with
    | (false, k) => .ok (false, k)
    | (true, k) => mapKernel cfg pgdir rest k

def setupkvm (cfg : Config) (k : Kernel) (me : ProcNo) : Res (Option Nat × Kernel) := do
  match ← k.kalloc cfg with
  | (none, k) => .ok (none, k)
  | (some pgdir, k) =>
    let k := { k with dirs := Function.update k.dirs pgdir .zeroed }
    if DEVSPACE < P2V PHYSTOP then .error .physTooHigh
    else
      match ← mapKernel cfg pgdir (kmap cfg) k with
      | (true, k) => .ok (some pgdir, k)
      | (false, k) => do
        let k ← k.freevm cfg me pgdir
        .ok (none, k)

/-- `writeToSwapFile(p, buffer, off, PGSIZE)` for the process `s`. -/
def writeSwap (k : Kernel) (s : ProcNo) (page : Page) (off : Nat) : Res Kernel :=
  match (k.proc s).swapFile with
  | none => .error .nullDeref
  | some file =>
    .ok ((k.setProc s { k.proc s with
      swapFile := some (writeToSwapFile file page off).2 }).record
        (.swapWrite s off file.size))

/-- `readFromSwapFile(p, buffer, off, PGSIZE)`: the buffer afterwards. -/
def readSwap (k : Kernel) (s : ProcNo) (buffer : Page) (off : Nat) : Res Page :=
  match (k.proc s).swapFile with
  | none => .error .nullDeref
  | some file => .ok (readFromSwapFile file buffer off)

/-- Indices are -1 where no slot was found. -/
def pageToSwapFile (cfg : Config) (k : Kernel) (me : ProcNo) (memIndex : Int)
    (swapIndex : Option Slot) (pgdir : Nat) : Res Kernel := do
  cfg.meet .eviction
  let k := k.setProc me { k.proc me with pagedout := (k.proc me).pagedout + 1 }
  if memIndex = -1 then .error .noValidMemIndex
  else
    match swapIndex with
    | none => .error .noSwapSpace
    | some j => do
      let i ← ramSlot memIndex
      let before := (k.proc me).paging
      let va := (before.ramPmd i).va
      let k := (k.setPaging me (before.pageOut i j)).record (.evicted me before i)
      match walkpgdir (k.dirs pgdir) va with
      | none => .error .nullDeref
      | some pte =>
        let k := { k with buffer := k.mem pte.frame }
        let k ← k.writeSwap me k.buffer (j.val * PGSIZE)
        let k ← k.dropFrame cfg pte.frame
        .ok (k.setPte pgdir va { pte with p := false, pg := true })

def updatePageInPriorityQueue (cfg : Config) (me : ProcNo) (k : Kernel) (pageNum : Int) :
    Res Kernel := do
  let p := k.proc me
  let i ← ramSlot pageNum
  let va := (p.paging.ramPmd i).va
  match walkpgdir (k.dirs p.pgdir) va with
  | none => .error .nullDeref
  | some pte =>
    let accessed := fun va => (walkpgdir (k.dirs p.pgdir) va).map Pte.a
    let m ← updatePage cfg.sel accessed pte.a p.paging i
    .ok (((k.setPaging me m).setPte p.pgdir va { pte with a := false }).record
      (.sampled me va pte.a))

def updatePagesInPriorityQueue (cfg : Config) (k : Kernel) (me : ProcNo) : Res Kernel :=
  if (k.proc me).pid ≤ 2 then .ok k
  else (sampleOrder cfg.sel (k.proc me).paging).foldlM (updatePageInPriorityQueue cfg me) k

/-- Evict the page the policy chooses into the first vacant swap slot. -/
def evict (cfg : Config) (k : Kernel) (me : ProcNo) (pgdir : Nat) : Res Kernel :=
  let choice := getVictimIndex cfg.sel (k.proc me).paging
  let k := k.setPaging me choice.2
  k.pageToSwapFile cfg me choice.1
    (getPageIndexDefault (k.proc me).paging.swapPmd false CLEAN_VA) pgdir

/-- The eviction `allocuvm` makes before it allocates a page, unless the kernel is
built without a policy. -/
def makeRoom (cfg : Config) (k : Kernel) (me : ProcNo) (pgdir : Nat) : Res Kernel :=
  if cfg.sel = .NONE then .ok k
  else if MAX_PSYC_PAGES ≤ (k.proc me).paging.pagesInMemory then
    if (k.proc me).paging.pagesInSwapfile = MAX_TOTAL_PAGES - MAX_PSYC_PAGES then
      .error .allocuvmFull
    else do
      let k ← k.updatePagesInPriorityQueue cfg me
      k.evict cfg me pgdir
  else .ok k

/-- The metadata update `allocuvm` makes for a page it has mapped, likewise. -/
def trackPage (cfg : Config) (k : Kernel) (me : ProcNo) (pgdir a : Nat) : Res Kernel :=
  if cfg.sel = .NONE then .ok k
  else match getPageIndexDefault (k.proc me).paging.ramPmd false CLEAN_VA with
  | none => .error .outOfBounds
  | some i => do
    let m := (k.proc me).paging.occupy i a pgdir
    let m := { m with pagesInMemory := m.pagesInMemory + 1 }
    let m ← insertPageToPrioQueue cfg.sel m i
    .ok ((k.setPaging me m).record (.loaded me a m))

/-- Allocate, map and record one page; undo the whole call where memory runs out. -/
def addPage (cfg : Config) (k : Kernel) (me : ProcNo) (pgdir oldsz newsz a : Nat) :
    Res (Bool × Kernel) := do
  match ← k.kalloc cfg with
  | (none, k) => do
    let (_, k) ← k.deallocuvm cfg me pgdir newsz oldsz
    .ok (false, k)
  | (some f, k) =>
    let k := k.fill f .zeroed
    match ← k.mappages cfg pgdir a PGSIZE f .user with
    | (false, k) => do
      let (_, k) ← k.deallocuvm cfg me pgdir newsz oldsz
      let k ← k.kfree cfg f
      .ok (false, k)
    | (true, k) => do
      let k ← k.trackPage cfg me pgdir a
      .ok (true, k)

/-- One turn of the loop of `allocuvm`. -/
def allocPage (cfg : Config) (k : Kernel) (me : ProcNo) (pgdir oldsz newsz a : Nat) :
    Res (Bool × Kernel) := do
  let k ← k.makeRoom cfg me pgdir
  k.addPage cfg me pgdir oldsz newsz a

def allocLoop (cfg : Config) (me : ProcNo) (pgdir oldsz newsz : Nat) :
    Nat → Kernel → Nat → Res (Bool × Kernel)
  | 0, k, _ => .ok (true, k)
  | n + 1, k, a => do
    match ← k.allocPage cfg me pgdir oldsz newsz a with
    | (false, k) => .ok (false, k)
    | (true, k) => allocLoop cfg me pgdir oldsz newsz n k (a + PGSIZE)

/-- The result 0 is an error. -/
def allocuvm (cfg : Config) (k : Kernel) (me : ProcNo) (pgdir oldsz newsz : Nat) :
    Res (Nat × Kernel) :=
  if KERNBASE ≤ newsz then .ok (0, k)
  else if newsz < oldsz then .ok (oldsz, k)
  else do
    let a := PGROUNDUP oldsz
    match ← allocLoop cfg me pgdir oldsz newsz ((newsz + PGSIZE - 1 - a) / PGSIZE) k a with
    | (false, k) => .ok (0, k)
    | (true, k) => .ok (newsz, k)

/-- One turn of the loop of `cowuvm`: share a resident page, or copy the entry of
a swapped-out one. -/
def cowPage (cfg : Config) (k : Kernel) (pgdir d i : Nat) : Res (Bool × Kernel) :=
  match walkpgdir (k.dirs pgdir) i with
  | none => .error .copyuvmNoPte
  | some pte =>
    if ¬ pte.p ∧ ¬ pte.pg then .error .copyuvmNotPresent
    else
      let pte := if pte.p then { pte with w := false, cow := true } else pte
      let k := k.setPte pgdir i pte
      do
        match ← k.mappages cfg d i PGSIZE pte.frame pte with
        | (false, k) => .ok (false, k)
        | (true, k) =>
          if pte.p then .ok (true, { k with kmem := k.kmem.incRef pte.frame })
          else
            match walkpgdir (k.dirs d) i with
            | none => .error .nullDeref
            | some copy => .ok (true, k.setPte d i { copy with p := false })

def cowLoop (cfg : Config) (pgdir d : Nat) : Nat → Kernel → Nat → Res (Bool × Kernel)
  | 0, k, _ => .ok (true, k)
  | n + 1, k, i => do
    match ← k.cowPage cfg pgdir d i with
    | (false, k) => .ok (false, k)
    | (true, k) => cowLoop cfg pgdir d n k (i + PGSIZE)

def cowuvm (cfg : Config) (k : Kernel) (me : ProcNo) (pgdir sz : Nat) :
    Res (Option Nat × Kernel) := do
  match ← k.setupkvm cfg me with
  | (none, k) => .ok (none, k)
  | (some d, k) =>
    match ← cowLoop cfg pgdir d ((sz + PGSIZE - 1) / PGSIZE) k 0 with
    | (true, k) => .ok (some d, k)
    | (false, k) => do
      let k ← k.freevm cfg me d
      .ok (none, k)

def kill (k : Kernel) (me : ProcNo) : Kernel := k.setProc me { k.proc me with killed := true }

def onPageFaultCow (cfg : Config) (k : Kernel) (me : ProcNo) (va1 : Nat) : Res Kernel :=
  let pgdir := (k.proc me).pgdir
  match walkpgdir (k.dirs pgdir) va1 with
  | none => .error .nullDeref
  | some pte =>
    let dec := k.kmem.decRef pte.frame
    let k := { k with kmem := dec.2 }
    if 1 < dec.1 then do
      match ← k.kalloc cfg with
      | (none, k) => .ok (k.kill me)
      | (some f, k) =>
        let k := k.fill f (k.mem pte.frame)
        .ok (k.setPte pgdir va1 { pte with frame := f, p := true, w := true, cow := false })
    else .ok (k.setPte pgdir va1 { pte with w := true, cow := false })

/-- The page in swap slot `j` and the page chosen for eviction change places. -/
def swapPages (cfg : Config) (k : Kernel) (me : ProcNo) (memIndex : Int) (swapIndex : Option Slot)
    (pgdir : Nat) : Res Kernel :=
  match swapIndex with
  | none => .error .swapNotInSwap
  | some j =>
    if memIndex = -1 then .error .swapNotInMemory
    else do
      let tmp := (k.proc me).paging.swapPmd j
      let page ← k.readSwap me k.swapBuffer tmp.offset
      let k := { k with swapBuffer := page }
      let k ← k.pageToSwapFile cfg me memIndex (some j) pgdir
      let m := (k.proc me).paging
      let m := { m with
        pagesInSwapfile := m.pagesInSwapfile - 1
        pagesInMemory := m.pagesInMemory + 1 }
      let m ← increaseProcAge m
      let i ← ramSlot memIndex
      let m ← insertPageToPrioQueue cfg.sel (m.setRam i tmp) i
      let k := (k.setPaging me m).record (.loaded me tmp.va m)
      match ← k.kalloc cfg with
      | (none, k) => .ok k
      | (some f, k) =>
        let k := k.fill f .zeroed
        match ← k.mappages cfg (k.proc me).pgdir (m.ramPmd i).va PGSIZE f .user with
        | (false, _) => .error .swapMappages
        | (true, k) => .ok (k.fill f k.swapBuffer)

/-- The part of `onPageFaultPG` that brings the page in, once there is room. -/
def swapIn (cfg : Config) (k : Kernel) (me : ProcNo) (va1 : Nat) : Res Kernel :=
  match getPageIndexDefault (k.proc me).paging.swapPmd true va1 with
  | none => .error .faultNotInSwap
  | some j => do
    let p := k.proc me
    let m := p.paging.setSwap j { p.paging.swapPmd j with occupied := false }
    let m ← increaseProcAge { m with pagesInSwapfile := m.pagesInSwapfile - 1 }
    match getPageIndexDefault m.ramPmd false CLEAN_VA with
    | none => .error .faultNoRam
    | some i => do
      let m ← insertPageToPrioQueue cfg.sel (m.occupy i va1 p.pgdir) i
      let k := (k.setPaging me m).record (.loaded me va1 m)
      match ← k.kalloc cfg with
      | (none, k) => .ok k
      | (some f, k) =>
        let k := k.fill f .zeroed
        match ← k.mappages cfg p.pgdir va1 PGSIZE f .user with
        | (false, _) => .error .faultMappages
        | (true, k) => do
          let page ← k.readSwap me k.buffer (m.swapPmd j).offset
          let k := { k with buffer := page }.fill f page
          .ok (k.setPaging me
            { (k.proc me).paging with
              pagesInMemory := (k.proc me).paging.pagesInMemory + 1 })

def onPageFaultPG (cfg : Config) (k : Kernel) (me : ProcNo) (va1 : Nat) : Res Kernel :=
  let m := (k.proc me).paging
  let pgdir := (k.proc me).pgdir
  if MAX_TOTAL_PAGES < m.pagesInMemory + m.pagesInSwapfile then .error .faultFull
  else if m.pagesInMemory = MAX_PSYC_PAGES then
    if m.pagesInSwapfile = MAX_TOTAL_PAGES - MAX_PSYC_PAGES then
      let choice := getVictimIndex cfg.sel m
      let k := k.setPaging me choice.2
      k.swapPages cfg me choice.1 (getPageIndexDefault choice.2.swapPmd true va1) pgdir
    else do
      let k ← k.evict cfg me pgdir
      k.swapIn cfg me va1
  else k.swapIn cfg me va1

def onPageFault (cfg : Config) (k : Kernel) (me : ProcNo) (va : Nat) : Res Kernel := do
  let k := k.setProc me { k.proc me with pagefaults := (k.proc me).pagefaults + 1 }
  let k ← k.updatePagesInPriorityQueue cfg me
  let va1 := PGROUNDDOWN va
  if KERNBASE ≤ va then .ok (k.kill me)
  else
    match walkpgdir (k.dirs (k.proc me).pgdir) va1 with
    | none => .ok (k.kill me)
    | some pte =>
      if pte.cow then k.onPageFaultCow cfg me va1
      else if pte.pg then k.onPageFaultPG cfg me va1
      else .ok (k.kill me)

end Kernel

end Xv6
