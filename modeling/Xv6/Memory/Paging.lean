import Xv6.Memory.Params
import Xv6.Memory.PriorityQueue

/-!
The paging metadata of one process: the two arrays of `struct paging_meta_data`,
their counters and the replacement queue.

Everything here is a function of the metadata alone. The functions of `vm.c` and
`proc.c` that also touch page tables, frames or the swap file are built from
these pieces, in the order of the source. What the hardware contributes, the
accessed bit of a page table entry, is an argument.
-/

namespace Xv6

/-- A position in `ramPmd` or `swapPmd`; both arrays have 16 entries. -/
abbrev Slot := Fin MAX_PSYC_PAGES

/-- `struct paging_meta_data`. The page directory is named by its page number. -/
structure Pmd where
  va : Nat
  occupied : Bool
  pgdir : Nat
  offset : Nat
  age : UInt32
  deriving DecidableEq, Repr

/-- The page directory field keeps its old value. -/
def initPmd (pmd : Pmd) : Pmd :=
  { pmd with va := CLEAN_VA, occupied := false, offset := 0, age := 0 }

def initPmdArr (pmds : Slot → Pmd) : Slot → Pmd := fun i => initPmd (pmds i)

/-- The paging fields of `struct proc`; `queue` is `prioArr` with `prioSize`. -/
structure Paging where
  pagesInMemory : Int
  pagesInSwapfile : Int
  swapPmd : Slot → Pmd
  ramPmd : Slot → Pmd
  queue : PrioQueue

/-- As `ptable` starts out. -/
def Pmd.zeroed : Pmd := ⟨0, false, 0, 0, 0⟩

def Paging.zeroed : Paging where
  pagesInMemory := 0
  pagesInSwapfile := 0
  swapPmd _ := .zeroed
  ramPmd _ := .zeroed
  queue := ⟨List.replicate MAX_PRIO_ARR ⟨0, 0⟩, 0⟩

def Paging.setRam (m : Paging) (i : Slot) (pmd : Pmd) : Paging :=
  { m with ramPmd := Function.update m.ramPmd i pmd }

def Paging.setSwap (m : Paging) (i : Slot) (pmd : Pmd) : Paging :=
  { m with swapPmd := Function.update m.swapPmd i pmd }

/-- Use a C index into `ramPmd`. -/
def ramSlot (pageNum : Int) : Res Slot :=
  if h : 0 ≤ pageNum ∧ pageNum < MAX_PSYC_PAGES then .ok ⟨pageNum.toNat, by omega⟩
  else .error .outOfBounds

/-- The first entry that is occupied or not, as asked, and has the address `va`
unless that is `CLEAN_VA`. `none` is the index -1. -/
def getPageIndexDefault (pmds : Slot → Pmd) (isOccupied : Bool) (va : Nat) : Option Slot :=
  (List.finRange MAX_PSYC_PAGES).find?
    (fun c => (pmds c).occupied = isOccupied ∧ (va = CLEAN_VA ∨ (pmds c).va = va))

/-- The first entry with this directory and address, occupied or not. -/
def getPagePgdirIndex (pmds : Slot → Pmd) (pgdir va : Nat) : Option Slot :=
  (List.finRange MAX_PSYC_PAGES).find? (fun c => (pmds c).pgdir = pgdir ∧ (pmds c).va = va)

/-- `insertHeap` on `prioArr`, which has no room beyond its last entry. -/
def Paging.enqueue (m : Paging) (e : HeapP) : Res Paging :=
  if m.queue.size < m.queue.array.length then .ok { m with queue := insertHeap m.queue e }
  else .error .outOfBounds

def Paging.dequeue (m : Paging) (index : Int) : Paging :=
  { m with queue := (deleteRoot m.queue index).2 }

/-- The priority `SCFIFO` and `AQ` give a page that goes to the end. -/
def lastPriority (q : PrioQueue) : UInt32 :=
  (entryAt q.array (findMaxElementIndex q.array q.size)).priority + 1

def countBits : Nat → UInt32 → UInt32
  | 0, _ => 0
  | fuel + 1, n => if n = 0 then 0 else (n &&& (1 : UInt32)) + countBits fuel (n >>> 1)

/-- A 32-bit word is zero after 32 shifts. -/
def countSetBits (n : UInt32) : UInt32 := countBits 32 n

def insertPageToPrioQueue (sel : Selection) (m : Paging) (pageNum : Slot) : Res Paging :=
  let found := findInHeap m.queue pageNum
  let m := { m with queue := found.2 }
  let m := if found.1.index ≠ -1 then m.dequeue pageNum else m
  match sel with
  | .NONE => .ok m
  | .NFUA =>
    let m := m.setRam pageNum { m.ramPmd pageNum with age := 0 }
    m.enqueue ⟨pageNum, 0⟩
  | .LAPA =>
    let m := m.setRam pageNum { m.ramPmd pageNum with age := 0xFFFFFFFF }
    m.enqueue ⟨pageNum, countSetBits 0xFFFFFFFF⟩
  | .SCFIFO | .AQ => m.enqueue ⟨pageNum, lastPriority m.queue⟩

def shiftCounter (bit : Bool) (age : UInt32) : UInt32 :=
  (if bit then (0x80000000 : UInt32) else 0) ||| (age >>> 1)

/-- `decAqValues`: close the gap the page at the head of the queue will leave. -/
def decAqValues (m : Paging) (index : Int) : Paging :=
  match (List.range MAX_PSYC_PAGES).find? (fun i => (entryAt m.queue.array i).index = index) with
  | none => m
  | some prioIndex =>
    let bound := (entryAt m.queue.array prioIndex).priority
    { m with queue := { m.queue with
        array := m.queue.array.mapIdx (fun i e =>
          if i < MAX_PSYC_PAGES ∧ e.index ≠ -1 ∧ bound < e.priority then
            { e with priority := e.priority - 1 }
          else e) } }

/-- `getPageIndex(IN_PHY, OCCUPIED, CLEAN_VA)`: the page to evict. -/
def getVictimIndex (sel : Selection) (m : Paging) : Int × Paging :=
  match sel with
  | .NONE =>
    match getPageIndexDefault m.ramPmd true CLEAN_VA with
    | none => (-1, m)
    | some i => (i, m)
  | .NFUA | .LAPA | .SCFIFO =>
    if m.queue.size = 0 then (-1, m) else ((peekHeap m.queue.array).index, m)
  | .AQ =>
    if m.queue.size = 0 then (-1, m)
    else
      let m := decAqValues m (peekHeap m.queue.array).index
      ((peekHeap m.queue.array).index, m)

/-- The `AQ` case of `updatePageInPriorityQueue` for a page that was accessed: it
changes places with the page after the head of the queue if that one was
accessed too. The source's loop around the first `extractMin` runs once, since
`findInHeap` returns the entry it was asked for. -/
def updateAQ (accessed : Nat → Option Bool) (m : Paging) (pageNum : Slot) : Res Paging :=
  if findMaxElementIndex m.queue.array m.queue.size = pageNum.val then .ok m
  else
    let found := findInHeap m.queue pageNum
    let a := found.1
    let m := { m with queue := found.2 }
    if a.index = -1 then .ok m
    else
      let temp := (extractMin m.queue).2
      if temp.size = 0 then .ok m
      else
        let b := (extractMin temp).1
        if b.index = 0 then .ok m
        else do
          let i ← ramSlot b.index
          if accessed (m.ramPmd i).va = some true then
            let m := (m.dequeue a.index).dequeue b.index
            let m ← m.enqueue { a with priority := b.priority }
            m.enqueue { b with priority := a.priority }
          else .ok m

/-- `updatePageInPriorityQueue` up to the page table entry: `accessed` gives the
accessed bit of the entry of an address, if there is one, and `bit` is the one of
the page itself. -/
def updatePage (sel : Selection) (accessed : Nat → Option Bool) (bit : Bool) (m : Paging)
    (pageNum : Slot) : Res Paging :=
  let removed := if (m.ramPmd pageNum).occupied then m.dequeue pageNum else m
  let age := shiftCounter bit (m.ramPmd pageNum).age
  match sel with
  | .NONE => .ok m
  | .NFUA =>
    (removed.setRam pageNum { removed.ramPmd pageNum with age := age }).enqueue
      ⟨pageNum, age⟩
  | .LAPA =>
    (removed.setRam pageNum { removed.ramPmd pageNum with age := age }).enqueue
      ⟨pageNum, countSetBits age⟩
  | .SCFIFO =>
    if bit then removed.enqueue ⟨pageNum, lastPriority removed.queue⟩ else .ok m
  | .AQ => if bit then updateAQ accessed m pageNum else .ok m

/-- The order in which `extractMin` empties a copy of the queue. -/
def drain : Nat → PrioQueue → List Int
  | 0, _ => []
  | n + 1, q => (extractMin q).1.index :: drain n (extractMin q).2

/-- The pages `updatePagesInPriorityQueue` visits, in order. In the aging builds
the test for an occupied entry is made as the loop reaches it, but nothing in the
loop changes it. -/
def sampleOrder (sel : Selection) (m : Paging) : List Int :=
  match sel with
  | .NONE => []
  | .NFUA | .LAPA =>
    ((List.finRange MAX_PSYC_PAGES).filter (fun i => (m.ramPmd i).occupied)).map
      (fun i => (i.val : Int))
  | .SCFIFO | .AQ => drain m.queue.size m.queue

/-- One turn of `increaseProcAge`: the age of entry `i` and the priority at the
position named by the index of queue entry `i`. -/
def increaseAgeAt (m : Paging) (i : Nat) : Res Paging :=
  let pageNum := (entryAt m.queue.array i).index
  if pageNum = -1 then .ok m
  else if h : i < MAX_PSYC_PAGES then
    let pmd := m.ramPmd ⟨i, h⟩
    if pmd.occupied then
      if 0 ≤ pageNum ∧ pageNum < MAX_PRIO_ARR then
        let e := entryAt m.queue.array pageNum.toNat
        .ok { m.setRam ⟨i, h⟩ { pmd with age := pmd.age + 1 } with
          queue := { m.queue with
            array := m.queue.array.set pageNum.toNat { e with priority := e.priority + 1 } } }
      else .error .outOfBounds
    else .ok m
  else .error .outOfBounds

def increaseProcAge (m : Paging) : Res Paging :=
  (List.range MAX_PRIO_ARR).foldlM increaseAgeAt m

/-- The metadata part of `pageToSwapFile`: the page in `memIndex` is recorded in
`swapIndex` and leaves the queue. -/
def Paging.pageOut (m : Paging) (memIndex swapIndex : Slot) : Paging :=
  let page := m.ramPmd memIndex
  let m := m.setSwap swapIndex { m.swapPmd swapIndex with
    pgdir := page.pgdir
    offset := swapIndex.val * PGSIZE
    occupied := true
    va := page.va }
  let m := { m with pagesInSwapfile := m.pagesInSwapfile + 1 }
  let m := (m.dequeue memIndex).setRam memIndex (initPmd (m.ramPmd memIndex))
  { m with pagesInMemory := m.pagesInMemory - 1 }

/-- Record the page `va` in a resident entry. -/
def Paging.occupy (m : Paging) (i : Slot) (va pgdir : Nat) : Paging :=
  m.setRam i { m.ramPmd i with va := va, pgdir := pgdir, occupied := true }

/-- The resident half of what `deallocuvm` does to the metadata for a page. -/
def Paging.releaseRam (m : Paging) (pgdir va : Nat) : Paging :=
  match getPagePgdirIndex m.ramPmd pgdir va with
  | none => m
  | some i =>
    if (m.ramPmd i).occupied then
      let m := { m with pagesInMemory := m.pagesInMemory - 1 }.dequeue i
      m.setRam i (initPmd (m.ramPmd i))
    else m

def Paging.releaseSwap (m : Paging) (pgdir va : Nat) : Paging :=
  match getPagePgdirIndex m.swapPmd pgdir va with
  | none => m
  | some i =>
    if (m.swapPmd i).occupied then
      { m with pagesInSwapfile := m.pagesInSwapfile - 1 }.setSwap i (initPmd (m.swapPmd i))
    else m

/-- What `deallocuvm` does to the metadata for a page. -/
def Paging.release (m : Paging) (pgdir va : Nat) : Paging :=
  (m.releaseRam pgdir va).releaseSwap pgdir va

/-- `initPmdArr` on both arrays and `initHeap`, leaving the counters. -/
def Paging.initArrays (m : Paging) : Paging :=
  { m with
    ramPmd := initPmdArr m.ramPmd
    swapPmd := initPmdArr m.swapPmd
    queue := { m.queue with array := initHeap MAX_PRIO_ARR } }

/-- The reset at the start of `exec`. -/
def Paging.reset (m : Paging) : Paging :=
  { m.initArrays with
    pagesInMemory := 0
    pagesInSwapfile := 0
    queue := ⟨initHeap MAX_PRIO_ARR, 0⟩ }

/-- The metadata `fork` leaves in the child `m`: counters and queue size of the
parent, its occupied entries, swapped ones only if `swaps`, and the first 16
queue entries. -/
def Paging.forkCopy (parent m : Paging) (swaps : Bool) : Paging where
  pagesInMemory := parent.pagesInMemory
  pagesInSwapfile := parent.pagesInSwapfile
  swapPmd i := if (parent.swapPmd i).occupied ∧ swaps then parent.swapPmd i else m.swapPmd i
  ramPmd i := if (parent.ramPmd i).occupied then parent.ramPmd i else m.ramPmd i
  queue := {
    array := parent.queue.array.take MAX_PSYC_PAGES ++ m.queue.array.drop MAX_PSYC_PAGES
    size := parent.queue.size }

end Xv6
