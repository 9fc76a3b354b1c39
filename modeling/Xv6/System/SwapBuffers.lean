import Xv6.Library.Interference
import Xv6.Memory.Paging
import Xv6.Memory.SwapFile

/-!
The page buffers all processes share: `buffer` and `swapBuffer` of `vm.c` and `buffer`
of `proc.c`.

`writei` and `readi` copy one disk block after the other and may sleep before each, so
that is where another process can run. An operation here is the copy of one block
between a buffer and a swap file or the `memmove` of a page between a buffer and a
frame. A process's frames, its swap file and the swap file of a child it is forking are
its own.
-/

namespace Xv6.SwapBuffers

open Interference List Nat

inductive Buf where
  | buffer
  | swapBuffer
  /-- `buffer` of `proc.c`. -/
  | forkBuffer
  deriving DecidableEq

/-- A byte of a buffer. -/
abbrev Loc := Buf × Nat

/-- What belongs to one process: its frames, its swap file and its unborn child's. -/
structure Store where
  frames : Nat → Page
  file : File
  childFile : File

inductive Micro where
  /-- `memmove(buffer, P2V(pa), PGSIZE)`. -/
  | copyIn (b : Buf) (f : Nat)
  /-- `memmove(mem, buffer, PGSIZE)`. -/
  | copyOut (b : Buf) (f : Nat)
  /-- Block `i` of a page written at `off`, by the loop of `writei`. -/
  | writeBlock (b : Buf) (child : Bool) (off i : Nat)
  /-- Block `i` of a page read at `off`, by the loop of `readi`. -/
  | readBlock (b : Buf) (off i : Nat)
  /-- `createSwapFile` for the child. -/
  | createSwapFile
  /-- The process, or the allocator for it, changes one of its frames. -/
  | store (f : Nat) (page : Page)

def Store.fileOf (s : Store) : Bool → File
  | false => s.file
  | true => s.childFile

def Store.setFile (s : Store) (child : Bool) (file : File) : Store :=
  match child with
  | false => { s with file }
  | true => { s with childFile := file }

/-- A chunk that `writei` refuses leaves the file. -/
def writeBlock (file : File) (src : Nat → UInt8) (off i : Nat) : File :=
  (writei file (fun k => src (BSIZE * i + k)) (off + BSIZE * i) BSIZE).getD file

namespace Micro

def exec (m : Loc → UInt8) (s : Store) : Micro → (Loc → UInt8) × Store
  | copyIn b f =>
    (fun l => if l.1 = b ∧ l.2 < PGSIZE then byteAt (s.frames f) l.2 else m l, s)
  | copyOut b f => (m, { s with frames := Function.update s.frames f fun k => m (b, k) })
  | writeBlock b child off i =>
    (m, s.setFile child (SwapBuffers.writeBlock (s.fileOf child) (fun k => m (b, k)) off i))
  | readBlock b off i =>
    (fun l =>
      if (l.1 = b ∧ BSIZE * i ≤ l.2 ∧ l.2 < BSIZE * (i + 1)) ∧ off + l.2 < s.file.size then
        s.file.data (off + l.2)
      else m l, s)
  | createSwapFile => (m, { s with childFile := .empty })
  | store f page => (m, { s with frames := Function.update s.frames f page })

def reads : Micro → Loc → Prop
  | copyOut b _, l => l.1 = b ∧ l.2 < PGSIZE
  | writeBlock b _ _ i, l => l.1 = b ∧ BSIZE * i ≤ l.2 ∧ l.2 < BSIZE * (i + 1)
  | _, _ => False

def writes : Micro → Loc → Prop
  | copyIn b _, l => l.1 = b ∧ l.2 < PGSIZE
  | readBlock b _ i, l => l.1 = b ∧ BSIZE * i ≤ l.2 ∧ l.2 < BSIZE * (i + 1)
  | _, _ => False

/-- A block that is read lies inside the file; a read beyond its end would leave the buffer as
the last user left it. -/
def ready : Micro → Store → Prop
  | readBlock _ off i, s => off + BSIZE * (i + 1) ≤ s.file.size
  | _, _ => True

end Micro

variable {src src' : Nat → UInt8} {off n : Nat} {s : Store}

theorem writei_congr (file : File) (same : ∀ k < n, src k = src' k) :
    writei file src off n = writei file src' off n := by
  unfold writei
  have data : (fun i => if off ≤ i ∧ i < off + n then src (i - off) else file.data i) =
      fun i => if off ≤ i ∧ i < off + n then src' (i - off) else file.data i := by
    funext i
    split
    · exact same _ (by omega)
    · rfl
  rw [data]

theorem writeBlock_congr (file : File) {i : Nat}
    (same : ∀ k, BSIZE * i ≤ k → k < BSIZE * (i + 1) → src k = src' k) :
    writeBlock file src off i = writeBlock file src' off i := by
  have next : BSIZE * (i + 1) = BSIZE * i + BSIZE := mul_succ BSIZE i
  unfold writeBlock
  rw [writei_congr file fun k hk => same (BSIZE * i + k) (by omega) (by omega)]

def machine : Machine Micro Loc UInt8 Store where
  exec op m s := op.exec m s
  reads := Micro.reads
  writes := Micro.writes
  ready := Micro.ready
  frame op m s l untouched := by
    cases op with
    | copyIn b f => exact if_neg untouched
    | readBlock b off i => exact if_neg fun h => untouched h.1
    | copyOut _ _ | writeBlock _ _ _ _ | createSwapFile | store _ _ => rfl
  determined op m m' s ready agree := by
    cases op with
    | copyIn b f => exact ⟨rfl, fun l written => (if_pos written).trans (if_pos written).symm⟩
    | copyOut b f =>
      refine ⟨?_, nofun⟩
      have same : (fun k : Fin PGSIZE => m (b, k)) = fun k : Fin PGSIZE => m' (b, k) :=
        funext fun k => agree (b, k) ⟨rfl, k.isLt⟩
      simp only [Micro.exec, same]
    | writeBlock b child off i =>
      refine ⟨?_, nofun⟩
      simp only [Micro.exec]
      rw [writeBlock_congr _ fun k low high => agree (b, k) ⟨rfl, low, high⟩]
    | readBlock b off i =>
      refine ⟨rfl, fun l written => ?_⟩
      have inside : off + l.2 < s.file.size := by
        have bound : off + BSIZE * (i + 1) ≤ s.file.size := ready
        have := written.2.2
        omega
      exact (if_pos ⟨written, inside⟩).trans (if_pos ⟨written, inside⟩).symm
    | createSwapFile | store _ _ => exact ⟨rfl, nofun⟩

/-! The operations of the source as sequences of copies. -/

/-- `writeToSwapFile(p, buffer, off, PGSIZE)`. -/
def writePage (b : Buf) (child : Bool) (off : Nat) : List Micro :=
  (List.range (PGSIZE / BSIZE)).map (.writeBlock b child off)

/-- `readFromSwapFile(p, buffer, off, PGSIZE)`. -/
def readPage (b : Buf) (off : Nat) : List Micro :=
  (List.range (PGSIZE / BSIZE)).map (.readBlock b off)

def offset (slot : Slot) : Nat := slot.val * PGSIZE

/-- What a process does with its pages. -/
inductive Task where
  /-- `pageToSwapFile` of the page in a frame. -/
  | pageToSwapFile (f : Nat) (slot : Slot)
  /-- `onPageFaultPG` once there is room. -/
  | onPageFaultPG (slot : Slot) (f : Nat)
  /-- `swapPages`; the new frame is allocated after the old one is freed. -/
  | swapPages (f : Nat) (slot : Slot) (f' : Nat)
  /-- `fork` with these slots occupied. -/
  | fork (occupied : List Slot)
  | store (f : Nat) (page : Page)

def program : Task → List Micro
  | .pageToSwapFile f slot => .copyIn .buffer f :: writePage .buffer false (offset slot)
  | .onPageFaultPG slot f => readPage .buffer (offset slot) ++ [.copyOut .buffer f]
  | .swapPages f slot f' =>
    readPage .swapBuffer (offset slot) ++
      (.copyIn .buffer f :: writePage .buffer false (offset slot) ++ [.copyOut .swapBuffer f'])
  | .fork occupied =>
    .createSwapFile :: occupied.flatMap fun slot =>
      readPage .forkBuffer (offset slot) ++ writePage .forkBuffer true (offset slot)
  | .store f page => [.store f page]

/-- The bytes of a slot. -/
def slotPage (file : File) (slot : Slot) : Page := fun k => file.data (offset slot + k)

/-- `writeToSwapFile` of a page to a slot. -/
def savePage (file : File) (page : Page) (slot : Slot) : File :=
  (writeToSwapFile file page (offset slot)).2

/-- What the task is to do: the slot gets the bytes of the process's own page, and the frame
those of its own slot. -/
def effect (t : Task) (s : Store) : Store :=
  match t with
  | .pageToSwapFile f slot => { s with file := savePage s.file (s.frames f) slot }
  | .onPageFaultPG slot f =>
    { s with frames := Function.update s.frames f (slotPage s.file slot) }
  | .swapPages f slot f' =>
    { s with
      file := savePage s.file (s.frames f) slot
      frames := Function.update s.frames f' (slotPage s.file slot) }
  | .fork occupied =>
    { s with
      childFile := occupied.foldl
        (fun child slot => savePage child (slotPage s.file slot) slot) .empty }
  | .store f page => { s with frames := Function.update s.frames f page }

/-- The slots the task reads lie inside the swap file. -/
def allowed (t : Task) (s : Store) : Prop :=
  match t with
  | .onPageFaultPG slot _ | .swapPages _ slot _ => offset slot + PGSIZE ≤ s.file.size
  | .fork occupied => ∀ slot ∈ occupied, offset slot + PGSIZE ≤ s.file.size
  | .pageToSwapFile _ _ | .store _ _ => True

/-! Carried out without interruption, the sequences have these effects. -/

def writeBlocks (file : File) (src : Nat → UInt8) (off : Nat) : Nat → File
  | 0 => file
  | n + 1 => writeBlock (writeBlocks file src off n) src off n

theorem writeBlocks_congr (file : File) (same : ∀ k < BSIZE * n, src k = src' k) :
    writeBlocks file src off n = writeBlocks file src' off n := by
  induction n with
  | zero => rfl
  | succ n ih =>
    have next : BSIZE * (n + 1) = BSIZE * n + BSIZE := mul_succ BSIZE n
    simp only [writeBlocks]
    rw [ih fun k hk => same k (by omega), writeBlock_congr _ fun k _ high => same k high]

theorem writeBlocks_ok (file : File) (src : Nat → UInt8) (inside : off ≤ file.size)
    (room : off + BSIZE * n ≤ MAXFILE * BSIZE) :
    writeBlocks file src off n = {
      size := max file.size (off + BSIZE * n)
      data := fun i => if off ≤ i ∧ i < off + BSIZE * n then src (i - off) else file.data i } := by
  induction n with
  | zero =>
    have data : (fun i => if off ≤ i ∧ i < off + BSIZE * 0 then src (i - off)
        else file.data i) = file.data := by
      funext i
      rw [if_neg (by omega)]
    rw [data, mul_zero, add_zero, max_eq_left inside]
    rfl
  | succ n ih =>
    have next : BSIZE * (n + 1) = BSIZE * n + BSIZE := mul_succ BSIZE n
    have block : 0 < BSIZE := by decide
    simp only [writeBlocks, ih (by omega), writeBlock, writei]
    rw [next] at room ⊢
    generalize BSIZE * n = pos at room ⊢
    rw [if_neg (by omega), if_neg (by omega), Option.getD_some, File.mk.injEq]
    refine ⟨by split <;> omega, funext fun i => ?_⟩
    -- A byte lies in this block, in an earlier one, or outside the write.
    by_cases this : off + pos ≤ i ∧ i < off + pos + BSIZE
    · rw [if_pos this, if_pos (by omega)]
      congr 1
      omega
    · rw [if_neg this]
      by_cases earlier : off ≤ i ∧ i < off + pos
      · rw [if_pos earlier, if_pos (by omega)]
      · rw [if_neg earlier, if_neg (by omega)]

theorem writeBlocks_beyond (file : File) (src : Nat → UInt8) (n : Nat) (beyond : file.size < off) :
    writeBlocks file src off n = file := by
  induction n with
  | zero => rfl
  | succ n ih =>
    simp only [writeBlocks, ih, writeBlock, writei]
    rw [if_pos (by omega), Option.getD_none]

/-- The blocks of a page are written as `writeToSwapFile` writes the page. -/
theorem writeBlocks_page (file : File) (page : Page) (slot : Slot) :
    writeBlocks file (byteAt page) (offset slot) (PGSIZE / BSIZE) = savePage file page slot := by
  have whole : BSIZE * (PGSIZE / BSIZE) = PGSIZE := rfl
  have room : offset slot + PGSIZE ≤ MAXFILE * BSIZE := by
    have bound : slot.val < 16 := slot.isLt
    change slot.val * 4096 + 4096 ≤ 71680
    omega
  unfold savePage
  by_cases beyond : file.size < offset slot
  · rw [writeBlocks_beyond _ _ _ beyond, writeToSwapFile_beyond _ _ beyond]
  · rw [writeBlocks_ok _ _ (Nat.le_of_not_lt beyond) (by rw [whole]; exact room), whole,
      writeToSwapFile_ok _ _ (Nat.le_of_not_lt beyond) room]

theorem fileOf_setFile (s : Store) (child : Bool) (file : File) :
    (s.setFile child file).fileOf child = file := by
  cases child <;> rfl

theorem setFile_setFile (s : Store) (child : Bool) (file file' : File) :
    (s.setFile child file).setFile child file' = s.setFile child file' := by
  cases child <;> rfl

theorem setFile_fileOf (s : Store) (child : Bool) : s.setFile child (s.fileOf child) = s := by
  cases child <;> rfl

theorem execAll_writeBlocks (b : Buf) (child : Bool) (off n : Nat) (m : Loc → UInt8) (s : Store) :
    machine.execAll ((List.range n).map (.writeBlock b child off)) m s =
      (m, s.setFile child (writeBlocks (s.fileOf child) (fun k => m (b, k)) off n)) := by
  induction n with
  | zero => simp [Machine.execAll, writeBlocks, setFile_fileOf]
  | succ n ih =>
    rw [range_succ, map_append, machine.execAll_append, ih]
    simp [Machine.execAll, machine, Micro.exec, writeBlocks, fileOf_setFile, setFile_setFile]

theorem execAll_readBlocks (b : Buf) (off n : Nat) (m : Loc → UInt8) (s : Store) :
    machine.execAll ((List.range n).map (.readBlock b off)) m s =
      (fun l => if (l.1 = b ∧ l.2 < BSIZE * n) ∧ off + l.2 < s.file.size then
        s.file.data (off + l.2) else m l, s) := by
  induction n with
  | zero => simp [Machine.execAll]
  | succ n ih =>
    have next : BSIZE * (n + 1) = BSIZE * n + BSIZE := mul_succ BSIZE n
    rw [range_succ, map_append, machine.execAll_append, ih]
    simp only [Machine.execAll, machine, Micro.exec, map_cons, map_nil, Prod.mk.injEq, and_true]
    funext l
    by_cases this : (l.1 = b ∧ BSIZE * n ≤ l.2 ∧ l.2 < BSIZE * (n + 1)) ∧ off + l.2 < s.file.size
    · rw [if_pos this, if_pos ⟨⟨this.1.1, this.1.2.2⟩, this.2⟩]
    · rw [if_neg this]
      by_cases earlier : (l.1 = b ∧ l.2 < BSIZE * n) ∧ off + l.2 < s.file.size
      · rw [if_pos earlier, if_pos ⟨⟨earlier.1.1, by omega⟩, earlier.2⟩]
      · rw [if_neg earlier, if_neg fun h => ?_]
        refine earlier ⟨⟨h.1.1, Nat.lt_of_not_le fun low => this ?_⟩, h.2⟩
        exact ⟨⟨h.1.1, low, h.1.2⟩, h.2⟩

/-- Reading a slot inside the file fills the buffer with its bytes. -/
theorem execAll_readPage (b : Buf) (slot : Slot) (m : Loc → UInt8) (s : Store)
    (inside : offset slot + PGSIZE ≤ s.file.size) :
    machine.execAll (readPage b (offset slot)) m s =
      (fun l => if l.1 = b ∧ l.2 < PGSIZE then byteAt (slotPage s.file slot) l.2 else m l, s) := by
  have whole : BSIZE * (PGSIZE / BSIZE) = PGSIZE := rfl
  unfold readPage
  rw [execAll_readBlocks, whole]
  refine Prod.ext (funext fun l => ?_) rfl
  by_cases here : l.1 = b ∧ l.2 < PGSIZE
  · simp only [if_pos here, if_pos (And.intro here (show offset slot + l.2 < s.file.size by omega)),
      byteAt, dif_pos here.2, slotPage]
  · simp only [if_neg here, if_neg fun h : (l.1 = b ∧ l.2 < PGSIZE) ∧ _ => here h.1]

/-- A page in the buffer is stored whole. -/
theorem execAll_writePage (b : Buf) (child : Bool) (slot : Slot) (page : Page) (m : Loc → UInt8)
    (s : Store) (full : ∀ k < PGSIZE, m (b, k) = byteAt page k) :
    machine.execAll (writePage b child (offset slot)) m s =
      (m, s.setFile child (savePage (s.fileOf child) page slot)) := by
  have whole : BSIZE * (PGSIZE / BSIZE) = PGSIZE := rfl
  have same : writeBlocks (s.fileOf child) (fun k => m (b, k)) (offset slot) (PGSIZE / BSIZE) =
      writeBlocks (s.fileOf child) (byteAt page) (offset slot) (PGSIZE / BSIZE) :=
    writeBlocks_congr _ (by rwa [whole])
  unfold writePage
  rw [execAll_writeBlocks, same, writeBlocks_page]

/-- A page from a frame through the buffer to a slot. -/
theorem execAll_save (f : Nat) (slot : Slot) (m : Loc → UInt8) (s : Store) :
    machine.execAll (.copyIn .buffer f :: writePage .buffer false (offset slot)) m s =
      (fun l => if l.1 = .buffer ∧ l.2 < PGSIZE then byteAt (s.frames f) l.2 else m l,
        { s with file := savePage s.file (s.frames f) slot }) := by
  simp only [Machine.execAll]
  rw [execAll_writePage .buffer false slot (s.frames f)]
  · rfl
  · intro k hk
    exact if_pos ⟨rfl, hk⟩

/-- A slot through the buffer to the child's swap file. -/
theorem execAll_copySlot (slot : Slot) (m : Loc → UInt8) (s : Store)
    (inside : offset slot + PGSIZE ≤ s.file.size) :
    ∃ m', machine.execAll
        (readPage .forkBuffer (offset slot) ++ writePage .forkBuffer true (offset slot)) m s =
      (m', { s with childFile := savePage s.childFile (slotPage s.file slot) slot }) := by
  rw [machine.execAll_append, execAll_readPage _ _ _ _ inside]
  exact ⟨_, execAll_writePage .forkBuffer true slot (slotPage s.file slot) _ s
    fun k hk => if_pos ⟨rfl, hk⟩⟩

theorem execAll_fork (occupied : List Slot) (m : Loc → UInt8) (s : Store)
    (inside : ∀ slot ∈ occupied, offset slot + PGSIZE ≤ s.file.size) :
    (machine.execAll (occupied.flatMap fun slot =>
      readPage .forkBuffer (offset slot) ++ writePage .forkBuffer true (offset slot)) m s).2 =
    { s with
      childFile := occupied.foldl
        (fun child slot => savePage child (slotPage s.file slot) slot) s.childFile } := by
  induction occupied generalizing m s with
  | nil => rfl
  | cons slot rest ih =>
    obtain ⟨m', copied⟩ := execAll_copySlot slot m s (inside slot mem_cons_self)
    rw [flatMap_cons, machine.execAll_append, copied]
    exact ih m' _ fun slot' h => inside slot' (mem_cons_of_mem slot h)

/-- A task that is not interrupted has the effect it is to have. -/
theorem alone_program (t : Task) (s : Store) (m : Loc → UInt8) (ok : allowed t s) :
    machine.alone (program t) m s = effect t s := by
  have bytes : ∀ page : Page, (fun k : Fin PGSIZE => byteAt page k.val) = page := fun page =>
    funext fun k => byteAt_val page k
  unfold Machine.alone
  cases t with
  | pageToSwapFile f slot => exact congrArg Prod.snd (execAll_save f slot m s)
  | onPageFaultPG slot f =>
    simp only [program, machine.execAll_append, execAll_readPage _ _ _ _ ok]
    simp [Machine.execAll, machine, Micro.exec, effect, bytes]
  | swapPages f slot f' =>
    simp only [program, machine.execAll_append, execAll_readPage _ _ _ _ ok, execAll_save]
    simp [Machine.execAll, machine, Micro.exec, effect, bytes]
  | fork occupied => exact execAll_fork occupied m { s with childFile := .empty } ok
  | store f page => rfl

theorem writeBlock_size (file : File) (src : Nat → UInt8) (off i : Nat) :
    file.size ≤ (writeBlock file src off i).size := by
  unfold writeBlock writei
  split
  · exact le_refl _
  · split
    · exact le_refl _
    · simp only [Option.getD_some]
      split
      · omega
      · exact le_refl _

/-- A process's own swap file never shrinks. -/
theorem exec_size (op : Micro) (m : Loc → UInt8) (s : Store) :
    s.file.size ≤ (op.exec m s).2.file.size := by
  cases op with
  | writeBlock b child off i =>
    cases child with
    | false =>
      exact writeBlock_size s.file (fun k => m (b, k)) off i
    | true =>
      simp only [Micro.exec, Store.setFile]
      exact le_refl s.file.size
  | copyIn _ _ | copyOut _ _ | readBlock _ _ _ | createSwapFile | store _ _ =>
    exact le_refl s.file.size

theorem readPage_ready {b : Buf} {slot : Slot} (inside : offset slot + PGSIZE ≤ s.file.size) :
    ∀ op ∈ readPage b (offset slot), op.ready s := by
  intro op h
  obtain ⟨i, hi, rfl⟩ := mem_map.mp h
  have block : i < PGSIZE / BSIZE := mem_range.mp hi
  have last : BSIZE * (i + 1) ≤ PGSIZE := mul_le_mul_left BSIZE block
  exact Nat.le_trans (Nat.add_le_add_left last _) inside

theorem writePage_ready {b : Buf} {child : Bool} (s : Store) :
    ∀ op ∈ writePage b child off, op.ready s := by
  intro op h
  obtain ⟨i, _, rfl⟩ := mem_map.mp h
  trivial

theorem program_ready {t : Task} (ok : allowed t s) :
    ∀ op ∈ program t, op.ready s := by
  cases t with
  | pageToSwapFile f slot =>
    exact forall_mem_cons.mpr ⟨trivial, writePage_ready s⟩
  | onPageFaultPG slot f =>
    exact forall_mem_append.mpr ⟨readPage_ready ok, forall_mem_singleton.mpr trivial⟩
  | swapPages f slot f' =>
    exact forall_mem_append.mpr ⟨readPage_ready ok, forall_mem_append.mpr
      ⟨forall_mem_cons.mpr ⟨trivial, writePage_ready s⟩, forall_mem_singleton.mpr trivial⟩⟩
  | fork occupied =>
    refine forall_mem_cons.mpr ⟨trivial, fun op h => ?_⟩
    obtain ⟨slot, hslot, h⟩ := mem_flatMap.mp h
    exact (mem_append.mp h).elim (readPage_ready (ok slot hslot) op) (writePage_ready s op)
  | store f page => exact forall_mem_singleton.mpr trivial

theorem Micro.ready_mono {op : Micro} {s' : Store} (ready : op.ready s)
    (size : s.file.size ≤ s'.file.size) : op.ready s' := by
  cases op with
  | readBlock b off i => exact Nat.le_trans ready size
  | copyIn _ _ | copyOut _ _ | writeBlock _ _ _ _ | createSwapFile | store _ _ => trivial

theorem ready_program (t : Task) (s : Store) (ok : allowed t s) :
    machine.Ready (program t) s := by
  refine machine.ready_of_invariant (I := fun s' => s.file.size ≤ s'.file.size) ?_ ?_ le_rfl
  · exact fun op h s' size => Micro.ready_mono (program_ready ok op h) size
  · exact fun op _ m s' size => Nat.le_trans size (exec_size op m s')

variable {P : Type} [DecidableEq P]

/-- The buffers, the processes' own memory and what each is about to do. -/
abbrev SwapState (P : Type) := Threads P Micro Loc UInt8 Store

/-- Nobody is inside an operation. -/
def initial (buffers : Loc → UInt8) (own : P → Store) : SwapState P := ⟨buffers, own, fun _ => []⟩

/-- Two processes with a page of sevens and a page of nines. -/
def sevensAndNines : SwapState Bool :=
  initial (fun _ => 0) fun p => ⟨fun _ _ => if p then 7 else 9, .empty, .empty⟩

theorem considerate_of_idle {σ σ' : SwapState Bool} (idle : σ.pending false = [])
    (last : next machine program σ (.step true) = some σ') :
    ConsiderateStep machine program allowed σ (.step true) σ' := by
  refine ⟨fun op ops _ l _ q other live => ?_, last⟩
  obtain rfl : q = false := by simpa using other
  rw [idle] at live
  exact live

/-- The second process fills the buffer before the first has written its page from it. -/
def overlapping : List (Turn Bool Task) :=
  [.start true (.pageToSwapFile 0 0), .start false (.pageToSwapFile 0 0), .step true,
    .step false] ++ List.replicate 8 (.step true)

end Xv6.SwapBuffers
