import Xv6.Memory.Params

/-!
Pages of bytes and the swap file of a process, down to `readi` and `writei` of a
regular file.

The inode layer is represented by the size and the bytes of the file: block
allocation never fails here. `filewrite` cuts a write into chunks, each of which
`writei` may refuse; the results of `writeToSwapFile` and `readFromSwapFile` are
kept although their callers ignore them.
-/

namespace Xv6

abbrev MAXFILE : Nat := 140
abbrev BSIZE : Nat := 512

/-- The contents of one page. -/
abbrev Page := Fin PGSIZE → UInt8

def Page.zeroed : Page := fun _ => 0

/-- What `kfree` fills a page with. -/
def Page.junk : Page := fun _ => 1

/-- A byte of a page buffer; callers stay inside the page. -/
def byteAt (page : Page) (i : Nat) : UInt8 :=
  if h : i < PGSIZE then page ⟨i, h⟩ else 0

structure File where
  size : Nat
  data : Nat → UInt8

/-- A file `create` has just made. -/
def File.empty : File := ⟨0, fun _ => 0⟩

/-- `writei`; `none` is the result -1. The test for `off + n` wrapping around cannot
succeed for an offset inside a file. -/
def writei (file : File) (src : Nat → UInt8) (off n : Nat) : Option File :=
  if file.size < off then none
  else if MAXFILE * BSIZE < off + n then none
  else some {
    size := if 0 < n ∧ file.size < off + n then off + n else file.size
    data := fun i => if off ≤ i ∧ i < off + n then src (i - off) else file.data i }

/-- The most bytes `filewrite` gives to one `writei`. -/
abbrev WRITEMAX : Nat := (10 - 1 - 1 - 2) / 2 * 512

/-- The loop of `filewrite`, with the bytes still to write and the position in the
source. It stops where `writei` refuses a chunk. -/
def filewriteLoop : Nat → File → (Nat → UInt8) → Nat → Nat → Bool × File
  | 0, file, _, _, _ => (true, file)
  | fuel + 1, file, src, off, n =>
    if n = 0 then (true, file)
    else
      let n1 := min n WRITEMAX
      match writei file src off n1 with
      | none => (false, file)
      | some file => filewriteLoop fuel file (fun i => src (i + n1)) (off + n1) (n - n1)

def filewrite (file : File) (src : Nat → UInt8) (off n : Nat) : Bool × File :=
  filewriteLoop n file src off n

/-- `writeToSwapFile` of a whole page; false is the result -1. -/
def writeToSwapFile (file : File) (buffer : Page) (placeOnFile : Nat) : Bool × File :=
  filewrite file (byteAt buffer) placeOnFile PGSIZE

/-- `readFromSwapFile` of a whole page: the buffer afterwards. A read beyond the
end of the file leaves the rest of the buffer. -/
def readFromSwapFile (file : File) (buffer : Page) (placeOnFile : Nat) : Page :=
  fun i => if placeOnFile + i.val < file.size then file.data (placeOnFile + i.val) else buffer i

theorem byteAt_val (page : Page) (i : Fin PGSIZE) : byteAt page i.val = page i := by
  simp [byteAt]

theorem filewriteLoop_ok (fuel : Nat) (file : File) (src : Nat → UInt8) (off n : Nat)
    (enough : n ≤ fuel) (inside : off ≤ file.size) (room : off + n ≤ MAXFILE * BSIZE) :
    filewriteLoop fuel file src off n = (true, {
      size := max file.size (off + n)
      data := fun i => if off ≤ i ∧ i < off + n then src (i - off) else file.data i }) := by
  induction fuel generalizing file src off n with
  | zero =>
    obtain rfl : n = 0 := by omega
    have size : max file.size (off + 0) = file.size := by omega
    have data : (fun i => if off ≤ i ∧ i < off + 0 then src (i - off) else file.data i) =
        file.data := by
      funext i
      rw [if_neg (by omega)]
    simp only [filewriteLoop, size, data]
  | succ fuel ih =>
    unfold filewriteLoop
    split
    · rename_i none_left
      subst none_left
      have size : max file.size (off + 0) = file.size := by omega
      have data : (fun i => if off ≤ i ∧ i < off + 0 then src (i - off) else file.data i) =
          file.data := by
        funext i
        rw [if_neg (by omega)]
      simp only [size, data]
    · rename_i some_left
      have chunk : 0 < min n WRITEMAX := by
        unfold WRITEMAX
        omega
      have part : min n WRITEMAX ≤ n := Nat.min_le_left _ _
      generalize min n WRITEMAX = n1 at chunk part
      simp only [writei, if_neg (show ¬ file.size < off by omega),
        if_neg (show ¬ MAXFILE * BSIZE < off + n1 by omega)]
      rw [ih _ _ _ _ (by omega) (by simp only; split <;> omega) (by omega)]
      refine Prod.ext rfl ?_
      simp only [File.mk.injEq]
      refine ⟨by split <;> omega, ?_⟩
      -- A byte lies in this chunk, in a later one, or outside the write.
      funext i
      by_cases first : off ≤ i ∧ i < off + n1
      · rw [if_neg (by omega), if_pos first, if_pos (by omega)]
      · by_cases later : off + n1 ≤ i ∧ i < off + n
        · rw [if_pos (by omega), if_pos (by omega)]
          congr 1
          omega
        · rw [if_neg (by omega), if_neg first, if_neg (by omega)]

/-- A page written at an offset that is not beyond the end is stored whole. -/
theorem writeToSwapFile_ok (file : File) (buffer : Page) {off : Nat} (inside : off ≤ file.size)
    (room : off + PGSIZE ≤ MAXFILE * BSIZE) :
    writeToSwapFile file buffer off = (true, {
      size := max file.size (off + PGSIZE)
      data := fun i =>
        if off ≤ i ∧ i < off + PGSIZE then byteAt buffer (i - off) else file.data i }) :=
  filewriteLoop_ok _ _ _ _ _ (Nat.le_refl _) inside room

/-- A write beyond the end of the file stores nothing. -/
theorem writeToSwapFile_beyond (file : File) (buffer : Page) {off : Nat}
    (beyond : file.size < off) : writeToSwapFile file buffer off = (false, file) := by
  have pages : PGSIZE = 4095 + 1 := rfl
  unfold writeToSwapFile filewrite
  rw [pages]
  simp [filewriteLoop, writei, beyond]

end Xv6
