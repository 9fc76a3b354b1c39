import Mathlib

/-!
`grep.c`: the matcher, and the loop that carries partial lines from one read to the next.

A string is the list of its bytes before the NUL, so that the end of a list is where `*text` is the
NUL. The matcher is compared with the language of the pattern, the product of the languages of its
elements. The buffer is the list of the bytes in use; what the loop over the lines leaves of it is the
part of a line that the next read is to complete.
-/

namespace Xv6.Grep

open Computability List

abbrev caret : UInt8 := 94
abbrev dollar : UInt8 := 36
abbrev dot : UInt8 := 46
abbrev star : UInt8 := 42
abbrev newline : UInt8 := 10

/-- `matchstar`, where `here` is `matchhere` of the rest of the pattern. -/
def matchstar (c : UInt8) (here : List UInt8 → Bool) : List UInt8 → Bool
  | [] => here []
  | b :: text => here (b :: text) || ((b == c || c == dot) && matchstar c here text)

/-- The last test of `matchhere`, for a byte that no star follows. -/
def matchone (c : UInt8) (here : List UInt8 → Bool) : List UInt8 → Bool
  | [] => false
  | b :: text => (c == dot || c == b) && here text

def matchhere : List UInt8 → List UInt8 → Bool
  | [], _ => true
  | [c], text => if c = dollar then text.isEmpty else matchone c (matchhere []) text
  | c :: d :: re, text =>
    if d = star then matchstar c (matchhere re) text else matchone c (matchhere (d :: re)) text

/-- The loop of `match`: from here on, or from later on. -/
def matchLoop (re : List UInt8) : List UInt8 → Bool
  | [] => matchhere re []
  | b :: text => matchhere re (b :: text) || matchLoop re text

def match' (re text : List UInt8) : Bool :=
  match re with
  | [] => matchLoop [] text
  | c :: rest => if c = caret then matchhere rest text else matchLoop (c :: rest) text

/-! The language of patterns. -/

/-- A byte of the pattern, with a star behind it or not. -/
structure Element where
  byte : UInt8
  starred : Bool

structure Pattern where
  atStart : Bool
  elements : List Element
  atEnd : Bool

/-- The elements from left to right, and whether a `$` ends them. -/
def readElements : List UInt8 → List Element × Bool
  | [] => ([], false)
  | [c] => if c = dollar then ([], true) else ([⟨c, false⟩], false)
  | c :: d :: re =>
    if d = star then (⟨c, true⟩ :: (readElements re).1, (readElements re).2)
    else (⟨c, false⟩ :: (readElements (d :: re)).1, (readElements (d :: re)).2)

def readPattern (re : List UInt8) : Pattern :=
  match re with
  | [] => ⟨false, [], false⟩
  | c :: rest =>
    if c = caret then ⟨true, (readElements rest).1, (readElements rest).2⟩
    else ⟨false, (readElements (c :: rest)).1, (readElements (c :: rest)).2⟩

def Stands (c b : UInt8) : Prop := c = dot ∨ c = b

def single (c : UInt8) : Language UInt8 := {w | ∃ b, w = [b] ∧ Stands c b}

def Element.language (e : Element) : Language UInt8 :=
  if e.starred then (single e.byte)∗ else single e.byte

def language (elements : List Element) : Language UInt8 := (elements.map Element.language).prod

/-- Some part of the text is in the language of the pattern, and is at the ends where it has to be. -/
def Pattern.Matches (p : Pattern) (text : List UInt8) : Prop :=
  ∃ before w after, text = before ++ w ++ after ∧ w ∈ language p.elements ∧
    (p.atStart = true → before = []) ∧ (p.atEnd = true → after = [])

/-- The text begins with a word of the elements. -/
def Begins (elements : List Element × Bool) (text : List UInt8) : Prop :=
  ∃ w after, text = w ++ after ∧ w ∈ language elements.1 ∧ (elements.2 = true → after = [])

section

variable {c : UInt8} {es : List Element} {atEnd : Bool} {text : List UInt8} {w : List UInt8}
  {here : List UInt8 → Bool}

theorem mem_language_nil : w ∈ language [] ↔ w = [] := Iff.rfl

theorem mem_language_cons {e : Element} :
    w ∈ language (e :: es) ↔ ∃ a ∈ e.language, ∃ b ∈ language es, a ++ b = w :=
  Language.mem_mul

theorem begins_single : Begins (⟨c, false⟩ :: es, atEnd) text ↔
    ∃ b rest, text = b :: rest ∧ Stands c b ∧ Begins (es, atEnd) rest := by
  constructor
  · rintro ⟨w, after, rfl, isWord, ends⟩
    obtain ⟨-, ⟨b, rfl, stands⟩, v, isRest, rfl⟩ := mem_language_cons.mp isWord
    exact ⟨b, v ++ after, rfl, stands, v, after, rfl, isRest, ends⟩
  · rintro ⟨b, rest, rfl, stands, v, after, rfl, isRest, ends⟩
    exact ⟨b :: v, after, rfl, mem_language_cons.mpr ⟨[b], ⟨b, rfl, stands⟩, v, isRest, rfl⟩, ends⟩

theorem mem_single_kstar : w ∈ (single c)∗ ↔ ∀ b ∈ w, Stands c b := by
  rw [Language.mem_kstar]
  constructor
  · rintro ⟨parts, rfl, words⟩ b inside
    obtain ⟨part, isPart, here⟩ := mem_flatten.mp inside
    obtain ⟨b', rfl, stands⟩ := words part isPart
    rwa [mem_singleton.mp here]
  · intro all
    refine ⟨w.map fun b => [b], by rw [← flatMap_def, flatMap_singleton'], fun part isPart => ?_⟩
    obtain ⟨b, inside, rfl⟩ := mem_map.mp isPart
    exact ⟨b, rfl, all b inside⟩

theorem begins_star : Begins (⟨c, true⟩ :: es, atEnd) text ↔
    ∃ w rest, text = w ++ rest ∧ (∀ b ∈ w, Stands c b) ∧ Begins (es, atEnd) rest := by
  constructor
  · rintro ⟨w, after, rfl, isWord, ends⟩
    obtain ⟨u, repeated, v, isRest, rfl⟩ := mem_language_cons.mp isWord
    exact ⟨u, v ++ after, append_assoc .., mem_single_kstar.mp repeated, v, after, rfl, isRest, ends⟩
  · rintro ⟨u, rest, rfl, repeated, v, after, rfl, isRest, ends⟩
    exact ⟨u ++ v, after, (append_assoc ..).symm,
      mem_language_cons.mpr ⟨u, mem_single_kstar.mpr repeated, v, isRest, rfl⟩, ends⟩

theorem matchstar_iff : matchstar c here text = true ↔
    ∃ w rest, text = w ++ rest ∧ (∀ b ∈ w, Stands c b) ∧ here rest = true := by
  induction text with
  | nil => simp [matchstar]
  | cons b text ih =>
    simp only [matchstar, Bool.or_eq_true, Bool.and_eq_true, beq_iff_eq, ih]
    constructor
    · rintro (now | ⟨stands, w, rest, rfl, repeated, later⟩)
      · exact ⟨[], b :: text, rfl, by simp, now⟩
      · refine ⟨b :: w, rest, rfl, ?_, later⟩
        rintro b' (_ | inside)
        · exact stands.symm.imp id Eq.symm
        · exact repeated b' (by assumption)
    · rintro ⟨w, rest, split, repeated, later⟩
      cases w with
      | nil => exact .inl (split ▸ later)
      | cons b' w =>
        obtain ⟨rfl, rfl⟩ := List.cons.inj split
        have stands := repeated b (mem_cons_self ..)
        exact .inr ⟨stands.symm.imp Eq.symm id, w, rest, rfl,
          fun x inside => repeated x (mem_cons_of_mem _ inside), later⟩

theorem matchone_iff : matchone c here text = true ↔
    ∃ b rest, text = b :: rest ∧ Stands c b ∧ here rest = true := by
  cases text with
  | nil => simp [matchone]
  | cons b text => simp [matchone, Stands]

-- The recursion is that of `matchhere`: a star leaves the pattern behind it, for every later text.
theorem matchhere_iff : ∀ re text, matchhere re text = true ↔ Begins (readElements re) text
  | [], text => iff_of_true rfl ⟨[], text, rfl, mem_language_nil.mpr rfl, nofun⟩
  | [c], text => by
    rw [matchhere, readElements]
    split
    · rw [List.isEmpty_iff]
      constructor
      · rintro rfl
        exact ⟨[], [], rfl, mem_language_nil.mpr rfl, fun _ => rfl⟩
      · rintro ⟨w, after, rfl, isWord, ends⟩
        rw [mem_language_nil.mp isWord, ends rfl]
        rfl
    · rw [matchone_iff, begins_single]
      simp only [matchhere_iff []]
      rfl
  | c :: d :: re, text => by
    rw [matchhere, readElements]
    split
    · rw [matchstar_iff, begins_star]
      simp only [matchhere_iff re]
    · rw [matchone_iff, begins_single]
      simp only [matchhere_iff (d :: re)]

theorem matchLoop_iff {re : List UInt8} : matchLoop re text = true ↔
    ∃ before rest, text = before ++ rest ∧ Begins (readElements re) rest := by
  induction text with
  | nil => simp [matchLoop, matchhere_iff]
  | cons b text ih =>
    simp only [matchLoop, Bool.or_eq_true, matchhere_iff, ih]
    constructor
    · rintro (now | ⟨before, rest, rfl, later⟩)
      · exact ⟨[], b :: text, rfl, now⟩
      · exact ⟨b :: before, rest, rfl, later⟩
    · rintro ⟨before, rest, split, later⟩
      cases before with
      | nil => exact .inl (split ▸ later)
      | cons b' before => exact .inr ⟨before, rest, (List.cons.inj split).2, later⟩

/-- The matcher decides the language of the pattern. -/
theorem match_iff_matches (re text : List UInt8) :
    match' re text = true ↔ (readPattern re).Matches text := by
  have anywhere : ∀ re, matchLoop re text = true ↔
      Pattern.Matches ⟨false, (readElements re).1, (readElements re).2⟩ text := by
    intro re
    rw [matchLoop_iff]
    constructor
    · rintro ⟨before, -, rfl, w, after, rfl, isWord, ends⟩
      exact ⟨before, w, after, (List.append_assoc ..).symm, isWord, nofun, ends⟩
    · rintro ⟨before, w, after, rfl, isWord, -, ends⟩
      exact ⟨before, w ++ after, List.append_assoc .., w, after, rfl, isWord, ends⟩
  cases re with
  | nil => exact anywhere []
  | cons c rest =>
    unfold match' readPattern
    dsimp only
    split
    · rw [matchhere_iff]
      constructor
      · rintro ⟨w, after, rfl, isWord, ends⟩
        exact ⟨[], w, after, rfl, isWord, fun _ => rfl, ends⟩
      · rintro ⟨before, w, after, rfl, isWord, starts, ends⟩
        rw [starts rfl]
        exact ⟨w, after, rfl, isWord, ends⟩
    · exact anywhere (c :: rest)

end

/-! The lines of the input. -/

/-- `sizeof(buf)`. -/
abbrev BUFSIZE : Nat := 1024

/-- `strchr(p, '\n')`: the bytes before the newline and those behind it. The end of the list is the NUL at
`buf[m]`. -/
def strchr : List UInt8 → Option (List UInt8 × List UInt8)
  | [] => none
  | b :: p =>
    if b = 0 then none
    else if b = newline then some ([], p)
    else (strchr p).map fun (line, rest) => (b :: line, rest)

/-- What the inner loop writes. Every turn is past a newline, so the first argument bounds their number. -/
def writeLoop (re : List UInt8) : Nat → List UInt8 → List UInt8
  | 0, _ => []
  | turns + 1, p =>
    match strchr p with
    | none => []
    | some (line, rest) =>
      (if match' re line then line ++ [newline] else []) ++ writeLoop re turns rest

/-- The bytes from `p` on behind the inner loop. -/
def skipLoop : Nat → List UInt8 → List UInt8
  | 0, p => p
  | turns + 1, p =>
    match strchr p with
    | none => p
    | some (_, rest) => skipLoop turns rest

/-- What is moved to the front of the buffer `buf` for the next read; nothing if `p == buf`. -/
def carried (buf : List UInt8) : List UInt8 :=
  let p := skipLoop buf.length buf
  if p.length = buf.length then [] else p

/-- `grep` with the bytes `buf` in the buffer: what it writes, or nothing if it leaves the buffer. The
results of `read` are those up to the one that ends the loop. -/
def grep (re : List UInt8) : List (List UInt8) → List UInt8 → Option (List UInt8)
  | [], _ => some []
  | read :: reads, buf =>
    if BUFSIZE ≤ (buf ++ read).length then none
    else (grep re reads (carried (buf ++ read))).map
      (writeLoop re (buf ++ read).length (buf ++ read) ++ ·)

/-- Every result of `read` has a byte, and no more than the call has room for. -/
def Offered : List (List UInt8) → List UInt8 → Prop
  | [], _ => True
  | read :: reads, buf =>
    read ≠ [] ∧ read.length ≤ BUFSIZE - buf.length - 1 ∧ Offered reads (carried (buf ++ read))

/-- The text of some lines. -/
def text (ls : List (List UInt8)) : List UInt8 := ls.flatMap (· ++ [newline])

/-- The matcher takes a line up to its first NUL. -/
def matchLine (re line : List UInt8) : Bool := match' re (line.takeWhile (· ≠ 0))

section

variable {re p buf line rest : List UInt8} {reads ls : List (List UInt8)} {out : List UInt8}

theorem strchr_some (found : strchr p = some (line, rest)) :
    p = line ++ newline :: rest ∧ newline ∉ line ∧ 0 ∉ line := by
  induction p generalizing line with
  | nil => cases found
  | cons b p ih =>
    unfold strchr at found
    split at found
    · cases found
    · rename_i nul
      split at found
      · rename_i here
        cases found
        exact ⟨by rw [here]; rfl, by simp, by simp⟩
      · rename_i other
        obtain ⟨⟨line', rest'⟩, later, same⟩ := Option.map_eq_some_iff.mp found
        cases same
        obtain ⟨rfl, noNewline, noNul⟩ := ih later
        exact ⟨rfl, by simp [Ne.symm other, noNewline], by simp [Ne.symm nul, noNul]⟩

theorem strchr_line (noNewline : newline ∉ line) (noNul : 0 ∉ line) (rest : List UInt8) :
    strchr (line ++ newline :: rest) = some (line, rest) := by
  induction line with
  | nil => rfl
  | cons b line ih =>
    obtain ⟨notNewline, noNewline⟩ := not_or.mp (mt mem_cons.mpr noNewline)
    obtain ⟨notNul, noNul⟩ := not_or.mp (mt mem_cons.mpr noNul)
    rw [cons_append, strchr, if_neg (Ne.symm notNul), if_neg (Ne.symm notNewline), ih noNewline noNul]
    rfl

theorem strchr_none (noNul : 0 ∉ p) : strchr p = none ↔ newline ∉ p := by
  induction p with
  | nil => simp [strchr]
  | cons b p ih =>
    obtain ⟨notNul, noNul⟩ := not_or.mp (mt mem_cons.mpr noNul)
    rw [strchr, if_neg (Ne.symm notNul)]
    split
    · rename_i here
      simp [here]
    · rename_i other
      simp [ih noNul, Ne.symm other]

theorem skipLoop_of_none (turns : Nat) (ends : strchr p = none) : skipLoop turns p = p := by
  cases turns with
  | zero => rfl
  | succ turns => rw [skipLoop, ends]

/-- The loop ends where there is no newline. -/
theorem strchr_skipLoop (turns : Nat) (enough : p.length ≤ turns) :
    strchr (skipLoop turns p) = none := by
  induction turns generalizing p with
  | zero => rw [skipLoop, length_eq_zero_iff.mp (Nat.le_zero.mp enough), strchr]
  | succ turns ih =>
    unfold skipLoop
    split
    · assumption
    · rename_i line rest found
      refine ih ?_
      have length := congrArg List.length (strchr_some found).1
      simp only [length_append, length_cons] at length
      omega

theorem text_cons (line : List UInt8) (ls : List (List UInt8)) :
    text (line :: ls) = line ++ newline :: text ls := by
  simp [text]

/-- The loop over some lines and the beginning of another. -/
theorem lines_loop (re : List UInt8) (turns : Nat) (enough : ls.length ≤ turns)
    (lines : ∀ l ∈ ls, newline ∉ l ∧ 0 ∉ l) (ends : strchr rest = none) :
    writeLoop re turns (text ls ++ rest) = text (ls.filter (match' re)) ∧
      skipLoop turns (text ls ++ rest) = rest := by
  induction ls generalizing turns with
  | nil =>
    have nothing : text [] ++ rest = rest := rfl
    rw [nothing]
    refine ⟨?_, skipLoop_of_none turns ends⟩
    cases turns with
    | zero => rfl
    | succ turns =>
      rw [writeLoop, ends]
      rfl
  | cons l ls ih =>
    obtain ⟨⟨noNewline, noNul⟩, lines⟩ := forall_mem_cons.mp lines
    obtain ⟨turns, rfl⟩ := Nat.exists_eq_add_of_lt (Nat.lt_of_lt_of_le (Nat.succ_pos _) enough)
    rw [Nat.zero_add] at enough ⊢
    obtain ⟨written, skipped⟩ := ih turns (Nat.le_of_succ_le_succ enough) lines
    have found : strchr (text (l :: ls) ++ rest) = some (l, text ls ++ rest) := by
      rw [text_cons, append_assoc, cons_append]
      exact strchr_line noNewline noNul _
    rw [writeLoop, skipLoop, found]
    dsimp only
    refine ⟨?_, skipped⟩
    rw [written, filter_cons]
    split
    · rw [text_cons, append_assoc]
      rfl
    · rfl

/-- A text is cut behind some lines and a beginning of the next. -/
theorem text_cut {a b : List UInt8} (lines : ∀ l ∈ ls, newline ∉ l) (split : a ++ b = text ls) :
    ∃ ls₁ ls₂ rest, ls = ls₁ ++ ls₂ ∧ a = text ls₁ ++ rest ∧ rest ++ b = text ls₂ ∧ newline ∉ rest := by
  induction ls generalizing a with
  | nil =>
    obtain ⟨rfl, rfl⟩ := append_eq_nil_iff.mp split
    exact ⟨[], [], [], rfl, rfl, rfl, by simp⟩
  | cons l ls ih =>
    obtain ⟨noNewline, others⟩ := forall_mem_cons.mp lines
    have whole := split
    rw [text_cons, append_cons] at split
    rcases append_eq_append_iff.mp split with ⟨a', before, -⟩ | ⟨c, rfl, later⟩
    · rcases eq_nil_or_concat a' with rfl | ⟨a'', x, rfl⟩
      · rw [append_nil] at before
        refine ⟨[l], ls, [], rfl, by simp [text, before], ?_, by simp⟩
        rw [← before] at split
        exact append_cancel_left split
      · rw [concat_eq_append, ← append_assoc] at before
        have inside := (append_inj' before rfl).1
        refine ⟨[], l :: ls, a, rfl, rfl, whole, fun listed => noNewline ?_⟩
        rw [inside]
        exact mem_append_left _ listed
    · obtain ⟨ls₁, ls₂, rest, rfl, rfl, after, noMore⟩ := ih others later.symm
      exact ⟨l :: ls₁, ls₂, rest, rfl, by simp [text_cons], after, noMore⟩

theorem match_nil (line : List UInt8) : match' [] line = true := by
  cases line <;> rfl

theorem takeWhile_nul (noNul : 0 ∉ line) : line.takeWhile (· ≠ 0) = line := by
  rw [takeWhile_eq_self_iff]
  intro b inside
  exact decide_eq_true fun nul => noNul (nul ▸ inside)

theorem length_le_text (ls : List (List UInt8)) : ls.length ≤ (text ls).length := by
  induction ls with
  | nil => exact Nat.le_refl 0
  | cons l ls ih =>
    simp only [text_cons, length_append, length_cons]
    omega

theorem nul_text (lines : ∀ l ∈ ls, 0 ∉ l) : 0 ∉ text ls := by
  simp only [text, mem_flatMap, mem_append, mem_singleton]
  rintro ⟨l, listed, inside | isNewline⟩
  · exact lines l listed inside
  · cases isNewline

/-- While every read has a newline, nothing is lost. -/
theorem grep_complete (lines : ∀ l ∈ ls, newline ∉ l ∧ 0 ∉ l) (noNewline : newline ∉ buf)
    (cut : buf ++ reads.flatten = text ls) (fits : Offered reads buf)
    (every : ∀ read ∈ reads, newline ∈ read) :
    grep re reads buf = some (text (ls.filter (match' re))) := by
  induction reads generalizing buf ls with
  | nil =>
    cases ls with
    | nil => rfl
    | cons l ls =>
      rw [flatten_nil, append_nil, text_cons] at cut
      exact absurd (by simp [cut]) noNewline
  | cons read reads ih =>
    obtain ⟨nonempty, room, fits⟩ := fits
    obtain ⟨here, every⟩ := forall_mem_cons.mp every
    rw [flatten_cons, ← append_assoc] at cut
    obtain ⟨ls₁, ls₂, rest, rfl, whole, after, noMore⟩ := text_cut (fun l listed => (lines l listed).1) cut
    have lines₁ : ∀ l ∈ ls₁, newline ∉ l ∧ 0 ∉ l := fun l listed =>
      lines l (mem_append_left _ listed)
    have lines₂ : ∀ l ∈ ls₂, newline ∉ l ∧ 0 ∉ l := fun l listed =>
      lines l (mem_append_right _ listed)
    have noNul : 0 ∉ rest := fun inside => nul_text (fun l listed => (lines₂ l listed).2) (by
      rw [← after]
      exact mem_append_left _ inside)
    have enough : ls₁.length ≤ (buf ++ read).length := by
      have := length_le_text ls₁
      rw [whole, length_append]
      omega
    obtain ⟨written, skipped⟩ := lines_loop re _ enough lines₁ ((strchr_none noNul).mpr noMore)
    rw [← whole] at written skipped
    have kept : carried (buf ++ read) = rest := by
      unfold carried
      rw [skipped, if_neg]
      intro same
      have none : text ls₁ = [] := by
        rw [whole, length_append] at same
        exact length_eq_zero_iff.mp (by omega)
      rw [none, nil_append] at whole
      exact noMore (whole ▸ mem_append_right _ here)
    rw [kept] at fits
    have small : ¬ BUFSIZE ≤ (buf ++ read).length := by
      have := length_pos_iff.mpr nonempty
      rw [length_append]
      omega
    rw [grep, if_neg small, kept, ih lines₂ noMore after fits every, written]
    simp [text]

/-- A NUL is never written. -/
theorem nul_grep (run : grep re reads buf = some out) : 0 ∉ out := by
  have written : ∀ turns p, 0 ∉ writeLoop re turns p := by
    intro turns
    induction turns with
    | zero => intro p; simp [writeLoop]
    | succ turns ih =>
      intro p
      unfold writeLoop
      split
      · simp
      · rename_i line rest found
        have := (strchr_some found).2.2
        have other : (0 : UInt8) ≠ newline := by decide
        split <;> simp [this, ih, other]
  induction reads generalizing buf out with
  | nil =>
    cases run
    simp
  | cons read reads ih =>
    unfold grep at run
    split at run
    · cases run
    · obtain ⟨out', later, rfl⟩ := Option.map_eq_some_iff.mp run
      simp [written, ih later]

/-- A pattern that matches every line has all of them written. -/
theorem writeLoop_skipLoop (turns : Nat) (p : List UInt8) :
    writeLoop [] turns p ++ skipLoop turns p = p := by
  induction turns generalizing p with
  | zero => rfl
  | succ turns ih =>
    unfold writeLoop skipLoop
    split
    · rfl
    · rename_i line rest found
      rw [match_nil, if_pos rfl, append_assoc, ih, (strchr_some found).1]
      simp

theorem grep_length (run : grep [] reads buf = some out) :
    out.length ≤ buf.length + reads.flatten.length := by
  induction reads generalizing buf out with
  | nil =>
    cases run
    exact Nat.zero_le _
  | cons read reads ih =>
    unfold grep at run
    split at run
    · cases run
    · obtain ⟨out', later, rfl⟩ := Option.map_eq_some_iff.mp run
      have rest := ih later
      have length := congrArg List.length (writeLoop_skipLoop (buf ++ read).length (buf ++ read))
      simp only [length_append, flatten_cons] at length ⊢
      unfold carried at rest
      dsimp only at rest
      split at rest
      · simp only [length_nil] at rest
        simp only [length_append] at *
        omega
      · simp only [length_append] at rest
        omega

/-- If nothing is lost, every read has a newline. -/
theorem newline_of_lossless (run : grep [] reads buf = some out)
    (all : out.length = buf.length + reads.flatten.length) (noNul : 0 ∉ buf ++ reads.flatten)
    (noNewline : newline ∉ buf) (fits : Offered reads buf) : ∀ read ∈ reads, newline ∈ read := by
  induction reads generalizing buf out with
  | nil => simp
  | cons read reads ih =>
    obtain ⟨nonempty, -, fits⟩ := fits
    unfold grep at run
    split at run
    · cases run
    · obtain ⟨out', later, rfl⟩ := Option.map_eq_some_iff.mp run
      have bound := grep_length later
      have whole := writeLoop_skipLoop (buf ++ read).length (buf ++ read)
      have ends := strchr_skipLoop (p := buf ++ read) _ (Nat.le_refl _)
      have some' := length_pos_iff.mpr nonempty
      have length := congrArg List.length whole
      rw [flatten_cons, ← append_assoc] at noNul
      have noNul₁ : 0 ∉ buf ++ read := fun inside => noNul (mem_append_left _ inside)
      have noNul₂ : 0 ∉ skipLoop (buf ++ read).length (buf ++ read) := fun inside =>
        noNul₁ (whole ▸ mem_append_right _ inside)
      by_cases same : (skipLoop (buf ++ read).length (buf ++ read)).length = (buf ++ read).length
      · have none : carried (buf ++ read) = [] := if_pos same
        rw [none] at bound
        simp only [length_append, flatten_cons, length_nil] at *
        omega
      · have kept : carried (buf ++ read) = skipLoop (buf ++ read).length (buf ++ read) := if_neg same
        rw [kept] at later fits bound
        refine forall_mem_cons.mpr ⟨?_, ih later ?_ ?_ ((strchr_none noNul₂).mp ends) fits⟩
        · by_contra missing
          have silent : newline ∉ buf ++ read := by simp [noNewline, missing]
          exact same (by rw [skipLoop_of_none _ ((strchr_none noNul₁).mpr silent)])
        · simp only [length_append, flatten_cons] at all length ⊢
          omega
        · intro inside
          rcases mem_append.mp inside with early | late
          · exact noNul₂ early
          · exact noNul (mem_append_right _ late)

end

/-- Whatever the pattern, `grep` writes the lines that match, exactly if every result of `read` has a
newline and none a NUL: a part of a line without its end is dropped when nothing precedes it in the
buffer, and a NUL hides what is behind it. -/
theorem grep_right_iff {ls reads : List (List UInt8)} (lines : ∀ l ∈ ls, newline ∉ l)
    (cut : reads.flatten = text ls) (fits : Offered reads []) :
    (∀ re, 0 ∉ re → grep re reads [] = some (text (ls.filter (matchLine re)))) ↔
      ∀ read ∈ reads, newline ∈ read ∧ 0 ∉ read := by
  constructor
  · intro right
    have all : grep [] reads [] = some reads.flatten := by
      have every : ls.filter (matchLine []) = ls := List.filter_eq_self.mpr fun l _ => match_nil _
      rw [right [] (by simp), cut, every]
    have noNul := nul_grep all
    have every := newline_of_lossless all (by simp) (by simpa using noNul) (by simp) fits
    exact fun read listed => ⟨every read listed, fun inside =>
      noNul (List.mem_flatten.mpr ⟨read, listed, inside⟩)⟩
  · intro good re _
    have noNul : ∀ l ∈ ls, 0 ∉ l := by
      intro l listed inside
      have : 0 ∈ reads.flatten := by
        rw [cut]
        exact List.mem_flatMap.mpr ⟨l, listed, List.mem_append_left _ inside⟩
      obtain ⟨read, isRead, here⟩ := List.mem_flatten.mp this
      exact (good read isRead).2 here
    have same : ls.filter (matchLine re) = ls.filter (match' re) :=
      List.filter_congr fun l listed => by rw [matchLine, takeWhile_nul (noNul l listed)]
    rw [same]
    exact grep_complete (fun l listed => ⟨lines l listed, noNul l listed⟩) (by simp) cut fits
      fun read listed => (good read listed).1

/-- Two lines arrive in two pieces, with the cut inside the second. -/
theorem grep_right_two_lines :
    Offered [[97, 98, newline, 98], [newline]] [] ∧
      grep [98] [[97, 98, newline, 98], [newline]] [] = some [97, 98, newline, 98, newline] := by
  have fits : Offered [[97, 98, newline, 98], [newline]] [] :=
    ⟨by decide, by decide, by decide, by decide, trivial⟩
  have every : ∀ read ∈ [[97, 98, newline, 98], [newline]], newline ∈ read ∧ 0 ∉ read := by decide
  have cut : [[97, 98, newline, 98], [newline]].flatten = text [[97, 98], [98]] := rfl
  exact ⟨fits, (grep_right_iff (by decide) cut fits).mpr every [98] (by decide)⟩

/-- The line `ab` arrives in two pieces, the first without a newline. -/
theorem grep_drops_a_piece :
    Offered [[97], [98, newline]] [] ∧ [[97], [98, newline]].flatten = text [[97, 98]] ∧
      grep [97] [[97], [98, newline]] [] = some [] ∧
      text ([[97, 98]].filter (matchLine [97])) = [97, 98, newline] :=
  ⟨⟨by decide, by decide, by decide, by decide, trivial⟩, rfl, by decide, by decide⟩

end Xv6.Grep
