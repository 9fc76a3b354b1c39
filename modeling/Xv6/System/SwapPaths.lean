import Xv6.System.SwapNames

/-!
The path of a swap file in its buffer.

`createSwapFile` and `removeSwapFile` build the path in an array of `DIGITS` characters, and `itoa`
writes as many digits as the pid has. A pid of eight digits is one character too long for the array.
Two pids of ten digits that differ in the last one have the same name in the root directory, where
names are cut to `DIRSIZ` characters.
-/

namespace Xv6.Fs

open List Nat

/-- The first loop of `itoa`: how far `p` moves. -/
def itoaSpan : Nat → Nat → Nat
  | 0, _ => 0
  | fuel + 1, shifter => 1 + if shifter / 10 = 0 then 0 else itoaSpan fuel (shifter / 10)

/-- The second loop of `itoa`: what is stored at which place. -/
def itoaFill : Nat → Nat → Nat → List (Nat × Char)
  | 0, _, _ => []
  | fuel + 1, i, p =>
    (p - 1, Char.ofNat (48 + i % 10)) :: if i / 10 = 0 then [] else itoaFill fuel (i / 10) (p - 1)

/-- What `itoa` of a positive number stores from `b` on. -/
def itoaStores (i b : Nat) : List (Nat × Char) :=
  let p := b + itoaSpan (i + 1) i
  (p, Char.ofNat 0) :: itoaFill (i + 1) i p

/-- What `memmove` and `itoa` store in `path`. -/
def pathStores (pid : Nat) : List (Nat × Char) :=
  [(0, '/'), (1, '.'), (2, 's'), (3, 'w'), (4, 'a'), (5, 'p')] ++ itoaStores pid 6

def store (buf : Nat → Char) (w : Nat × Char) : Nat → Char := Function.update buf w.1 w.2

/-- The characters from `a` on. -/
def Reads (buf : Nat → Char) (a : Nat) (text : List Char) : Prop :=
  ∀ j c, text[j]? = some c → buf (a + j) = c

variable {buf : Nat → Char} {a p pid : Nat} {text : List Char} {w : Nat × Char}

theorem Reads.cons (reads : Reads buf (a + 1) text) (c : Char) :
    Reads (store buf (a, c)) a (c :: text) := by
  intro j d found
  cases j with
  | zero =>
    cases found
    exact Function.update_self ..
  | succ j =>
    refine (Function.update_of_ne (by simp) ..).trans ?_
    rw [← reads j d found]
    congr 1
    omega

theorem Reads.append {front back : List Char} (first : Reads buf a front)
    (second : Reads buf (a + front.length) back) : Reads buf a (front ++ back) := by
  intro j c found
  by_cases inFront : j < front.length
  · rw [getElem?_append_left inFront] at found
    exact first j c found
  · rw [getElem?_append_right (Nat.le_of_not_lt inFront)] at found
    have there := second _ c found
    rw [← there]
    congr 1
    omega

/-- Stores from `a` on leave what is before. -/
theorem Reads.stores (reads : Reads buf a text) (stores : List (Nat × Char))
    (later : ∀ w ∈ stores, a + text.length ≤ w.1) :
    Reads (stores.foldl store buf) a text := by
  induction stores generalizing buf with
  | nil => exact reads
  | cons w stores ih =>
    refine ih (fun j c found => ?_) fun w' inside => later w' (mem_cons_of_mem w inside)
    have inside := (List.getElem?_eq_some_iff.mp found).1
    have := later w (mem_cons_self ..)
    exact (Function.update_of_ne (by omega) ..).trans (reads j c found)

theorem itoaLoop_append (fuel i : Nat) (acc : List Char) :
    itoaLoop fuel i acc = itoaLoop fuel i [] ++ acc := by
  induction fuel generalizing i acc with
  | zero => rfl
  | succ fuel ih =>
    simp only [itoaLoop]
    split
    · rfl
    · rw [ih, ih (i / 10) [_]]
      simp

theorem itoaSpan_eq (fuel i : Nat) : itoaSpan fuel i = (itoaLoop fuel i []).length := by
  induction fuel generalizing i with
  | zero => rfl
  | succ fuel ih =>
    simp only [itoaSpan, itoaLoop]
    split
    · rfl
    · rw [itoaLoop_append, ih, length_append]
      simp only [length_singleton]
      omega

/-- The digits are put in front of what has been stored from `p` on. -/
theorem itoaFill_reads (fuel i : Nat) (room : itoaSpan fuel i ≤ p) {acc : List Char}
    (reads : Reads buf p acc) :
    Reads ((itoaFill fuel i p).foldl store buf) (p - itoaSpan fuel i) (itoaLoop fuel i acc) := by
  induction fuel generalizing i p acc buf with
  | zero => exact reads
  | succ fuel ih =>
    simp only [itoaSpan] at room
    have placed : Reads (store buf (p - 1, Char.ofNat (48 + i % 10))) (p - 1)
        (Char.ofNat (48 + i % 10) :: acc) := by
      refine Reads.cons ?_ _
      rwa [show p - 1 + 1 = p by omega]
    simp only [itoaFill, itoaLoop, itoaSpan, foldl_cons]
    split
    · exact placed
    · rename_i more
      rw [if_neg more] at room
      have filled := ih (i / 10) (p := p - 1) (by omega) placed
      rwa [show p - 1 - itoaSpan fuel (i / 10) = p - (1 + itoaSpan fuel (i / 10)) by omega] at filled

theorem mem_itoaFill {fuel i : Nat} (room : itoaSpan fuel i ≤ p) (inside : w ∈ itoaFill fuel i p) :
    p - itoaSpan fuel i ≤ w.1 ∧ w.1 < p := by
  induction fuel generalizing i p with
  | zero => cases inside
  | succ fuel ih =>
    simp only [itoaSpan] at room ⊢
    simp only [itoaFill] at inside
    rcases mem_cons.mp inside with rfl | inside
    · dsimp only
      omega
    · split at inside
      · cases inside
      · rename_i more
        rw [if_neg more] at room ⊢
        have := ih (p := p - 1) (by omega) inside
        omega

/-- `itoa` writes the decimal digits. -/
theorem itoaLoop_eq_toDigits (fuel i : Nat) (enough : i < fuel) :
    itoaLoop fuel i [] = Nat.toDigits 10 i := by
  have digit : ∀ d, d < 10 → Char.ofNat (48 + d) = d.digitChar := by decide
  induction fuel generalizing i with
  | zero => omega
  | succ fuel ih =>
    have small : i % 10 < 10 := mod_lt _ (by decide)
    simp only [itoaLoop, digit _ small]
    split
    · rename_i last
      rw [mod_eq_of_lt (by omega), toDigits_of_lt_base (by omega)]
    · rename_i more
      rw [itoaLoop_append, ih (i / 10) (by omega), ← toDigits_of_lt_base small,
        toDigits_append_toDigits (by decide) (by omega) small, div_add_mod]

theorem itoa_eq (pid : Nat) : itoa pid = Nat.toDigits 10 pid :=
  itoaLoop_eq_toDigits (pid + 1) pid (Nat.lt_succ_self pid)

/-- The path is written inside the buffer, and is `/.swap`, the pid in decimal and a NUL. -/
structure SafePath (pid : Nat) : Prop where
  inside : ∀ w ∈ pathStores pid, w.1 < DIGITS
  text : ∀ buf, Reads ((pathStores pid).foldl store buf) 0
    (['/', '.', 's', 'w', 'a', 'p'] ++ Nat.toDigits 10 pid ++ [Char.ofNat 0])

theorem span_eq (pid : Nat) : itoaSpan (pid + 1) pid = (Nat.toDigits 10 pid).length := by
  rw [itoaSpan_eq, itoaLoop_eq_toDigits _ _ (Nat.lt_succ_self pid)]

theorem mem_itoaStores {b : Nat} (inside : w ∈ itoaStores pid b) :
    b ≤ w.1 ∧ w.1 ≤ b + (Nat.toDigits 10 pid).length := by
  have span := span_eq pid
  rcases mem_cons.mp inside with rfl | inside
  · dsimp only
    omega
  · have := mem_itoaFill (by omega) inside
    omega

/-- The text is right wherever it ends. -/
theorem pathStores_reads (pid : Nat) (buf : Nat → Char) :
    Reads ((pathStores pid).foldl store buf) 0
      (['/', '.', 's', 'w', 'a', 'p'] ++ Nat.toDigits 10 pid ++ [Char.ofNat 0]) := by
  rw [pathStores, foldl_append, append_assoc]
  set front := List.foldl store buf [(0, '/'), (1, '.'), (2, 's'), (3, 'w'), (4, 'a'), (5, 'p')] with isFront
  have swap : Reads front 0 ['/', '.', 's', 'w', 'a', 'p'] := by
    intro j c found
    rw [isFront]
    match j, found with
    | 0, found | 1, found | 2, found | 3, found | 4, found | 5, found => cases found; rfl
  refine Reads.append (swap.stores _ fun w inside => (mem_itoaStores inside).1) ?_
  have ended : Reads (store front (6 + itoaSpan (pid + 1) pid, Char.ofNat 0))
      (6 + itoaSpan (pid + 1) pid) [Char.ofNat 0] := Reads.cons (fun _ _ found => by cases found) _
  have filled := itoaFill_reads (pid + 1) pid (Nat.le_add_left ..) ended
  rw [itoaLoop_append, itoaLoop_eq_toDigits _ _ (Nat.lt_succ_self pid), Nat.add_sub_cancel] at filled
  exact filled

theorem safePath_iff : SafePath pid ↔ pid < 10 ^ 7 := by
  have digits := length_toDigits_le_iff (b := 10) (n := pid) (k := 7) (by decide) (by decide)
  have span := span_eq pid
  rw [← digits]
  constructor
  · intro safe
    have last := safe.inside (6 + itoaSpan (pid + 1) pid, Char.ofNat 0) (by simp [pathStores, itoaStores])
    dsimp only [DIGITS] at last
    omega
  · intro short
    refine ⟨fun w inside => ?_, pathStores_reads pid⟩
    change w.1 < 14
    rcases mem_append.mp inside with front | inside
    · clear inside
      revert w
      decide
    · have := mem_itoaStores inside
      omega

/-- Names that are not cut tell pids apart. -/
theorem take_swapName_ne {q : Nat} (distinct : p ≠ q) (short : p < 10 ^ 7) (short' : q < 10 ^ 7) :
    (swapName p).take DIRSIZ ≠ (swapName q).take DIRSIZ := by
  have length : ∀ {pid : Nat}, pid < 10 ^ 7 → (swapName pid).length ≤ DIRSIZ := by
    intro pid short
    have digits := (length_toDigits_le_iff (by decide) (by decide)).mpr short
    simp only [swapName, itoa_eq, length_append, length_cons, length_nil]
    change _ ≤ 14
    omega
  rw [take_of_length_le (length short), take_of_length_le (length short')]
  intro same
  have digits : itoa p = itoa q := append_cancel_left same
  rw [itoa_eq, itoa_eq] at digits
  have value : ∀ n, Nat.ofDigitChars 10 (Nat.toDigits 10 n) 0 = n :=
    fun n => ofDigitChars_toDigits (by decide) (by decide)
  rw [← value p, ← value q, digits] at distinct
  exact distinct rfl

/-- The paths of two processes are safe and lead to two names in the root directory if and only if both
pids have seven digits at most. -/
theorem swap_paths_safe_iff {p q : Nat} (distinct : p ≠ q) :
    (SafePath p ∧ SafePath q ∧ ∃ name name', skipelem (swapPath p) = some (name, []) ∧
      skipelem (swapPath q) = some (name', []) ∧ name ≠ name') ↔ p < 10 ^ 7 ∧ q < 10 ^ 7 := by
  rw [safePath_iff, safePath_iff]
  constructor
  · rintro ⟨short, short', -⟩
    exact ⟨short, short'⟩
  · rintro ⟨short, short'⟩
    exact ⟨short, short', _, _, skipelem_swapPath_take p, skipelem_swapPath_take q,
      take_swapName_ne distinct short short'⟩

theorem swap_paths_safe_first_pids :
    SafePath 3 ∧ SafePath 4 ∧ ∃ name name', skipelem (swapPath 3) = some (name, []) ∧
      skipelem (swapPath 4) = some (name', []) ∧ name ≠ name' :=
  (swap_paths_safe_iff (by decide)).mpr (by decide)

/-- The NUL for the pid 10000000 is stored behind the buffer, and two pids of ten digits share a
name. -/
theorem swap_paths_unsafe :
    (∃ w ∈ pathStores 10000000, DIGITS ≤ w.1) ∧
      skipelem (swapPath 1000000000) = skipelem (swapPath 1000000001) := by
  refine ⟨⟨(14, Char.ofNat 0), ?_, Nat.le_refl _⟩, ?_⟩
  · have span : itoaSpan (10000000 + 1) 10000000 = 8 := by decide +kernel
    rw [pathStores, itoaStores, span]
    simp
  · rw [skipelem_swapPath_take, skipelem_swapPath_take]
    decide +kernel

end Xv6.Fs
