import Mathlib

/-!
Constants, address arithmetic and outcomes shared by the memory manager.

Addresses are unsigned 32-bit words, represented by naturals with the reduction
modulo `2 ^ 32` written out where the source relies on it. A panic, and every
access the C code would make outside an object, is an error of `Res`; nothing
after it is specified.
-/

namespace Xv6

abbrev PGSIZE : Nat := 4096
abbrev NPDENTRIES : Nat := 1024
abbrev EXTMEM : Nat := 0x100000
abbrev PHYSTOP : Nat := 0xE000000
abbrev DEVSPACE : Nat := 0xFE000000
abbrev KERNBASE : Nat := 0x80000000
abbrev KERNLINK : Nat := KERNBASE + EXTMEM
abbrev MAXPAGES : Nat := PHYSTOP / PGSIZE
abbrev NPROC : Nat := 64
abbrev MAX_PSYC_PAGES : Nat := 16
abbrev MAX_TOTAL_PAGES : Nat := 32
abbrev MAX_PRIO_ARR : Nat := 2 * MAX_PSYC_PAGES + 1

-- Literals of the index types of processes, of page slots, and of the 128 words of a block.
instance neZeroNPROC : NeZero NPROC := ⟨by decide⟩
instance neZeroSlots : NeZero MAX_PSYC_PAGES := ⟨by decide⟩
instance neZeroWords : NeZero 128 := ⟨by decide⟩

/-- The address `(char *)-1` that marks a metadata entry without a page. -/
abbrev CLEAN_VA : Nat := 2 ^ 32 - 1

def V2P (a : Nat) : Nat := (a + 2 ^ 32 - KERNBASE) % 2 ^ 32

def P2V (a : Nat) : Nat := (a + KERNBASE) % 2 ^ 32

def PGROUNDUP (sz : Nat) : Nat := (sz + PGSIZE - 1) % 2 ^ 32 / PGSIZE * PGSIZE

def PGROUNDDOWN (a : Nat) : Nat := a / PGSIZE * PGSIZE

def PDX (va : Nat) : Nat := va / 2 ^ 22 % 1024

def PTX (va : Nat) : Nat := va / 2 ^ 12 % 1024

def PGADDR (d t o : Nat) : Nat := (d * 2 ^ 22 + t * 2 ^ 12 + o) % 2 ^ 32

/-- Two's complement reading of a 32-bit `int` result. -/
def wrapInt (x : Int) : Int := (x + 2 ^ 31) % 2 ^ 32 - 2 ^ 31

theorem wrapInt_of_mem {x : Int} (lower : -(2 ^ 31) ≤ x) (upper : x < 2 ^ 31) :
    wrapInt x = x := by
  unfold wrapInt
  omega

/-- The replacement policy the kernel is built with (`-D$(SELECTION)`). -/
inductive Selection where
  | NONE | NFUA | LAPA | SCFIFO | AQ
  deriving DecidableEq, Repr

/-- The builds whose queue the accounting results are about. -/
def Selection.Queued (sel : Selection) : Prop :=
  sel = .NFUA ∨ sel = .LAPA ∨ sel = .SCFIFO

theorem Selection.Queued.paged {sel : Selection} (build : sel.Queued) : sel ≠ .NONE := by
  rcases build with rfl | rfl | rfl <;> decide

/-- Something a result may exclude from the runs it is about. -/
inductive Incident where
  /-- `kalloc` returned 0. -/
  | outOfMemory
  /-- `pageToSwapFile` was entered. -/
  | eviction
  deriving DecidableEq, Repr

/-- Why a kernel operation does not return. Except for the last four, each
constructor is one `panic` call of the source. -/
inductive Panic where
  | kfree
  | kfreeRef
  | remap
  | physTooHigh
  | allocuvmFull
  | copyuvmNoPte
  | copyuvmNotPresent
  | freevmNoPgdir
  | clearpteu
  | noValidMemIndex
  | noSwapSpace
  | faultFull
  | faultNotInSwap
  | faultNoRam
  | faultMappages
  | swapNotInSwap
  | swapNotInMemory
  | swapMappages
  | loaduvmAlign
  | loaduvmNoPte
  | initExiting
  | exitSwapFile
  /-- A null pointer is dereferenced. -/
  | nullDeref
  /-- An array is indexed outside its bounds. -/
  | outOfBounds
  /-- A loop never ends. -/
  | noReturn
  /-- The run met an incident it excludes. -/
  | excluded (incident : Incident)
  deriving DecidableEq, Repr

abbrev Res := Except Panic

/-- Symbols fixed by the linker script, the selected policy, and the incidents
excluded from the runs under consideration. -/
structure Config where
  sel : Selection
  /-- `end`, the first address after the loaded kernel. -/
  kernelEnd : Nat
  /-- `data`, the start of the kernel's writable data. -/
  kernelData : Nat
  excluded : Incident → Bool := fun _ => false

/-- Stop a run that excludes the incident; otherwise nothing happens. -/
def Config.meet (cfg : Config) (incident : Incident) : Res Unit :=
  if cfg.excluded incident then .error (.excluded incident) else .ok ()

variable {α β : Type}

theorem Res.bind_ok {x : Res α} {f : α → Res β} {r : β} :
    x >>= f = .ok r ↔ ∃ a, x = .ok a ∧ f a = .ok r := by
  cases x with
  | error e => simp [bind, Except.bind]
  | ok a => simp [bind, Except.bind]

@[simp] theorem Res.ok_bind (a : α) (f : α → Res β) : ((Except.ok a : Res α) >>= f) = f a := rfl

@[simp] theorem Res.error_bind (e : Panic) (f : α → Res β) :
    ((Except.error e : Res α) >>= f) = .error e := rfl

theorem Config.meet_ok {cfg : Config} {incident : Incident} {u : Unit} :
    cfg.meet incident = .ok u ↔ cfg.excluded incident = false := by
  unfold Config.meet
  cases cfg.excluded incident <;> simp

end Xv6
