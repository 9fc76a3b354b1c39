import Xv6.Library.Lts
import Xv6.Memory.QuietSteps

/-!
Processes with private memory.

What user code should see of `fork`, `growproc`, `exit` and `wait`: every process has
pages of its own, and a child starts with a copy of its parent's. Frames, reference
counts and copy-on-write do not occur. The labels of a run say what each process did
and what it observed, so that a run is determined by its labels.
-/

namespace Xv6

/-- A page of a process; `user` says whether user code may access it. -/
structure UserPage where
  bytes : Page
  user : Bool

structure Space where
  state : ProcState
  sz : Nat
  pages : Nat → Option UserPage

def Space.free : Space := ⟨.UNUSED, 0, fun _ => none⟩

/-- The contents of the page of `va`, if user code may access it. -/
def Space.userPage (sp : Space) (va : Nat) : Option Page :=
  if va < KERNBASE then
    match sp.pages (pageOf va) with
    | none => none
    | some page => if page.user then some page.bytes else none
  else none

instance (newsz oldsz page : Nat) : Decidable (Kernel.InRange newsz oldsz page) :=
  inferInstanceAs (Decidable (_ ∧ _ ∧ _))

/-- Pages above the old size appear zeroed, pages above the new size disappear. -/
def Space.growproc (sp : Space) (n : Int) : Space :=
  let newsz := Kernel.target sp.sz n
  if Kernel.GrowIdle sp.sz n then sp
  else {
    state := sp.state
    sz := Kernel.storedSize sp.sz newsz
    pages := fun page =>
      if 0 < n ∧ Kernel.InRange sp.sz newsz page then some ⟨.zeroed, true⟩
      else if n < 0 ∧ Kernel.InRange newsz sp.sz page then none
      else sp.pages page }

/-- A private copy of the pages below the size. -/
def Space.copy (sp : Space) : Space where
  state := .RUNNABLE
  sz := sp.sz
  pages page := if page < (sp.sz + PGSIZE - 1) / PGSIZE then sp.pages page else none

/-- What a process does, with what it observes. -/
inductive Act where
  | load (va : UInt32) (b : UInt8)
  | store (va : UInt32) (b : UInt8)
  /-- An access traps; `killed` says whether the process ends by it. -/
  | fault (va : UInt32) (killed : Bool)
  | growproc (n : Int)
  | fork (child : Option ProcNo)
  | exit
  | wait (child : Option ProcNo)

abbrev Spaces := ProcNo → Space

/-- The machine in which nothing is shared; `none` if the observation is impossible. -/
def Spaces.act (m : Spaces) (me : ProcNo) : Act → Option Spaces
  | .load va b =>
    match (m me).userPage va.toNat with
    | none => none
    | some page => if byteAt page (va.toNat % PGSIZE) = b then some m else none
  | .store va b =>
    match (m me).userPage va.toNat with
    | none => none
    | some page =>
      some (Function.update m me { m me with
        pages := Function.update (m me).pages (pageOf va.toNat)
          (some ⟨Kernel.setByte page (va.toNat % PGSIZE) b, true⟩) })
  | .fault va killed =>
    if killed then
      if ((m me).userPage va.toNat).isSome then none
      else some (Function.update m me { m me with state := .ZOMBIE })
    else some m
  | .growproc n => some (Function.update m me ((m me).growproc n))
  | .fork none => some m
  | .fork (some child) =>
    if (m child).state = .UNUSED then some (Function.update m child (m me).copy) else none
  | .exit => some (Function.update m me { m me with state := .ZOMBIE })
  | .wait none => some m
  | .wait (some child) =>
    if (m child).state = .ZOMBIE then some (Function.update m child .free) else none

def Spaces.Step (m : Spaces) (label : ProcNo × Act) (m' : Spaces) : Prop :=
  m.act label.1 label.2 = some m'

theorem Spaces.Step.unique (m : Spaces) (label : ProcNo × Act) (m' m'' : Spaces)
    (step : m.Step label m') (step' : m.Step label m'') : m' = m'' :=
  Option.some.inj (step.symm.trans step')

namespace Kernel

/-- The contents and permission of the page an entry maps. -/
def userPageOf (k : Kernel) (pte : Pte) : Option UserPage :=
  pte.mapped.map (fun f => ⟨k.mem f, pte.u⟩)

/-- What the process sees of its memory. -/
def space (k : Kernel) (s : ProcNo) : Space :=
  if (k.proc s).Live then {
    state := (k.proc s).state
    sz := (k.proc s).sz
    pages := fun page =>
      if page < USERPAGES then k.userPageOf (pteAt (k.dirs (k.proc s).pgdir) page) else none }
  else .free

def view (k : Kernel) : Spaces := k.space

/-- The entry of the process table a call has changed in this way, if any. -/
def changed (k k' : Kernel) (before after : ProcState → Bool) : Option ProcNo :=
  (List.finRange NPROC).find? (fun s => before (k.proc s).state ∧ after (k'.proc s).state)

/-- The label of a step from `k` to `k'`. -/
def actOf (k : Kernel) (me : ProcNo) (k' : Kernel) : MemOp → Act
  | .load va =>
    match k.load me va.toNat with
    | some (b, _) => .load va b
    | none => .fault va ((k'.proc me).state = .ZOMBIE)
  | .store va b =>
    match k.store me va.toNat b with
    | some _ => .store va b
    | none => .fault va ((k'.proc me).state = .ZOMBIE)
  | .growproc n => .growproc n
  | .fork => .fork (k.changed k' (· = .UNUSED) (· ≠ .UNUSED))
  | .exit => .exit
  | .wait => .wait (k.changed k' (· = .ZOMBIE) (· = .UNUSED))

/-- A step of an active process, labelled with what it observes. -/
def Acts (cfg : Config) (k : Kernel) (label : ProcNo × Act) (k' : Kernel) : Prop :=
  ∃ op, (k.proc label.1).Active ∧ k.step cfg label.1 op = .ok k' ∧
    label.2 = k.actOf label.1 k' op

end Kernel

end Xv6
