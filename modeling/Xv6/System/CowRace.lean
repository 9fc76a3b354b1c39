import Xv6.Library.Lts
import Xv6.Memory.Layout

/-!
Two write faults on one shared frame at the same time.

`onPageFaultCow` is cut at the points where another processor can act in between:
after each critical section of `kmem.lock`, after the copy of the page and after the
store into the page table entry. The user store that faulted is retried at the end.
A page table entry is touched by its own process only, so reading it belongs to the
step that uses it. Run without interruption the steps are the handler.
-/

namespace Xv6

open Function Kernel Ledger

/-- A user store to a copy-on-write page. -/
structure WriteFault where
  me : ProcNo
  va : Nat
  byte : UInt8

/-- Where a process is between its fault and the end of its store. -/
inductive CowPc where
  /-- The handler is entered. -/
  | fault
  /-- The count was above 1. -/
  | shared (pte : Pte)
  | allocated (pte : Pte) (f : Nat)
  | copied (pte : Pte) (f : Nat)
  /-- The count was 1. -/
  | alone (pte : Pte)
  /-- The handler has returned. -/
  | mapped
  | stored
  | killed
  deriving DecidableEq

/-- The entry of an exclusive owner. -/
def Pte.owned (pte : Pte) : Pte := { pte with w := true, cow := false }

namespace Kernel

/-- The next step of a process. A store that still faults enters the handler again. -/
def cowStep (cfg : Config) (req : WriteFault) (pc : CowPc) (k : Kernel) : Res (CowPc × Kernel) :=
  let pgdir := (k.proc req.me).pgdir
  let va1 := PGROUNDDOWN req.va
  match pc with
  | .fault =>
    match walkpgdir (k.dirs pgdir) va1 with
    | none => .error .nullDeref
    | some pte =>
      let dec := k.kmem.decRef pte.frame
      if 1 < dec.1 then .ok (.shared pte, { k with kmem := dec.2 })
      else .ok (.alone pte, { k with kmem := dec.2 })
  | .shared pte => do
    match ← k.kalloc cfg with
    | (none, k) => .ok (.killed, k.kill req.me)
    | (some f, k) => .ok (.allocated pte f, k)
  | .allocated pte f => .ok (.copied pte f, k.fill f (k.mem pte.frame))
  | .copied pte f =>
    .ok (.mapped, k.setPte pgdir va1 { pte with frame := f, p := true, w := true, cow := false })
  | .alone pte => .ok (.mapped, k.setPte pgdir va1 { pte with w := true, cow := false })
  | .mapped =>
    match k.store req.me req.va req.byte with
    | none => .ok (.fault, k)
    | some k => .ok (.stored, k)
  | .stored => .ok (.stored, k)
  | .killed => .ok (.killed, k)

/-- The handler has returned. -/
def Handled (pc : CowPc) : Bool := pc = .mapped || pc = .killed

/-- Steps of one process alone, up to the return of the handler. -/
def cowAlone (cfg : Config) (req : WriteFault) : Nat → CowPc → Kernel → Res Kernel
  | 0, _, k => .ok k
  | n + 1, pc, k =>
    if Handled pc then .ok k
    else do
      let (pc, k) ← k.cowStep cfg req pc
      cowAlone cfg req n pc k

/-- Without interruption the steps are `onPageFaultCow`. -/
theorem cowAlone_eq (cfg : Config) (req : WriteFault) (k : Kernel) :
    cowAlone cfg req 5 .fault k = k.onPageFaultCow cfg req.me (PGROUNDDOWN req.va) := by
  unfold onPageFaultCow
  simp only [cowAlone, Handled, cowStep, reduceCtorEq, decide_false, Bool.or_self,
    Bool.false_eq_true, if_false]
  cases walk : walkpgdir (k.dirs (k.proc req.me).pgdir) (PGROUNDDOWN req.va) with
  | none => rfl
  | some pte =>
    simp only
    by_cases shared : 1 < (k.kmem.decRef pte.frame).1
    · simp only [if_pos shared, Res.ok_bind, reduceCtorEq, decide_false, Bool.or_self,
        Bool.false_eq_true, if_false]
      unfold kalloc
      cases popped : (k.kmem.decRef pte.frame).2.pop with
      | none =>
        simp only
        cases met : cfg.meet .outOfMemory with
        | error e => rfl
        | ok u => rfl
      | some r => rfl
    · simp only [if_neg shared, Res.ok_bind]
      rfl

end Kernel

/-- The two processes. -/
inductive Side where
  | left | right
  deriving DecidableEq

def Side.other : Side → Side
  | .left => .right
  | .right => .left

theorem Side.eq_or (s t : Side) : s = t ∨ s = t.other := by
  cases s <;> cases t <;> decide

theorem Side.other_ne (s : Side) : s.other ≠ s := by
  cases s <;> decide

structure Race where
  k : Kernel
  pc : Side → CowPc

namespace Race

/-- One step of the process `s`. -/
def step (cfg : Config) (req : Side → WriteFault) (r : Race) (s : Side) : Res Race := do
  let (pc, k) ← r.k.cowStep cfg (req s) (r.pc s)
  .ok ⟨k, Function.update r.pc s pc⟩

/-- Both processes have just faulted. -/
def start (k : Kernel) : Race := ⟨k, fun _ => .fault⟩

/-- An interleaving, with the processes in the order of their steps. -/
def Interleaving (cfg : Config) (req : Side → WriteFault) : Race → List Side → Race → Prop :=
  Lts.Run fun r s r' => r.step cfg req s = .ok r'

/-- One process has stored while the other has found the page shared and not copied it. -/
def Racing (r : Race) : Prop :=
  ∃ s pte, r.pc s = .stored ∧ (r.pc s.other = .shared pte ∨ ∃ f, r.pc s.other = .allocated pte f)

/-- The interleaving passes through a racing state. -/
def Raced (cfg : Config) (req : Side → WriteFault) (r : Race) (order : List Side) : Prop :=
  ∃ first r', first <+: order ∧ Interleaving cfg req r first r' ∧ Racing r'

def dir (k : Kernel) (req : Side → WriteFault) (s : Side) : Nat := (k.proc (req s).me).pgdir

def page (req : Side → WriteFault) (s : Side) : Nat := pageOf (req s).va

/-- The entry through which `s` accesses its page. -/
def entry (k : Kernel) (req : Side → WriteFault) (s : Side) : Pte :=
  pteAt (k.dirs (dir k req s)) (page req s)

/-- Two processes share the frame `f`, both copy-on-write. -/
structure Sharing (cfg : Config) (reserved : Set Nat) (k : Kernel) (req : Side → WriteFault)
    (f : Nat) : Prop where
  books : k.Books cfg reserved
  live : ∀ s, (k.proc (req s).me).Live
  differ : (req .left).me ≠ (req .right).me
  low : ∀ s, (req s).va < KERNBASE
  frame : ∀ s, (entry k req s).frame = f
  present : ∀ s, (entry k req s).p = true
  user : ∀ s, (entry k req s).u = true
  cow : ∀ s, (entry k req s).cow = true
  readonly : ∀ s, (entry k req s).w = false
  refs : k.kmem.ref f = 2

/-- No frame is writable in both page tables. -/
def Exclusive (k : Kernel) (req : Side → WriteFault) : Prop :=
  ∀ s i j, i < USERPAGES → j < USERPAGES →
    let a := pteAt (k.dirs (dir k req s)) i
    let b := pteAt (k.dirs (dir k req s.other)) j
    a.p = true → a.w = true → b.p = true → b.w = true → a.frame ≠ b.frame

/-- Each process has the old contents with its own store, and no frame is writable for
both. -/
structure Isolated (req : Side → WriteFault) (old : Page) (k : Kernel) : Prop where
  present : ∀ s, (entry k req s).p = true
  contents : ∀ s, k.mem (entry k req s).frame =
    Kernel.setByte old ((req s).va % PGSIZE) (req s).byte
  exclusive : Exclusive k req

/-- The shared page with the store of `s`. -/
def written (req : Side → WriteFault) (s : Side) (page : Page) : Page :=
  Kernel.setByte page ((req s).va % PGSIZE) (req s).byte

/-- What the process that was second to count has done: it found itself alone and keeps
the frame. -/
inductive Keeps (k₀ : Kernel) (req : Side → WriteFault) (f : Nat) (o : Side) (r : Race) : Prop
  | fault (pc : r.pc o = .fault) (pte : pteAt (r.k.dirs (dir k₀ req o)) (page req o) = entry k₀ req o)
      (mem : r.k.mem f = k₀.mem f)
  | alone (pc : r.pc o = .alone (entry k₀ req o))
      (pte : pteAt (r.k.dirs (dir k₀ req o)) (page req o) = entry k₀ req o)
      (mem : r.k.mem f = k₀.mem f)
  | mapped (pc : r.pc o = .mapped)
      (pte : pteAt (r.k.dirs (dir k₀ req o)) (page req o) = (entry k₀ req o).owned)
      (mem : r.k.mem f = k₀.mem f)
  | stored (pc : r.pc o = .stored)
      (pte : pteAt (r.k.dirs (dir k₀ req o)) (page req o) =
        { (entry k₀ req o).owned with a := true })
      (mem : r.k.mem f = written req o (k₀.mem f))

/-- The page that was copied; `raced` tells whether the other process had stored. -/
def Copy (k₀ : Kernel) (req : Side → WriteFault) (f : Nat) (o : Side) (raced : Prop)
    (page : Page) : Prop :=
  raced ∧ page = written req o (k₀.mem f) ∨ ¬ raced ∧ page = k₀.mem f

/-- What the process that was first to count has done: it moves to a new frame. -/
inductive Moves (k₀ : Kernel) (req : Side → WriteFault) (f : Nat) (l : Side) (raced : Prop)
    (r : Race) : Prop
  | shared (pc : r.pc l = .shared (entry k₀ req l)) (kmem : r.k.kmem = (k₀.kmem.decRef f).2)
      (pte : pteAt (r.k.dirs (dir k₀ req l)) (page req l) = entry k₀ req l)
      (race : raced ↔ r.pc l.other = .stored)
  | allocated (g : Nat) (pc : r.pc l = .allocated (entry k₀ req l) g)
      (fresh : k₀.kmem.ref g = 0)
      (pte : pteAt (r.k.dirs (dir k₀ req l)) (page req l) = entry k₀ req l)
      (race : raced ↔ r.pc l.other = .stored)
  | copied (g : Nat) (pc : r.pc l = .copied (entry k₀ req l) g) (fresh : k₀.kmem.ref g = 0)
      (pte : pteAt (r.k.dirs (dir k₀ req l)) (page req l) = entry k₀ req l)
      (copy : Copy k₀ req f l.other raced (r.k.mem g))
  | mapped (g : Nat) (pc : r.pc l = .mapped) (fresh : k₀.kmem.ref g = 0)
      (pte : pteAt (r.k.dirs (dir k₀ req l)) (page req l) =
        { (entry k₀ req l).owned with p := true, frame := g })
      (copy : Copy k₀ req f l.other raced (r.k.mem g))
  | stored (g : Nat) (pc : r.pc l = .stored) (fresh : k₀.kmem.ref g = 0)
      (pte : pteAt (r.k.dirs (dir k₀ req l)) (page req l) =
        { (entry k₀ req l).owned with p := true, frame := g, a := true })
      (copy : ∃ page, Copy k₀ req f l.other raced page ∧ r.k.mem g = written req l page)

/-- The state once `l` has counted first. -/
structure Led (k₀ : Kernel) (req : Side → WriteFault) (f : Nat) (l : Side) (raced : Prop)
    (r : Race) : Prop where
  pgdir : ∀ s, dir r.k req s = dir k₀ req s
  tables : ∀ s, walkpgdir (r.k.dirs (dir k₀ req s)) (req s).va ≠ none
  rest : ∀ s i, i ≠ page req s →
    pteAt (r.k.dirs (dir k₀ req s)) i = pteAt (k₀.dirs (dir k₀ req s)) i
  refs : r.k.kmem.ref f = 1
  keeps : Keeps k₀ req f l.other r
  moves : Moves k₀ req f l raced r

section Steps

variable {cfg : Config} {reserved : Set Nat} {k₀ : Kernel} {req : Side → WriteFault} {f : Nat}
  {l : Side} {raced : Prop} {r r' : Race} {s : Side} {k : Kernel} {pte : Pte} {g : Nat} {pc : CowPc}

theorem Sharing.dir_ne (sharing : Sharing cfg reserved k₀ req f) (s : Side) :
    dir k₀ req s.other ≠ dir k₀ req s := by
  intro same
  have procs := sharing.books.ownDir _ _ (sharing.live s.other) (sharing.live s) same
  cases s with
  | left => exact sharing.differ procs.symm
  | right => exact sharing.differ procs

theorem step_ok (run : r.step cfg req s = .ok r') :
    ∃ pc k, r.k.cowStep cfg (req s) (r.pc s) = .ok (pc, k) ∧
      r' = ⟨k, update r.pc s pc⟩ := by
  simp only [step, Res.bind_ok] at run
  obtain ⟨⟨pc, k⟩, stepped, done⟩ := run
  cases done
  exact ⟨pc, k, stepped, rfl⟩

theorem walkpgdir_PGROUNDDOWN (d : PageDir) (va : Nat) :
    walkpgdir d (PGROUNDDOWN va) = walkpgdir d va := by
  unfold walkpgdir
  rw [← pageOf_div, ← pageOf_mod, pageOf_PGROUNDDOWN, pageOf_div, pageOf_mod]

theorem setPte_PGROUNDDOWN (k : Kernel) (d va : Nat) (pte : Pte) :
    k.setPte d (PGROUNDDOWN va) pte = k.setPte d va pte := by
  unfold Kernel.setPte setPte
  rw [← pageOf_div, ← pageOf_mod, pageOf_PGROUNDDOWN, pageOf_div, pageOf_mod]

/-- A step of `s` changes no page table entry but the one of its page. -/
structure Local (req : Side → WriteFault) (s : Side) (k k' : Kernel) : Prop where
  pgdir : ∀ t, dir k' req t = dir k req t
  others : ∀ e, e ≠ dir k req s → k'.dirs e = k.dirs e
  pages : ∀ i, i ≠ page req s → pteAt (k'.dirs (dir k req s)) i = pteAt (k.dirs (dir k req s)) i
  walk : walkpgdir (k'.dirs (dir k req s)) (req s).va ≠ none

section

variable (walk : walkpgdir (k.dirs (dir k req s)) (req s).va ≠ none)
include walk

theorem Local.of_dirs {k' : Kernel}
    (pgdir : ∀ t, (k'.proc t).pgdir = (k.proc t).pgdir) (dirs : k'.dirs = k.dirs) :
    Local req s k k' :=
  ⟨fun t => pgdir _, fun _ _ => by rw [dirs], fun _ _ => by rw [dirs], by rw [dirs]; exact walk⟩

theorem Local.setPte (pte : Pte) :
    Local req s k (k.setPte (dir k req s) (req s).va pte) := by
  obtain ⟨old, found⟩ := Option.ne_none_iff_exists'.mp walk
  refine ⟨fun _ => rfl, fun e other => setPte_dirs_other _ _ _ other, fun i other => ?_, ?_⟩
  · rw [setPte_dirs_self, pteAt_setPte found]
    exact if_neg other
  · rw [setPte_dirs_self, walkpgdir_setPte found]
    simp

theorem entry_setPte (pte : Pte) :
    pteAt ((k.setPte (dir k req s) (req s).va pte).dirs (dir k req s)) (page req s) = pte := by
  obtain ⟨old, found⟩ := Option.ne_none_iff_exists'.mp walk
  rw [setPte_dirs_self, page, pteAt_setPte found, if_pos rfl]

end

theorem walkpgdir_eq_pteAt {d : PageDir} {va : Nat} (walk : walkpgdir d va ≠ none) :
    walkpgdir d va = some (pteAt d (pageOf va)) := by
  obtain ⟨pte, found⟩ := Option.ne_none_iff_exists'.mp walk
  rw [found, walkpgdir_eq_some found]

/-- A store through an entry that permits it. -/
theorem store_eq (walk : walkpgdir (k.dirs (dir k req s)) (req s).va ≠ none)
    (here : pteAt (k.dirs (dir k req s)) (page req s) = pte) (present : pte.p = true)
    (user : pte.u = true) (writable : pte.w = true) (frame : pte.frame = g) :
    k.store (req s).me (req s).va (req s).byte =
      some ((k.fill g (written req s (k.mem g))).setPte (dir k req s) (req s).va
        { pte with a := true }) := by
  have found : walkpgdir (k.dirs (k.proc (req s).me).pgdir) (req s).va = some pte := by
    rw [← here]
    exact walkpgdir_eq_pteAt walk
  have allowed : k.access (req s).me (req s).va true = some pte := by
    unfold access
    rw [found]
    exact if_pos ⟨present, user, fun _ => writable⟩
  unfold store
  rw [allowed, ← frame]
  rfl

/-- The step of a process on its own keeps `Local`; the frames it writes to are those it
owns. -/
theorem Led.of_local {raced' : Prop} (sharing : Sharing cfg reserved k₀ req f)
    (led : Led k₀ req f l raced r) (loc : Local req s r.k k) (refs : k.kmem.ref f = 1)
    (keeps : Keeps k₀ req f l.other ⟨k, update r.pc s pc⟩)
    (moves : Moves k₀ req f l raced' ⟨k, update r.pc s pc⟩) :
    Led k₀ req f l raced' ⟨k, update r.pc s pc⟩ := by
  have apart : ∀ t, t ≠ s → dir k₀ req t ≠ dir r.k req s := by
    intro t other
    rw [led.pgdir s]
    obtain same | rfl := Side.eq_or t s
    · exact absurd same other
    · exact sharing.dir_ne s
  refine ⟨fun t => (loc.pgdir t).trans (led.pgdir t), fun t => ?_, fun t i other => ?_, refs,
    keeps, moves⟩
  · by_cases same : t = s
    · subst same
      rw [← led.pgdir t]
      exact loc.walk
    · change walkpgdir (k.dirs (dir k₀ req t)) (req t).va ≠ none
      rw [loc.others _ (apart t same)]
      exact led.tables t
  · by_cases same : t = s
    · subst same
      rw [← led.rest t i other, ← led.pgdir t]
      exact loc.pages i other
    · rw [← led.rest t i other]
      exact congrArg (pteAt · i) (loc.others _ (apart t same))

theorem Side.other_other (s : Side) : s.other.other = s := by
  cases s <;> rfl

/-- Before the copy of the mover the state is racing exactly if the other has stored. -/
theorem racing_iff (early : r.pc l = .shared pte ∨ ∃ g, r.pc l = .allocated pte g) :
    Racing r ↔ r.pc l.other = .stored := by
  constructor
  · rintro ⟨s, _, stored, _⟩
    obtain rfl | rfl := Side.eq_or s l
    · rcases early with h | ⟨g, h⟩ <;> simp [h] at stored
    · exact stored
  · intro stored
    exact ⟨l.other, pte, stored, by rw [Side.other_other]; exact early⟩

theorem Keeps.notShared {o : Side} (keeps : Keeps k₀ req f o r) (pte : Pte) :
    r.pc o ≠ .shared pte := by
  cases keeps with
  | fault pc | alone pc | mapped pc | stored pc => simp [pc]

theorem Keeps.notAllocated {o : Side} (keeps : Keeps k₀ req f o r) (pte : Pte) (g : Nat) :
    r.pc o ≠ .allocated pte g := by
  cases keeps with
  | fault pc | alone pc | mapped pc | stored pc => simp [pc]

/-- Once the mover has copied, the state is not racing. -/
theorem Keeps.not_racing (keeps : Keeps k₀ req f l.other r)
    (notShared : ∀ pte, r.pc l ≠ .shared pte) (notAllocated : ∀ pte g, r.pc l ≠ .allocated pte g) :
    ¬ Racing r := by
  rintro ⟨s, pte, _, other⟩
  obtain rfl | rfl := Side.eq_or s l
  · rcases other with h | ⟨g, h⟩
    · exact keeps.notShared pte h
    · exact keeps.notAllocated pte g h
  · rw [Side.other_other] at other
    rcases other with h | ⟨g, h⟩
    · exact notShared pte h
    · exact notAllocated pte g h

/-- What the mover sees of a step of the keeper. -/
theorem Moves.of_other (moves : Moves k₀ req f l raced r)
    (keeps : Keeps k₀ req f l.other ⟨k, update r.pc l.other pc⟩) (shared : k₀.kmem.ref f ≠ 0)
    (kmem : k.kmem = r.k.kmem) (mem : ∀ g, g ≠ f → k.mem g = r.k.mem g)
    (dirs : k.dirs (dir k₀ req l) = r.k.dirs (dir k₀ req l))
    (stays : r.pc l.other = .stored → pc = .stored) :
    Moves k₀ req f l (raced ∨ Racing ⟨k, update r.pc l.other pc⟩)
      ⟨k, update r.pc l.other pc⟩ := by
  have mine : update r.pc l.other pc l = r.pc l := update_of_ne (Side.other_ne l).symm ..
  have others : update r.pc l.other pc l.other = pc := update_self ..
  have differ : ∀ g, k₀.kmem.ref g = 0 → g ≠ f := by
    rintro g fresh rfl
    exact shared fresh
  have early : ∀ pte, (r.pc l = .shared pte ∨ ∃ g, r.pc l = .allocated pte g) →
      (raced ↔ r.pc l.other = .stored) →
      (raced ∨ Racing ⟨k, update r.pc l.other pc⟩ ↔ pc = .stored) := by
    intro pte at' race
    have still : update r.pc l.other pc l = .shared pte ∨
        ∃ g, update r.pc l.other pc l = .allocated pte g := by
      rw [mine]
      exact at'
    rw [racing_iff (r := ⟨k, update r.pc l.other pc⟩) still, race]
    simp only [others]
    exact ⟨fun h => h.elim stays id, Or.inr⟩
  -- After it, a store of the keeper is no race any more.
  have late : (∀ pte, r.pc l ≠ .shared pte) → (∀ pte g, r.pc l ≠ .allocated pte g) →
      (raced ∨ Racing ⟨k, update r.pc l.other pc⟩ ↔ raced) := by
    intro notShared notAllocated
    refine ⟨fun h => h.resolve_right (keeps.not_racing ?_ ?_), Or.inl⟩
    · simpa only [mine] using notShared
    · simpa only [mine] using notAllocated
  have copyLate : ∀ {page : Page}, (∀ pte, r.pc l ≠ .shared pte) →
      (∀ pte g, r.pc l ≠ .allocated pte g) → Copy k₀ req f l.other raced page →
      Copy k₀ req f l.other (raced ∨ Racing ⟨k, update r.pc l.other pc⟩) page := by
    intro page notShared notAllocated copy
    unfold Copy at copy ⊢
    rwa [late notShared notAllocated]
  cases moves with
  | shared at' same pte race =>
    exact .shared (mine.trans at') (kmem.trans same) (by rw [← pte]; exact congrArg (pteAt · _) dirs)
      (by rw [early _ (Or.inl at') race]; simp only [others])
  | allocated g at' fresh pte race =>
    exact .allocated g (mine.trans at') fresh (by rw [← pte]; exact congrArg (pteAt · _) dirs)
      (by rw [early _ (Or.inr ⟨g, at'⟩) race]; simp only [others])
  | copied g at' fresh pte copy =>
    refine .copied g (mine.trans at') fresh (by rw [← pte]; exact congrArg (pteAt · _) dirs) ?_
    rw [show k.mem g = r.k.mem g from mem g (differ g fresh)]
    exact copyLate (by simp [at']) (by simp [at']) copy
  | mapped g at' fresh pte copy =>
    refine .mapped g (mine.trans at') fresh (by rw [← pte]; exact congrArg (pteAt · _) dirs) ?_
    rw [show k.mem g = r.k.mem g from mem g (differ g fresh)]
    exact copyLate (by simp [at']) (by simp [at']) copy
  | stored g at' fresh pte copy =>
    obtain ⟨page, copy, contents⟩ := copy
    refine .stored g (mine.trans at') fresh (by rw [← pte]; exact congrArg (pteAt · _) dirs)
      ⟨page, copyLate (by simp [at']) (by simp [at']) copy, ?_⟩
    rw [← contents]
    exact mem g (differ g fresh)

/-- The entry the process `s` walks to. -/
theorem Led.walk (led : Led k₀ req f l raced r) (s : Side)
    (here : pteAt (r.k.dirs (dir k₀ req s)) (page req s) = pte) :
    walkpgdir (r.k.dirs (r.k.proc (req s).me).pgdir) (req s).va = some pte := by
  have found := walkpgdir_eq_pteAt (led.tables s)
  rw [← led.pgdir s] at found here
  rw [← here]
  exact found

theorem Led.reachable (led : Led k₀ req f l raced r) (s : Side) :
    walkpgdir (r.k.dirs (dir r.k req s)) (req s).va ≠ none := by
  rw [led.pgdir s]
  exact led.tables s

/-- A step of the process that keeps the frame. -/
theorem Led.keeperStep (sharing : Sharing cfg reserved k₀ req f)
    (led : Led k₀ req f l raced r) (run : r.step cfg req l.other = .ok r') :
    Led k₀ req f l (raced ∨ Racing r') r' := by
  obtain ⟨pc, k, stepped, rfl⟩ := step_ok run
  have used : k₀.kmem.ref f ≠ 0 := by
    rw [sharing.refs]
    decide
  have walk := led.reachable l.other
  have differ : dir k₀ req l ≠ dir r.k req l.other := by
    rw [led.pgdir l.other]
    exact (sharing.dir_ne l).symm
  have same : ∀ t : Side, dir r.k req t = dir k₀ req t := led.pgdir
  have here : ∀ pc, update r.pc l.other pc l.other = pc := fun pc =>
    update_self ..
  cases led.keeps with
  | fault at' pte mem =>
    rw [at'] at stepped
    simp only [cowStep, walkpgdir_PGROUNDDOWN, led.walk l.other pte] at stepped
    have alone : ¬ 1 < r.k.kmem.ref (entry k₀ req l.other).frame := by
      rw [sharing.frame, led.refs]
      decide
    have kmem : (r.k.kmem.decRef (entry k₀ req l.other).frame).2 = r.k.kmem := if_neg alone
    rw [if_neg (show ¬ 1 < (r.k.kmem.decRef (entry k₀ req l.other).frame).1 from alone),
      kmem] at stepped
    cases stepped
    have keeps : Keeps k₀ req f l.other ⟨r.k,
        update r.pc l.other (.alone (entry k₀ req l.other))⟩ :=
      .alone (here _) pte mem
    exact led.of_local sharing (.of_dirs walk (fun _ => rfl) rfl) led.refs keeps
      (led.moves.of_other keeps used rfl (fun _ _ => rfl) rfl (by simp [at']))
  | alone at' pte mem =>
    rw [at'] at stepped
    simp only [cowStep, setPte_PGROUNDDOWN] at stepped
    cases stepped
    have loc := Local.setPte walk (entry k₀ req l.other).owned
    have stored := entry_setPte walk (entry k₀ req l.other).owned
    rw [same l.other] at stored
    have keeps : Keeps k₀ req f l.other ⟨r.k.setPte (dir r.k req l.other) (req l.other).va
        (entry k₀ req l.other).owned, update r.pc l.other .mapped⟩ :=
      .mapped (here _) (by rw [same l.other]; exact stored) mem
    exact led.of_local sharing loc led.refs keeps
      (led.moves.of_other keeps used rfl (fun _ _ => rfl) (loc.others _ differ) (by simp [at']))
  | mapped at' pte mem =>
    rw [at'] at stepped
    rw [← same l.other] at pte
    have allowed := store_eq walk pte (sharing.present l.other) (sharing.user l.other) rfl
      (sharing.frame l.other)
    simp only [cowStep, allowed] at stepped
    cases stepped
    have loc : Local req l.other r.k ((r.k.fill f (written req l.other (r.k.mem f))).setPte
        (dir r.k req l.other) (req l.other).va { (entry k₀ req l.other).owned with a := true }) :=
      have loc := Local.setPte (k := r.k.fill f (written req l.other (r.k.mem f))) walk
        { (entry k₀ req l.other).owned with a := true }
      ⟨loc.pgdir, loc.others, loc.pages, loc.walk⟩
    have stored := entry_setPte (k := r.k.fill f (written req l.other (r.k.mem f))) walk
      { (entry k₀ req l.other).owned with a := true }
    have keeps : Keeps k₀ req f l.other ⟨(r.k.fill f (written req l.other (r.k.mem f))).setPte
        (dir r.k req l.other) (req l.other).va { (entry k₀ req l.other).owned with a := true },
        update r.pc l.other .stored⟩ := by
      refine .stored (here _) ?_ ?_
      · rw [← same l.other]
        exact stored
      · rw [← mem]
        exact fill_mem_self ..
    exact led.of_local sharing loc led.refs keeps
      (led.moves.of_other keeps used rfl (fun g other => fill_mem_other _ _ other)
        (loc.others _ differ) (by simp [at']))
  | stored at' pte mem =>
    rw [at'] at stepped
    cases stepped
    have keeps : Keeps k₀ req f l.other ⟨r.k, update r.pc l.other .stored⟩ :=
      .stored (here _) pte mem
    exact led.of_local sharing (.of_dirs walk (fun _ => rfl) rfl) led.refs keeps
      (led.moves.of_other keeps used rfl (fun _ _ => rfl) rfl (fun _ => rfl))

/-- What the keeper sees of a step of the mover. -/
theorem Keeps.of_other (keeps : Keeps k₀ req f l.other r) (mem : k.mem f = r.k.mem f)
    (dirs : k.dirs (dir k₀ req l.other) = r.k.dirs (dir k₀ req l.other)) :
    Keeps k₀ req f l.other ⟨k, update r.pc l pc⟩ := by
  have mine : update r.pc l pc l.other = r.pc l.other := update_of_ne (Side.other_ne l) ..
  have entry' := congrArg (pteAt · (page req l.other)) dirs
  cases keeps with
  | fault at' pte contents =>
    exact .fault (mine.trans at') (entry'.trans pte) (mem.trans contents)
  | alone at' pte contents =>
    exact .alone (mine.trans at') (entry'.trans pte) (mem.trans contents)
  | mapped at' pte contents =>
    exact .mapped (mine.trans at') (entry'.trans pte) (mem.trans contents)
  | stored at' pte contents =>
    exact .stored (mine.trans at') (entry'.trans pte) (mem.trans contents)

/-- The page the mover copies. -/
theorem Keeps.copy (keeps : Keeps k₀ req f l.other r)
    (race : raced ↔ r.pc l.other = .stored) : Copy k₀ req f l.other raced (r.k.mem f) := by
  unfold Copy
  rw [race]
  cases keeps with
  | fault at' _ contents | alone at' _ contents | mapped at' _ contents =>
    right
    simp [at', contents]
  | stored at' _ contents =>
    left
    exact ⟨at', contents⟩

section

variable (sharing : Sharing cfg reserved k₀ req f)
include sharing

/-- The new frame is unused at the start. -/
theorem Sharing.fresh (s : Side) {km : Kmem} (popped : (k₀.kmem.decRef f).2.pop = some (g, km)) :
    k₀.kmem.ref g = 0 ∧ km.ref f = 1 := by
  have held : cells k₀.dirs k₀.liveDirs k₀.liveStacks
      (.user (dir k₀ req s) (page req s)) = some f := by
    rw [cells_user]
    exact ⟨mem_liveDirs (sharing.live s), pageOf_low (sharing.low s),
      sharing.present s, sharing.frame s⟩
  have many : 1 < k₀.kmem.ref f := by
    rw [sharing.refs]
    decide
  obtain ⟨given, free, ok⟩ := sharing.books.owns.kmem
  have lowered := (ok.decRef f).2
  obtain ⟨zero, refs, _⟩ := (sharing.books.owns.decRef held many).pop popped
  have other : g ≠ f := by
    rintro rfl
    rw [lowered, if_pos ⟨rfl, many⟩, sharing.refs] at zero
    exact absurd zero (by decide)
  constructor
  · rwa [lowered, if_neg (fun h => other h.1)] at zero
  · rw [refs f, if_neg other.symm, lowered, if_pos ⟨rfl, many⟩, sharing.refs]
    rfl

/-- A step of the process that moves to a new frame. -/
theorem Led.moverStep (led : Led k₀ req f l raced r) (run : r.step cfg req l = .ok r') :
    r'.pc l = .killed ∨ Led k₀ req f l (raced ∨ Racing r') r' := by
  obtain ⟨pc, k, stepped, rfl⟩ := step_ok run
  have walk := led.reachable l
  have same : dir r.k req l = dir k₀ req l := led.pgdir l
  have differ : dir k₀ req l.other ≠ dir r.k req l := by
    rw [same]
    exact sharing.dir_ne l
  have here : ∀ pc, update r.pc l pc l = pc := fun pc => update_self ..
  have other : ∀ pc, update r.pc l pc l.other = r.pc l.other := fun pc =>
    update_of_ne (Side.other_ne l) ..
  have notOld : ∀ g, k₀.kmem.ref g = 0 → f ≠ g := by
    rintro g fresh rfl
    rw [sharing.refs] at fresh
    exact absurd fresh (by decide)
  have late : ∀ {pc k page}, Keeps k₀ req f l.other ⟨k, update r.pc l pc⟩ →
      (∀ pte, pc ≠ .shared pte) → (∀ pte g, pc ≠ .allocated pte g) →
      Copy k₀ req f l.other raced page →
      Copy k₀ req f l.other (raced ∨ Racing ⟨k, update r.pc l pc⟩) page := by
    intro pc k page keeps notShared notAllocated copy
    have notRacing := keeps.not_racing (l := l) (by simpa only [here] using notShared)
      (by simpa only [here] using notAllocated)
    unfold Copy at copy ⊢
    rwa [or_iff_left notRacing]
  cases led.moves with
  | shared at' kmem pte race =>
    rw [at'] at stepped
    simp only [cowStep, Res.bind_ok] at stepped
    obtain ⟨⟨new, k₁⟩, allocated, done⟩ := stepped
    cases new with
    | none =>
      left
      cases done
      exact here _
    | some g =>
      right
      cases done
      obtain ⟨km, popped, rfl⟩ := kalloc_some allocated
      rw [kmem] at popped
      obtain ⟨fresh, refs⟩ := sharing.fresh l popped
      have keeps : Keeps k₀ req f l.other ⟨{ r.k with kmem := km },
          update r.pc l (.allocated (entry k₀ req l) g)⟩ :=
        led.keeps.of_other rfl rfl
      refine led.of_local sharing (.of_dirs walk (fun _ => rfl) rfl) refs keeps
        (.allocated g (here _) fresh pte ?_)
      rw [racing_iff (Or.inr ⟨g, here _⟩), race]
      simp only [other, or_self]
  | allocated g at' fresh pte race =>
    right
    rw [at'] at stepped
    simp only [cowStep, sharing.frame l] at stepped
    cases stepped
    have keeps : Keeps k₀ req f l.other ⟨r.k.fill g (r.k.mem f),
        update r.pc l (.copied (entry k₀ req l) g)⟩ :=
      led.keeps.of_other (fill_mem_other _ _ (notOld g fresh)) rfl
    refine led.of_local sharing (.of_dirs walk (fun _ => rfl) rfl) led.refs keeps
      (.copied g (here _) fresh pte ?_)
    have copy := led.keeps.copy race
    rw [← fill_mem_self r.k g (r.k.mem f)] at copy
    exact late keeps (by simp) (by simp) copy
  | copied g at' fresh pte copy =>
    right
    rw [at'] at stepped
    simp only [cowStep, setPte_PGROUNDDOWN] at stepped
    cases stepped
    have loc := Local.setPte walk { (entry k₀ req l).owned with p := true, frame := g }
    have stored := entry_setPte walk { (entry k₀ req l).owned with p := true, frame := g }
    have keeps : Keeps k₀ req f l.other ⟨r.k.setPte (dir r.k req l) (req l).va
        { (entry k₀ req l).owned with p := true, frame := g }, update r.pc l .mapped⟩ :=
      led.keeps.of_other rfl (loc.others _ differ)
    refine led.of_local sharing loc led.refs keeps (.mapped g (here _) fresh ?_ ?_)
    · rw [← same]
      exact stored
    · exact late keeps (by simp) (by simp) copy
  | mapped g at' fresh pte copy =>
    right
    rw [at'] at stepped
    rw [← same] at pte
    have allowed := store_eq walk pte rfl (sharing.user l) rfl rfl
    simp only [cowStep, allowed] at stepped
    cases stepped
    have loc := Local.setPte (k := r.k.fill g (written req l (r.k.mem g))) walk
      { (entry k₀ req l).owned with p := true, frame := g, a := true }
    have stored := entry_setPte (k := r.k.fill g (written req l (r.k.mem g))) walk
      { (entry k₀ req l).owned with p := true, frame := g, a := true }
    have keeps : Keeps k₀ req f l.other ⟨(r.k.fill g (written req l (r.k.mem g))).setPte
        (dir r.k req l) (req l).va { (entry k₀ req l).owned with p := true, frame := g, a := true },
        update r.pc l .stored⟩ :=
      led.keeps.of_other (fill_mem_other _ _ (notOld g fresh)) (loc.others _ differ)
    refine led.of_local sharing ⟨loc.pgdir, loc.others, loc.pages, loc.walk⟩ led.refs keeps
      (.stored g (here _) fresh ?_ ⟨r.k.mem g, ?_, fill_mem_self ..⟩)
    · rw [← same]
      exact stored
    · exact late keeps (by simp) (by simp) copy
  | stored g at' fresh pte copy =>
    right
    rw [at'] at stepped
    cases stepped
    have keeps : Keeps k₀ req f l.other ⟨r.k, update r.pc l .stored⟩ := led.keeps.of_other rfl rfl
    refine led.of_local sharing (.of_dirs walk (fun _ => rfl) rfl) led.refs keeps
      (.stored g (here _) fresh pte ?_)
    obtain ⟨page, copy, contents⟩ := copy
    exact ⟨page, late keeps (by simp) (by simp) copy, contents⟩

/-- The process that counts first finds the page shared. -/
theorem led_start (run : (start k₀).step cfg req l = .ok r') : Led k₀ req f l (Racing r') r' := by
  obtain ⟨pc, k, stepped, rfl⟩ := step_ok run
  have walk : ∀ s, walkpgdir (k₀.dirs (dir k₀ req s)) (req s).va = some (entry k₀ req s) := by
    intro s
    refine walkpgdir_of_pteAt fun zero => ?_
    have present := sharing.present s
    rw [entry, page, zero] at present
    cases present
  have many : 1 < k₀.kmem.ref f := by
    rw [sharing.refs]
    decide
  have found : walkpgdir (k₀.dirs (k₀.proc (req l).me).pgdir) (req l).va =
    some (entry k₀ req l) := walk l
  simp only [start, cowStep, walkpgdir_PGROUNDDOWN, found, sharing.frame l] at stepped
  rw [if_pos (show 1 < (k₀.kmem.decRef f).1 from many)] at stepped
  cases stepped
  obtain ⟨given, free, ok⟩ := sharing.books.owns.kmem
  have here : update (start k₀).pc l (.shared (entry k₀ req l)) l =
    .shared (entry k₀ req l) := update_self ..
  have other : update (start k₀).pc l (.shared (entry k₀ req l)) l.other = .fault :=
    update_of_ne (Side.other_ne l) ..
  refine ⟨fun _ => rfl, fun s => ?_, fun _ _ _ => rfl, ?_, .fault other rfl rfl,
    .shared here rfl rfl (racing_iff (Or.inl here))⟩
  · change walkpgdir (k₀.dirs (dir k₀ req s)) (req s).va ≠ none
    rw [walk s]
    simp
  · change (k₀.kmem.decRef f).2.ref f = 1
    rw [(ok.decRef f).2, if_pos ⟨rfl, many⟩, sharing.refs]
    rfl

end

theorem step_killed (killed : r.pc l = .killed) (run : r.step cfg req s = .ok r') :
    r'.pc l = .killed := by
  obtain ⟨pc, k, stepped, rfl⟩ := step_ok run
  by_cases same : s = l
  · subst same
    rw [killed] at stepped
    cases stepped
    exact update_self ..
  · exact (update_of_ne (Ne.symm same) ..).trans killed

theorem raced_snoc {r₀ : Race} {order : List Side} (run : Interleaving cfg req r₀ order r)
    (last : r.step cfg req s = .ok r') :
    Raced cfg req r₀ (order ++ [s]) ↔ Raced cfg req r₀ order ∨ Racing r' := by
  have unique : ∀ (r : Race) s r' r'', r.step cfg req s = .ok r' → r.step cfg req s = .ok r'' →
      r' = r'' := fun _ _ _ _ first second => Except.ok.inj (first.symm.trans second)
  constructor
  · rintro ⟨first, r₁, part, run₁, racing⟩
    rcases List.prefix_concat_iff.mp part with rfl | part
    · right
      rw [← Lts.Run.deterministic unique run₁ (.snoc run last)]
      exact racing
    · exact Or.inl ⟨first, r₁, part, run₁, racing⟩
  · rintro (⟨first, r₁, part, run₁, racing⟩ | racing)
    · exact ⟨first, r₁, part.trans (List.prefix_append ..), run₁, racing⟩
    · exact ⟨_, r', List.prefix_rfl, .snoc run last, racing⟩

/-- The state after an interleaving in which `l` goes first. -/
theorem led_of_interleaving (sharing : Sharing cfg reserved k₀ req f) {rest : List Side}
    (run : Interleaving cfg req (start k₀) (l :: rest) r) :
    r.pc l = .killed ∨ Led k₀ req f l (Raced cfg req (start k₀) (l :: rest)) r := by
  generalize order : l :: rest = as at run
  induction run generalizing rest with
  | nil => cases order
  | @snoc r₁ r₂ as s run last ih =>
    have raced := propext (raced_snoc run last)
    cases as with
    | nil =>
      obtain ⟨rfl, rfl⟩ : l = s ∧ rest = [] := by simpa using order
      generalize empty : ([] : List Side) = as at run
      cases run with
      | snoc => simp at empty
      | nil =>
        right
        have led := led_start sharing last
        rw [raced, show Raced cfg req (start k₀) [] = False from ?_, false_or]
        · exact led
        · rw [eq_iff_iff, iff_false]
          rintro ⟨none, r₁, part, run₁, racing⟩
          obtain rfl := List.prefix_nil.mp part
          generalize empty : ([] : List Side) = as at run₁
          cases run₁ with
          | snoc => simp at empty
          | nil =>
            obtain ⟨t, pte, stored, _⟩ := racing
            cases stored
    | cons t as =>
      obtain ⟨rfl, rfl⟩ : l = t ∧ rest = as ++ [s] := by simpa using order
      rw [raced]
      rcases ih rfl with killed | led
      · exact Or.inl (step_killed killed last)
      · obtain rfl | rfl := Side.eq_or s l
        · exact led.moverStep sharing last
        · exact Or.inr (led.keeperStep sharing last)

/-- A store over another one hides it only if it goes to the same byte, or if the other
one changed nothing. -/
theorem written_written {t : Side} {old : Page} :
    written req s (written req t old) = written req s old ↔
      (req s).va % PGSIZE = (req t).va % PGSIZE ∨
        byteAt old ((req t).va % PGSIZE) = (req t).byte := by
  have inside : (req t).va % PGSIZE < PGSIZE := Nat.mod_lt _ (by decide)
  constructor
  · intro same
    have here := congrFun same ⟨(req t).va % PGSIZE, inside⟩
    by_cases offsets : (req s).va % PGSIZE = (req t).va % PGSIZE
    · exact Or.inl offsets
    · right
      simp only [written, setByte, if_neg (Ne.symm offsets), if_true] at here
      rw [byteAt, dif_pos inside, here]
  · rintro (offsets | unchanged)
    · funext j
      simp only [written, setByte, offsets]
      split <;> rfl
    · have idle : written req t old = old := by
        funext j
        simp only [written, setByte]
        split
        · rename_i here
          rw [← unchanged, ← here, byteAt_val]
        · rfl
      rw [idle]

/-- The two entries are the only ones that map the frame. -/
theorem Sharing.sole (sharing : Sharing cfg reserved k₀ req f) (s : Side) {i : Nat}
    (low : i < USERPAGES) (present : (pteAt (k₀.dirs (dir k₀ req s)) i).p = true)
    (frame : (pteAt (k₀.dirs (dir k₀ req s)) i).frame = f) : i = page req s := by
  have held : ∀ t, cells k₀.dirs k₀.liveDirs k₀.liveStacks
      (.user (dir k₀ req t) (page req t)) = some f := fun t =>
    cells_user.mpr ⟨mem_liveDirs (sharing.live t), pageOf_low (sharing.low t),
      sharing.present t, sharing.frame t⟩
  have also : cells k₀.dirs k₀.liveDirs k₀.liveStacks (.user (dir k₀ req s) i) = some f :=
    cells_user.mpr ⟨mem_liveDirs (sharing.live s), low, present, frame⟩
  have many : 1 < k₀.kmem.ref f := by
    rw [sharing.refs]
    decide
  -- Without the other entry one reference is left.
  have rest := sharing.books.owns.decRef (held s.other) many
  obtain ⟨given, free, ok⟩ := sharing.books.owns.kmem
  have one : (k₀.kmem.decRef f).2.ref f = 1 := by
    rw [(ok.decRef f).2, if_pos ⟨rfl, many⟩, sharing.refs]
    rfl
  have differ : ∀ j, Cell.user (dir k₀ req s) j ≠ .user (dir k₀ req s.other) (page req s.other) := by
    intro j same
    exact sharing.dir_ne s (Cell.user.inj same).1.symm
  have same := rest.balanced.sole one ((update_of_ne (differ i) ..).trans also)
    ((update_of_ne (differ _) ..).trans (held s))
  exact (Cell.user.inj same).2

/-- A frame without references is mapped by no entry of the two. -/
theorem Sharing.unmapped (sharing : Sharing cfg reserved k₀ req f) (s : Side) {i : Nat}
    (fresh : k₀.kmem.ref g = 0) (low : i < USERPAGES)
    (present : (pteAt (k₀.dirs (dir k₀ req s)) i).p = true) :
    (pteAt (k₀.dirs (dir k₀ req s)) i).frame ≠ g := by
  intro frame
  exact sharing.books.owns.balanced.free fresh (.user (dir k₀ req s) i)
    (cells_user.mpr ⟨mem_liveDirs (sharing.live s), low, present, frame⟩)

/-- What is left at the end: the keeper has the frame, the mover a new one. -/
theorem Led.finished (led : Led k₀ req f l raced r) (done : ∀ s, r.pc s = .stored) :
    pteAt (r.k.dirs (dir k₀ req l.other)) (page req l.other) =
        { (entry k₀ req l.other).owned with a := true } ∧
      r.k.mem f = written req l.other (k₀.mem f) ∧
      ∃ g old, k₀.kmem.ref g = 0 ∧
        pteAt (r.k.dirs (dir k₀ req l)) (page req l) =
          { (entry k₀ req l).owned with p := true, frame := g, a := true } ∧
        Copy k₀ req f l.other raced old ∧ r.k.mem g = written req l old := by
  have keeper : pteAt (r.k.dirs (dir k₀ req l.other)) (page req l.other) =
      { (entry k₀ req l.other).owned with a := true } ∧
      r.k.mem f = written req l.other (k₀.mem f) := by
    cases led.keeps with
    | stored _ pte mem => exact ⟨pte, mem⟩
    | fault at' | alone at' | mapped at' => simp [done l.other] at at'
  refine ⟨keeper.1, keeper.2, ?_⟩
  cases led.moves with
  | stored g _ fresh pte copy =>
    obtain ⟨old, copy, contents⟩ := copy
    exact ⟨g, old, fresh, pte, copy, contents⟩
  | shared at' | allocated _ at' | copied _ at' | mapped _ at' => simp [done l] at at'

/-- After both handlers no frame is writable for both processes. -/
theorem Led.exclusive (sharing : Sharing cfg reserved k₀ req f) (exclusive : Exclusive k₀ req)
    (led : Led k₀ req f l raced r) (done : ∀ s, r.pc s = .stored) : Exclusive r.k req := by
  obtain ⟨keeper, _, g, _, fresh, mover, _, _⟩ := led.finished done
  have moved : ∀ i j, i < USERPAGES → j < USERPAGES → let a := pteAt (r.k.dirs (dir k₀ req l)) i
      let b := pteAt (r.k.dirs (dir k₀ req l.other)) j
      a.p = true → a.w = true → b.p = true → b.w = true → a.frame ≠ b.frame := by
    intro i j lowI lowJ
    dsimp only
    by_cases hereI : i = page req l
    · rw [hereI, mover]
      intro _ _
      by_cases hereJ : j = page req l.other
      · rw [hereJ, keeper]
        intro _ _ same
        rw [show g = f from same.trans (sharing.frame l.other), sharing.refs] at fresh
        exact absurd fresh (by decide)
      · rw [led.rest l.other j hereJ]
        intro present _ same
        exact sharing.unmapped l.other fresh lowJ present same.symm
    · rw [led.rest l i hereI]
      intro presentI writableI
      by_cases hereJ : j = page req l.other
      · rw [hereJ, keeper]
        intro _ _ same
        exact hereI (sharing.sole l lowI presentI (same.trans (sharing.frame l.other)))
      · rw [led.rest l.other j hereJ]
        exact exclusive l i j lowI lowJ presentI writableI
  intro s i j lowI lowJ
  simp only [led.pgdir]
  obtain rfl | rfl := Side.eq_or s l
  · exact moved i j lowI lowJ
  · rw [Side.other_other]
    intro presentA writableA presentB writableB
    exact (moved j i lowJ lowI presentB writableB presentA writableA).symm

end Steps

/-- Two copy-on-write faults on one frame at the same time isolate the processes if and
only if the one that counts first has copied the page before the other stores to it, or
that store cannot be seen in the copy. -/
theorem cow_faults_isolated_iff (cfg : Config) (reserved : Set Nat) (k₀ : Kernel)
    (req : Side → WriteFault) (f : Nat) (sharing : Sharing cfg reserved k₀ req f)
    (exclusive : Exclusive k₀ req) (l : Side) (rest : List Side) (r : Race)
    (run : Interleaving cfg req (start k₀) (l :: rest) r) (done : ∀ s, r.pc s = .stored) :
    Isolated req (k₀.mem f) r.k ↔
      ¬ Raced cfg req (start k₀) (l :: rest) ∨
        (req l).va % PGSIZE = (req l.other).va % PGSIZE ∨
        byteAt (k₀.mem f) ((req l.other).va % PGSIZE) = (req l.other).byte := by
  have led := (led_of_interleaving sharing run).resolve_left (by simp [done l])
  obtain ⟨keeper, kept, g, old, fresh, mover, copy, moved⟩ := led.finished done
  have entryO : entry r.k req l.other = { (entry k₀ req l.other).owned with a := true } := by
    rw [entry, led.pgdir]
    exact keeper
  have entryL : entry r.k req l =
      { (entry k₀ req l).owned with p := true, frame := g, a := true } := by
    rw [entry, led.pgdir]
    exact mover
  -- Only the contents of the new frame are in question.
  have reduce : Isolated req (k₀.mem f) r.k ↔ written req l old = written req l (k₀.mem f) := by
    constructor
    · intro isolated
      have contents := isolated.contents l
      rw [entryL] at contents
      exact moved.symm.trans contents
    · intro contents
      refine ⟨fun s => ?_, fun s => ?_, led.exclusive sharing exclusive done⟩
      · obtain rfl | rfl := Side.eq_or s l
        · rw [entryL]
        · rw [entryO]
          exact sharing.present l.other
      · obtain rfl | rfl := Side.eq_or s l
        · rw [entryL]
          exact moved.trans contents
        · rw [entryO]
          exact (congrArg r.k.mem (sharing.frame l.other)).trans kept
  rw [reduce]
  rcases copy with ⟨raced, rfl⟩ | ⟨clean, rfl⟩
  · rw [written_written]
    simp [raced]
  · simp [clean]

/-- Two processes store to different bytes of the page they share. -/
def sampleFaults : Side → WriteFault
  | .left => ⟨0, 0, 7⟩
  | .right => ⟨1, 1, 9⟩

theorem sampleFaults_sharing :
    Sharing (layoutConfig .SCFIFO) ∅ (Kernel.sharers 1) sampleFaults 1006 where
  books := Kernel.sharers_books rfl (by decide)
  live s := by cases s <;> simp [sampleFaults, sharers_live]
  differ := by decide
  low s := by cases s <;> decide
  frame s := by cases s <;> rfl
  present s := by cases s <;> rfl
  user s := by cases s <;> rfl
  cow s := by cases s <;> rfl
  readonly s := by cases s <;> rfl
  refs := by decide

theorem sampleFaults_exclusive : Exclusive (Kernel.sharers 1) sampleFaults := by
  intro s i j _ _ a b _ writable
  have readonly : ∀ page, (sharedEntries page).w = false := by
    intro page
    unfold sharedEntries
    split <;> rfl
  have here : a = sharedEntries i := by
    apply sharers_entry
    cases s <;> simp [sampleFaults, sharers_live]
  rw [here, readonly] at writable
  cases writable

theorem cow_faults_isolated_sample :
    ∃ r, Interleaving (layoutConfig .SCFIFO) sampleFaults (start (Kernel.sharers 1))
        [.left, .left, .left, .left, .left, .right, .right, .right] r ∧
      (Isolated sampleFaults Page.zeroed r.k ↔
        ¬ Raced (layoutConfig .SCFIFO) sampleFaults (start (Kernel.sharers 1))
            [.left, .left, .left, .left, .left, .right, .right, .right] ∨
          (0 : Nat) % PGSIZE = 1 % PGSIZE ∨ byteAt Page.zeroed (1 % PGSIZE) = 9) := by
  obtain ⟨r, run⟩ : ∃ r, [Side.left, .left, .left, .left, .left, .right, .right, .right].foldlM
      (step (layoutConfig .SCFIFO) sampleFaults) (start (Kernel.sharers 1)) = .ok r := ⟨_, rfl⟩
  have done : ∀ s, r.pc s = .stored := by
    cases run
    intro s
    cases s <;> rfl
  exact ⟨r, Lts.Run.of_foldlM _ run, cow_faults_isolated_iff _ _ _ _ _ sampleFaults_sharing
    sampleFaults_exclusive _ _ r (Lts.Run.of_foldlM _ run) done⟩

/-- The left process counts, the right one counts, maps and stores, and only then does the
left one copy: it gets the other's byte. -/
theorem cow_faults_leak :
    ∃ r, Interleaving (layoutConfig .SCFIFO) sampleFaults (start (Kernel.sharers 1))
        [.left, .right, .right, .right, .left, .left, .left, .left] r ∧
      (∀ s, r.pc s = .stored) ∧
      r.k.mem (entry r.k sampleFaults .left).frame 1 = 9 ∧
      ¬ Isolated sampleFaults ((Kernel.sharers 1).mem 1006) r.k := by
  obtain ⟨r, run⟩ : ∃ r, [Side.left, .right, .right, .right, .left, .left, .left, .left].foldlM
      (step (layoutConfig .SCFIFO) sampleFaults) (start (Kernel.sharers 1)) = .ok r := ⟨_, rfl⟩
  have done : ∀ s, r.pc s = .stored := by
    cases run
    intro s
    cases s <;> rfl
  have leaked : r.k.mem (entry r.k sampleFaults .left).frame 1 = 9 := by
    cases run
    decide +kernel
  refine ⟨r, Lts.Run.of_foldlM _ run, done, leaked, fun isolated => ?_⟩
  rw [isolated.contents .left] at leaked
  exact absurd leaked (by decide)

end Race

end Xv6
