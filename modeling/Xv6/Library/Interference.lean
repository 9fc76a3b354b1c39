import Xv6.Library.Lts

/-!
Threads that run straight-line code over shared locations.

Each operation changes the shared locations and the state of its own thread. What a
thread has still to run, carried out alone, has a result; a step of another thread
changes that result only through a location whose contents the thread will still
use. If no step writes such a location, every thread behaves as if its tasks were
carried out at once.
-/

namespace Interference

universe u

/-- Operations over shared locations `Loc` and thread states `S`. What an operation
does is determined by the locations it reads, in the thread states it is ready for. -/
structure Machine (Op Loc V S : Type u) where
  exec : Op → (Loc → V) → S → (Loc → V) × S
  reads : Op → Loc → Prop
  writes : Op → Loc → Prop
  ready : Op → S → Prop
  frame : ∀ op m s l, ¬ writes op l → (exec op m s).1 l = m l
  determined : ∀ op m m' s, ready op s → (∀ l, reads op l → m l = m' l) →
    (exec op m s).2 = (exec op m' s).2 ∧
      ∀ l, writes op l → (exec op m s).1 l = (exec op m' s).1 l

namespace Machine

variable {Op Loc V S : Type u} (M : Machine Op Loc V S) {ops : List Op}

/-- Running the operations without interruption. -/
def execAll : List Op → (Loc → V) → S → (Loc → V) × S
  | [], m, s => (m, s)
  | op :: ops, m, s => execAll ops (M.exec op m s).1 (M.exec op m s).2

/-- The thread state after running the operations without interruption. -/
def alone (ops : List Op) (m : Loc → V) (s : S) : S := (M.execAll ops m s).2

/-- The contents of the location will be used. -/
def Live : List Op → Loc → Prop
  | [], _ => False
  | op :: ops, l => M.reads op l ∨ (¬ M.writes op l ∧ Live ops l)

/-- Every operation is ready when its turn comes. -/
def Ready : List Op → S → Prop
  | [], _ => True
  | op :: ops, s => M.ready op s ∧ ∀ m, Ready ops (M.exec op m s).2

theorem alone_congr {m m' : Loc → V} {s : S} (ready : M.Ready ops s)
    (agree : ∀ l, M.Live ops l → m l = m' l) : M.alone ops m s = M.alone ops m' s := by
  induction ops generalizing m m' s with
  | nil => rfl
  | cons op ops ih =>
    have ⟨own, written⟩ := M.determined op m m' s ready.1 fun l hl => agree l (.inl hl)
    simp only [alone, execAll, ← own]
    refine ih (ready.2 m) fun l live => ?_
    by_cases writes : M.writes op l
    · exact written l writes
    · rw [M.frame op m s l writes, M.frame op m' s l writes]
      exact agree l (.inr ⟨writes, live⟩)

theorem execAll_append (ops ops' : List Op) (m : Loc → V) (s : S) :
    M.execAll (ops ++ ops') m s = M.execAll ops' (M.execAll ops m s).1 (M.execAll ops m s).2 := by
  induction ops generalizing m s with
  | nil => rfl
  | cons op ops ih => exact ih (M.exec op m s).1 (M.exec op m s).2

/-- Readiness follows from a property of the thread state that the operations keep. -/
theorem ready_of_invariant {I : S → Prop} {s : S} (ready : ∀ op ∈ ops, ∀ s, I s → M.ready op s)
    (keeps : ∀ op ∈ ops, ∀ m s, I s → I (M.exec op m s).2) (start : I s) : M.Ready ops s := by
  induction ops generalizing s with
  | nil => trivial
  | cons op ops ih =>
    refine ⟨ready op List.mem_cons_self s start, fun m => ih ?_ ?_ ?_⟩
    · exact fun op' h => ready op' (List.mem_cons_of_mem op h)
    · exact fun op' h => keeps op' (List.mem_cons_of_mem op h)
    · exact keeps op List.mem_cons_self m s start

end Machine

/-- The shared locations, and for each thread its state and what it has still to run. -/
structure Threads (P Op Loc V S : Type u) where
  shared : Loc → V
  own : P → S
  pending : P → List Op

inductive Turn (P Task : Type u) where
  /-- An idle thread takes up a task. -/
  | start (p : P) (t : Task)
  /-- The next operation of a thread. -/
  | step (p : P)

section Tasks

variable {P Op Loc V S Task : Type u} (M : Machine Op Loc V S)
  (program : Task → List Op)

def next [DecidableEq P] (σ : Threads P Op Loc V S) : Turn P Task → Option (Threads P Op Loc V S)
  | .start p t =>
    match σ.pending p with
    | [] => some { σ with pending := Function.update σ.pending p (program t) }
    | _ :: _ => none
  | .step p =>
    match σ.pending p with
    | [] => none
    | op :: ops =>
      some {
        shared := (M.exec op σ.shared (σ.own p)).1
        own := Function.update σ.own p (M.exec op σ.shared (σ.own p)).2
        pending := Function.update σ.pending p ops }

variable (allowed : Task → S → Prop)

/-- Tasks are taken up where they are allowed, and no operation writes a location whose
contents another thread will use. -/
def Considerate (σ : Threads P Op Loc V S) : Turn P Task → Prop
  | .start p t => allowed t (σ.own p)
  | .step p => ∀ op ops, σ.pending p = op :: ops → ∀ l, M.writes op l →
      ∀ q, q ≠ p → ¬ M.Live (σ.pending q) l

/-- A step that is considerate. -/
def ConsiderateStep [DecidableEq P] (σ : Threads P Op Loc V S) (a : Turn P Task)
    (σ' : Threads P Op Loc V S) : Prop :=
  Considerate M allowed σ a ∧ next M program σ a = some σ'

variable (effect : Task → S → S)

/-- Tasks carried out at once. -/
def AtOnce [DecidableEq P] (own : P → S) : Turn P Task → (P → S) → Prop
  | .start p t, own' => own' = Function.update own p (effect t (own p))
  | .step _, own' => own' = own

/-- Carrying out what is left brings every thread where `own` says. -/
structure Settles (σ : Threads P Op Loc V S) (own : P → S) : Prop where
  ready : ∀ p, M.Ready (σ.pending p) (σ.own p)
  result : ∀ p, M.alone (σ.pending p) σ.shared (σ.own p) = own p

variable {M program allowed effect} {σ σ' : Threads P Op Loc V S} {own : P → S}

theorem Settles.idle (h : Settles M σ own) {p : P} (idle : σ.pending p = []) : σ.own p = own p := by
  have result := h.result p
  rw [idle] at result
  exact result

theorem settles_step [DecidableEq P] {a : Turn P Task}
    (prepared : ∀ t s, allowed t s → M.Ready (program t) s)
    (correct : ∀ t s m, allowed t s → M.alone (program t) m s = effect t s) (h : Settles M σ own)
    (last : ConsiderateStep M program allowed σ a σ') :
    ∃ own', AtOnce effect own a own' ∧ Settles M σ' own' := by
  obtain ⟨considerate, last⟩ := last
  cases a with
  | start p t =>
    simp only [next] at last
    split at last
    · rename_i idle
      cases last
      refine ⟨_, rfl, fun q => ?_, fun q => ?_⟩
      · by_cases same : q = p
        · subst same
          simpa using prepared t _ considerate
        · simpa [same] using h.ready q
      · by_cases same : q = p
        · subst same
          simpa [← h.idle idle] using correct t _ σ.shared considerate
        · simpa [same] using h.result q
    · cases last
  | step p =>
    simp only [next] at last
    split at last
    · cases last
    · rename_i op ops pending
      cases last
      refine ⟨own, rfl, fun q => ?_, fun q => ?_⟩
      · by_cases same : q = p
        · subst same
          have ready := h.ready q
          rw [pending] at ready
          simpa using ready.2 σ.shared
        · simpa [same] using h.ready q
      · by_cases same : q = p
        · subst same
          have result := h.result q
          rw [pending] at result
          simpa [Machine.alone, Machine.execAll] using result
        · -- The step of `p` changed only locations that `q` will not use.
          have others := M.alone_congr (h.ready q) fun l live =>
            M.frame op σ.shared (σ.own p) l fun writes =>
              considerate op ops pending l writes q same live
          simpa [same] using others.trans (h.result q)

/-- In a run of considerate steps every thread gets what its tasks give carried out at once. -/
theorem run_settles [DecidableEq P] {as : List (Turn P Task)}
    (prepared : ∀ t s, allowed t s → M.Ready (program t) s)
    (correct : ∀ t s m, allowed t s → M.alone (program t) m s = effect t s)
    (run : Lts.Run (ConsiderateStep M program allowed) σ as σ') (h : Settles M σ own) :
    ∃ own', Lts.Run (AtOnce effect) own as own' ∧ Settles M σ' own' :=
  run.simulate (fun _ _ _ _ related last => settles_step prepared correct related last) h

end Tasks

end Interference
