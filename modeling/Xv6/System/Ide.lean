import Xv6.System.BufferCache
import Xv6.System.Mkfs

/-!
The disk driver of `ide.c`.

A step is what `iderw` and `ideintr` do between taking `idelock` and releasing it, at their end or
in `sleep`; a sleeping `iderw` may go on at any time. The controller interrupts only after a
command, which it has then carried out or not. A block is one sector. `queue` is the list from
`idequeue` on, and a step that would panic does not exist. `asked` has the buffers as `iderw` queued
them and `served` those that `ideintr` has taken out, with whether there was an error; they
influence nothing.
-/

namespace Xv6.Ide

open Function Inodes List

structure Buf where
  dev : Nat
  blockno : Nat
  valid : Bool
  dirty : Bool
  data : Block

/-- What the registers of the controller say, and the data of a write. -/
structure Command where
  drive : Nat
  sector : Nat
  write : Option Block

abbrev Request := BufNo × Buf

/-- By drive and sector. -/
abbrev Disks := Nat × Nat → Block

/-- What `iderw` waits for. -/
def Buf.synced (v : Buf) : Bool := v.valid && !v.dirty

def Buf.command (v : Buf) : Command := ⟨v.dev % 2, v.blockno, if v.dirty then some v.data else none⟩

def Command.run (c : Command) (disks : Disks) : Disks :=
  match c.write with
  | some block => update disks (c.drive, c.sector) block
  | none => disks

structure State where
  buf : BufNo → Buf
  queue : List BufNo
  havedisk1 : Bool
  command : Option Command
  disks : Disks
  lock : BufNo → Option ProcNo
  /-- Whether the holder of a buffer is in `iderw`. -/
  waits : BufNo → Bool
  asked : List Request
  served : List (Request × Bool)

inductive Op where
  /-- Outside `iderw`, a buffer that no other process has locked is changed, and then kept or not. -/
  | use (p : ProcNo) (b : BufNo) (v : Buf) (keep : Bool)
  | iderw (p : ProcNo) (b : BufNo)
  /-- The rest of `iderw`. -/
  | wake (b : BufNo)
  | ideintr (err : Bool)

namespace State

def ideinit (buf : BufNo → Buf) (disks : Disks) (havedisk1 : Bool) : State :=
  ⟨buf, [], havedisk1, none, disks, fun _ => none, fun _ => false, [], []⟩

def idestart (s : State) (b : BufNo) : Option State :=
  if (s.buf b).blockno < Mkfs.FSSIZE then some { s with command := some (s.buf b).command } else none

/-- `ideintr` without the start of the next request. -/
def finish (s : State) (b : BufNo) (rest : List BufNo) (c : Command) (err : Bool) : State :=
  let v := s.buf b
  { s with
    buf := update s.buf b
      ⟨v.dev, v.blockno, true, false, if v.dirty || err then v.data else s.disks (c.drive, c.sector)⟩
    queue := rest
    command := none
    disks := if err then s.disks else c.run s.disks
    served := s.served ++ [((b, v), err)] }

def next (s : State) : Op → Option State
  | .use p b v keep =>
    if s.waits b = false ∧ (s.lock b = none ∨ s.lock b = some p) then
      some { s with buf := update s.buf b v, lock := update s.lock b (if keep then some p else none) }
    else none
  | .iderw p b =>
    if s.waits b = false ∧ s.lock b = some p ∧ (s.buf b).synced = false ∧
        ((s.buf b).dev = 0 ∨ s.havedisk1) then
      let s' := { s with
        queue := s.queue ++ [b]
        waits := update s.waits b true
        asked := s.asked ++ [(b, s.buf b)] }
      if s'.queue.head? = some b then s'.idestart b else some s'
    else none
  | .wake b =>
    if s.waits b ∧ (s.buf b).synced then some { s with waits := update s.waits b false } else none
  | .ideintr err =>
    match s.queue, s.command with
    | [], _ => some s
    | _ :: _, none => none
    | [b], some c => some (s.finish b [] c err)
    | b :: b' :: rest, some c => (s.finish b (b' :: rest) c err).idestart b'

abbrev Step (s : State) (op : Op) (s' : State) : Prop := s.next op = some s'

end State

/-- A disk that carries out each request at once. -/
def atomic : Disks × (BufNo → Buf) → Request × Bool → Disks × (BufNo → Buf)
  | (disks, buf), ((b, v), err) =>
    (if v.dirty && !err then update disks (v.dev % 2, v.blockno) v.data else disks,
      update buf b
        ⟨v.dev, v.blockno, true, false, if v.dirty || err then v.data else disks (v.dev % 2, v.blockno)⟩)

/-- The requests `rs` wait, and those served are as if carried out at once. -/
structure Serving (init : Disks × (BufNo → Buf)) (s : State) (rs : List Request) : Prop where
  queue : s.queue = rs.map Prod.fst
  once : (rs.map Prod.fst).Nodup
  waits : ∀ r ∈ rs, s.waits r.1 = true ∧ s.buf r.1 = r.2 ∧ r.2.synced = false
  asked : s.asked = s.served.map Prod.fst ++ rs
  disks : s.disks = (s.served.foldl atomic init).1
  answered : ∀ b, s.waits b = true → b ∉ rs.map Prod.fst →
    (s.buf b).synced = true ∧ s.buf b = (s.served.foldl atomic init).2 b

/-- The controller works on the first one. -/
def Ready (init : Disks × (BufNo → Buf)) (s : State) : Prop :=
  ∃ rs, Serving init s rs ∧ s.command = rs.head?.map fun r => r.2.command

section

variable {init : Disks × (BufNo → Buf)} {s s' : State} {rs : List Request} {b : BufNo} {v : Buf}

theorem Serving.use (h : Serving init s rs) (idle : s.waits b = false)
    (lock : BufNo → Option ProcNo) : Serving init { s with buf := update s.buf b v, lock } rs := by
  have kept : ∀ c, s.waits c = true → update s.buf b v c = s.buf c := by
    intro c waits
    apply update_of_ne
    rintro rfl
    cases idle.symm.trans waits
  refine { h with waits := fun r mem => ?_, answered := fun c waits out => ?_ }
  · simpa only [kept r.1 (h.waits r mem).1] using h.waits r mem
  · simpa only [kept c waits] using h.answered c waits out

theorem Serving.wake (h : Serving init s rs) (synced : (s.buf b).synced = true) :
    Serving init { s with waits := update s.waits b false } rs := by
  refine { h with waits := fun r mem => ?_, answered := fun c waits out => ?_ }
  · obtain ⟨waits, same, unsynced⟩ := h.waits r mem
    refine ⟨(update_of_ne ?_ ..).trans waits, same, unsynced⟩
    rintro rfl
    rw [same, unsynced] at synced
    cases synced
  · by_cases same : c = b
    · subst same
      cases (update_self ..).symm.trans waits
    · exact h.answered c ((update_of_ne same ..).symm.trans waits) out

theorem Serving.start (h : Serving init s ((b, v) :: rs)) (step : s.idestart b = some s') :
    Serving init s' ((b, v) :: rs) ∧ s'.command = some v.command := by
  obtain ⟨-, same⟩ := Option.ite_none_right_eq_some.mp step
  obtain ⟨-, isBuf, -⟩ := h.waits (b, v) mem_cons_self
  cases same
  exact ⟨{ h with }, by rw [isBuf]⟩

theorem Serving.append (h : Serving init s rs) (idle : s.waits b = false)
    (unsynced : (s.buf b).synced = false) :
    Serving init { s with
      queue := s.queue ++ [b]
      waits := update s.waits b true
      asked := s.asked ++ [(b, s.buf b)] } (rs ++ [(b, s.buf b)]) := by
  have absent : ∀ r ∈ rs, r.1 ≠ b := by
    rintro r mem rfl
    cases idle.symm.trans (h.waits r mem).1
  refine ⟨by simp [h.queue], ?_, fun r mem => ?_, by simp [h.asked], h.disks, fun c waits out => ?_⟩
  · rw [map_append, nodup_append]
    exact ⟨h.once, nodup_singleton b, by simpa using absent⟩
  · obtain mem | mem := mem_append.mp mem
    · exact ⟨(update_of_ne (absent r mem) ..).trans (h.waits r mem).1, (h.waits r mem).2⟩
    · cases mem_singleton.mp mem
      exact ⟨update_self .., rfl, unsynced⟩
  · rw [map_append, mem_append, not_or] at out
    exact h.answered c ((update_of_ne (by simpa using out.2) ..).symm.trans waits) out.1

theorem Serving.finish (h : Serving init s ((b, v) :: rs)) (err : Bool) :
    Serving init (s.finish b (rs.map Prod.fst) v.command err) rs := by
  obtain ⟨absent, once⟩ := nodup_cons.mp h.once
  obtain ⟨-, isBuf, -⟩ := h.waits (b, v) mem_cons_self
  refine ⟨rfl, once, fun r mem => ?_, by simp [State.finish, h.asked, isBuf], ?_, fun c waits out => ?_⟩
  · have other : r.1 ≠ b := fun same => absent (mem_map.mpr ⟨r, mem, same⟩)
    simpa [State.finish, update_of_ne other] using h.waits r (mem_cons_of_mem _ mem)
  · simp only [State.finish, foldl_append, foldl_cons, foldl_nil, atomic, ← h.disks, Command.run, isBuf]
    cases err <;> cases dirty : v.dirty <;> simp [Buf.command, dirty]
  · by_cases mine : c = b
    · subst mine
      simp [State.finish, atomic, Buf.synced, Buf.command, isBuf, ← h.disks]
    · simpa [State.finish, atomic, update_of_ne mine] using h.answered c waits (by simp [mine, out])

theorem ready_step (s : State) (op : Op) (s' : State) (h : Ready init s) (step : s.Step op s') :
    Ready init s' := by
  obtain ⟨rs, h, started⟩ := h
  cases op with
  | use p b v keep =>
    obtain ⟨⟨idle, -⟩, same⟩ := Option.ite_none_right_eq_some.mp step
    cases same
    exact ⟨rs, h.use idle _, started⟩
  | iderw p b =>
    obtain ⟨⟨idle, -, unsynced, -⟩, step⟩ := Option.ite_none_right_eq_some.mp step
    have h' := h.append idle unsynced
    refine ⟨rs ++ [(b, s.buf b)], ?_⟩
    cases rs with
    | nil =>
      rw [if_pos (by rw [h'.queue]; rfl)] at step
      exact h'.start step
    | cons r rs =>
      have other : r.1 ≠ b := by
        rintro rfl
        simpa using h'.once
      rw [if_neg (by simpa [h.queue] using other)] at step
      cases step
      exact ⟨h', started⟩
  | wake b =>
    obtain ⟨⟨-, synced⟩, same⟩ := Option.ite_none_right_eq_some.mp step
    cases same
    exact ⟨rs, h.wake synced, started⟩
  | ideintr err =>
    cases rs with
    | nil =>
      simp only [State.Step, State.next, h.queue, map_nil] at step
      cases step
      exact ⟨[], h, started⟩
    | cons r rs =>
      simp only [State.Step, State.next, h.queue, map_cons, started, head?_cons, Option.map_some] at step
      refine ⟨rs, ?_⟩
      cases rs with
      | nil =>
        cases step
        exact ⟨h.finish err, rfl⟩
      | cons r' rs => exact (h.finish err).start step

end

/-- Requests are served one at a time and in the order in which they came, each of them once. When
`iderw` returns, the buffer and the disks are as if they had been carried out at once and in that
order. -/
theorem iderw_atomic {buf : BufNo → Buf} {disks : Disks} {havedisk1 : Bool} {ops : List Op}
    {s : State} (run : Lts.Run State.Step (.ideinit buf disks havedisk1) ops s) : Ready (disks, buf) s := by
  refine run.invariant ready_step ⟨[], ⟨rfl, nodup_nil, by simp, rfl, rfl, fun b waits => ?_⟩, rfl⟩
  cases waits

/-- What one process has written another one reads. -/
theorem iderw_atomic_write_read :
    ∃ ops s, Lts.Run State.Step
      (.ideinit (fun _ => ⟨0, 5, false, false, fun _ => 0⟩) (fun _ _ => 0) false) ops s ∧
      s.buf 1 = ⟨0, 5, true, false, fun _ => 7⟩ := by
  have run : Lts.Run State.Step
      (.ideinit (fun _ => ⟨0, 5, false, false, fun _ => 0⟩) (fun _ _ => 0) false)
      [.use 0 0 ⟨0, 5, false, true, fun _ => 7⟩ true, .use 1 1 ⟨0, 5, false, false, fun _ => 0⟩ true,
        .iderw 0 0, .iderw 1 1, .ideintr false, .ideintr false] _ :=
    .cons rfl (.cons rfl (.cons rfl (.cons rfl (.cons rfl (.cons rfl (.nil _))))))
  obtain ⟨rs, h, -⟩ := iderw_atomic run
  exact ⟨_, _, run, (h.answered 1 rfl (h.queue ▸ not_mem_nil)).2⟩

end Xv6.Ide
