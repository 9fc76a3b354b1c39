import Xv6.System.InodeWork
import Xv6.System.Paths

/-!
What a system call holds of the inode cache while it runs.

A call has a list of references, one for each `iput` that it still owes, and a list of locks.
`Held` relates both to the counts and the locks in the cache. Each function of the inode layer
extends the lists or takes an element off them; a function that works inside an inode leaves the
cache as it is, up to the fields behind `valid`.
-/

namespace Xv6.Inodes

open Function List Outcome State

/-- If the call returns, then with this. -/
abbrev Returns {α : Type} (P : α → Prop) (x : Except Stop α) : Prop := Sat (fun _ => True) P x

/-- The fields of an entry that are not behind `valid`. -/
def CInode.label (c : CInode) : Dev × Nat × Int × Option Pid := (c.dev, c.inum, c.ref, c.lock)

def SameCache (s s' : State) : Prop := ∀ e, (s'.icache e).label = (s.icache e).label

theorem SameCache.refl (s : State) : SameCache s s := fun _ => rfl

variable {s s' : State}

theorem SameCache.trans {s'' : State} (first : SameCache s s') (second : SameCache s' s'') :
    SameCache s s'' :=
  fun e => (second e).trans (first e)

theorem SameCache.of_eq (same : s'.icache = s.icache) : SameCache s s' := fun e => by rw [same]

theorem SameCache.setInode {ip : Fin NINODE} {c : CInode} (same : c.label = (s.icache ip).label) :
    SameCache s (s.setInode ip c) := by
  intro e
  by_cases here : e = ip
  · simp only [State.setInode, here, update_self]
    exact same
  · simp only [State.setInode, update_of_ne here]

theorem SameCache.setCopy (s : State) (ip : Fin NINODE) (n : DInode) :
    SameCache s (s.setCopy ip n) :=
  .setInode rfl

/-! Work inside an inode. -/

section Frames

variable {s : State}

theorem bwrite_same (dev : Dev) (b : Nat) (block : Block) :
    Returns (SameCache s) (s.bwrite dev b block) := by
  unfold bwrite
  split
  · exact .ok (.of_eq rfl)
  · exact .error trivial

theorem balloc_same (dev : Dev) : Returns (fun r => SameCache s r.2) (s.balloc dev) := by
  unfold balloc
  split
  · exact .error trivial
  · exact (bwrite_same dev _ _).bind fun s' same => .ok fun e => same e

theorem bfree_same (dev : Dev) (b : Nat) : Returns (SameCache s) (s.bfree dev b) := by
  unfold bfree
  split
  · exact .error trivial
  · split
    · exact .ok (.of_eq rfl)
    · exact .error trivial

theorem iupdate_same (ip : Fin NINODE) : Returns (SameCache s) (s.iupdate ip) := by
  unfold iupdate
  simp only
  split
  · exact .ok (.of_eq rfl)
  · exact .error trivial

theorem addrAt_same (ip : Fin NINODE) (k : Fin (NDIRECT + 1)) :
    Returns (fun r => SameCache s r.2) (s.addrAt ip k) := by
  unfold addrAt
  simp only
  split
  · exact (balloc_same _).bind fun ⟨b, s'⟩ same => .ok (same.trans (.setCopy s' ip _))
  · exact .ok (.refl s)

theorem entryAt_same (dev : Dev) (addr j : Nat) :
    Returns (fun r => SameCache s r.2) (s.entryAt dev addr j) := by
  unfold State.entryAt
  refine (sat_true (s.bread dev addr)).bind fun a _ => ?_
  simp only
  split
  · refine (balloc_same _).bind fun ⟨b, s'⟩ same => ?_
    exact (bwrite_same _ _ _).bind fun s'' same' => .ok (same.trans same')
  · exact .ok (.refl s)

section

variable (ip : Fin NINODE)
include ip

theorem bmap_same (bn : Nat) :
    Returns (fun r => SameCache s r.2) (s.bmap ip bn) := by
  unfold bmap
  split
  · exact addrAt_same ip _
  · split
    · refine (addrAt_same ip _).bind fun ⟨addr, s'⟩ same => ?_
      exact (entryAt_same _ _ _).weaken fun r same' => same.trans same'
    · exact .error trivial

theorem readLoop_same (fuel off n : Nat) (read : List UInt8) {s : State} :
    Returns (fun r => SameCache s r.2) (State.readLoop ip fuel s off n read) := by
  induction fuel generalizing s off n read with
  | zero => exact .ok (.refl s)
  | succ fuel ih =>
    unfold readLoop
    split
    · exact .ok (.refl s)
    · refine (bmap_same ip _).bind fun r same => ?_
      obtain ⟨b, s'⟩ := r
      refine (sat_true _).bind fun bp _ => ?_
      exact (ih _ _ _).weaken fun r same' => same.trans same'

theorem writeLoop_same (fuel : Nat) (src : Nat → UInt8) (off n : Nat) {s : State} :
    Returns (SameCache s) (State.writeLoop ip fuel s src off n) := by
  induction fuel generalizing s src off n with
  | zero => exact .ok (.refl s)
  | succ fuel ih =>
    unfold writeLoop
    split
    · exact .ok (.refl s)
    · refine (bmap_same ip _).bind fun r first => ?_
      obtain ⟨b, s₁⟩ := r
      refine (sat_true _).bind fun bp _ => ?_
      refine (bwrite_same _ _ _).bind fun s₂ second => ?_
      exact (ih _ _ _).weaken fun s₃ third => (first.trans second).trans third

theorem freeAddr_same (k : Fin (NDIRECT + 1)) :
    Returns (SameCache s) (s.freeAddr ip k) := by
  unfold freeAddr
  simp only
  split
  · exact .ok (.refl s)
  · exact (bfree_same _ _).bind fun s' same => .ok (same.trans (.setCopy s' ip _))

theorem freeIndirect_same : Returns (SameCache s) (s.freeIndirect ip) := by
  unfold freeIndirect
  refine (sat_true _).bind fun a _ => ?_
  refine (Sat.foldlM (I := SameCache s) _ (fun s' j _ same => ?_) (.refl s)).bind fun s' same => ?_
  · unfold freeWord
    split
    · exact .ok same
    · exact (bfree_same _ _).weaken fun s'' same' => same.trans same'
  · exact (freeAddr_same ip _).weaken fun s'' same' => same.trans same'

theorem itrunc_same : Returns (SameCache s) (s.itrunc ip) := by
  unfold itrunc
  refine (Sat.foldlM (I := SameCache s) _ (fun s' k _ same => ?_) (.refl s)).bind fun s₁ first => ?_
  · exact (freeAddr_same ip _).weaken fun s'' same' => same.trans same'
  · have finish : ∀ s₂, SameCache s s₂ → Returns (SameCache s)
        ((s₂.setCopy ip { (s₂.icache ip).copy with size := 0 }).iupdate ip) := fun s₂ same =>
      (iupdate_same ip).weaken fun s₃ same' => (same.trans (.setCopy s₂ ip _)).trans same'
    simp only
    split
    · exact finish s₁ first
    · exact (freeIndirect_same ip).bind fun s₂ second => finish s₂ (first.trans second)

theorem discard_same : Returns (SameCache s) (s.discard ip) := by
  unfold State.discard
  refine (itrunc_same ip).bind fun s₁ first => ?_
  refine (iupdate_same ip).bind fun s₂ second => .ok ?_
  exact ((first.trans (.setCopy s₁ ip _)).trans second).trans (.setInode rfl)

end

end Frames

/-! References and locks. -/

/-- The cache while `me` runs, with the references and the locks it has taken; `count` are the
references that stay, and `locked` the locks of others. -/
structure Held (count : Fin NINODE → Nat) (locked : Fin NINODE → Option Pid) (me : Pid)
    (refs locks : List (Fin NINODE)) (s : State) : Prop where
  unique : Unique s
  ref : ∀ e, (s.icache e).ref = count e + refs.count e
  lock : ∀ e, (s.icache e).lock = if e ∈ locks then some me else locked e
  free : ∀ e ∈ locks, locked e = none
  nodup : locks.Nodup

/-- Entries that are in use keep their inodes. -/
theorem Unique.mono (unique : Unique s) (same : ∀ e, 0 < (s'.icache e).ref → 0 < (s.icache e).ref ∧
      (s'.icache e).dev = (s.icache e).dev ∧ (s'.icache e).inum = (s.icache e).inum) :
    Unique s' := by
  intro e e' used used' dev inum
  obtain ⟨was, isDev, isInum⟩ := same e used
  obtain ⟨was', isDev', isInum'⟩ := same e' used'
  exact unique e e' was was' (by rw [← isDev, ← isDev', dev]) (by rw [← isInum, ← isInum', inum])

section Holding

variable {count : Fin NINODE → Nat} {locked : Fin NINODE → Option Pid} {me : Pid}
  {refs locks : List (Fin NINODE)} {s : State} {ip : Fin NINODE} {refs' locks' : List (Fin NINODE)}
  {c : CInode}

section

variable (h : Held count locked me refs locks s)
include h

theorem Held.same {s' : State} (same : SameCache s s') :
    Held count locked me refs locks s' := by
  have fields : ∀ e, (s'.icache e).dev = (s.icache e).dev ∧ (s'.icache e).inum = (s.icache e).inum ∧
      (s'.icache e).ref = (s.icache e).ref ∧ (s'.icache e).lock = (s.icache e).lock := by
    intro e
    simpa only [CInode.label, Prod.mk.injEq] using same e
  refine ⟨h.unique.mono fun e used => ?_, fun e => ?_, fun e => ?_, h.free, h.nodup⟩
  · obtain ⟨dev, inum, ref, -⟩ := fields e
    exact ⟨ref ▸ used, dev, inum⟩
  · rw [(fields e).2.2.1, h.ref]
  · rw [(fields e).2.2.2, h.lock]

theorem Held.setDisk (dev : Dev) (d : Disk) : Held count locked me refs locks (s.setDisk dev d) :=
  h.same (.of_eq rfl)

theorem Held.perm (sameRefs : refs.Perm refs') (sameLocks : locks.Perm locks') :
    Held count locked me refs' locks' s := by
  refine ⟨h.unique, fun e => ?_, fun e => ?_, fun e mem => ?_, sameLocks.nodup_iff.mp h.nodup⟩
  · rw [h.ref, sameRefs.count_eq]
  · simp only [h.lock, sameLocks.mem_iff]
  · exact h.free e (sameLocks.mem_iff.mpr mem)

/-- One entry's count and lock change. -/
theorem Held.setInode (unique : Unique (s.setInode ip c)) (ref : c.ref = count ip + refs'.count ip)
    (refs_same : ∀ e, e ≠ ip → refs'.count e = refs.count e)
    (lock : c.lock = if ip ∈ locks' then some me else locked ip)
    (locks_same : ∀ e, e ≠ ip → (e ∈ locks' ↔ e ∈ locks)) (free : ip ∈ locks' → locked ip = none)
    (nodup : locks'.Nodup) : Held count locked me refs' locks' (s.setInode ip c) := by
  refine ⟨unique, fun e => ?_, fun e => ?_, fun e mem => ?_, nodup⟩
  · by_cases here : e = ip
    · simpa only [State.setInode, here, update_self] using ref
    · simp only [State.setInode, update_of_ne here, h.ref, refs_same e here]
  · by_cases here : e = ip
    · simpa only [State.setInode, here, update_self] using lock
    · simp only [State.setInode, update_of_ne here, h.lock, locks_same e here]
  · by_cases here : e = ip
    · exact here ▸ free (here ▸ mem)
    · exact h.free e ((locks_same e here).mp mem)

end

theorem Unique.setSame (unique : Unique s) (dev : c.dev = (s.icache ip).dev)
    (inum : c.inum = (s.icache ip).inum) (ref : 0 < c.ref → 0 < (s.icache ip).ref) :
    Unique (s.setInode ip c) := by
  refine unique.mono fun e used => ?_
  by_cases here : e = ip
  · subst here
    simp only [State.setInode, update_self] at used ⊢
    exact ⟨ref used, dev, inum⟩
  · simp only [State.setInode, update_of_ne here] at used ⊢
    exact ⟨used, trivial, trivial⟩

section

variable (h : Held count locked me refs locks s)
include h

theorem Held.take (unique : Unique (s.setInode ip c))
    (ref : c.ref = (s.icache ip).ref + 1) (lock : c.lock = (s.icache ip).lock) :
    Held count locked me (ip :: refs) locks (s.setInode ip c) := by
  refine h.setInode unique ?_ (fun e other => ?_) (lock.trans (h.lock ip)) (fun _ _ => .rfl)
    (h.free ip) h.nodup
  · rw [ref, h.ref, count_cons_self]
    push_cast
    omega
  · rw [count_cons_of_ne (Ne.symm other)]

theorem iget_held (dev : Dev) (inum : Nat) :
    Returns (fun r => Held count locked me (r.1 :: refs) locks r.2) (s.iget dev inum) := by
  unfold iget
  split
  · rename_i ip found
    have test := find?_some found
    simp only [Bool.and_eq_true, decide_eq_true_eq] at test
    exact .ok (h.take (h.unique.setSame rfl rfl fun _ => test.1.1) rfl rfl)
  · rename_i missing
    split
    · exact .error trivial
    · rename_i ip found
      have unused : (s.icache ip).ref = 0 := by simpa using find?_some found
      refine .ok (h.take (h.unique.setInode fun _ e _ used isDev isInum => ?_) (by simp [unused]) rfl)
      have test := find?_eq_none.mp missing e (mem_finRange e)
      simp only at isDev isInum
      simp [used, isDev, isInum] at test

theorem idup_held (used : 0 < count ip) :
    Held count locked me (ip :: refs) locks (s.idup ip) := by
  refine h.take (h.unique.setSame rfl rfl fun _ => ?_) rfl rfl
  rw [h.ref]
  omega

theorem ialloc_held (dev : Dev) (type : FileType) :
    Returns (fun r => Held count locked me (r.1 :: refs) locks r.2) (s.ialloc dev type) := by
  unfold ialloc
  split
  · exact .error trivial
  · exact iget_held (h.setDisk dev _) dev _

/-- A lock that is free is held by nobody. -/
theorem Held.unlocked (isFree : (s.icache ip).lock = none) :
    ip ∉ locks ∧ locked ip = none := by
  have lock := h.lock ip
  rw [isFree] at lock
  split at lock
  · cases lock
  · rename_i other
    exact ⟨other, lock.symm⟩

theorem acquiresleep_held :
    Returns (fun s' => Held count locked me refs (ip :: locks) s') (s.acquiresleep me ip) := by
  unfold acquiresleep
  split
  · rename_i isFree
    obtain ⟨other, none⟩ := h.unlocked isFree
    refine .ok (h.setInode (h.unique.setSame rfl rfl id) (h.ref ip) (fun _ _ => rfl) ?_
      (fun e notIp => ?_) (fun _ => none) (nodup_cons.mpr ⟨other, h.nodup⟩))
    · simp
    · simp [notIp]
  · exact .error trivial

end

theorem releasesleep_held (h : Held count locked me refs (ip :: locks) s) :
    Held count locked me refs locks (s.releasesleep ip) := by
  obtain ⟨other, nodup⟩ := nodup_cons.mp h.nodup
  refine h.setInode (h.unique.setSame rfl rfl id) (h.ref ip) (fun _ _ => rfl) ?_ (fun e notIp => ?_)
    (fun mem => absurd mem other) nodup
  · simp [other, h.free ip (mem_cons_self ..)]
  · simp [notIp]

theorem ilock_held (h : Held count locked me refs locks s) :
    Returns (fun s' => Held count locked me refs (ip :: locks) s') (s.ilock me ip) := by
  unfold ilock
  split
  · exact .error trivial
  · refine (acquiresleep_held h).bind fun s' h' => ?_
    simp only
    split
    · exact .ok h'
    · split
      · exact .error trivial
      · split
        · exact .error trivial
        · exact .ok (h'.same (.setInode rfl))

theorem iunlock_held (h : Held count locked me refs (ip :: locks) s) :
    Returns (fun s' => Held count locked me refs locks s') (s.iunlock me ip) := by
  unfold iunlock
  split
  · exact .error trivial
  · exact .ok (releasesleep_held h)

/-- The count of an entry goes down at the end of `iput`. -/
theorem Held.drop (h : Held count locked me (ip :: refs) locks s) :
    Held count locked me refs locks
      (s.setInode ip { s.icache ip with ref := (s.icache ip).ref - 1 }) := by
  refine h.setInode (h.unique.setSame rfl rfl fun used => ?_) ?_ (fun e other => ?_) (h.lock ip)
    (fun _ _ => .rfl) (h.free ip) h.nodup
  · simp only at used
    omega
  · simp only [h.ref, count_cons_self]
    push_cast
    omega
  · rw [count_cons_of_ne (Ne.symm other)]

theorem iput_held (h : Held count locked me (ip :: refs) locks s) :
    Returns (fun s' => Held count locked me refs locks s') (s.iput me ip) := by
  unfold iput
  refine (acquiresleep_held h).bind fun s₁ h₁ => ?_
  have finish : ∀ s₂, Held count locked me (ip :: refs) (ip :: locks) s₂ →
      Returns (fun s' => Held count locked me refs locks s') (.ok ((s₂.releasesleep ip).setInode ip
        { (s₂.releasesleep ip).icache ip with
          ref := ((s₂.releasesleep ip).icache ip).ref - 1 })) := fun s₂ h₂ =>
    .ok (releasesleep_held h₂).drop
  simp only
  split
  · exact (discard_same ip).bind fun s₂ same => finish s₂ (h₁.same same)
  · exact finish s₁ h₁

theorem iunlockput_held (h : Held count locked me (ip :: refs) (ip :: locks) s) :
    Returns (fun s' => Held count locked me refs locks s') (s.iunlockput me ip) := by
  unfold iunlockput
  exact (iunlock_held h).bind fun s' h' => iput_held h'

section

variable (h : Held count locked me refs locks s)
include h

/-- The console gives up the lock and takes it again. -/
theorem device_held (mine : ip ∈ locks) :
    Returns (fun s' => Held count locked me refs locks s') (s.device me ip) := by
  have order := perm_cons_erase mine
  unfold device
  refine (iunlock_held (h.perm .rfl order)).bind fun s' h' => ?_
  exact (ilock_held h').weaken fun s'' h'' => h''.perm .rfl order.symm

theorem readi_held (mine : ip ∈ locks) (off n : UInt32) :
    Returns (fun r => Held count locked me refs locks r.2) (s.readi me ip off n) := by
  unfold State.readi
  simp only
  split
  · split
    · exact (device_held h mine).bind fun s' h' => .ok h'
    · exact .ok h
  · split
    · exact .ok h
    · exact (readLoop_same ip _ _ _ _).bind fun r same => .ok (h.same same)

theorem writei_held (mine : ip ∈ locks) (src : Nat → UInt8)
    (off n : UInt32) : Returns (fun r => Held count locked me refs locks r.2)
      (s.writei me ip src off n) := by
  unfold State.writei
  simp only
  split
  · split
    · exact (device_held h mine).bind fun s' h' => .ok h'
    · exact .ok h
  · split
    · exact .ok h
    · split
      · exact .ok h
      · refine (writeLoop_same ip _ _ _ _).bind fun s' same => ?_
        split
        · refine (iupdate_same ip).bind fun s'' same' => .ok ?_
          exact h.same ((same.trans (.setCopy s' ip _)).trans same')
        · exact .ok (h.same same)

theorem setNlink_held (nlink : Int16) :
    Returns (fun s' => Held count locked me refs locks s') (s.setNlink ip nlink) :=
  (iupdate_same ip).weaken fun _ same => h.same ((SameCache.setCopy s ip _).trans same)

end

end Holding

end Xv6.Inodes
