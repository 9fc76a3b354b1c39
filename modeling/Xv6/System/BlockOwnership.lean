import Xv6.Library.Lts
import Xv6.System.InodeWork

/-!
Block ownership under the calls of the inode layer.

Each call that returns leaves every cached inode as on disk and every volume sound, and no call
stops where the code would free a free block or reach past the data blocks.
-/

namespace Xv6.Inodes

open Function List Outcome

/-! Between calls. -/

variable {s : State} {ip : Fin NINODE} {c : CInode}

/-- Between calls the inodes are as on disk. -/
theorem Sound.inode_eq (sound : Sound none s) (dev : Dev) :
    s.inode dev = (s.disk dev).dinode := by
  funext i
  obtain ⟨e, live, rfl, rfl, same⟩ | ⟨-, same⟩ := inode_cases s dev i
  · rw [same, sound.synced e live nofun]
  · exact same

theorem Sound.of_disk (unique : Unique s)
    (live : ∀ e, Live s e → (s.icache e).inum < s.sb.ninodes ∧ (s.icache e).copy.type ≠ .FREE ∧
      (s.icache e).copy = (s.disk (s.icache e).dev).dinode (s.icache e).inum)
    (locked : ∀ e, (s.icache e).lock ≠ none → Live s e)
    (volume : ∀ dev, Volume s.sb (s.disk dev).dinode (s.disk dev).bit (s.disk dev).data)
    (granted : ∀ g ∈ s.granted, g.inUse = false) : Sound none s where
  unique := unique
  live e isLive := ⟨(live e isLive).1, (live e isLive).2.1⟩
  synced e isLive _ := (live e isLive).2.2
  locked := locked
  volume dev := by
    have same : s.inode dev = (s.disk dev).dinode := by
      funext i
      obtain ⟨e, isLive, rfl, rfl, same⟩ | ⟨-, same⟩ := inode_cases s dev i
      · rw [same, (live e isLive).2.2]
      · exact same
    rw [same]
    exact volume dev
  granted := granted

section

variable (sound : Sound none s)
include sound

theorem Sound.onDisk (dev : Dev) :
    Volume s.sb (s.disk dev).dinode (s.disk dev).bit (s.disk dev).data :=
  sound.inode_eq dev ▸ sound.volume dev

theorem Sound.atWork (ip : Fin NINODE) : Sound (some ip) s :=
  { sound with synced := fun e live _ => sound.synced e live nofun }

/-- An entry of the cache changes. -/
theorem Sound.setInode
    (apart : 0 < c.ref → ∀ e, e ≠ ip → 0 < (s.icache e).ref → (s.icache e).dev = c.dev →
      (s.icache e).inum ≠ c.inum)
    (live : 0 < c.ref → c.valid = true → c.inum < s.sb.ninodes ∧ c.copy.type ≠ .FREE ∧
      c.copy = (s.disk c.dev).dinode c.inum) (locked : c.lock ≠ none → 0 < c.ref ∧ c.valid = true) :
    Sound none (s.setInode ip c) := by
  refine .of_disk (sound.unique.setInode apart) (fun e isLive => ?_) (fun e isLocked => ?_)
    sound.onDisk sound.granted
  · by_cases here : e = ip
    · simp only [Live, State.setInode, here, update_self] at isLive ⊢
      exact live isLive.1 isLive.2
    · simp only [Live, State.setInode, update_of_ne here] at isLive ⊢
      have was := sound.live e isLive
      exact ⟨was.1, was.2, sound.synced e isLive (by simp)⟩
  · by_cases here : e = ip
    · simp only [Live, State.setInode, here, update_self] at isLocked ⊢
      exact locked isLocked
    · simp only [Live, State.setInode, update_of_ne here] at isLocked ⊢
      exact sound.locked e isLocked

/-- An entry keeps its inode. -/
theorem Sound.keepInode (dev : c.dev = (s.icache ip).dev)
    (inum : c.inum = (s.icache ip).inum) (copy : c.copy = (s.icache ip).copy)
    (ref : 0 < c.ref → 0 < (s.icache ip).ref) (valid : c.valid = (s.icache ip).valid)
    (locked : c.lock ≠ none → 0 < c.ref ∧ c.valid = true) : Sound none (s.setInode ip c) := by
  refine sound.setInode (fun held e other held' dev' inum' => ?_) (fun held isValid => ?_) locked
  · exact other (sound.unique e ip held' (ref held) (dev'.trans dev) (inum'.trans inum))
  · have isLive : Live s ip := ⟨ref held, valid ▸ isValid⟩
    rw [dev, inum, copy]
    exact ⟨(sound.live ip isLive).1, (sound.live ip isLive).2, sound.synced ip isLive nofun⟩

end

variable {i : Nat}

/-- All other inodes are as on disk. -/
theorem Sound.inode_of_ne (sound : Sound (some ip) s) {dev : Dev}
    (other : dev = (s.icache ip).dev → i ≠ (s.icache ip).inum) :
    s.inode dev i = (s.disk dev).dinode i := by
  obtain ⟨e, live, rfl, rfl, same⟩ | ⟨-, same⟩ := inode_cases s dev i
  · rw [same, sound.synced e live]
    intro isIp
    cases isIp
    exact other rfl rfl
  · exact same

variable {n : DInode}

/-- New sizes and labels of an inode at work. -/
theorem Sound.relabel (sound : Sound (some ip) s) (live : Live s ip)
    (type : n.type = (s.icache ip).copy.type) (addrs : n.addrs = (s.icache ip).copy.addrs)
    (whole : Whole (s.disk (s.icache ip).dev).data n) : Sound (some ip) (s.setCopy ip n) := by
  have ⟨small, allocated⟩ := sound.live ip live
  have here := inode_of_live sound.unique live rfl rfl
  have copy : ((s.setCopy ip n).icache ip).copy = n := by simp [State.setCopy, State.setInode]
  refine sound.works live (setCopy_works s ip n) (.inl rfl) ?_ ?_ sound.granted
  · rw [copy, type]
    exact allocated
  · rw [copy]
    refine (sound.volume _).setInode (fun slot => placed_congr ?_ fun _ _ => ?_) whole
    · rw [update_self, here, type]
    · rw [update_self, here]
      cases slot <;> simp only [entry, addrs]

section Calls

variable {s : State} (sound : Sound none s) {ip : Fin NINODE} {dev : Dev}
include sound

theorem iget_sat (dev : Dev) (inum : Nat) :
    Sat Benign (fun r => Sound none r.2) (s.iget dev inum) := by
  unfold State.iget
  split
  · rename_i ip found
    have test := find?_some found
    simp only [Bool.and_eq_true, decide_eq_true_eq] at test
    have held := test.1.1
    refine .ok (sound.keepInode rfl rfl rfl (fun _ => held) rfl fun isLocked => ?_)
    have live := sound.locked ip isLocked
    exact ⟨Int.lt_add_one_of_le (Int.le_of_lt held), live.2⟩
  · rename_i missing
    split
    · exact .error ⟨nofun, nofun, nofun⟩
    · rename_i ip found
      have free : (s.icache ip).ref = 0 := by simpa using find?_some found
      refine .ok (sound.setInode (fun _ e _ held isDev isInum => ?_) (fun _ => nofun)
        fun isLocked => ?_)
      · have test := find?_eq_none.mp missing e (mem_finRange e)
        simp only at isDev isInum
        simp [held, isDev, isInum] at test
      · have live := sound.locked ip isLocked
        exact absurd live.1 (by omega)

theorem idup_sound (held : 0 < (s.icache ip).ref) : Sound none (s.idup ip) := by
  refine sound.keepInode rfl rfl rfl (fun _ => held) rfl fun isLocked => ?_
  exact ⟨Int.lt_add_one_of_le (Int.le_of_lt held), (sound.locked ip isLocked).2⟩

/-- An inode that is free on disk is in no entry. -/
theorem Sound.free_not_live (free : ((s.disk dev).dinode i).type = .FREE) (e : Fin NINODE)
    (live : Live s e) : (s.icache e).dev = dev → (s.icache e).inum ≠ i := by
  rintro rfl rfl
  have copy := sound.synced e live nofun
  exact (sound.live e live).2 (copy ▸ free)

/-- An inode on disk without blocks becomes another one without blocks. -/
theorem Sound.setDinode (away : ∀ e, Live s e → (s.icache e).dev = dev → (s.icache e).inum ≠ i)
    (before : ∀ slot, placed s.sb.ninodes (s.disk dev).dinode (s.disk dev).data (i, slot) = none)
    (after : n.type = .FREE ∨ ∀ k, n.addrs k = 0) (whole : Whole (s.disk dev).data n) :
    Sound none (s.setDisk dev { s.disk dev with dinode := update (s.disk dev).dinode i n }) := by
  refine .of_disk sound.unique (fun e live => ?_) sound.locked (fun dev' => ?_) sound.granted
  · refine ⟨(sound.live e live).1, (sound.live e live).2, ?_⟩
    have was := sound.synced e live nofun
    change (s.icache e).copy = _
    by_cases here : (s.icache e).dev = dev
    · rw [was, here]
      simp [State.setDisk, here, update_of_ne (away e live here)]
    · simpa [State.setDisk, here] using was
  · by_cases here : dev' = dev
    · subst here
      simp only [State.setDisk, update_self]
      refine (sound.onDisk dev').setInode (fun slot => ?_) whole
      rw [before slot]
      cases after with
      | inl free => exact placed_free (by simpa using free)
      | inr empty => exact placed_empty (by simpa using empty)
    · simp only [State.setDisk, update_of_ne here]
      exact sound.onDisk dev'

theorem ialloc_sat (dev : Dev) (type : FileType) :
    Sat Benign (fun r => Sound none r.2) (s.ialloc dev type) := by
  unfold State.ialloc
  split
  · exact .error ⟨nofun, nofun, nofun⟩
  · rename_i i found
    have free : ((s.disk dev).dinode i).type = .FREE := by simpa using find?_some found
    refine iget_sat (sound.setDinode (sound.free_not_live free) (fun slot => placed_free free)
      (.inr fun _ => rfl) (whole_empty rfl _)) dev i

theorem ilock_sat (me : Pid) (ip : Fin NINODE) :
    Sat Benign (fun s' => Sound none s') (s.ilock me ip) := by
  unfold State.ilock
  split
  · exact .error ⟨by simp, by simp, by simp⟩
  · rename_i held
    have held : 0 < (s.icache ip).ref := by omega
    unfold State.acquiresleep
    split
    · change Sat _ _ (if _ then _ else _)
      simp only [State.setInode, update_self]
      split
      · rename_i valid
        refine .ok (sound.keepInode (c := { s.icache ip with lock := some me }) rfl rfl rfl
          (fun _ => held) rfl fun _ => ⟨held, valid⟩)
      · split
        · exact .error ⟨by simp, by simp, by simp⟩
        · split
          · exact .error ⟨by simp, by simp, by simp⟩
          · rename_i invalid inside allocated
            have validated : Sound none (s.setInode ip { s.icache ip with
                lock := some me
                valid := true
                copy := (s.disk (s.icache ip).dev).dinode (s.icache ip).inum }) := by
              refine sound.setInode (fun _ e other held' dev inum => ?_) (fun _ _ => ?_)
                fun _ => ⟨held, rfl⟩
              · exact other (sound.unique e ip held' held dev inum)
              · exact ⟨Nat.not_le.mp inside, allocated, rfl⟩
            refine .ok ?_
            simpa only [State.setInode, update_idem] using validated
    · exact .error ⟨by simp, by simp, by simp⟩

omit sound in
/-- The disk catches up with the inode at work. -/
theorem iupdate_sat {E : Stop → Prop} (sound : Sound (some ip) s) (live : Live s ip) :
    Sat E (fun s' => Sound none s' ∧ s'.icache = s.icache ∧ s'.sb = s.sb ∧ s'.file = s.file)
      (s.iupdate ip) := by
  have ⟨small, allocated⟩ := sound.live ip live
  have here := inode_of_live sound.unique live rfl rfl
  unfold State.iupdate
  simp only [small, if_true]
  refine .ok ⟨.of_disk sound.unique (fun e isLive => ?_) sound.locked (fun dev => ?_) sound.granted,
    rfl, rfl, funext fun e => ?_⟩
  · have isLive : Live s e := isLive
    refine ⟨(sound.live e isLive).1, (sound.live e isLive).2, ?_⟩
    change (s.icache e).copy = _
    by_cases isIp : e = ip
    · simp [State.setDisk, isIp]
    · have was := sound.synced e isLive fun same => isIp (Option.some.inj same).symm
      by_cases isDev : (s.icache e).dev = (s.icache ip).dev
      · have other : (s.icache e).inum ≠ (s.icache ip).inum := fun inum =>
          isIp (sound.unique e ip isLive.1 live.1 isDev inum)
        rw [was, isDev]
        simp [State.setDisk, isDev, other]
      · simpa [State.setDisk, isDev] using was
  · have volume := sound.volume dev
    by_cases isDev : dev = (s.icache ip).dev
    · subst isDev
      have table : s.inode (s.icache ip).dev =
          update (s.disk (s.icache ip).dev).dinode (s.icache ip).inum (s.icache ip).copy := by
        funext i
        by_cases isInum : i = (s.icache ip).inum
        · rw [isInum, here, update_self]
        · rw [update_of_ne isInum]
          exact sound.inode_of_ne fun _ => isInum
      rw [table] at volume
      simpa [State.setDisk] using volume
    · have table : s.inode dev = (s.disk dev).dinode := funext fun i =>
        sound.inode_of_ne fun same => absurd same isDev
      rw [table] at volume
      simpa [State.setDisk, isDev] using volume
  · by_cases isDev : (s.icache e).dev = (s.icache ip).dev
    · simp [State.file, State.setDisk, isDev]
    · simp [State.file, State.setDisk, isDev]

theorem iunlock_sat (me : Pid) (ip : Fin NINODE) :
    Sat Benign (fun s' => Sound none s') (s.iunlock me ip) := by
  unfold State.iunlock
  split
  · exact .error ⟨nofun, nofun, nofun⟩
  · exact .ok (sound.keepInode rfl rfl rfl id rfl fun isLocked => absurd rfl isLocked)

theorem device_sat (me : Pid) (ip : Fin NINODE) :
    Sat Benign (fun s' => Sound none s') (s.device me ip) :=
  (iunlock_sat sound me ip).bind fun _ unlocked => ilock_sat unlocked me ip

omit sound in
/-- The test of `readi` and `writei` for an overflow. -/
theorem wraps_iff (off n : UInt32) : off + n < off ↔ 2 ^ 32 ≤ off.toNat + n.toNat := by
  rw [UInt32.lt_iff_toNat_lt, UInt32.toNat_add]
  have := off.toNat_lt
  have := n.toNat_lt
  omega

/-- `readi` of a file, which has the blocks below its size. -/
theorem readi_reads (me : Pid) (live : Live s ip) (notDev : (s.icache ip).copy.type ≠ .T_DEV)
    (off n : UInt32) :
    s.readi me ip off n = .ok (readBytes (s.file ip) off.toNat n.toNat, s) := by
  have size : (s.file ip).size = (s.icache ip).copy.size := rfl
  simp only [State.readi, if_neg notDev, wraps_iff]
  split
  · rename_i out
    rw [readBytes, if_neg (by omega)]
  · rename_i start
    rw [readBytes, if_pos (by omega), size]
    have reads := readLoop_sat sound live notDev _ off.toNat
      (min n.toNat ((s.icache ip).copy.size - off.toNat)) [] (Nat.le_refl _) (by omega)
    cases done : State.readLoop ip _ s off.toNat _ [] with
    | error e => exact absurd rfl (reads.of_error done).1
    | ok r =>
      obtain ⟨same, bytes⟩ := reads.of_ok done
      exact congrArg Except.ok (Prod.ext (congrArg some bytes) same)

theorem readi_sat (me : Pid) (live : Live s ip) (off n : UInt32) :
    Sat Benign (fun r => Sound none r.2) (s.readi me ip off n) := by
  by_cases notDev : (s.icache ip).copy.type ≠ .T_DEV
  · rw [readi_reads sound me live notDev off n]
    exact .ok sound
  · unfold State.readi
    simp only [not_not.mp notDev, if_true]
    split
    · exact (device_sat sound me ip).bind fun _ after => .ok after
    · exact .ok sound

/-- `writei` of a file. -/
theorem writei_stores (me : Pid) (live : Live s ip) (notDev : (s.icache ip).copy.type ≠ .T_DEV)
    (src : Nat → UInt8) (off n : UInt32) :
    Sat (fun e => e = .ballocOutOfBlocks ∧ (s.file ip).size < off.toNat + n.toNat)
      (fun r => Sound none r.2 ∧ (r.1, r.2.file ip) = writeBytes (s.file ip) src off.toNat n.toNat)
      (s.writei me ip src off n) := by
  have size : (s.file ip).size = (s.icache ip).copy.size := rfl
  have word : MAXFILE * BSIZE < 2 ^ 32 := by decide
  simp only [State.writei, if_neg notDev, wraps_iff]
  split
  · exact .ok ⟨sound, by rw [writeBytes, if_neg (by omega)]⟩
  · split
    · exact .ok ⟨sound, by rw [writeBytes, if_neg (by omega)]⟩
    · rename_i fits
      rw [writeBytes, if_pos (by omega), size]
      by_cases below : off.toNat + n.toNat ≤ (s.icache ip).copy.size
      · refine ((writeLoop_sat sound live notDev n.toNat src off.toNat n.toNat (Nat.le_refl _)
          (.inr below) (by omega)).mono (fun _ out => absurd rfl out.1) fun _ value => value).bind
          fun s' result => ?_
        obtain ⟨extends', -, file⟩ := result
        obtain ⟨addrs, copy⟩ := extends'.copy
        have same : (s'.icache ip).copy.size = (s.icache ip).copy.size := by rw [copy]
        rw [if_neg fun grows => by omega]
        refine .ok ⟨extends'.sound, ?_⟩
        rw [Nat.max_eq_left below, ← same, ← file]
        rfl
      · refine ((writeLoop_sat (sound.atWork ip) live notDev n.toNat src off.toNat n.toNat
          (Nat.le_refl _) (.inl rfl) (by omega)).mono (fun _ out => ⟨out.2, by omega⟩)
          fun _ value => value).bind fun s' result => ?_
        obtain ⟨extends', filled, file⟩ := result
        obtain ⟨addrs, copy⟩ := extends'.copy
        have live' := (extends'.works.live ip).mpr live
        have same : (s'.icache ip).copy.size = (s.icache ip).copy.size := by rw [copy]
        rw [if_pos ⟨by omega, by omega⟩]
        have resized : Sound (some ip) (s'.setCopy ip
            { (s'.icache ip).copy with size := off.toNat + n.toNat }) := by
          refine extends'.sound.relabel live' rfl rfl fun _ _ bn under => ?_
          by_cases old : bn * BSIZE < (s'.icache ip).copy.size
          · exact slot_below extends'.sound live' (by rw [copy]; exact notDev) bn old
          · have here := filled (bn * BSIZE) (by omega) under
            rwa [Filled, Nat.mul_div_cancel bn (by decide)] at here
        refine (iupdate_sat resized (((setCopy_works s' ip _).live ip).mpr live')).bind
          fun s'' updated => ?_
        obtain ⟨after, -, -, file'⟩ := updated
        refine .ok ⟨after, ?_⟩
        rw [file', Nat.max_eq_right (by omega), ← file]
        simp [State.file, State.setCopy, State.setInode]
        rfl

theorem writei_sat (me : Pid) (live : Live s ip) (src : Nat → UInt8) (off n : UInt32) :
    Sat Benign (fun r => Sound none r.2) (s.writei me ip src off n) := by
  by_cases notDev : (s.icache ip).copy.type ≠ .T_DEV
  · refine (writei_stores sound me live notDev src off n).mono (fun e out => ?_) fun _ result => result.1
    rw [out.1]
    exact ⟨nofun, nofun, nofun⟩
  · unfold State.writei
    simp only [not_not.mp notDev, if_true]
    split
    · exact (device_sat sound me ip).bind fun _ after => .ok after
    · exact .ok sound

end Calls

/-! Truncation. -/

/-- The places, with these fields for the inode at work. -/
def places (s₀ : State) (ip : Fin NINODE) (n : DInode) : Nat × Slot → Option Nat :=
  placed s₀.sb.ninodes
    (Function.update (s₀.inode (s₀.icache ip).dev) (s₀.icache ip).inum n)
    (s₀.disk (s₀.icache ip).dev).data

/-- Truncation under way since `s₀`, with the blocks that are still held. -/
structure Freeing (ip : Fin NINODE) (s₀ s : State) (t : Nat × Slot → Option Nat) : Prop where
  works : Works ip s₀ s
  data : (s.disk (s₀.icache ip).dev).data = (s₀.disk (s₀.icache ip).dev).data
  copy : ∃ addrs, (s.icache ip).copy = { (s₀.icache ip).copy with addrs }
  marked : Ledger.Marked (fun b => s₀.sb.size - s₀.sb.nblocks ≤ b ∧ b < s₀.sb.size)
    (s.disk (s₀.icache ip).dev).bit t
  metadata : ∀ b, b < s₀.sb.size - s₀.sb.nblocks → (s.disk (s₀.icache ip).dev).bit b = true
  granted : s.granted = s₀.granted

variable {place : Nat × Slot} {b : Nat}

section Truncation

variable {ip : Fin NINODE} {s₀ s : State} {t : Nat × Slot → Option Nat} {k : Fin (NDIRECT + 1)}

theorem Freeing.bfree (f : Freeing ip s₀ s t)
    (held : t place = some b) : ∃ s', s.bfree (s₀.icache ip).dev b = .ok s' ∧ s'.icache = s.icache ∧
      Freeing ip s₀ s' (update t place none) := by
  have ⟨low, high⟩ := f.marked.inside place b held
  have bit := f.marked.isMarked held
  have freed : s.bfree (s₀.icache ip).dev b = .ok (s.setBit (s₀.icache ip).dev b false) := by
    simp only [State.bfree, f.works.sb, Nat.not_le.mpr high, if_false, bit, if_true]
  have works : Works ip s (s.setBit (s₀.icache ip).dev b false) := by
    refine ⟨rfl, rfl, fun _ _ => rfl, ?_, fun dev other => ?_⟩
    · simp [State.setBit, State.setDisk, f.works.dev]
    · rw [f.works.dev] at other
      simp [State.setBit, State.setDisk, other]
  have after : (s.setBit (s₀.icache ip).dev b false).disk (s₀.icache ip).dev =
      { s.disk (s₀.icache ip).dev with
        bit := update (s.disk (s₀.icache ip).dev).bit b false } := by
    simp [State.setBit, State.setDisk]
  refine ⟨_, freed, rfl, f.works.trans works, ?_, f.copy, ?_, fun b' below => ?_, f.granted⟩
  · rw [after]
    exact f.data
  · rw [after]
    exact f.marked.release held
  · have other : b' ≠ b := by omega
    simpa [after, other] using f.metadata b' below

theorem Freeing.setCopy (f : Freeing ip s₀ s t) (addrs : Fin (NDIRECT + 1) → Nat) :
    Freeing ip s₀ (s.setCopy ip { (s.icache ip).copy with addrs }) t := by
  refine ⟨f.works.trans (setCopy_works s ip _), f.data, ⟨addrs, ?_⟩, f.marked, f.metadata, f.granted⟩
  obtain ⟨old, copy⟩ := f.copy
  simp [State.setCopy, State.setInode, copy]

/-- A direct block is given back. -/
theorem places_update (n : DInode) (direct : k ≠ indirect) :
    places s₀ ip { n with addrs := update n.addrs k 0 } =
      update (places s₀ ip n) ((s₀.icache ip).inum, .addr k) none := by
  funext ⟨i, slot⟩
  by_cases here : i = (s₀.icache ip).inum
  · subst here
    by_cases isK : slot = .addr k
    · rw [isK, update_self]
      simp [places, placed, entry]
    · rw [update_of_ne (by simpa using isK)]
      refine placed_congr (by simp) fun _ _ => ?_
      simp only [update_self]
      cases slot with
      | addr k' =>
        have other : k' ≠ k := fun same => isK (same ▸ rfl)
        simp [entry, other]
      | ind j => simp [entry, Ne.symm direct]
  · rw [update_of_ne (by simp [here])]
    exact placed_congr (by simp [here]) fun _ _ => by simp [here]

theorem Freeing.freeAddr (f : Freeing ip s₀ s t) (nonzero : (s.icache ip).copy.addrs k ≠ 0)
    (held : t ((s₀.icache ip).inum, .addr k) = some ((s.icache ip).copy.addrs k)) :
    ∃ s', s.freeAddr ip k = .ok s' ∧
      (s'.icache ip).copy = { (s.icache ip).copy with
        addrs := update (s.icache ip).copy.addrs k 0 } ∧
      Freeing ip s₀ s' (update t ((s₀.icache ip).inum, .addr k) none) := by
  obtain ⟨s', freed, icache, f'⟩ := f.bfree held
  have after := f'.setCopy (update (s.icache ip).copy.addrs k 0)
  rw [icache] at after
  rw [State.freeAddr, if_neg nonzero, f.works.dev, freed]
  exact ⟨_, rfl, by simp [State.setCopy, State.setInode], after⟩

theorem Freeing.type (f : Freeing ip s₀ s t) :
    (s.icache ip).copy.type = (s₀.icache ip).copy.type := by
  obtain ⟨addrs, copy⟩ := f.copy
  rw [copy]

section Loops

variable (small : (s₀.icache ip).inum < s₀.sb.ninodes)
  (allocated : (s₀.icache ip).copy.type ≠ .FREE)
include small allocated

variable {k : Fin (NDIRECT + 1)}

theorem Freeing.held (f : Freeing ip s₀ s t) (nonzero : (s.icache ip).copy.addrs k ≠ 0) :
    places s₀ ip (s.icache ip).copy ((s₀.icache ip).inum, .addr k) =
      some ((s.icache ip).copy.addrs k) := by
  refine placed_eq_some.mpr ⟨small, ?_, ?_, nonzero⟩
  · simpa [f.type] using allocated
  · simp [entry]

theorem freeAddr_sat (f : Freeing ip s₀ s (places s₀ ip (s.icache ip).copy))
    (direct : k ≠ indirect) :
    Sat Benign (fun s' => Freeing ip s₀ s' (places s₀ ip (s'.icache ip).copy) ∧
      (s'.icache ip).copy.addrs = update (s.icache ip).copy.addrs k 0) (s.freeAddr ip k) := by
  by_cases zero : (s.icache ip).copy.addrs k = 0
  · rw [State.freeAddr, if_pos zero]
    exact .ok ⟨f, by rw [← zero, update_eq_self]⟩
  · obtain ⟨s', freed, copy, f'⟩ := f.freeAddr zero (f.held small allocated zero)
    rw [freed]
    rw [← places_update _ direct, ← copy] at f'
    exact .ok ⟨f', by rw [copy]⟩

variable {s : State}

theorem freeAddrs_sat (l : List (Fin NDIRECT))
    (f : Freeing ip s₀ s (places s₀ ip (s.icache ip).copy)) :
    Sat Benign (fun s' => Freeing ip s₀ s' (places s₀ ip (s'.icache ip).copy) ∧
      (∀ k ∈ l, (s'.icache ip).copy.addrs k.castSucc = 0) ∧
      ∀ k, (s.icache ip).copy.addrs k = 0 → (s'.icache ip).copy.addrs k = 0)
      (l.foldlM (fun s k => s.freeAddr ip k.castSucc) s) := by
  induction l generalizing s with
  | nil => exact .ok ⟨f, nofun, fun _ none => none⟩
  | cons k l ih =>
    rw [foldlM_cons]
    have direct : k.castSucc ≠ indirect := fun same => by
      have : k.val = NDIRECT := congrArg Fin.val same
      omega
    refine (freeAddr_sat small allocated f direct).bind fun s₁ ⟨f₁, addrs⟩ => ?_
    refine (ih f₁).weaken fun s₂ ⟨f₂, zero, kept⟩ => ⟨f₂, fun k' mem => ?_, fun k' none => ?_⟩
    · cases mem_cons.mp mem with
      | inl same => exact kept _ (by rw [addrs, same, update_self])
      | inr mem => exact zero k' mem
    · refine kept k' ?_
      rw [addrs]
      by_cases here : k' = k.castSucc
      · rw [here, update_self]
      · rwa [update_of_ne here]

omit small allocated in
/-- The second loop gives back what the indirect block lists. -/
theorem freeWords_sat (a : Block) (l : List (Fin NINDIRECT)) (nodup : l.Nodup)
    {t : Nat × Slot → Option Nat} (f : Freeing ip s₀ s t)
    (listed : ∀ j ∈ l, t ((s₀.icache ip).inum, .ind j) = if word a j = 0 then none else some (word a j)) :
    Sat Benign (fun s' => s'.icache = s.icache ∧ ∃ t', Freeing ip s₀ s' t' ∧
      (∀ j ∈ l, t' ((s₀.icache ip).inum, .ind j) = none) ∧
      ∀ p, (∀ j ∈ l, p ≠ ((s₀.icache ip).inum, .ind j)) → t' p = t p)
      (l.foldlM (State.freeWord (s₀.icache ip).dev a) s) := by
  induction l generalizing s t with
  | nil => exact .ok ⟨rfl, t, f, nofun, fun _ _ => rfl⟩
  | cons j l ih =>
    obtain ⟨fresh, nodup⟩ := nodup_cons.mp nodup
    have here := listed j (mem_cons_self ..)
    obtain ⟨s₁, freed, icache₁, f₁⟩ : ∃ s₁, State.freeWord (s₀.icache ip).dev a s j = .ok s₁ ∧
        s₁.icache = s.icache ∧ Freeing ip s₀ s₁ (update t ((s₀.icache ip).inum, .ind j) none) := by
      rw [State.freeWord]
      by_cases none : word a j = 0
      · rw [if_pos none] at here ⊢
        exact ⟨s, rfl, rfl, by rwa [← here, update_eq_self]⟩
      · rw [if_neg none] at here ⊢
        exact f.bfree here
    rw [foldlM_cons, freed]
    refine (ih nodup f₁ fun j' mem => ?_).weaken ?_
    · have other : j' ≠ j := fun same => fresh (same ▸ mem)
      rw [update_of_ne (by simpa using other)]
      exact listed j' (mem_cons_of_mem j mem)
    · rintro s' ⟨icache, t', f', gone, kept⟩
      refine ⟨icache.trans icache₁, t', f', fun j' mem => ?_, fun p other => ?_⟩
      · cases mem_cons.mp mem with
        | inl same =>
          subst same
          rw [kept _ fun j'' mem same => fresh (by cases same; exact mem), update_self]
        | inr mem => exact gone j' mem
      · rw [kept p fun j' mem => other j' (mem_cons_of_mem j mem),
          update_of_ne (other j (mem_cons_self ..))]

/-- The part of `itrunc` for the indirect block. -/
theorem freeIndirect_sat (f : Freeing ip s₀ s (places s₀ ip (s.icache ip).copy))
    (directs : ∀ k : Fin NDIRECT, (s.icache ip).copy.addrs k.castSucc = 0)
    (nonzero : (s.icache ip).copy.addrs indirect ≠ 0) :
    Sat Benign (fun s' => Freeing ip s₀ s' (places s₀ ip (s'.icache ip).copy) ∧
        ∀ k, (s'.icache ip).copy.addrs k = 0) (s.freeIndirect ip) := by
  have held := f.held small allocated nonzero
  obtain ⟨low, high⟩ := f.marked.inside _ _ held
  have read : s.bread (s₀.icache ip).dev ((s.icache ip).copy.addrs indirect) =
      .ok ((s₀.disk (s₀.icache ip).dev).data ((s.icache ip).copy.addrs indirect)) := by
    rw [State.bread, if_pos (by simp [State.isData, f.works.sb, low, high]), f.data]
  simp only [State.freeIndirect, f.works.dev, read, bind, Except.bind]
  have words := freeWords_sat
    ((s₀.disk (s₀.icache ip).dev).data ((s.icache ip).copy.addrs indirect)) _
    (nodup_finRange NINDIRECT) f fun j _ => by
      by_cases vacant : word ((s₀.disk (s₀.icache ip).dev).data
          ((s.icache ip).copy.addrs indirect)) j = 0
      · simp [places, placed, entry, nonzero, vacant]
      · simp [places, placed, entry, nonzero, vacant, small, f.type, allocated]
  refine words.bind fun s₁ freed => ?_
  obtain ⟨icache, t, f₁, gone, kept⟩ := freed
  rw [← icache] at nonzero held directs kept
  have keptAddr : ∀ k, t ((s₀.icache ip).inum, .addr k) =
      places s₀ ip (s₁.icache ip).copy ((s₀.icache ip).inum, .addr k) := fun k =>
    kept _ fun j _ same => by cases congrArg Prod.snd same
  obtain ⟨s₂, freed, copy, f₂⟩ := f₁.freeAddr nonzero ((keptAddr indirect).trans held)
  have direct : ∀ k, k ≠ indirect → (s₁.icache ip).copy.addrs k = 0 := fun k notLast => by
    have notLast : k.val ≠ NDIRECT := fun same => notLast (Fin.ext same)
    exact directs ⟨k.val, by omega⟩
  have zero : ∀ k, (s₂.icache ip).copy.addrs k = 0 := fun k => by
    by_cases isLast : k = indirect
    · simp [copy, isLast]
    · simpa [copy, isLast] using direct k isLast
  have same : update t ((s₀.icache ip).inum, .addr indirect) none =
      places s₀ ip (s₂.icache ip).copy := by
    funext place
    obtain ⟨i, slot⟩ := place
    by_cases here : i = (s₀.icache ip).inum
    · subst here
      have last : places s₀ ip (s₂.icache ip).copy ((s₀.icache ip).inum, slot) = none :=
        placed_empty (by simpa using zero)
      rw [last]
      cases slot with
      | ind j => rw [update_of_ne (by simp), gone j (mem_finRange j)]
      | addr k =>
        by_cases isLast : k = indirect
        · rw [isLast, update_self]
        · rw [update_of_ne (by simpa using isLast), keptAddr]
          simp [places, placed, entry, direct k isLast]
    · rw [update_of_ne (by simp [here]), kept _ fun j _ same => here (congrArg Prod.fst same)]
      exact placed_congr (by simp [here]) fun _ _ => by simp [here]
  rw [freed]
  exact .ok ⟨same ▸ f₂, zero⟩

end Loops

/-- What `itrunc` leaves. -/
def Emptied (ip : Fin NINODE) (s s' : State) : Prop :=
  Sound none s' ∧ s'.icache ip = { s.icache ip with copy := (s'.icache ip).copy } ∧
    (∀ k, (s'.icache ip).copy.addrs k = 0) ∧ (s'.icache ip).copy.size = 0

section Whole

variable {s : State} (sound : Sound none s) (live : Live s ip) {s' : State}
include sound live

omit live in
/-- The volume once the blocks are given back. -/
theorem Freeing.volume (f : Freeing ip s s' (places s ip (s'.icache ip).copy)) :
    Volume s.sb (update (s.inode (s.icache ip).dev) (s.icache ip).inum
        { (s'.icache ip).copy with size := 0 })
      (s'.disk (s.icache ip).dev).bit (s'.disk (s.icache ip).dev).data := by
  refine ⟨?_, f.metadata, fun i small => ?_⟩
  · have same : placed s.sb.ninodes (update (s.inode (s.icache ip).dev) (s.icache ip).inum
        { (s'.icache ip).copy with size := 0 }) (s'.disk (s.icache ip).dev).data =
        places s ip (s'.icache ip).copy := by
      rw [f.data]
      funext ⟨i, slot⟩
      by_cases here : i = (s.icache ip).inum
      · refine placed_congr (by simp [here]) fun _ _ => ?_
        cases slot <;> simp [entry, here]
      · exact placed_congr (by simp [here]) fun _ _ => by simp [here]
    rw [same]
    exact f.marked
  · by_cases here : i = (s.icache ip).inum
    · rw [here, update_self]
      exact whole_empty rfl _
    · rw [update_of_ne here, f.data]
      exact (sound.volume _).whole i small

theorem Freeing.finish (f : Freeing ip s s' (places s ip (s'.icache ip).copy))
    (empty : ∀ k, (s'.icache ip).copy.addrs k = 0) :
    Sat Benign (Emptied ip s) ((s'.setCopy ip { (s'.icache ip).copy with size := 0 }).iupdate ip) := by
  have works := f.works.trans (setCopy_works s' ip { (s'.icache ip).copy with size := 0 })
  have copy : ((s'.setCopy ip { (s'.icache ip).copy with size := 0 }).icache ip).copy =
      { (s'.icache ip).copy with size := 0 } := by simp [State.setCopy, State.setInode]
  have truncated : Sound (some ip) (s'.setCopy ip { (s'.icache ip).copy with size := 0 }) := by
    refine (sound.atWork ip).works live works (.inl rfl) ?_ ?_ fun g mem => ?_
    · rw [copy]
      exact f.type ▸ (sound.live ip live).2
    · rw [copy]
      exact f.volume sound
    · exact sound.granted g (f.granted ▸ mem)
  refine (iupdate_sat truncated ((works.live ip).mpr live)).weaken fun s'' updated => ?_
  obtain ⟨after, icache, _⟩ := updated
  rw [Emptied, icache]
  exact ⟨after, works.self, fun k => by rw [copy]; exact empty k, by rw [copy]⟩

theorem itrunc_sat : Sat Benign (Emptied ip s) (s.itrunc ip) := by
  have ⟨small, allocated⟩ := sound.live ip live
  have here := inode_of_live sound.unique live rfl rfl
  have volume := sound.volume (s.icache ip).dev
  have start : Freeing ip s s (places s ip (s.icache ip).copy) := by
    refine ⟨.refl ip s, rfl, ⟨_, rfl⟩, ?_, volume.metadata, rfl⟩
    rw [places, ← here, update_eq_self]
    exact volume.owned
  unfold State.itrunc
  refine (freeAddrs_sat small allocated (List.finRange NDIRECT) start).bind
    fun s₁ ⟨f₁, zero, _⟩ => ?_
  have directs : ∀ k : Fin NDIRECT, (s₁.icache ip).copy.addrs k.castSucc = 0 := fun k =>
    zero k (mem_finRange k)
  simp only
  split
  · rename_i last
    refine f₁.finish sound live fun k => ?_
    by_cases isLast : k = indirect
    · rw [isLast, last]
    · have notLast : k.val ≠ NDIRECT := fun same => isLast (Fin.ext same)
      exact directs ⟨k.val, by omega⟩
  · rename_i nonzero
    exact (freeIndirect_sat small allocated f₁ directs nonzero).bind fun s₂ ⟨f₂, empty⟩ =>
      f₂.finish sound live empty

end Whole

end Truncation

section Put

variable {s : State} {ip : Fin NINODE}

/-- An inode without names goes away, with its last entry. -/
theorem discard_sat (sound : Sound none s) (live : Live s ip) :
    Sat Benign (fun s' => s'.icache ip =
          { s.icache ip with valid := false, copy := (s'.icache ip).copy } ∧
        ∀ c : CInode, c.ref = 0 → c.lock = none → Sound none (s'.setInode ip c))
      (s.discard ip) := by
  unfold State.discard
  refine (itrunc_sat sound live).bind fun s₁ ⟨sound₁, self, empty, size⟩ => ?_
  have live₁ : Live s₁ ip := by rwa [Live, self]
  have synced := sound₁.synced ip live₁ nofun
  unfold State.iupdate
  simp only [State.setCopy, State.setInode, update_self, (sound₁.live ip live₁).1, if_true]
  refine .ok ⟨?_, fun c unused unlocked => ?_⟩
  · simp only [State.setDisk, update_self]
    rw [self]
  · have gone : Sound none (s₁.setInode ip c) := sound₁.setInode (fun used => by omega)
      (fun used => by omega) fun isLocked => absurd unlocked isLocked
    have away : ∀ e, Live (s₁.setInode ip c) e →
        ((s₁.setInode ip c).icache e).dev = (s₁.icache ip).dev →
        ((s₁.setInode ip c).icache e).inum ≠ (s₁.icache ip).inum := by
      intro e isLive
      by_cases here : e = ip
      · simp [Live, State.setInode, here, unused] at isLive
      · simp only [Live, State.setInode, update_of_ne here] at isLive ⊢
        exact fun dev inum => here (sound₁.unique e ip isLive.1 live₁.1 dev inum)
    have before : ∀ slot, placed s₁.sb.ninodes (s₁.disk (s₁.icache ip).dev).dinode
        (s₁.disk (s₁.icache ip).dev).data ((s₁.icache ip).inum, slot) = none := fun slot =>
      placed_empty (synced ▸ empty)
    have freed := gone.setDinode away before
      (n := { (s₁.icache ip).copy with type := .FREE }) (.inl rfl) fun allocated => absurd rfl allocated
    simpa [State.setDisk, State.setInode] using freed

theorem iput_sat (sound : Sound none s) (me : Pid) (held : 0 < (s.icache ip).ref) :
    Sat Benign (Sound none) (s.iput me ip) := by
  unfold State.iput State.acquiresleep
  split
  · simp only [bind, Except.bind]
    split
    · rename_i last
      simp only [State.setInode, update_self] at last
      have locked : Sound none (s.setInode ip { s.icache ip with lock := some me }) :=
        sound.keepInode rfl rfl rfl (fun _ => held) rfl fun _ => ⟨held, last.1⟩
      have live : Live (s.setInode ip { s.icache ip with lock := some me }) ip := by
        simp only [Live, State.setInode, update_self]
        exact ⟨held, last.1⟩
      refine (discard_sat locked live).bind fun s' discarded => .ok ?_
      obtain ⟨self, gone⟩ := discarded
      have dropped := gone { s'.icache ip with lock := none, ref := (s'.icache ip).ref - 1 }
        (by rw [self]; simp [State.setInode, last.2.2]) rfl
      simpa [State.releasesleep, State.setInode] using dropped
    · have dropped : Sound none (s.setInode ip { s.icache ip with
          lock := none
          ref := (s.icache ip).ref - 1 }) :=
        sound.keepInode rfl rfl rfl (fun _ => held) rfl fun isLocked => absurd rfl isLocked
      refine .ok ?_
      simpa [State.releasesleep, State.setInode] using dropped
  · exact .error ⟨by simp, by simp, by simp⟩

end Put

/-! Runs. -/

/-- The calls on inodes; `iupdate` comes with the fields its callers set before it. -/
inductive Call where
  | ialloc (dev : Dev) (type : FileType)
  | iget (dev : Dev) (inum : Nat)
  | idup (ip : Fin NINODE)
  | ilock (ip : Fin NINODE)
  | iunlock (ip : Fin NINODE)
  | iupdate (ip : Fin NINODE) (major minor nlink : Int16)
  | readi (ip : Fin NINODE) (off n : UInt32)
  | writei (ip : Fin NINODE) (src : Nat → UInt8) (off n : UInt32)
  | itrunc (ip : Fin NINODE)
  | iput (ip : Fin NINODE)

/-- The caller holds a reference. -/
def State.referenced (s : State) (ip : Fin NINODE) : Except Stop Unit :=
  if 0 < (s.icache ip).ref then .ok () else .error .disabled

/-- The caller holds the lock. -/
def State.holding (s : State) (me : Pid) (ip : Fin NINODE) : Except Stop Unit :=
  if (s.icache ip).lock = some me then .ok () else .error .disabled

def State.call (s : State) : Pid × Call → Except Stop State
  | (_, .ialloc dev type) => Prod.snd <$> s.ialloc dev type
  | (_, .iget dev inum) => Prod.snd <$> s.iget dev inum
  | (_, .idup ip) => do
    s.referenced ip
    return s.idup ip
  | (me, .ilock ip) => s.ilock me ip
  | (me, .iunlock ip) => s.iunlock me ip
  | (me, .iupdate ip major minor nlink) => do
    s.holding me ip
    (s.setCopy ip { (s.icache ip).copy with major, minor, nlink }).iupdate ip
  | (me, .readi ip off n) => do
    s.holding me ip
    Prod.snd <$> s.readi me ip off n
  | (me, .writei ip src off n) => do
    s.holding me ip
    Prod.snd <$> s.writei me ip src off n
  | (me, .itrunc ip) => do
    s.holding me ip
    s.itrunc ip
  | (me, .iput ip) => do
    s.referenced ip
    s.iput me ip

def State.Step (s : State) (a : Pid × Call) (s' : State) : Prop := s.call a = .ok s'

/-- The address of an allocated inode is this block. -/
def Disk.Holds (sb : Superblock) (d : Disk) (place : Nat × Slot) (b : Nat) : Prop :=
  place.1 < sb.ninodes ∧ (d.dinode place.1).type ≠ .FREE ∧
    entry d.data (d.dinode place.1) place.2 = b ∧ b ≠ 0

/-- Block use on a disk is consistent, and files have no holes. -/
structure Disk.Consistent (sb : Superblock) (d : Disk) : Prop where
  once : ∀ place place' b, d.Holds sb place b → d.Holds sb place' b → place = place'
  inside : ∀ place b, d.Holds sb place b → sb.size - sb.nblocks ≤ b ∧ b < sb.size
  marked : ∀ b, sb.size - sb.nblocks ≤ b → b < sb.size →
    (d.bit b = true ↔ ∃ place, d.Holds sb place b)
  metadata : ∀ b, b < sb.size - sb.nblocks → d.bit b = true
  whole : ∀ i, i < sb.ninodes → Whole d.data (d.dinode i)

variable {sb : Superblock}

theorem consistent_iff {d : Disk} : d.Consistent sb ↔ Volume sb d.dinode d.bit d.data := by
  have holds : ∀ place b, placed sb.ninodes d.dinode d.data place = some b ↔ d.Holds sb place b :=
    fun _ _ => placed_eq_some
  constructor
  · intro c
    refine ⟨⟨fun place place' b h h' => ?_, fun b inside => ?_, fun place b h => ?_⟩, c.metadata, c.whole⟩
    · exact c.once place place' b ((holds _ _).mp h) ((holds _ _).mp h')
    · simpa only [holds] using c.marked b inside.1 inside.2
    · exact c.inside place b ((holds _ _).mp h)
  · intro v
    refine ⟨fun place place' b h h' => ?_, fun place b h => ?_, fun b low high => ?_, v.metadata, v.whole⟩
    · exact v.owned.once place place' b ((holds _ _).mpr h) ((holds _ _).mpr h')
    · exact v.owned.inside place b ((holds _ _).mpr h)
    · simpa only [holds] using v.owned.marked b ⟨low, high⟩

section Runs

variable {s : State}

theorem referenced_sat (ip : Fin NINODE) :
    Sat Benign (fun _ => 0 < (s.icache ip).ref) (s.referenced ip) := by
  unfold State.referenced
  split
  · rename_i held
    exact .ok held
  · exact .error ⟨nofun, nofun, nofun⟩

theorem holding_sat (sound : Sound none s) (me : Pid) (ip : Fin NINODE) :
    Sat Benign (fun _ => Live s ip) (s.holding me ip) := by
  unfold State.holding
  split
  · rename_i held
    exact .ok (sound.locked ip (by rw [held]; exact nofun))
  · exact .error ⟨nofun, nofun, nofun⟩

theorem call_sat (sound : Sound none s) (a : Pid × Call) : Sat Benign (Sound none) (s.call a) := by
  have second : ∀ {α : Type} {x : Except Stop (α × State)}, Sat Benign (fun r => Sound none r.2) x →
      Sat Benign (Sound none) (Prod.snd <$> x) := fun sat => by
    cases sat with
    | ok value => exact .ok value
    | error reason => exact .error reason
  obtain ⟨me, call⟩ := a
  cases call with
  | ialloc dev type => exact second (ialloc_sat sound dev type)
  | iget dev inum => exact second (iget_sat sound dev inum)
  | idup ip => exact (referenced_sat ip).bind fun _ held => .ok (idup_sound sound held)
  | ilock ip => exact ilock_sat sound me ip
  | iunlock ip => exact iunlock_sat sound me ip
  | iupdate ip major minor nlink =>
    refine (holding_sat sound me ip).bind fun _ live => ?_
    have relabelled := (sound.atWork ip).relabel live
      (n := { (s.icache ip).copy with major, minor, nlink }) rfl rfl ?_
    · exact (iupdate_sat relabelled (((setCopy_works s ip _).live ip).mpr live)).weaken
        fun _ after => after.1
    · have whole := (sound.volume (s.icache ip).dev).whole _ (sound.live ip live).1
      rwa [inode_of_live sound.unique live rfl rfl] at whole
  | readi ip off n =>
    exact (holding_sat sound me ip).bind fun _ live => second (readi_sat sound me live off n)
  | writei ip src off n =>
    exact (holding_sat sound me ip).bind fun _ live => second (writei_sat sound me live src off n)
  | itrunc ip =>
    exact (holding_sat sound me ip).bind fun _ live =>
      (itrunc_sat sound live).weaken fun _ after => after.1
  | iput ip => exact (referenced_sat ip).bind fun _ held => iput_sat sound me held

theorem booted_sound {disk : Dev → Disk} {console : Nat → Option (List UInt8)}
    (image : ∀ dev, (disk dev).Consistent sb) : Sound none (State.booted sb disk console) := by
  have dead : ∀ e, ¬ Live (State.booted sb disk console) e := fun e live => by
    simp [Live, State.booted] at live
  refine .of_disk (fun e e' used => ?_) (fun e live => absurd live (dead e)) (fun e isLocked => ?_)
    (fun dev => consistent_iff.mp (image dev)) nofun
  · simp [State.booted] at used
  · simp [State.booted] at isLocked

theorem run_sound {disk : Dev → Disk} {console : Nat → Option (List UInt8)}
    (image : ∀ dev, (disk dev).Consistent sb) {calls : List (Pid × Call)}
    (run : Lts.Run State.Step (State.booted sb disk console) calls s) : Sound none s :=
  run.invariant (fun _ a _ sound step => (call_sat sound a).of_ok step) (booted_sound image)

end Runs

/-- From an image with consistent block use, and over every run of calls: block use on disk stays
consistent, no block in use is allocated, a cached inode is as on disk, and the next call neither
frees a free block nor leaves the data blocks. -/
theorem block_ownership {sb : Superblock} {disk : Dev → Disk} {console : Nat → Option (List UInt8)}
    (image : ∀ dev, (disk dev).Consistent sb) {calls : List (Pid × Call)} {s : State}
    (run : Lts.Run State.Step (State.booted sb disk console) calls s) :
    (∀ dev, (s.disk dev).Consistent s.sb) ∧
    (∀ g ∈ s.granted, g.inUse = false) ∧
    (∀ e, 0 < (s.icache e).ref → (s.icache e).valid = true →
      (s.icache e).copy = (s.disk (s.icache e).dev).dinode (s.icache e).inum) ∧
    ∀ a, s.call a ≠ .error .freeingFreeBlock ∧ s.call a ≠ .error .outside ∧
      s.call a ≠ .error .bmapOutOfRange := by
  have sound : Sound none s := run.invariant
    (fun _ a _ sound step => (call_sat sound a).of_ok step) (booted_sound image)
  refine ⟨fun dev => consistent_iff.mpr (sound.onDisk dev), sound.granted,
    fun e used valid => sound.synced e ⟨used, valid⟩ nofun, fun a => ?_⟩
  have benign := fun e => (call_sat sound a).of_error (e := e)
  exact ⟨fun stops => (benign _ stops).1 rfl, fun stops => (benign _ stops).2.1 rfl,
    fun stops => (benign _ stops).2.2 rfl⟩

def sampleSuperblock : Superblock := ⟨5, 2, 3, by decide, by decide⟩

/-- The root directory has the first of two data blocks. -/
def sampleDisk : Disk where
  bit b := b < 4
  dinode i :=
    if i = ROOTINO then ⟨.T_DIR, 0, 0, 1, 32, fun k => if k = 0 then 3 else 0⟩ else .zeroed
  data _ _ := 0

theorem sampleDisk_holds :
    sampleDisk.Holds sampleSuperblock place b ↔ place = (ROOTINO, .addr 0) ∧ b = 3 := by
  constructor
  · rintro ⟨-, allocated, isEntry, nonzero⟩
    obtain ⟨i, slot⟩ := place
    by_cases root : i = ROOTINO
    · subst root
      cases slot with
      | addr k =>
        by_cases first : k = 0
        · subst first
          exact ⟨rfl, isEntry.symm⟩
        · exact absurd isEntry.symm (by simpa [sampleDisk, entry, first] using nonzero)
      | ind j => exact absurd isEntry.symm nonzero
    · simp [sampleDisk, root, DInode.zeroed] at allocated
  · rintro ⟨rfl, rfl⟩
    exact ⟨by decide, by decide, rfl, by decide⟩

theorem sampleDisk_consistent : sampleDisk.Consistent sampleSuperblock := by
  refine ⟨fun place place' b h h' => ?_, fun place b h => ?_, fun b low high => ?_, fun b low => ?_,
    fun i small allocated _ bn below => ?_⟩
  · rw [(sampleDisk_holds.mp h).1, (sampleDisk_holds.mp h').1]
  · rw [(sampleDisk_holds.mp h).2]
    decide
  · have low : 3 ≤ b := low
    constructor
    · intro set
      have low' : b < 4 := of_decide_eq_true set
      exact ⟨_, sampleDisk_holds.mpr ⟨rfl, by omega⟩⟩
    · rintro ⟨place, held⟩
      rw [(sampleDisk_holds.mp held).2]
      rfl
  · have low : b < 3 := low
    simp only [sampleDisk, decide_eq_true_eq]
    omega
  · by_cases root : i = ROOTINO
    · subst root
      have below : bn * 512 < 32 := below
      obtain rfl : bn = 0 := by omega
      exact ⟨.addr 0, rfl, by decide⟩
    · simp [sampleDisk, root, DInode.zeroed] at allocated

/-- A file is created, written, and dropped again. -/
theorem block_ownership_sample :
    ∃ s, Lts.Run State.Step (State.booted sampleSuperblock (fun _ => sampleDisk) fun _ => none)
        [(1, .ialloc ROOTDEV .T_FILE), (1, .ilock 0), (1, .writei 0 (fun _ => 7) 0 3),
          (1, .iunlock 0), (1, .iput 0)] s ∧
      s.granted.length = 1 ∧ (∀ g ∈ s.granted, g.inUse = false) ∧
      (s.disk ROOTDEV).Consistent s.sb := by
  obtain ⟨s, run, test⟩ := Lts.Run.of_any (f := State.call)
    (s := State.booted sampleSuperblock (fun _ => sampleDisk) fun _ => none)
    [(1, .ialloc ROOTDEV .T_FILE), (1, .ilock 0), (1, .writei 0 (fun _ => 7) 0 3), (1, .iunlock 0),
      (1, .iput 0)] (fun s => s.granted.length == 1) (by decide +kernel)
  obtain ⟨consistent, granted, -⟩ := block_ownership (fun _ => sampleDisk_consistent) run
  exact ⟨s, run, by simpa using test, granted, consistent ROOTDEV⟩

end Xv6.Inodes
