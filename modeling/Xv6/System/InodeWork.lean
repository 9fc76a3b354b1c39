import Xv6.Library.Outcome
import Xv6.System.Volumes

/-!
Work on one inode: `bmap` and the loops of `readi` and `writei`.

Between calls every cached inode is as on disk, so that the inodes and the bitmap on disk form
a sound volume. Inside a call that allocates or frees, the inode at work is ahead of its
copy on disk, and the volume is the one with the inodes as the cache has them.
-/

namespace Xv6.Inodes

open Function List Outcome State

/-- The entry holds an inode's fields. -/
def Live (s : State) (e : Fin NINODE) : Prop := 0 < (s.icache e).ref ∧ (s.icache e).valid = true

/-- No inode has two entries. -/
def Unique (s : State) : Prop :=
  ∀ e e', 0 < (s.icache e).ref → 0 < (s.icache e').ref → (s.icache e).dev = (s.icache e').dev →
    (s.icache e).inum = (s.icache e').inum → e = e'

variable {s s' : State} {ip : Fin NINODE} {i : Nat} {e : Fin NINODE} {s'' : State}
  {busy : Option (Fin NINODE)}

theorem Unique.setInode (unique : Unique s) {c : CInode}
    (apart : 0 < c.ref → ∀ e, e ≠ ip → 0 < (s.icache e).ref → (s.icache e).dev = c.dev →
      (s.icache e).inum ≠ c.inum) :
    Unique (s.setInode ip c) := by
  intro e e' held held' dev inum
  by_cases here : e = ip
  · by_cases here' : e' = ip
    · rw [here, here']
    · simp only [State.setInode, here, update_self, update_of_ne here'] at *
      exact absurd inum.symm (apart held e' here' held' dev.symm)
  · by_cases here' : e' = ip
    · simp only [State.setInode, here', update_self, update_of_ne here] at *
      exact absurd inum (apart held' e here held dev)
    · simp only [State.setInode, update_of_ne here, update_of_ne here'] at *
      exact unique e e' held held' dev inum

theorem cached_eq_some {dev : Dev} (found : s.cached dev i = some e) :
    Live s e ∧ (s.icache e).dev = dev ∧ (s.icache e).inum = i := by
  have test := find?_some found
  simp only [Bool.and_eq_true, decide_eq_true_eq, beq_iff_eq] at test
  exact ⟨⟨test.1.1.1, test.1.1.2⟩, test.1.2, test.2⟩

theorem cached_of_live (unique : Unique s) (live : Live s e) :
    s.cached (s.icache e).dev (s.icache e).inum = some e := by
  cases found : s.cached (s.icache e).dev (s.icache e).inum with
  | some e' =>
    obtain ⟨live', dev, inum⟩ := cached_eq_some found
    rw [unique e' e live'.1 live.1 dev inum]
  | none =>
    have test := find?_eq_none.mp found e (mem_finRange e)
    simp [live.1, live.2] at test

theorem inode_of_live (unique : Unique s) (live : Live s e) {dev : Dev}
    (isDev : (s.icache e).dev = dev) (isInum : (s.icache e).inum = i) :
    s.inode dev i = (s.icache e).copy := by
  rw [State.inode, ← isDev, ← isInum, cached_of_live unique live]

/-- The inode has an entry, or is as on disk. -/
theorem inode_cases (s : State) (dev : Dev) (i : Nat) :
    (∃ e, Live s e ∧ (s.icache e).dev = dev ∧ (s.icache e).inum = i ∧
      s.inode dev i = (s.icache e).copy) ∨
    (∀ e, Live s e → (s.icache e).dev = dev → (s.icache e).inum ≠ i) ∧
      s.inode dev i = (s.disk dev).dinode i := by
  unfold State.inode
  cases found : s.cached dev i with
  | some e =>
    obtain ⟨live, isDev, isInum⟩ := cached_eq_some found
    exact .inl ⟨e, live, isDev, isInum, rfl⟩
  | none =>
    refine .inr ⟨fun e live isDev isInum => ?_, rfl⟩
    have test := find?_eq_none.mp found e (mem_finRange e)
    simp [live.1, live.2, isDev, isInum] at test

theorem inode_of_not_live {dev : Dev}
    (none : ∀ e, Live s e → (s.icache e).dev = dev → (s.icache e).inum ≠ i) :
    s.inode dev i = (s.disk dev).dinode i := by
  obtain ⟨e, live, isDev, isInum, -⟩ | ⟨-, same⟩ := inode_cases s dev i
  · exact absurd isInum (none e live isDev)
  · exact same

/-- The state inside a call that works on `busy`, or between calls. -/
structure Sound (busy : Option (Fin NINODE)) (s : State) : Prop where
  unique : Unique s
  live : ∀ e, Live s e → (s.icache e).inum < s.sb.ninodes ∧ (s.icache e).copy.type ≠ .FREE
  synced : ∀ e, Live s e → busy ≠ some e →
    (s.icache e).copy = (s.disk (s.icache e).dev).dinode (s.icache e).inum
  locked : ∀ e, (s.icache e).lock ≠ none → Live s e
  volume : ∀ dev, Volume s.sb (s.inode dev) (s.disk dev).bit (s.disk dev).data
  granted : ∀ g ∈ s.granted, g.inUse = false

/-- What never stops a call. -/
def Benign (e : Stop) : Prop := e ≠ .freeingFreeBlock ∧ e ≠ .outside ∧ e ≠ .bmapOutOfRange

/-- No block is free for an inode at work. -/
def OutOfBlocks (busy : Option (Fin NINODE)) (e : Stop) : Prop := busy ≠ none ∧ e = .ballocOutOfBlocks

/-- Only the fields of one inode, and the bitmap and the data of its disk, change. -/
structure Works (ip : Fin NINODE) (s s' : State) : Prop where
  sb : s'.sb = s.sb
  self : s'.icache ip = { s.icache ip with copy := (s'.icache ip).copy }
  others : ∀ e, e ≠ ip → s'.icache e = s.icache e
  disk : s'.disk (s.icache ip).dev = { s'.disk (s.icache ip).dev with
    dinode := (s.disk (s.icache ip).dev).dinode }
  disks : ∀ dev, dev ≠ (s.icache ip).dev → s'.disk dev = s.disk dev

theorem Works.refl (ip : Fin NINODE) (s : State) : Works ip s s := ⟨rfl, rfl, fun _ _ => rfl, rfl, fun _ _ => rfl⟩

section

variable (works : Works ip s s')
include works

theorem Works.dev : (s'.icache ip).dev = (s.icache ip).dev := by rw [works.self]

theorem Works.inum : (s'.icache ip).inum = (s.icache ip).inum := by rw [works.self]

theorem Works.live (e : Fin NINODE) :
    Live s' e ↔ Live s e := by
  unfold Live
  by_cases here : e = ip
  · rw [here, works.self]
  · rw [works.others e here]

theorem Works.dinode (dev : Dev) :
    (s'.disk dev).dinode = (s.disk dev).dinode := by
  by_cases here : dev = (s.icache ip).dev
  · rw [here, works.disk]
  · rw [works.disks dev here]

end

theorem Works.trans (first : Works ip s s') (second : Works ip s' s'') :
    Works ip s s'' where
  sb := second.sb.trans first.sb
  self := by rw [second.self, first.self]
  others e other := (second.others e other).trans (first.others e other)
  disk := by
    have last := second.disk
    rw [first.dev] at last
    rw [last, first.disk]
  disks dev other := by
    rw [second.disks dev (first.dev ▸ other), first.disks dev other]

theorem Works.unique (works : Works ip s s') (unique : Unique s) :
    Unique s' := by
  have same : ∀ e, (s'.icache e).ref = (s.icache e).ref ∧ (s'.icache e).dev = (s.icache e).dev ∧
      (s'.icache e).inum = (s.icache e).inum := by
    intro e
    by_cases here : e = ip
    · rw [here, works.self]
      exact ⟨rfl, rfl, rfl⟩
    · rw [works.others e here]
      exact ⟨rfl, rfl, rfl⟩
  intro e e' held held' dev inum
  rw [(same e).1] at held
  rw [(same e').1] at held'
  rw [(same e).2.1, (same e').2.1] at dev
  rw [(same e).2.2, (same e').2.2] at inum
  exact unique e e' held held' dev inum

theorem Works.inode_of_ne (works : Works ip s s') (unique : Unique s) {dev : Dev}
    (other : dev = (s.icache ip).dev → i ≠ (s.icache ip).inum) :
    s'.inode dev i = s.inode dev i := by
  obtain ⟨e, live, isDev, isInum, same⟩ | ⟨none, same⟩ := inode_cases s dev i
  · have notIp : e ≠ ip := fun here => other (here ▸ isDev.symm) (here ▸ isInum.symm)
    rw [same, inode_of_live (works.unique unique) ((works.live e).mpr live)
      (by rwa [works.others e notIp]) (by rwa [works.others e notIp]), works.others e notIp]
  · rw [same, inode_of_not_live fun e live isDev isInum => ?_, works.dinode]
    have live := (works.live e).mp live
    by_cases here : e = ip
    · rw [here, works.dev] at isDev
      rw [here, works.inum] at isInum
      exact other isDev.symm isInum.symm
    · rw [works.others e here] at isDev isInum
      exact none e live isDev isInum

/-- The inodes, with the one at work as its entry has it. -/
theorem Works.inode (works : Works ip s s') (unique : Unique s) (live : Live s ip) :
    s'.inode (s.icache ip).dev = update (s.inode (s.icache ip).dev) (s.icache ip).inum
      (s'.icache ip).copy := by
  funext i
  by_cases here : i = (s.icache ip).inum
  · rw [here, update_self]
    exact inode_of_live (works.unique unique) ((works.live ip).mpr live) works.dev works.inum
  · rw [update_of_ne here]
    exact works.inode_of_ne unique fun _ => here

/-- Work on an inode that leaves the volume sound. -/
theorem Sound.works (sound : Sound busy s) (live : Live s ip) (works : Works ip s s')
    (busy' : busy = some ip ∨ (s'.icache ip).copy = (s.icache ip).copy)
    (allocated : (s'.icache ip).copy.type ≠ .FREE)
    (volume : Volume s.sb
      (update (s.inode (s.icache ip).dev) (s.icache ip).inum (s'.icache ip).copy)
      (s'.disk (s.icache ip).dev).bit (s'.disk (s.icache ip).dev).data)
    (granted : ∀ g ∈ s'.granted, g.inUse = false) : Sound busy s' where
  unique := works.unique sound.unique
  live e isLive := by
    have was := sound.live e ((works.live e).mp isLive)
    rw [works.sb]
    by_cases here : e = ip
    · rw [here] at was ⊢
      exact ⟨works.inum ▸ was.1, allocated⟩
    · rwa [works.others e here]
  synced e isLive other := by
    have was := sound.synced e ((works.live e).mp isLive) other
    rw [works.dinode]
    by_cases here : e = ip
    · rw [here] at was other ⊢
      rw [works.dev, works.inum, ← was]
      exact busy'.resolve_left other
    · rwa [works.others e here]
  locked e isLocked := by
    refine (works.live e).mpr (sound.locked e ?_)
    by_cases here : e = ip
    · rw [here, works.self] at isLocked
      rwa [here]
    · rwa [works.others e here] at isLocked
  volume dev := by
    rw [works.sb]
    by_cases here : dev = (s.icache ip).dev
    · rw [here, works.inode sound.unique live]
      exact volume
    · have same : s'.inode dev = s.inode dev := funext fun i =>
        works.inode_of_ne sound.unique fun isDev => absurd isDev here
      rw [same, works.disks dev here]
      exact sound.volume dev
  granted := granted

/-! Allocation. -/

theorem not_inUse {dev : Dev}
    (volume : Volume s.sb (s.inode dev) (s.disk dev).bit (s.disk dev).data) {b : Nat}
    (inside : b < s.sb.size) (free : (s.disk dev).bit b = false) : s.inUse dev b = false := by
  obtain ⟨-, -, fresh⟩ := volume.fresh inside free
  unfold inUse
  rw [any_eq_false]
  intro i mem used
  rw [Bool.and_eq_true, bne_iff_ne, any_eq_true] at used
  obtain ⟨allocated, slot, -, here⟩ := used
  exact fresh i slot (mem_range.mp mem) allocated (by simpa using here)

/-- The state after `balloc` has returned `b`. -/
def granting (s : State) (dev : Dev) (b : Nat) : State :=
  { s with
    disk := Function.update s.disk dev { s.disk dev with
      bit := Function.update (s.disk dev).bit b true
      data := Function.update (s.disk dev).data b fun _ => 0 }
    granted := ⟨dev, b, s.inUse dev b⟩ :: s.granted }

theorem balloc_sat {dev : Dev}
    (volume : Volume s.sb (s.inode dev) (s.disk dev).bit (s.disk dev).data) :
    Sat (· = .ballocOutOfBlocks) (fun r => r.1 < s.sb.size ∧ (s.disk dev).bit r.1 = false ∧
      r.2 = granting s dev r.1) (s.balloc dev) := by
  unfold balloc
  split
  · exact .error rfl
  · rename_i b found
    have inside : b < s.sb.size := mem_range.mp (mem_of_find?_eq_some found)
    have free : (s.disk dev).bit b = false := by simpa using find?_some found
    have isData : (s.setBit dev b true).isData b = true := by
      simp [isData, setBit, setDisk, inside, (volume.fresh inside free).1]
    rw [bwrite, if_pos isData]
    refine .ok ⟨inside, free, ?_⟩
    simp only [granting, setBit, setDisk, update_self, update_idem]

theorem granting_works (ip : Fin NINODE) (b : Nat) :
    Works ip s (granting s (s.icache ip).dev b) where
  sb := rfl
  self := rfl
  others _ _ := rfl
  disk := by simp [granting]
  disks dev other := by simp [granting, other]

theorem setCopy_works (s : State) (ip : Fin NINODE) (n : DInode) : Works ip s (s.setCopy ip n) where
  sb := rfl
  self := by simp [setCopy, State.setInode]
  others e other := by simp [setCopy, State.setInode, other]
  disk := rfl
  disks _ _ := rfl

/-- The block at a place of the file. -/
abbrev State.addr (s : State) (ip : Fin NINODE) (slot : Slot) : Nat :=
  Inodes.entry (s.disk (s.icache ip).dev).data (s.icache ip).copy slot

/-- The bytes of the file. -/
def State.file (s : State) (ip : Fin NINODE) : File :=
  ⟨(s.icache ip).copy.size, contents (s.disk (s.icache ip).dev).data (s.icache ip).copy⟩

/-- `writei` on an array of bytes. -/
def writeBytes (file : File) (src : Nat → UInt8) (off n : Nat) : Option Nat × File :=
  if off ≤ file.size ∧ off + n < 2 ^ 32 ∧ off + n ≤ MAXFILE * BSIZE then
    (some n, ⟨max file.size (off + n), patch file.data off n src⟩)
  else (none, file)

/-- `readi` on an array of bytes. -/
def readBytes (file : File) (off n : Nat) : Option (List UInt8) :=
  if off ≤ file.size ∧ off + n < 2 ^ 32 then
    some ((List.range (min n (file.size - off))).map fun i => file.data (off + i))
  else none

/-- What a call has found stays there. -/
def Grows (ip : Fin NINODE) (s s' : State) : Prop :=
  ∀ slot, entry (s.disk (s.icache ip).dev).data (s.icache ip).copy slot ≠ 0 →
    entry (s'.disk (s.icache ip).dev).data (s'.icache ip).copy slot ≠ 0

/-- A state in which the inode is further than before, up to its addresses. -/
structure Extends (busy : Option (Fin NINODE)) (ip : Fin NINODE) (s s' : State) : Prop where
  sound : Sound busy s'
  works : Works ip s s'
  copy : ∃ addrs, (s'.icache ip).copy = { (s.icache ip).copy with addrs }
  grows : Grows ip s s'

theorem Extends.refl (ip : Fin NINODE) (sound : Sound busy s) : Extends busy ip s s :=
  ⟨sound, .refl ip s, ⟨_, rfl⟩, fun _ there => there⟩

theorem Extends.addr {slot : Slot} (extends' : Extends busy ip s s') (there : s.addr ip slot ≠ 0) :
    s'.addr ip slot ≠ 0 := by
  rw [State.addr, extends'.works.dev]
  exact extends'.grows slot there

theorem Extends.trans (first : Extends busy ip s s') (second : Extends busy ip s' s'') :
    Extends busy ip s s'' := by
  refine ⟨second.sound, first.works.trans second.works, ?_, fun slot there => ?_⟩
  · obtain ⟨addrs, copy⟩ := second.copy
    obtain ⟨addrs', copy'⟩ := first.copy
    exact ⟨addrs, by rw [copy, copy']⟩
  · have later := second.addr (first.addr there)
    rwa [State.addr, (first.works.trans second.works).dev] at later

section Work

variable {busy : Option (Fin NINODE)} {s : State} {ip : Fin NINODE} {j : Fin NINDIRECT}
  {slot : Slot}

theorem addrAt_sat (sound : Sound busy s) (live : Live s ip) (k : Fin (NDIRECT + 1))
    (may : busy = some ip ∨ (s.icache ip).copy.addrs k ≠ 0) :
    Sat (OutOfBlocks busy) (fun r => Extends busy ip s r.2 ∧ r.2.file ip = s.file ip ∧
      (r.2.icache ip).copy.addrs k = r.1 ∧ r.1 ≠ 0 ∧
      ((s.icache ip).copy.addrs k ≠ 0 → r.2 = s)) (s.addrAt ip k) := by
  unfold addrAt
  simp only
  split
  · rename_i vacant
    have busy' := may.resolve_right (not_not.mpr vacant)
    have volume := sound.volume (s.icache ip).dev
    have ⟨small, allocated⟩ := sound.live ip live
    have here := inode_of_live sound.unique live rfl rfl
    have some' : busy ≠ none := by simp [busy']
    refine ((balloc_sat volume).mono (fun _ out => ⟨some', out⟩) fun _ value => value).bind
      fun ⟨b, s'⟩ ⟨inside, free, same⟩ => ?_
    obtain rfl : s' = granting s (s.icache ip).dev b := same
    obtain ⟨-, pos, fresh⟩ := volume.fresh inside free
    have apart := fun slot => fresh (s.icache ip).inum slot small (here ▸ allocated)
    rw [here] at apart
    let n : DInode := { (s.icache ip).copy with addrs := update (s.icache ip).copy.addrs k b }
    have works := (granting_works ip b).trans (setCopy_works (granting s (s.icache ip).dev b) ip n)
    have copy : (((granting s (s.icache ip).dev b).setCopy ip n).icache ip).copy = n := by
      simp [setCopy, State.setInode]
    have data : (((granting s (s.icache ip).dev b).setCopy ip n).disk (s.icache ip).dev).data =
        update (s.disk (s.icache ip).dev).data b fun _ => 0 := by
      simp [setCopy, State.setInode, granting]
    refine .ok ⟨⟨sound.works live works (.inl busy') ?_ ?_ ?_, works, ⟨_, copy⟩, ?_⟩, ?_, ?_, pos, ?_⟩
    · rw [copy]
      exact allocated
    · rw [copy]
      have grown := volume.setAddr (k := k) small (here ▸ allocated) (here ▸ vacant) inside free
      rw [here] at grown
      simpa [setCopy, State.setInode, granting] using grown
    · intro g mem
      cases mem with
      | head => exact not_inUse volume inside free
      | tail _ mem => exact sound.granted g mem
    · intro slot there
      rw [copy, data]
      have other : slot ≠ .addr k := fun same => by simp [same, entry, vacant] at there
      rwa [entry_setAddr vacant pos (apart (.addr indirect)) other]
    · rw [file, works.dev, data, copy]
      exact congrArg (File.mk _) (contents_grow (.addr k) vacant (by simp [entry, n])
        (fun _ other => entry_setAddr vacant pos (apart (.addr indirect)) other)
        fun slot _ _ => update_of_ne (apart slot) ..)
    · simp [copy, n]
    · intro there
      exact absurd vacant there
  · rename_i there
    exact .ok ⟨.refl ip sound, rfl, rfl, there, fun _ => rfl⟩

theorem update_inode (unique : Unique s) (live : Live s ip) :
    update (s.inode (s.icache ip).dev) (s.icache ip).inum (s.icache ip).copy =
      s.inode (s.icache ip).dev := by
  rw [← inode_of_live unique live rfl rfl, update_eq_self]

theorem isData_entry (sound : Sound busy s) (live : Live s ip) (slot : Slot)
    (there : s.addr ip slot ≠ 0) :
    s.isData (s.addr ip slot) = true := by
  have ⟨small, allocated⟩ := sound.live ip live
  have here := inode_of_live sound.unique live rfl rfl
  have inside := (sound.volume (s.icache ip).dev).isData small (here ▸ allocated)
    (show entry _ _ slot ≠ 0 from here ▸ there)
  rw [here] at inside
  simpa [isData] using inside

/-- The state after the contents of a block have been changed. -/
def writing (s : State) (dev : Dev) (b : Nat) (block : Block) : State :=
  s.setDisk dev { s.disk dev with data := Function.update (s.disk dev).data b block }

theorem bread_data {dev : Dev} {b : Nat} (isData : s.isData b = true) :
    s.bread dev b = .ok ((s.disk dev).data b) := if_pos isData

theorem bwrite_data {dev : Dev} {b : Nat} {block : Block} (isData : s.isData b = true) :
    s.bwrite dev b block = .ok (writing s dev b block) := if_pos isData

theorem writing_works (s : State) (ip : Fin NINODE) (b : Nat) (block : Block) :
    Works ip s (writing s (s.icache ip).dev b block) where
  sb := rfl
  self := rfl
  others _ _ := rfl
  disk := by simp [writing, setDisk]
  disks dev other := by simp [writing, setDisk, other]

/-- An entry of the indirect block is allocated. -/
theorem setEntry_extends (sound : Sound (some ip) s) (live : Live s ip) {b : Nat}
    (there : (s.icache ip).copy.addrs indirect ≠ 0)
    (vacant : word ((s.disk (s.icache ip).dev).data ((s.icache ip).copy.addrs indirect)) j = 0)
    (inside : b < s.sb.size) (free : (s.disk (s.icache ip).dev).bit b = false) :
    let s' := writing (granting s (s.icache ip).dev b) (s.icache ip).dev
      ((s.icache ip).copy.addrs indirect)
      (setWord ((s.disk (s.icache ip).dev).data ((s.icache ip).copy.addrs indirect)) j b)
    Extends (some ip) ip s s' ∧ s'.file ip = s.file ip ∧ s'.addr ip (.ind j) = b ∧ b ≠ 0 := by
  intro s'
  have volume := sound.volume (s.icache ip).dev
  have ⟨small, allocated⟩ := sound.live ip live
  have here := inode_of_live sound.unique live rfl rfl
  obtain ⟨-, pos, fresh⟩ := volume.fresh inside free
  have apart := fun slot => fresh (s.icache ip).inum slot small (here ▸ allocated)
  rw [here] at apart
  have works : Works ip s s' := (granting_works ip b).trans (writing_works _ ip _ _)
  have data : (s'.disk (s.icache ip).dev).data =
      update (update (s.disk (s.icache ip).dev).data b fun _ => 0)
        ((s.icache ip).copy.addrs indirect)
        (setWord ((s.disk (s.icache ip).dev).data ((s.icache ip).copy.addrs indirect)) j b) := by
    simp [s', writing, setDisk, granting]
  have bit : (s'.disk (s.icache ip).dev).bit =
      update (s.disk (s.icache ip).dev).bit b true := by
    simp [s', writing, setDisk, granting]
  have value : entry (s'.disk (s.icache ip).dev).data (s.icache ip).copy (.ind j) = b := by
    rw [data, entry, if_neg there, update_self]
    exact word_setWord_self _ _ (Nat.lt_trans inside s.sb.fits)
  refine ⟨⟨sound.works live works (.inl rfl) allocated ?_ ?_, works, ⟨_, rfl⟩, ?_⟩, ?_, value, pos⟩
  · have grown := volume.setEntry (j := j) small (here ▸ allocated) (here ▸ there)
      (by rw [here]; exact vacant) inside free
    rw [here] at grown
    rw [data, bit]
    change Volume s.sb (update _ _ (s.icache ip).copy) _ _
    rwa [update_inode sound.unique live]
  · intro g mem
    cases mem with
    | head => exact not_inUse volume inside free
    | tail _ mem => exact sound.granted g mem
  · intro slot full
    rw [data]
    change entry _ (s.icache ip).copy slot ≠ 0
    have other : slot ≠ .ind j := fun same => by simp [same, entry, vacant] at full
    rwa [entry_setEntry there other]
  · rw [file, works.dev]
    change File.mk _ (contents _ (s.icache ip).copy) = _
    refine congrArg (File.mk _) (contents_grow (.ind j) ?_ ?_ (fun slot other => ?_)
      fun slot other full => ?_)
    · rw [entry, if_neg there, vacant]
    · have notIndirect : b ≠ (s.icache ip).copy.addrs indirect := (apart (.addr indirect)).symm
      rw [value, data, update_of_ne notIndirect, update_self]
    · rw [data]
      exact entry_setEntry there other
    · have notIndirect := volume.indirect_ne small (here ▸ allocated) (here ▸ rfl) full other small
        (here ▸ allocated)
      rw [here] at notIndirect
      rw [data, update_of_ne notIndirect.symm, update_of_ne (apart slot)]

theorem entryAt_sat (sound : Sound busy s) (live : Live s ip)
    (there : (s.icache ip).copy.addrs indirect ≠ 0)
    (may : busy = some ip ∨ s.addr ip (.ind j) ≠ 0) :
    Sat (OutOfBlocks busy) (fun r => Extends busy ip s r.2 ∧ r.2.file ip = s.file ip ∧
      r.2.addr ip (.ind j) = r.1 ∧ r.1 ≠ 0 ∧
      (s.addr ip (.ind j) ≠ 0 → r.2 = s))
      (s.entryAt (s.icache ip).dev ((s.icache ip).copy.addrs indirect) j) := by
  have isData : s.isData ((s.icache ip).copy.addrs indirect) = true :=
    isData_entry sound live (.addr indirect) there
  have isWord : s.addr ip (.ind j) =
      word ((s.disk (s.icache ip).dev).data ((s.icache ip).copy.addrs indirect)) j := if_neg there
  rw [isWord] at may ⊢
  unfold State.entryAt
  rw [bread_data isData]
  by_cases vacant : word ((s.disk (s.icache ip).dev).data ((s.icache ip).copy.addrs indirect)) j = 0
  · have busy' := may.resolve_right (not_not.mpr vacant)
    subst busy'
    have alloc := balloc_sat (sound.volume (s.icache ip).dev)
    simp only [bind, Except.bind, vacant, if_true]
    cases granted : s.balloc (s.icache ip).dev with
    | error e => exact .error ⟨by simp, alloc.of_error granted⟩
    | ok r =>
      obtain ⟨b, s₁⟩ := r
      obtain ⟨inside, free, after⟩ := alloc.of_ok granted
      simp only at inside free after
      subst after
      have written := setEntry_extends sound live there vacant inside free
      simp only [bwrite_data (s := granting s (s.icache ip).dev b) isData]
      exact .ok ⟨written.1, written.2.1, written.2.2.1, written.2.2.2, fun full => absurd rfl full⟩
  · simp only [bind, Except.bind, vacant, if_false]
    exact .ok ⟨.refl ip sound, rfl, isWord, vacant, fun _ => rfl⟩

/-- `bmap` returns the block at its place, which only an inode at work may lack. -/
theorem bmap_sat (sound : Sound busy s) (live : Live s ip) {bn : Nat} (at' : slotAt bn = some slot)
    (may : busy = some ip ∨ s.addr ip slot ≠ 0) :
    Sat (OutOfBlocks busy) (fun r => Extends busy ip s r.2 ∧ r.2.file ip = s.file ip ∧
      r.2.addr ip slot = r.1 ∧ r.1 ≠ 0 ∧
      (s.addr ip slot ≠ 0 → r.2 = s))
      (s.bmap ip bn) := by
  unfold bmap
  unfold slotAt at at'
  split
  · rename_i less
    rw [dif_pos less] at at'
    cases at'
    exact addrAt_sat sound live _ may
  · rename_i direct
    rw [dif_neg direct] at at'
    split
    · rename_i less
      rw [dif_pos less] at at'
      cases at'
      have may' : busy = some ip ∨ (s.icache ip).copy.addrs indirect ≠ 0 :=
        may.imp_right fun full none => by simp [entry, none] at full
      refine (addrAt_sat sound live indirect may').bind fun r result => ?_
      obtain ⟨addr, s₁⟩ := r
      obtain ⟨first, file, atIndirect, there, same⟩ := result
      simp only at first file atIndirect there same ⊢
      subst atIndirect
      have live₁ := (first.works.live ip).mpr live
      refine (entryAt_sat first.sound live₁ there (j := ⟨bn - NDIRECT, less⟩)
        (may.imp_right first.addr)).weaken fun r result => ?_
      obtain ⟨second, file', value, some, still⟩ := result
      refine ⟨first.trans second, file'.trans file, value, some, fun full => ?_⟩
      obtain rfl := same fun none => by simp [entry, none] at full
      exact still full
    · rename_i far
      rw [dif_neg far] at at'
      cases at'

/-! Contents. -/

/-- The blocks below the size are there. -/
theorem slot_below (sound : Sound busy s) (live : Live s ip)
    (notDev : (s.icache ip).copy.type ≠ .T_DEV) (bn : Nat)
    (below : bn * BSIZE < (s.icache ip).copy.size) :
    ∃ slot, slotAt bn = some slot ∧
      s.addr ip slot ≠ 0 := by
  have ⟨small, allocated⟩ := sound.live ip live
  have whole := (sound.volume (s.icache ip).dev).whole (s.icache ip).inum small
  rw [inode_of_live sound.unique live rfl rfl] at whole
  exact whole allocated notDev bn below

theorem file_block {bn b x : Nat} (at' : slotAt bn = some slot)
    (value : s.addr ip slot = b) (some : b ≠ 0)
    (here : x / BSIZE = bn) :
    (s.file ip).data x = (s.disk (s.icache ip).dev).data b (x % BSIZE) := by
  subst here
  simp [file, contents, at', value, some]

/-- A read below the size changes nothing. -/
theorem readLoop_sat (sound : Sound busy s) (live : Live s ip)
    (notDev : (s.icache ip).copy.type ≠ .T_DEV) (fuel off n : Nat) (read : List UInt8)
    (enough : n ≤ fuel) (below : off + n ≤ (s.icache ip).copy.size) :
    Sat (OutOfBlocks busy) (fun r => r.2 = s ∧
      r.1 = read ++ (List.range n).map fun i => (s.file ip).data (off + i))
      (State.readLoop ip fuel s off n read) := by
  induction fuel generalizing off n read with
  | zero =>
    obtain rfl := Nat.le_zero.mp enough
    exact .ok ⟨rfl, by simp⟩
  | succ fuel ih =>
    unfold readLoop
    split
    · rename_i none_left
      exact .ok ⟨rfl, by simp [none_left]⟩
    · rename_i more
      obtain ⟨slot, at', full⟩ := slot_below sound live notDev (off / BSIZE) (by
        have := Nat.div_mul_le_self off BSIZE
        omega)
      refine (bmap_sat sound live at' (.inr full)).bind fun r result => ?_
      obtain ⟨b, s₁⟩ := r
      obtain ⟨-, -, value, some, same⟩ := result
      simp only at value some same
      obtain rfl := same full
      have isData : s₁.isData b = true := value ▸ isData_entry sound live _ full
      simp only [bread_data isData, bind, Except.bind]
      have rest := Nat.mod_lt off (show 0 < BSIZE by decide)
      generalize step : min n (BSIZE - off % BSIZE) = m
      have split : n = m + (n - m) := by omega
      refine (ih _ _ _ (by omega) (by omega)).weaken fun r result => ⟨result.1, result.2.trans ?_⟩
      rw [split, range_add, map_append, Nat.add_sub_cancel_left, append_assoc, map_map]
      congr 2
      · refine map_congr_left fun i inside => ?_
        have := mem_range.mp inside
        rw [file_block at' value some (x := off + i) (by unfold BSIZE at *; omega)]
        congr 1
        unfold BSIZE at *
        omega
      · exact map_congr_left fun i _ => by rw [Function.comp_apply, Nat.add_assoc]

theorem patch_extends (sound : Sound busy s) (live : Live s ip) {b : Nat}
    (here : s.addr ip slot = b) (some : b ≠ 0)
    {bn : Nat} (at' : slotAt bn = .some slot) (block : Block) :
    Extends busy ip s (writing s (s.icache ip).dev b block) ∧
      ∀ x, ((writing s (s.icache ip).dev b block).file ip).data x =
        if x / BSIZE = bn then block (x % BSIZE) else (s.file ip).data x := by
  have volume := sound.volume (s.icache ip).dev
  have ⟨small, allocated⟩ := sound.live ip live
  have copy := inode_of_live sound.unique live rfl rfl
  have works := writing_works s ip b block
  have data : ((writing s (s.icache ip).dev b block).disk (s.icache ip).dev).data =
      update (s.disk (s.icache ip).dev).data b block := by
    simp [writing, setDisk]
  have bit : ((writing s (s.icache ip).dev b block).disk (s.icache ip).dev).bit =
      (s.disk (s.icache ip).dev).bit := by
    simp [writing, setDisk]
  have other := slotAt_ne_indirect at'
  have apart := volume.indirect_ne small (copy ▸ allocated) (copy ▸ here) some other small
    (copy ▸ allocated)
  rw [copy] at apart
  have same : ∀ slot', entry (update (s.disk (s.icache ip).dev).data b block) (s.icache ip).copy slot' =
      s.addr ip slot' :=
    fun slot' => entry_congr slot' fun _ => update_of_ne apart ..
  refine ⟨⟨sound.works live works (.inr rfl) allocated ?_ sound.granted, works, ⟨_, rfl⟩, ?_⟩,
    fun x => ?_⟩
  · change Volume s.sb (update _ _ (s.icache ip).copy) _ _
    rw [update_inode sound.unique live, data, bit]
    exact volume.setData small (copy ▸ allocated) (copy ▸ here) some other block
  · intro slot' full
    rw [data]
    exact (same slot').trans_ne full
  · change contents _ (s.icache ip).copy x = _
    rw [works.dev, data]
    split
    · rename_i isBn
      simp [contents, isBn, at', same, here, some]
    · rename_i notBn
      change _ = contents _ _ x
      unfold contents
      cases at'' : slotAt (x / BSIZE) with
      | none => rfl
      | some slot' =>
        simp only [same]
        split
        · rfl
        · rename_i full
          rw [update_of_ne fun isB => ?_]
          have once := volume.owned.once ((s.icache ip).inum, slot) ((s.icache ip).inum, slot') b
            (placed_eq_some.mpr ⟨small, copy ▸ allocated, copy ▸ here, some⟩)
            (placed_eq_some.mpr ⟨small, copy ▸ allocated, copy ▸ isB, some⟩)
          cases once
          exact notBn (slotAt_inj at'' at')

theorem exists_slotAt (bn : Nat) (less : bn < MAXFILE) : ∃ slot, slotAt bn = some slot := by
  unfold slotAt
  split
  · exact ⟨_, rfl⟩
  · rename_i direct
    have last : bn - NDIRECT < NINDIRECT := by
      have less : bn < 140 := less
      change bn - 12 < 128
      omega
    rw [dif_pos last]
    exact ⟨_, rfl⟩

/-- The byte's block is there. -/
def Filled (s : State) (ip : Fin NINODE) (x : Nat) : Prop :=
  ∃ slot, slotAt (x / BSIZE) = some slot ∧
    entry (s.disk (s.icache ip).dev).data (s.icache ip).copy slot ≠ 0

theorem Filled.extends {s' : State} {x : Nat} (filled : Filled s ip x)
    (extends' : Extends busy ip s s') : Filled s' ip x := by
  obtain ⟨slot, at', full⟩ := filled
  exact ⟨slot, at', extends'.addr full⟩

theorem patch_nothing (d src : Nat → UInt8) (off : Nat) : patch d off 0 src = d :=
  funext fun x => if_neg (by omega)

theorem patch_patch (d src : Nat → UInt8) (off m n : Nat) :
    patch (patch d off m src) (off + m) n (fun i => src (i + m)) = patch d off (m + n) src := by
  funext x
  unfold patch
  by_cases later : off + m ≤ x
  · have there : x - (off + m) + m = x - off := by omega
    simp only [there, show (off ≤ x ∧ x < off + (m + n)) ↔ off + m ≤ x ∧ x < off + m + n by omega]
    rw [if_neg (show ¬(off ≤ x ∧ x < off + m) by omega)]
  · simp only [show (off ≤ x ∧ x < off + (m + n)) ↔ off ≤ x ∧ x < off + m by omega]
    rw [if_neg (show ¬(off + m ≤ x ∧ x < off + m + n) by omega)]

/-- A change inside a block is the same change of the file. -/
theorem patch_block {d src : Nat → UInt8} {block : Block} {off m : Nat}
    (short : off % BSIZE + m ≤ BSIZE)
    (inside : ∀ x, x / BSIZE = off / BSIZE → d x = block (x % BSIZE)) (x : Nat) :
    (if x / BSIZE = off / BSIZE then patch block (off % BSIZE) m src (x % BSIZE) else d x) =
      patch d off m src x := by
  unfold patch
  by_cases isBn : x / BSIZE = off / BSIZE
  · rw [if_pos isBn, inside x isBn]
    have there : x % BSIZE - off % BSIZE = x - off := by
      unfold BSIZE at *
      omega
    simp only [there, show (off % BSIZE ≤ x % BSIZE ∧ x % BSIZE < off % BSIZE + m) ↔
      off ≤ x ∧ x < off + m by unfold BSIZE at *; omega]
  · rw [if_neg isBn, if_neg (by unfold BSIZE at *; omega)]

/-- The loop of `writei` fills the blocks it writes to. -/
theorem writeLoop_sat (sound : Sound busy s) (live : Live s ip)
    (notDev : (s.icache ip).copy.type ≠ .T_DEV) (fuel : Nat) (src : Nat → UInt8) (off n : Nat)
    (enough : n ≤ fuel) (may : busy = some ip ∨ off + n ≤ (s.icache ip).copy.size)
    (inside : off + n ≤ MAXFILE * BSIZE) :
    Sat (OutOfBlocks busy) (fun s' => Extends busy ip s s' ∧ (∀ x, off ≤ x → x < off + n → Filled s' ip x) ∧
      (s'.file ip).data = patch (s.file ip).data off n src)
      (State.writeLoop ip fuel s src off n) := by
  induction fuel generalizing s src off n with
  | zero =>
    obtain rfl := Nat.le_zero.mp enough
    exact .ok ⟨.refl ip sound, fun x low high => by omega, (patch_nothing ..).symm⟩
  | succ fuel ih =>
    unfold writeLoop
    split
    · rename_i none_left
      subst none_left
      exact .ok ⟨.refl ip sound, fun x low high => by omega, (patch_nothing ..).symm⟩
    · rename_i more
      have size : BSIZE = 512 := rfl
      obtain ⟨slot, at'⟩ := exists_slotAt (off / BSIZE)
        (Nat.div_lt_of_lt_mul (by rw [Nat.mul_comm]; omega))
      have may' : busy = some ip ∨
          s.addr ip slot ≠ 0 := by
        refine may.imp_right fun below => ?_
        obtain ⟨slot', at'', full⟩ := slot_below sound live notDev (off / BSIZE) (by
          have := Nat.div_mul_le_self off BSIZE
          omega)
        cases at'.symm.trans at''
        exact full
      refine (bmap_sat sound live at' may').bind fun r result => ?_
      obtain ⟨b, s₁⟩ := r
      obtain ⟨first, file, value, some, -⟩ := result
      simp only at first file value some
      have live₁ := (first.works.live ip).mpr live
      have isData : s₁.isData b = true := value ▸ isData_entry first.sound live₁ _ (value ▸ some)
      generalize step : min n (BSIZE - off % BSIZE) = m
      obtain ⟨second, stored⟩ := patch_extends first.sound live₁ value some at'
        (patch ((s₁.disk (s₁.icache ip).dev).data b) (off % BSIZE) m src)
      have both := first.trans second
      simp only [bread_data isData, bwrite_data isData, bind, Except.bind]
      generalize writing s₁ (s₁.icache ip).dev b
        (patch ((s₁.disk (s₁.icache ip).dev).data b) (off % BSIZE) m src) = s₂ at second stored both
      obtain ⟨addrs, copy⟩ := both.copy
      have rest := Nat.mod_lt off (show 0 < BSIZE by decide)
      refine (ih both.sound ((both.works.live ip).mpr live) (by rw [copy]; exact notDev)
        (fun i => src (i + m)) (off + m) (n - m) (by omega) ?_ (by omega)).weaken ?_
      · rw [copy]
        exact may.imp_right fun below => by
          change off + m + (n - m) ≤ (s.icache ip).copy.size
          omega
      · intro s₃ result
        obtain ⟨third, later, file'⟩ := result
        have bytes : (s₂.file ip).data = patch (s.file ip).data off m src := by
          funext x
          rw [stored, ← file]
          exact patch_block (by omega) (fun _ => file_block at' value some) x
        rw [bytes, patch_patch, show m + (n - m) = n by omega] at file'
        refine ⟨both.trans third, fun x low high => ?_, file'⟩
        by_cases early : x < off + m
        · -- The bytes of this round lie in one block.
          have here : x / BSIZE = off / BSIZE := by
            rw [size] at step rest ⊢
            omega
          have filled : Filled s₁ ip x := ⟨slot, by rw [here, at'], by rwa [← value] at some⟩
          exact (filled.extends second).extends third
        · exact later x (by omega) (by omega)

end Work

end Xv6.Inodes
