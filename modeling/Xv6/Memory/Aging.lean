import Xv6.Memory.PageRuns

/-!
The aging builds. The age of a page is meant to be a shift register of its accessed
bits, and the queue orders the pages by it when a sampling is over.

`increaseProcAge` adds one to the age of the page in slot `i` whenever queue entry `i`
has ever been used, on every swap-in. As long as no swap-in meets such a page, ages are
histories; each swap-in that meets one destroys the register of every page it meets.
-/

namespace Xv6

open List Paging

/-- The accessed bits found since the page in the slot was made resident, latest first. -/
def seen : List Happening → Slot → List Bool
  | [], _ => []
  | .loaded j :: log, i => if j = i then [] else seen log i
  | .sampled bits :: log, i => bits i :: seen log i

/-- The register of a page with these bits: each enters at the top. -/
def register (sel : Selection) (bits : List Bool) : UInt32 :=
  bits.foldr shiftCounter (firstAge sel 0)

/-- What the aging builds compare. -/
def rank (sel : Selection) (age : UInt32) : UInt32 :=
  match sel with
  | .LAPA => countSetBits age
  | _ => age

def Selection.Aging (sel : Selection) : Prop := sel = .NFUA ∨ sel = .LAPA

/-- Ages are access histories. -/
def Observed.Exact (sel : Selection) (s : Observed) : Prop :=
  ∀ i ∈ occupied s.paging.ramPmd, (s.paging.ramPmd i).age = register sel (seen s.log i)

/-- `increaseProcAge` meets no resident page. -/
def Paging.Unraised (m : Paging) : Prop :=
  ∀ i ∈ occupied m.ramPmd, (entryAt m.queue.array i).index = -1

/-- The operation raises no age of a page that is and stays resident. -/
def PageOp.Harmless (sel : Selection) (m : Paging) : PageOp → Prop
  | .swapIn _ _ => m.Unraised
  | .exchange va => ∀ i j, (getVictimIndex sel m).1 = (i : Slot).val →
      getPageIndexDefault m.swapPmd true va = some j → (m.exchanged i j).Unraised
  | _ => True

section Sampling

variable {m m' : Paging} {sel : Selection} {i : Slot} {bits : Slot → Bool}

section

variable (aging : sel.Aging)
include aging

theorem Selection.Aging.queued : sel.Queued := aging.elim .inl fun lapa => .inr (.inl lapa)

/-- The age and the queue entry of the page that is tested. -/
theorem test_aging (acc : Accounted m) (taken : i ∈ occupied m.ramPmd)
    (run : m.test sel bits i.val = .ok m') :
    (∀ k, (m'.ramPmd k).age =
      if k = i then shiftCounter (bits i) (m.ramPmd i).age else (m.ramPmd k).age) ∧
    ∀ e ∈ m'.queue.live, e = ⟨i.val, rank sel (m'.ramPmd i).age⟩ ∨
      e ∈ m.queue.live ∧ e.index ≠ i.val := by
  have isTaken : (m.ramPmd i).occupied = true := mem_occupied.mp taken
  have left := (acc.queued.dequeue taken).1
  have same : m.test sel bits i.val = (((m.dequeue i.val).setRam i
      { m.ramPmd i with age := shiftCounter (bits i) (m.ramPmd i).age }).enqueue
        ⟨i.val, rank sel (shiftCounter (bits i) (m.ramPmd i).age)⟩) := by
    simp only [test, ramSlot_val, Res.ok_bind]
    rcases aging with rfl | rfl
    · simp only [updatePage, if_pos isTaken]
      rfl
    · simp only [updatePage, if_pos isTaken]
      rfl
  rw [same] at run
  cases (enqueue_ok (m := (m.dequeue i.val).setRam i _) left _).symm.trans run
  have age : ∀ k, ((Function.update m.ramPmd i { m.ramPmd i with
      age := shiftCounter (bits i) (m.ramPmd i).age }) k).age =
        if k = i then shiftCounter (bits i) (m.ramPmd i).age else (m.ramPmd k).age := by
    intro k
    by_cases here : k = i
    · subst here
      simp
    · simp [here]
  refine ⟨age, fun e inside => ?_⟩
  have inserted := left.inserted ⟨i.val, rank sel (shiftCounter (bits i) (m.ramPmd i).age)⟩
  rcases mem_cons.mp (inserted.live.mem_iff.mp inside) with new | old
  · refine .inl (new.trans ?_)
    simp [setRam, dequeue]
  · obtain ⟨_, deleted⟩ := acc.queued.deleted taken
    refine .inr ⟨deleted.live.mem_iff.mpr (mem_cons_of_mem _ old), ?_⟩
    exact left.absent (Finset.notMem_erase i _) e old

/-- The aging builds visit every resident page once. -/
theorem sampleOrder_aging (m : Paging) :
    sampleOrder sel m = ((List.finRange MAX_PSYC_PAGES).filter
      (fun i => (m.ramPmd i).occupied)).map (fun i => (i.val : Int)) := by
  rcases aging with rfl | rfl <;> rfl

theorem sampleOrder_nodup (m : Paging) : (sampleOrder sel m).Nodup := by
  rw [sampleOrder_aging aging]
  refine List.Nodup.map (fun i j same => ?_) ((nodup_finRange _).filter _)
  exact Fin.ext (Int.ofNat.inj same)

theorem mem_sampleOrder (m : Paging) (taken : i ∈ occupied m.ramPmd) :
    (i.val : Int) ∈ sampleOrder sel m := by
  rw [sampleOrder_aging aging]
  exact mem_map.mpr ⟨i, mem_filter.mpr ⟨mem_finRange i, mem_occupied.mp taken⟩, rfl⟩

/-- After a sampling every register has taken its bit and every entry is in line with it. -/
theorem sampling_aging (acc : Accounted m)
    (run : (sampleOrder sel m).foldlM (Paging.test sel bits) m = .ok m') :
    SamePages m m' ∧ Accounted m' ∧
    (∀ i ∈ occupied m.ramPmd, (m'.ramPmd i).age = shiftCounter (bits i) (m.ramPmd i).age) ∧
    ∀ e ∈ m'.queue.live, ∃ i ∈ occupied m'.ramPmd,
      e = ⟨i.val, rank sel (m'.ramPmd i).age⟩ := by
  -- the pages still to come have their old age, the others the new one and its rank
  let I : List Int → Paging → Prop := fun rest m₁ => rest.Nodup ∧
    (∀ i ∈ occupied m.ramPmd, (m₁.ramPmd i).age =
      if (i.val : Int) ∈ rest then (m.ramPmd i).age else shiftCounter (bits i) (m.ramPmd i).age) ∧
    ∀ e ∈ m₁.queue.live, ∀ i : Slot, e.index = i.val → (i.val : Int) ∉ rest →
      e.priority = rank sel (m₁.ramPmd i).age
  have start : I (sampleOrder sel m) m := by
    refine ⟨sampleOrder_nodup aging m, fun i taken => ?_, fun e inside i index unlisted => ?_⟩
    · rw [if_pos (mem_sampleOrder aging m taken)]
    · obtain ⟨k, taken, same⟩ := acc.queued.live_slot inside
      obtain rfl : i = k := Fin.ext (Int.ofNat.inj (index.symm.trans same))
      exact absurd (mem_sampleOrder aging m taken) unlisted
  obtain ⟨⟨_, ages, ranks⟩, same, acc'⟩ := Observed.tests_induction aging.queued (I := I)
    (fun i rest m₁ m₂ acc₁ taken ahead run => by
      obtain ⟨distinct, ages, ranks⟩ := ahead
      obtain ⟨unvisited, distinct⟩ := nodup_cons.mp distinct
      obtain ⟨age, entries⟩ := test_aging aging acc₁ taken run
      refine ⟨distinct, fun k member => ?_, fun e inside k index visited => ?_⟩
      · rw [age]
        by_cases here : k = i
        · subst here
          rw [if_pos rfl, if_neg unvisited, ages k member, if_pos (mem_cons_self ..)]
        · have apart : ¬ (k.val : Int) = i.val := fun same => here (Fin.ext (Int.ofNat.inj same))
          rw [if_neg here, ages k member]
          simp [apart]
      · rcases entries e inside with rfl | ⟨old, apart⟩
        · obtain rfl : i = k := Fin.ext (Int.ofNat.inj index)
          rfl
        · have other : k ≠ i := fun same => apart (by rw [index, same])
          rw [age, if_neg other]
          refine ranks e old k index fun listed => ?_
          rcases mem_cons.mp listed with same | later
          · exact apart (index.trans same)
          · exact visited later)
    (sampleOrder sel m) acc (fun _ => sampleOrder_resident aging.queued acc) run start
  refine ⟨same, acc', fun i taken => by simpa using ages i taken, fun e inside => ?_⟩
  obtain ⟨i, taken, index⟩ := acc'.queued.live_slot inside
  refine ⟨i, taken, ?_⟩
  rw [← ranks e inside i index not_mem_nil, ← index]

/-- The page chosen right after a sampling has the least rank. -/
theorem sampling_victim (acc : Accounted m)
    (run : (sampleOrder sel m).foldlM (Paging.test sel bits) m = .ok m')
    (chosen : (getVictimIndex sel m').1 = i.val) :
    i ∈ occupied m'.ramPmd ∧ ∀ k ∈ occupied m'.ramPmd,
      (rank sel (m'.ramPmd i).age).toNat ≤ (rank sel (m'.ramPmd k).age).toNat := by
  obtain ⟨_, acc', _, ranks⟩ := sampling_aging aging acc run
  have nonempty : (occupied m'.ramPmd).Nonempty := by
    by_contra empty
    have none := acc'.queued.size
    rw [Finset.not_nonempty_iff_eq_empty.mp empty, Finset.card_empty] at none
    rcases aging with rfl | rfl <;> simp [getVictimIndex, none] at chosen
  obtain ⟨v, taken, victim, e, inside, index, least⟩ := acc'.victim aging.queued nonempty
  rw [victim] at chosen
  obtain rfl : v = i := Fin.ext (Int.ofNat.inj chosen)
  have priority : ∀ e ∈ m'.queue.live, ∀ k : Slot, e.index = k.val →
      e.priority = rank sel (m'.ramPmd k).age := by
    intro e inside k index
    obtain ⟨k', _, rfl⟩ := ranks e inside
    obtain rfl : k' = k := Fin.ext (Int.ofNat.inj index)
    rfl
  refine ⟨taken, fun k member => ?_⟩
  obtain ⟨e', inside', index'⟩ := acc'.queued.exists_live member
  rw [← priority e inside v index, ← priority e' inside' k index']
  exact least e' inside'

end

end Sampling

section Runs

variable {m m₁ : Paging} {sel : Selection} {s s' : Observed} {op : PageOp} {i : Slot}

/-- `increaseProcAge` adds one to the age of exactly the pages it meets. -/
theorem RaisedBy.age_eq (raised : RaisedBy (List.range MAX_PRIO_ARR) m m₁)
    (taken : i ∈ occupied m.ramPmd) :
    (m₁.ramPmd i).age = (m.ramPmd i).age +
      if (entryAt m.queue.array i).index = -1 then 0 else 1 := by
  have low : i.val < MAX_PRIO_ARR := by
    have := i.isLt
    unfold MAX_PRIO_ARR
    omega
  have met : (m.raisedAt i.val).isSome ↔ (entryAt m.queue.array i).index ≠ -1 := by
    simp [Paging.raisedAt, mem_occupied.mp taken]
  rw [raised.age]
  congr 1
  split
  · rename_i clean
    rw [countP_eq_zero.mpr]
    · rfl
    · rintro t _ hit
      simp only [decide_eq_true_eq] at hit
      obtain ⟨rfl, isSome⟩ := hit
      exact met.mp isSome clean
  · rename_i used
    have once : (List.range MAX_PRIO_ARR).countP
        (fun t => t = i.val ∧ (m.raisedAt t).isSome) = (List.range MAX_PRIO_ARR).count i.val := by
      refine countP_congr fun t _ => ?_
      simp only [decide_eq_true_eq, beq_iff_eq]
      constructor
      · exact fun hit => hit.1
      · rintro rfl
        exact ⟨rfl, met.mpr used⟩
    rw [once, count_eq_one_of_mem nodup_range (mem_range.mpr low)]
    rfl

theorem RaisedBy.ages_kept_iff (raised : RaisedBy (List.range MAX_PRIO_ARR) m m₁) :
    (∀ i ∈ occupied m.ramPmd, (m₁.ramPmd i).age = (m.ramPmd i).age) ↔ m.Unraised := by
  refine forall₂_congr fun i taken => ?_
  rw [raised.age_eq taken]
  split
  · rename_i clean
    simp [clean]
  · rename_i used
    simp [used]

theorem register_nil (aging : sel.Aging) (age : UInt32) : firstAge sel age = register sel [] := by
  rcases aging with rfl | rfl <;> rfl

/-- A page has been made resident in slot `i` while the others kept the ages of `m`. -/
theorem exact_loaded (aging : sel.Aging) {log : List Happening} {S : Finset Slot} {m₂ : Paging}
    (m₁ : Paging) (outside : i ∉ S) (exact : ∀ k ∈ S, (m.ramPmd k).age = register sel (seen log k))
    (filled : occupied m₂.ramPmd = insert i S)
    (others : ∀ k ≠ i, (m₂.ramPmd k).age = (m₁.ramPmd k).age)
    (first : ∃ age, (m₂.ramPmd i).age = firstAge sel age) :
    Observed.Exact sel ⟨m₂, .loaded i :: log⟩ ↔
      ∀ k ∈ S, (m₁.ramPmd k).age = (m.ramPmd k).age := by
  have apart : ∀ k ∈ S, k ≠ i := fun k member same => outside (same ▸ member)
  unfold Observed.Exact
  rw [filled]
  constructor
  · intro ages k member
    have := ages k (Finset.mem_insert_of_mem member)
    rw [others k (apart k member), seen, if_neg (Ne.symm (apart k member))] at this
    rw [this, exact k member]
  · intro kept k member
    rcases Finset.mem_insert.mp member with rfl | old
    · obtain ⟨age, eq⟩ := first
      rw [eq, seen, if_pos rfl, register_nil aging]
    · rw [others k (apart k old), seen, if_neg (Ne.symm (apart k old)), kept k old, exact k old]

theorem entered_age_other {k : Slot} (m : Paging) (sel : Selection) (other : k ≠ i) :
    (m.entered sel i).ramPmd k = m.ramPmd k := by
  simp [entered, setRam, other]

theorem entered_age_self (m : Paging) (sel : Selection) (i : Slot) :
    ((m.entered sel i).ramPmd i).age = firstAge sel (m.ramPmd i).age := by
  simp [entered, setRam]

theorem entered_occupied (m : Paging) (sel : Selection) (i : Slot) :
    occupied (m.entered sel i).ramPmd = occupied m.ramPmd :=
  occupied_congr fun k => by
    by_cases here : k = i
    · subst here
      simp [entered, setRam]
    · rw [entered_age_other m sel here]

theorem Observed.exact_next_iff (aging : sel.Aging) (acc : Accounted s.paging)
    (exact : s.Exact sel) (run : s.next sel op = .ok s') :
    s'.Exact sel ↔ op.Harmless sel s.paging := by
  have build := aging.queued
  cases op with
  | sample bits =>
    obtain ⟨m, tests, rfl⟩ := next_sample run
    obtain ⟨same, _, ages, _⟩ := sampling_aging aging acc tests
    refine iff_of_true (fun i taken => ?_) trivial
    have member : i ∈ occupied s.paging.ramPmd := same.resident ▸ taken
    rw [ages i member, exact i member]
    rfl
  | alloc a d =>
    obtain ⟨_, i, vacant, rfl⟩ := next_alloc build acc run
    refine iff_of_true ?_ trivial
    refine (exact_loaded aging s.paging vacant exact ?_ (fun k other => ?_) ?_).mpr fun _ _ => rfl
    · rw [entered_occupied]
      simp [occupy, setRam, occupied_update]
    · rw [entered_age_other _ _ other]
      simp [occupy, setRam, other]
    · exact ⟨_, entered_age_self ..⟩
  | evict =>
    obtain ⟨_, i, taken, j, _, _, rfl⟩ := next_evict build acc run
    refine iff_of_true (fun k member => ?_) trivial
    simp only [pageOut_resident] at member
    obtain ⟨other, old⟩ := Finset.mem_erase.mp member
    simp only [pageOut_eq, Function.update_of_ne other]
    exact exact k old
  | swapIn va d =>
    obtain ⟨_, j, m₁, i, vacant, _, aged, rfl⟩ := next_swapIn build acc run
    obtain ⟨m₁', aged', raised⟩ := increaseProcAge_raised (m := s.paging.vacateSwap j) acc.queued
    cases aged.symm.trans aged'
    have resident : occupied m₁.ramPmd = occupied s.paging.ramPmd := raised.same.resident
    refine (exact_loaded aging m₁ vacant exact ?_ (fun k other => ?_) ?_).trans raised.ages_kept_iff
    · change occupied ((m₁.occupy i va d).entered sel i).ramPmd = _
      rw [entered_occupied, ← resident]
      simp [occupy, setRam, occupied_update]
    · change (((m₁.occupy i va d).entered sel i).ramPmd k).age = _
      rw [entered_age_other _ _ other]
      simp [occupy, setRam, other]
    · exact ⟨_, entered_age_self (m₁.occupy i va d) sel i⟩
  | exchange va =>
    obtain ⟨_, i, taken, j, m₁, victim, found, aged, rfl⟩ := next_exchange build acc run
    obtain ⟨m₁', aged', raised⟩ := increaseProcAge_raised (m := s.paging.exchanged i j)
      (acc.queued.dequeue taken).1
    cases aged.symm.trans aged'
    have left : occupied (s.paging.exchanged i j).ramPmd = (occupied s.paging.ramPmd).erase i :=
      pageOut_resident s.paging i j
    have kept : ∀ k ∈ (occupied s.paging.ramPmd).erase i,
        ((s.paging.exchanged i j).ramPmd k).age = register sel (seen s.log k) := by
      intro k member
      obtain ⟨other, old⟩ := Finset.mem_erase.mp member
      simp only [exchanged, pageOut_eq, Function.update_of_ne other]
      exact exact k old
    have page := (getPageIndexDefault_some found).1
    refine (exact_loaded (m := s.paging.exchanged i j) aging m₁
      (Finset.notMem_erase i _) kept ?_ (fun k other => ?_) ?_).trans ?_
    · rw [entered_occupied, ← left, ← raised.same.resident]
      simp [setRam, occupied_update, page]
    · rw [entered_age_other _ _ other]
      simp [setRam, other]
    · exact ⟨_, entered_age_self ..⟩
    · rw [← left, raised.ages_kept_iff]
      constructor
      · intro unraised i' j' chosen found'
        rw [victim] at chosen
        obtain rfl : i = i' := Fin.ext (Int.ofNat.inj chosen)
        cases found.symm.trans found'
        exact unraised
      · intro harmless
        exact harmless i j (by rw [victim]) found

theorem Observed.exact_run (aging : sel.Aging) {s₀ : Observed} {ops : List PageOp}
    (run : Lts.Run (fun s op s' => s.next sel op = .ok s' ∧ op.Harmless sel s.paging) s₀ ops s)
    (acc : Accounted s₀.paging) (exact : s₀.Exact sel) : Accounted s.paging ∧ s.Exact sel :=
  run.invariant (I := fun s => Accounted s.paging ∧ s.Exact sel)
    (fun _ _ _ before step => ⟨next_accounted aging.queued before.1 step.1,
      (exact_next_iff aging before.1 before.2 step.1).mpr step.2⟩) ⟨acc, exact⟩

end Runs

section Ranks

theorem shiftCounter_toNat (bit : Bool) (age : UInt32) :
    (shiftCounter bit age).toNat = (if bit then 2 ^ 31 else 0) + age.toNat / 2 := by
  have low : age.toNat / 2 < 2 ^ 31 := by
    have := age.toNat_lt
    omega
  cases bit with
  | false => simp [shiftCounter, Nat.shiftRight_eq_div_pow]
  | true =>
    have joined := Nat.two_pow_add_eq_or_of_lt low 1
    simp only [shiftCounter, if_true, UInt32.toNat_or, UInt32.toNat_shiftRight]
    simpa [Nat.shiftRight_eq_div_pow] using joined.symm

theorem countBits_le (fuel b : Nat) (small : b ≤ 32) (n : UInt32) (bound : n.toNat < 2 ^ b) :
    (countBits fuel n).toNat ≤ b := by
  induction fuel generalizing b n with
  | zero => simp [countBits]
  | succ fuel ih =>
    unfold countBits
    split
    · simp
    · rename_i nonzero
      have pos : n.toNat ≠ 0 := fun zero => nonzero (UInt32.toNat_inj.mp zero)
      obtain ⟨b, rfl⟩ : ∃ b', b = b' + 1 := by
        refine Nat.exists_eq_succ_of_ne_zero ?_
        rintro rfl
        omega
      have half : (n >>> 1).toNat < 2 ^ b := by
        simp only [UInt32.toNat_shiftRight]
        simp [Nat.shiftRight_eq_div_pow]
        omega
      have rest := ih b (by omega) (n >>> 1) half
      have bit : (n &&& 1).toNat ≤ 1 := by
        rw [UInt32.toNat_and]
        exact Nat.and_le_right
      rw [UInt32.toNat_add, Nat.mod_eq_of_lt (by omega)]
      omega

variable {bits : List Bool}

/-- A page of the `LAPA` build that was accessed at every sampling keeps all its bits. -/
theorem register_all_true (always : ∀ b ∈ bits, b = true) :
    register .LAPA bits = 0xFFFFFFFF := by
  induction bits with
  | nil => rfl
  | cons b bits ih =>
    have rest := ih fun b inside => always b (mem_cons_of_mem _ inside)
    rw [always b (mem_cons_self ..)]
    change shiftCounter true (register .LAPA bits) = _
    rw [rest]
    rfl

/-- A page that was not accessed in the last interval has a lower rank than one that was
accessed in all of them. -/
theorem rank_lt {sel : Selection} (aging : sel.Aging) (always : ∀ b ∈ true :: bits, b = true)
    (age : UInt32) :
    (rank sel (shiftCounter false age)).toNat < (rank sel (register sel (true :: bits))).toNat := by
  have low : (shiftCounter false age).toNat < 2 ^ 31 := by
    have := age.toNat_lt
    simp [shiftCounter_toNat]
    omega
  rcases aging with rfl | rfl
  · have high : (register .NFUA (true :: bits)).toNat ≥ 2 ^ 31 := by
      change (shiftCounter true (register .NFUA bits)).toNat ≥ 2 ^ 31
      simp [shiftCounter_toNat]
    exact Nat.lt_of_lt_of_le low high
  · rw [register_all_true always]
    have few := countBits_le 32 31 (by decide) _ low
    exact Nat.lt_of_le_of_lt few (by decide)

end Ranks

/-- Along every run in which `increaseProcAge` meets no resident page, ages are access
histories, and a victim chosen right after a sampling has the least rank: no page that was
accessed in every interval is chosen while one is resident that was not accessed in the
last. From such a state, an operation keeps the ages histories exactly if it is harmless. -/
theorem ages_are_access_histories {sel : Selection} (aging : sel.Aging) {s₀ s : Observed}
    {ops : List PageOp} (acc : Accounted s₀.paging) (exact : s₀.Exact sel)
    (run : Lts.Run (fun s op s' => s.next sel op = .ok s' ∧ op.Harmless sel s.paging) s₀ ops s) :
    s.Exact sel ∧
    (∀ op s', s.next sel op = .ok s' → (s'.Exact sel ↔ op.Harmless sel s.paging)) ∧
    ∀ bits s', s.next sel (.sample bits) = .ok s' → ∀ v : Slot,
      (getVictimIndex sel s'.paging).1 = v.val →
        v ∈ occupied s'.paging.ramPmd ∧
        (∀ k ∈ occupied s'.paging.ramPmd, (rank sel (s'.paging.ramPmd v).age).toNat ≤
          (rank sel (s'.paging.ramPmd k).age).toNat) ∧
        ((∀ b ∈ seen s'.log v, b = true) →
          ∀ k ∈ occupied s'.paging.ramPmd, (seen s'.log k).head? = some true) := by
  obtain ⟨acc, exact⟩ := Observed.exact_run aging run acc exact
  refine ⟨exact, fun op s' step => Observed.exact_next_iff aging acc exact step, ?_⟩
  intro bits s' step v chosen
  have exact' := (Observed.exact_next_iff aging acc exact step).mpr trivial
  obtain ⟨m, tests, rfl⟩ := Observed.next_sample step
  obtain ⟨taken, least⟩ := sampling_victim aging acc tests chosen
  obtain ⟨same, _, ages, _⟩ := sampling_aging aging acc tests
  refine ⟨taken, least, fun always k member => ?_⟩
  cases last : bits k with
  | true => simp [seen, last]
  | false =>
    have accessed : bits v = true := always _ (List.mem_cons_self ..)
    have accessedBefore : ∀ b ∈ true :: seen s.log v, b = true := by
      simpa [seen, accessed] using always
    have lower := rank_lt aging accessedBefore (s.paging.ramPmd k).age
    have old : k ∈ occupied s.paging.ramPmd := same.resident ▸ member
    have chosenAge : (m.ramPmd v).age = register sel (true :: seen s.log v) := by
      rw [exact' v taken, seen, accessed]
    have := least k member
    simp only [chosenAge, ages k old, last] at this
    omega

theorem ages_are_access_histories_sample :
    ∃ s, Observed.Runs .LAPA .start
        [.alloc 0 1, .alloc PGSIZE 1, .sample (fun i => i = 0), .alloc (2 * PGSIZE) 1] s ∧
      s.Exact .LAPA := by
  obtain ⟨s, run, _⟩ := Observed.exists_run .LAPA .start
    [.alloc 0 1, .alloc PGSIZE 1, .sample (fun i => i = 0), .alloc (2 * PGSIZE) 1]
    (fun _ => true) (by decide +kernel)
  refine ⟨s, run, (ages_are_access_histories (.inr rfl) (accounted_reset _) ?_
    (run.mono fun op inside s s' step => ⟨step, ?_⟩)).1⟩
  · intro i taken
    simp [Observed.start, Paging.reset, Paging.initArrays, occupied_initPmdArr] at taken
  · simp only [List.mem_cons, List.not_mem_nil, or_false] at inside
    rcases inside with rfl | rfl | rfl | rfl <;> trivial

/-- After growing by 16 pages in the `LAPA` build, the process uses its five latest pages and
touches a page that is in the file, which is swapped in. It goes on using page 18, in slot 4,
and touches another page in the file: page 18, accessed in every interval, is evicted. -/
theorem lapa_evicts_page_in_use :
    ∃ s, Observed.Runs .LAPA .start
        (Observed.growth (fun i => i = 0 ∨ i = 2) ++
          [.sample (fun i => i.val ≤ 4), .evict, .swapIn (4 * PGSIZE) 1,
           .sample (fun i => i = 0 ∨ i = 2 ∨ i = 4 ∨ i = 5)]) s ∧
      (s.paging.ramPmd 4).age ≠ register .LAPA (seen s.log 4) ∧
      (getVictimIndex .LAPA s.paging).1 = (4 : Slot).val ∧
      seen s.log 4 = [true, true] ∧
      7 ∈ occupied s.paging.ramPmd ∧ (seen s.log 7).head? = some false := by
  obtain ⟨s, run, found⟩ := Observed.exists_run .LAPA .start
    (Observed.growth (fun i => i = 0 ∨ i = 2) ++
      [.sample (fun i => i.val ≤ 4), .evict, .swapIn (4 * PGSIZE) 1,
       .sample (fun i => i = 0 ∨ i = 2 ∨ i = 4 ∨ i = 5)])
    (fun s => (s.paging.ramPmd 4).age ≠ register .LAPA (seen s.log 4) ∧
      (getVictimIndex .LAPA s.paging).1 = (4 : Slot).val ∧
      seen s.log 4 = [true, true] ∧
      7 ∈ occupied s.paging.ramPmd ∧ (seen s.log 7).head? = some false) (by decide +kernel)
  exact ⟨s, run, of_decide_eq_true found⟩

end Xv6
