import A100Partitioning.Demos.RangeLists
import Mathlib.Algebra.Order.Ring.Star
import Mathlib.Data.Int.Star
import Mathlib.Data.Nat.Cast.Order.Ring
import Mathlib.Tactic.Common
import Mathlib.Tactic.NormNum

/-!
# Where the blocks of a slice ran

For a range of SMs, the dynamic-mask demo enables each TPC that has one of them.  When a slice
has finished, each of its blocks is counted as inside or outside the range by the number of the
SM that it ran on.
-/

namespace A100Partitioning.Demos

open Function

/-! ## The code -/

/-- `tpc_of_sm`. -/
def tpcOfSm (device : Topology) (sm : ℤ) : ℤ :=
  if sm < 0 ∨ (device.smsPerTpc : ℤ) ≤ 0 then -1
  else
    let tpc := sm / device.smsPerTpc
    if tpc < 0 ∨ (device.numTpcs : ℤ) ≤ tpc then -1 else tpc

/-- What is counted in the loop over the blocks. -/
structure Tally where
  tpcCounts : ℤ → ℕ := fun _ => 0
  smSeen : ℤ → Bool := fun _ => false
  smidMin : ℤ := 2 ^ 31 - 1
  smidMax : ℤ := -2 ^ 31
  inside : ℕ := 0
  outside : ℕ := 0
  invalid : ℕ := 0
  distinctSmidCount : ℕ := 0

/-- The part of the loop's body about the SMs that were seen. -/
def Tally.see (device : Topology) (t : Tally) (sm : ℤ) : Tally :=
  if 0 ≤ sm ∧ sm < device.numSms then
    { t with
      smSeen := update t.smSeen sm true
      distinctSmidCount :=
        if t.smSeen sm then t.distinctSmidCount else t.distinctSmidCount + 1
      smidMin := min t.smidMin sm
      smidMax := max t.smidMax sm }
  else t

/-- The body of the loop. -/
def Tally.step (device : Topology) (lo hi : ℤ) (t : Tally) (sm : ℤ) : Tally :=
  let t := t.see device sm
  let obsTpc := tpcOfSm device sm
  if obsTpc < 0 then { t with invalid := t.invalid + 1 }
  else
    let t := { t with tpcCounts := update t.tpcCounts obsTpc (t.tpcCounts obsTpc + 1) }
    if lo ≤ sm ∧ sm ≤ hi then { t with inside := t.inside + 1 }
    else { t with outside := t.outside + 1 }

/-- The loop. -/
def tally (device : Topology) (lo hi : ℤ) (smids : List ℤ) : Tally :=
  smids.foldl (Tally.step device lo hi) {}

/-! ## What is meant -/

/-- The SM is on a TPC that the mask has a bit for and does not disable. -/
def IsEnabled (device : Topology) (mask : BitVec 128) (sm : ℤ) : Prop :=
  ∃ tpc < 128, tpcOfSm device sm = (tpc : ℕ) ∧ mask.getLsbD tpc = false

/-- No block on a TPC that is enabled for the range is counted as outside. -/
def NeverOutside (device : Topology) (r : SmRange) : Prop :=
  ∀ mask, r.disableMask = some mask → ∀ before sm, IsEnabled device mask sm →
    (tally device r.lo r.hi (before ++ [sm])).outside = (tally device r.lo r.hi before).outside

/-- As far as the range is on TPCs, it starts and ends where a TPC does. -/
def HasWholeTpcs (device : Topology) (r : SmRange) : Prop :=
  let numTpcSms : ℤ := device.numTpcs * device.smsPerTpc
  numTpcSms ≤ r.lo ∨
    (device.smsPerTpc : ℤ) ∣ r.lo ∧ (numTpcSms ≤ r.hi ∨ (device.smsPerTpc : ℤ) ∣ r.hi + 1)

/-! ## Counting -/

section Counting

variable {device : Topology} {lo hi sm : ℤ}

theorem tally_concat (before : List ℤ) (sm : ℤ) :
    tally device lo hi (before ++ [sm]) = (tally device lo hi before).step device lo hi sm := by
  rw [tally, List.foldl_append]
  rfl

theorem Tally.see_counts (device : Topology) (t : Tally) (sm : ℤ) :
    (t.see device sm).inside = t.inside ∧ (t.see device sm).outside = t.outside ∧
      (t.see device sm).invalid = t.invalid := by
  rw [Tally.see]
  split_ifs <;> exact ⟨rfl, rfl, rfl⟩

theorem Tally.step_sum (t : Tally) (sm : ℤ) :
    (t.step device lo hi sm).inside + (t.step device lo hi sm).outside +
      (t.step device lo hi sm).invalid = t.inside + t.outside + t.invalid + 1 := by
  obtain ⟨hinside, houtside, hinvalid⟩ := t.see_counts device sm
  rw [Tally.step]
  split_ifs
  · dsimp only
    omega
  · dsimp only
    omega
  · dsimp only
    omega

theorem tally_sum (smids : List ℤ) :
    (tally device lo hi smids).inside + (tally device lo hi smids).outside +
      (tally device lo hi smids).invalid = smids.length := by
  induction smids using List.reverseRecOn with
  | nil => rfl
  | append_singleton before sm ih =>
      rw [tally_concat, Tally.step_sum, ih, List.length_append, List.length_singleton]

theorem Tally.step_outside_iff (t : Tally) (sm : ℤ) :
    (t.step device lo hi sm).outside = t.outside ↔
      tpcOfSm device sm < 0 ∨ lo ≤ sm ∧ sm ≤ hi := by
  obtain ⟨-, houtside, -⟩ := t.see_counts device sm
  rw [Tally.step]
  split_ifs with htpc hrange
  · exact iff_of_true houtside (.inl htpc)
  · exact iff_of_true houtside (.inr hrange)
  · refine iff_of_false (fun h => ?_) (not_or.mpr ⟨htpc, hrange⟩)
    dsimp only at h
    omega

theorem tpcOfSm_eq_natCast_iff {tpc : ℕ} :
    tpcOfSm device sm = tpc ↔
      ∃ s : ℕ, sm = s ∧ s / device.smsPerTpc = tpc ∧ tpc < device.numTpcs := by
  have hpos : (0 : ℤ) < device.smsPerTpc := Nat.cast_pos.mpr device.smsPerTpc_pos
  rw [tpcOfSm]
  by_cases hsm : sm < 0
  · rw [if_pos (.inl hsm)]
    exact iff_of_false (by omega) fun ⟨s, hs, _⟩ => by omega
  · obtain ⟨s, rfl⟩ := Int.eq_ofNat_of_zero_le (not_lt.mp hsm)
    rw [if_neg (not_or.mpr ⟨hsm, not_le.mpr hpos⟩)]
    simp only [← Int.natCast_ediv]
    by_cases hlt : s / device.smsPerTpc < device.numTpcs
    · have hnonneg : ¬ ((s / device.smsPerTpc : ℕ) : ℤ) < 0 := not_lt.mpr (Nat.cast_nonneg _)
      rw [if_neg (not_or.mpr ⟨hnonneg, not_le.mpr (Nat.cast_lt.mpr hlt)⟩)]
      constructor
      · intro h
        obtain rfl := Int.ofNat.inj h
        exact ⟨s, rfl, rfl, hlt⟩
      · rintro ⟨s', hs, rfl, -⟩
        obtain rfl := Int.ofNat.inj hs
        rfl
    · rw [if_pos (.inr (Nat.cast_le.mpr (not_lt.mp hlt)))]
      refine iff_of_false (by omega) ?_
      rintro ⟨s', hs, rfl, hlt'⟩
      obtain rfl := Int.ofNat.inj hs
      exact hlt hlt'

end Counting

/-! ## Masks -/

section Masks

variable {device : Topology}

theorem getLsbD_one_shiftLeft {tpc : ℕ} (htpc : tpc < 128) (i : ℕ) :
    ((1 : BitVec 128) <<< tpc).getLsbD i = true ↔ i = tpc := by
  have hone (j : ℕ) : (1 : BitVec 128).getLsbD j = decide (j = 0) := by
    rw [show (1 : BitVec 128) = 1#128 from rfl, BitVec.getLsbD_one]
    rfl
  rw [BitVec.getLsbD_shiftLeft, hone]
  simp only [Bool.and_eq_true, Bool.not_eq_true', decide_eq_true_eq, decide_eq_false_iff_not]
  omega

theorem foldlM_enableTpcOf {first count : ℕ} {mask mask' : BitVec 128}
    (h : (List.range' first count).foldlM (enableTpcOf device) mask = some mask') (tpc : ℕ) :
    mask'.getLsbD tpc = true ↔ mask.getLsbD tpc = true ∨
      ∃ sm, first ≤ sm ∧ sm < first + count ∧ sm / device.smsPerTpc = tpc ∧
        tpc < device.numTpcs := by
  induction count generalizing first mask with
  | zero =>
      cases h
      exact (or_iff_left fun ⟨sm, hle, hlt, _⟩ => by omega).symm
  | succ count ih =>
      rw [List.range'_succ, List.foldlM_cons] at h
      obtain ⟨next, hnext, h⟩ := Option.bind_eq_some_iff.mp h
      have hfirst : next.getLsbD tpc = true ↔ mask.getLsbD tpc = true ∨
          first / device.smsPerTpc = tpc ∧ tpc < device.numTpcs := by
        rw [enableTpcOf] at hnext
        split_ifs at hnext with hlt hwidth
        · obtain rfl := Option.some_inj.mp hnext
          rw [BitVec.getLsbD_or, Bool.or_eq_true, getLsbD_one_shiftLeft hwidth]
          refine or_congr_right ⟨?_, fun h => h.1.symm⟩
          rintro rfl
          exact ⟨rfl, hlt⟩
        · obtain rfl := Option.some_inj.mp hnext
          refine (or_iff_left ?_).symm
          rintro ⟨rfl, hlt'⟩
          exact hlt hlt'
      rw [ih h, hfirst, or_assoc]
      refine or_congr_right ⟨?_, ?_⟩
      · rintro (⟨heq, hlt⟩ | ⟨sm, hle, hsm, heq⟩)
        · exact ⟨first, le_rfl, by omega, heq, hlt⟩
        · exact ⟨sm, by omega, by omega, heq⟩
      · rintro ⟨sm, hle, hsm, heq⟩
        rcases hle.eq_or_lt with rfl | hlt
        · exact .inl heq
        · exact .inr ⟨sm, hlt, by omega, heq⟩

/-- The SMs that are enabled are those on the TPCs of the range. -/
theorem isEnabled_iff {lo hi : ℕ} {mask : BitVec 128}
    (hmask : buildDisableMask device lo hi = some mask) {sm : ℕ} :
    IsEnabled device mask sm ↔ sm / device.smsPerTpc < device.numTpcs ∧
      ∃ s, lo ≤ s ∧ s ≤ hi ∧ s / device.smsPerTpc = sm / device.smsPerTpc := by
  obtain ⟨enableMask, henable, hmask⟩ := Option.bind_eq_some_iff.mp hmask
  obtain rfl := Option.some_inj.mp hmask
  have hbits := foldlM_enableTpcOf henable
  rw [Int.toNat_natCast] at hbits
  constructor
  · rintro ⟨tpc, hwidth, htpc, hbit⟩
    obtain ⟨s, hs, rfl, hlt⟩ := tpcOfSm_eq_natCast_iff.mp htpc
    obtain rfl := Int.ofNat.inj hs
    rw [BitVec.getLsbD_not, decide_eq_true hwidth, Bool.true_and, Bool.not_eq_false'] at hbit
    obtain ⟨s, hlo, hhi, heq, -⟩ := ((hbits _).mp hbit).resolve_left (by simp)
    exact ⟨hlt, s, hlo, by omega, heq⟩
  · rintro ⟨hlt, s, hlo, hhi, heq⟩
    have hset := (hbits (sm / device.smsPerTpc)).mpr (.inr ⟨s, hlo, by omega, heq, hlt⟩)
    refine ⟨_, BitVec.lt_of_getLsbD hset, tpcOfSm_eq_natCast_iff.mpr ⟨sm, rfl, rfl, hlt⟩, ?_⟩
    rw [BitVec.getLsbD_not, hset, Bool.not_true, Bool.and_false]

end Masks

/-! ## Ranges -/

section Agreement

variable {device : Topology}

/-- The range that is enabled is the one that is asked for where no TPC is cut. -/
theorem hasWholeTpcs_iff {lo hi : ℕ} (hle : lo ≤ hi) (mask : Option (BitVec 128)) :
    HasWholeTpcs device ⟨lo, hi, mask⟩ ↔
      ∀ s sm, lo ≤ s → s ≤ hi → s / device.smsPerTpc = sm / device.smsPerTpc →
        sm / device.smsPerTpc < device.numTpcs → lo ≤ sm ∧ sm ≤ hi := by
  have hpos : 0 < device.smsPerTpc := device.smsPerTpc_pos
  rw [HasWholeTpcs]
  dsimp only
  norm_cast
  generalize device.smsPerTpc = d at hpos ⊢
  constructor
  · rintro hwhole s sm hlo hhi heq hlt
    rcases hwhole with hbeyond | ⟨⟨q, rfl⟩, hend⟩
    · have hge := (Nat.le_div_iff_mul_le hpos).mpr (hbeyond.trans hlo)
      omega
    · constructor
      · have hge := (Nat.le_div_iff_mul_le hpos).mpr ((mul_comm q d).trans_le hlo)
        rw [heq, Nat.le_div_iff_mul_le hpos] at hge
        exact (mul_comm d q).trans_le hge
      · rcases hend with hbeyond | ⟨p, hp⟩
        · exact ((Nat.div_lt_iff_lt_mul hpos).mp hlt).le.trans hbeyond
        · have hbelow : s < p * d := by
            rw [mul_comm, ← hp]
            exact Nat.lt_succ_of_le hhi
          have hlast := (Nat.div_lt_iff_lt_mul hpos).mpr hbelow
          rw [heq, Nat.div_lt_iff_lt_mul hpos, mul_comm, ← hp] at hlast
          exact Nat.le_of_lt_succ hlast
  · intro h
    rw [or_iff_not_imp_left, not_le]
    intro hlo
    have hfirst := h lo (lo / d * d) le_rfl hle (Nat.mul_div_cancel _ hpos).symm
      ((Nat.mul_div_cancel _ hpos).trans_lt ((Nat.div_lt_iff_lt_mul hpos).mpr hlo))
    refine ⟨⟨lo / d, ?_⟩, ?_⟩
    · rw [mul_comm]
      exact hfirst.1.antisymm (Nat.div_mul_le_self lo d)
    · rw [or_iff_not_imp_left, not_le]
      intro hhi
      -- the last SM on the TPC of the last SM
      have hdiv : (hi / d * d + (d - 1)) / d = hi / d := by
        rw [mul_comm, Nat.mul_add_div hpos, Nat.div_eq_of_lt (Nat.sub_one_lt hpos.ne'),
          Nat.add_zero]
      have hlast := h hi _ hle le_rfl hdiv.symm
        (hdiv.trans_lt ((Nat.div_lt_iff_lt_mul hpos).mpr hhi))
      have hnext := Nat.lt_div_mul_add hpos (a := hi)
      refine ⟨hi / d + 1, ?_⟩
      rw [mul_add, mul_one, mul_comm]
      omega

theorem neverOutside_iff {lo hi : ℕ} (hle : lo ≤ hi) {mask : BitVec 128}
    (hmask : buildDisableMask device lo hi = some mask) :
    NeverOutside device ⟨lo, hi, some mask⟩ ↔ HasWholeTpcs device ⟨lo, hi, some mask⟩ := by
  rw [hasWholeTpcs_iff hle]
  constructor
  · intro h s sm hlo hhi heq hlt
    have henabled := (isEnabled_iff hmask).mpr ⟨hlt, s, hlo, hhi, heq⟩
    have houtside := h mask rfl [] sm henabled
    rw [tally_concat, Tally.step_outside_iff] at houtside
    obtain ⟨tpc, -, htpc, -⟩ := henabled
    have hrange := houtside.resolve_left (by omega)
    exact ⟨Nat.cast_le.mp hrange.1, Nat.cast_le.mp hrange.2⟩
  · intro h mask' hmask' before sm henabled
    obtain rfl := Option.some_inj.mp hmask'
    rw [tally_concat, Tally.step_outside_iff]
    right
    obtain ⟨tpc, -, htpc, -⟩ := id henabled
    obtain ⟨s, rfl, -⟩ := tpcOfSm_eq_natCast_iff.mp htpc
    obtain ⟨hlt, s', hlo, hhi, heq⟩ := (isEnabled_iff hmask).mp henabled
    obtain ⟨hle, hge⟩ := h s' s hlo hhi heq hlt
    exact ⟨Nat.cast_le.mpr hle, Nat.cast_le.mpr hge⟩

end Agreement

/-- For the ranges that are accepted, the counts always add up, and no block on an enabled TPC
is counted as outside exactly where the range neither starts nor ends within a TPC. -/
theorem tally_of_accepted (spec : List Char) (device : Topology) (ranges : List SmRange)
    (haccepted : parseSmRanges spec device = .ok ranges) :
    ∀ r ∈ ranges,
      (∀ smids, (tally device r.lo r.hi smids).inside + (tally device r.lo r.hi smids).outside +
        (tally device r.lo r.hi smids).invalid = smids.length) ∧
      (r.disableMask ≠ none → (NeverOutside device r ↔ HasWholeTpcs device r)) := by
  obtain ⟨ends, hlist, rfl⟩ := parseSmRanges_eq_ok_iff.mp haccepted
  obtain ⟨-, hbounds⟩ := hlist.forall_mem fun _ _ hr => IsItem.bounds (.inr hr)
  intro r hr
  refine ⟨tally_sum, fun hdefined => ?_⟩
  obtain ⟨⟨lo, hi⟩, hmem, rfl⟩ := List.mem_map.mp hr
  obtain ⟨hlo, hle, -⟩ := hbounds _ hmem
  obtain ⟨mask, hmask⟩ := Option.ne_none_iff_exists'.mp hdefined
  dsimp only at hlo hle hmask ⊢
  obtain ⟨lo, rfl⟩ := Int.eq_ofNat_of_zero_le hlo
  obtain ⟨hi, rfl⟩ := Int.eq_ofNat_of_zero_le (hlo.trans hle)
  rw [hmask]
  exact neverOutside_iff (Nat.cast_le.mp hle) hmask

/-- A device with two SMs on each TPC. -/
def twoSmsPerTpc : Topology := ⟨8, 4, by decide, by decide⟩

/-- The first TPC is a range of whole TPCs. -/
theorem tally_of_accepted_firstTpc :
    ∃ r, parseSmRanges ['0', '-', '1'] twoSmsPerTpc = .ok [r] ∧
      (∀ smids, (tally twoSmsPerTpc r.lo r.hi smids).inside +
        (tally twoSmsPerTpc r.lo r.hi smids).outside +
        (tally twoSmsPerTpc r.lo r.hi smids).invalid = smids.length) ∧
      NeverOutside twoSmsPerTpc r := by
  have haccepted : parseSmRanges ['0', '-', '1'] twoSmsPerTpc =
      .ok [⟨0, 1, buildDisableMask twoSmsPerTpc 0 1⟩] :=
    parseSmRanges_range (isDecimal_digit rfl) (isDecimal_digit rfl) (by decide) (by decide)
  obtain ⟨hsum, hnever⟩ := tally_of_accepted _ _ _ haccepted _ List.mem_cons_self
  exact ⟨_, haccepted, hsum, (hnever (by decide)).mpr (.inr ⟨by decide, .inr (by decide)⟩)⟩

/-- A block on the first SM of a TPC whose second SM the range starts with. -/
theorem exists_not_neverOutside :
    ∃ ranges, parseSmRanges ['1', '-', '2'] twoSmsPerTpc = .ok ranges ∧
      ∃ r ∈ ranges, r.disableMask ≠ none ∧ ¬ NeverOutside twoSmsPerTpc r := by
  have hmask : buildDisableMask twoSmsPerTpc 1 2 = some (~~~3) := by decide
  have haccepted : parseSmRanges ['1', '-', '2'] twoSmsPerTpc =
      .ok [⟨1, 2, buildDisableMask twoSmsPerTpc 1 2⟩] :=
    parseSmRanges_range (isDecimal_digit rfl) (isDecimal_digit rfl) (by decide) (by decide)
  refine ⟨_, haccepted, _, List.mem_cons_self, by decide, fun h => ?_⟩
  have houtside := h _ hmask [] 0 ⟨0, by decide, by decide, by decide⟩
  exact absurd houtside (by decide)

end A100Partitioning.Demos
