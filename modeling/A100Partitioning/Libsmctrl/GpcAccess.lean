import A100Partitioning.Libsmctrl.GpcInfo

/-!
# Accesses of the topology queries

The queries index arrays of fixed size and shift by numbers that they read from files.  C
leaves open what an access outside an array or a shift that is too wide does.  This module
says when neither happens.
-/

namespace A100Partitioning.Libsmctrl

/-! ## The code, with every shift checked -/

/-- `64 - num_tpc_per_gpc` is less than the width of `-1u`. -/
def ShiftFits (numTpcPerGpc : BitVec 64) : Prop := (64 - numTpcPerGpc).toNat < 32

instance (numTpcPerGpc : BitVec 64) : Decidable (ShiftFits numTpcPerGpc) :=
  inferInstanceAs (Decidable (_ < _))

/-- The loop that counts the enabled GPCs and TPCs. -/
def countTpcsChecked (p : Procfs) (gpcMask numTpcPerGpc : BitVec 64) :
    List ℕ → ℕ → BitVec 32 → Except InfoError (ℕ × BitVec 32)
  | [], gpcs, tpcs => .ok (gpcs, tpcs)
  | i :: rest, gpcs, tpcs =>
      if gpcMask.getLsbD i then countTpcsChecked p gpcMask numTpcPerGpc rest gpcs tpcs
      else do
        let gpcTpcMask ← p.read (.gpcTpcMask i)
        if ShiftFits numTpcPerGpc then
          let disabled := popcountl (gpcTpcMask &&& lowOnes 0 numTpcPerGpc)
          countTpcsChecked p gpcMask numTpcPerGpc rest (gpcs + 1)
            (tpcs + (numTpcPerGpc - BitVec.ofNat 64 disabled).setWidth 32)
        else .error .undefined

/-- `libsmctrl_get_gpc_info_ext`. -/
def getGpcInfoExtChecked (p : Procfs) (dev : ℤ) : Except InfoError (GpcInfo 128) := do
  let maxGpcs ← p.read .numGpcs
  if 16 < dev ∨ 12 < maxGpcs.toNat then .error .range
  else
    let gpcMask ← p.read .gpcMask
    let numTpcPerGpc ← p.read .numTpcPerGpc
    let (gpcs, tpcs) ← countTpcsChecked p gpcMask numTpcPerGpc (List.range maxGpcs.toNat) 0 0
    if dev < 0 ∨ 16 ≤ dev then .error .undefined
    else loadInfo p gpcs tpcs.toNat

/-- The rest of `libsmctrl_get_gpc_info`, which copies the masks of the GPCs; there are 12
for each device. -/
def narrowInfo (info : GpcInfo 128) : Except InfoError (GpcInfo 64) :=
  if 12 < info.gpcs then .error .undefined
  else if (List.range info.gpcs).all fun i =>
      info.masks i &&& (-1 : BitVec 64).setWidth 128 == info.masks i then
    .ok ⟨info.gpcs, fun i => (info.masks i).setWidth 64⟩
  else .error .range

/-- `libsmctrl_get_gpc_info`. -/
def getGpcInfoChecked (p : Procfs) (dev : ℤ) : Except InfoError (GpcInfo 64) := do
  narrowInfo (← getGpcInfoExtChecked p dev)

/-- Both queries access the arrays inside, and shift by less than the width, or return an
error before. -/
def InfoIsDefined (p : Procfs) (dev : ℤ) : Prop :=
  getGpcInfoExtChecked p dev ≠ .error .undefined ∧ getGpcInfoChecked p dev ≠ .error .undefined

/-! ## The count -/

section Count

variable {p : Procfs} {gpcMask numTpcPerGpc : BitVec 64} {is : List ℕ}

theorem lowOnes_eq (hfits : ShiftFits numTpcPerGpc) (wide : BitVec 64 → BitVec 32) :
    lowOnes 0 numTpcPerGpc = lowOnes wide numTpcPerGpc := by
  rw [ShiftFits] at hfits
  simp only [lowOnes, if_pos hfits]

/-- Without a wide shift, the checked count is the count. -/
theorem countTpcsChecked_of_fits (hfits : ShiftFits numTpcPerGpc)
    (wide : BitVec 64 → BitVec 32) (gpcs : ℕ) (tpcs : BitVec 32) :
    countTpcsChecked p gpcMask numTpcPerGpc is gpcs tpcs =
      countTpcs wide p gpcMask numTpcPerGpc is gpcs tpcs := by
  induction is generalizing gpcs tpcs with
  | nil => rfl
  | cons i rest ih =>
      rw [countTpcsChecked, countTpcs]
      by_cases hbit : gpcMask.getLsbD i = true
      · rw [if_pos hbit, if_pos hbit]
        exact ih gpcs tpcs
      · rw [if_neg hbit, if_neg hbit]
        cases hread : p.read (.gpcTpcMask i) with
        | error e => rfl
        | ok gpcTpcMask =>
            change (if ShiftFits numTpcPerGpc then _ else _) = _
            rw [if_pos hfits, lowOnes_eq hfits wide]
            exact ih _ _

theorem countTpcsChecked_of_none (hnone : is.filter (fun i => !gpcMask.getLsbD i) = [])
    (gpcs : ℕ) (tpcs : BitVec 32) :
    countTpcsChecked p gpcMask numTpcPerGpc is gpcs tpcs = .ok (gpcs, tpcs) := by
  induction is with
  | nil => rfl
  | cons i rest ih =>
      rw [countTpcsChecked]
      cases hbit : gpcMask.getLsbD i with
      | true =>
          rw [List.filter_cons_of_neg (by rw [hbit]; exact Bool.false_ne_true)] at hnone
          rw [if_pos rfl]
          exact ih hnone
      | false =>
          rw [List.filter_cons_of_pos (by rw [hbit]; rfl)] at hnone
          cases hnone

/-- With a wide shift, the count ends at the first GPC that is enabled. -/
theorem countTpcsChecked_of_wide (hwide : ¬ ShiftFits numTpcPerGpc) {i : ℕ}
    (hhead : (is.filter fun i => !gpcMask.getLsbD i).head? = some i) (gpcs : ℕ)
    (tpcs : BitVec 32) :
    countTpcsChecked p gpcMask numTpcPerGpc is gpcs tpcs =
      p.read (.gpcTpcMask i) >>= fun _ => .error .undefined := by
  induction is with
  | nil => cases hhead
  | cons j rest ih =>
      rw [countTpcsChecked]
      cases hbit : gpcMask.getLsbD j with
      | true =>
          rw [List.filter_cons_of_neg (by rw [hbit]; exact Bool.false_ne_true)] at hhead
          rw [if_pos rfl]
          exact ih hhead
      | false =>
          rw [List.filter_cons_of_pos (by rw [hbit]; rfl), List.head?_cons] at hhead
          cases hhead
          rw [if_neg Bool.false_ne_true]
          refine congrArg _ (funext fun gpcTpcMask => ?_)
          rw [if_neg hwide]

theorem gpcs_le_of_countTpcsChecked {gpcs gpcs' : ℕ} {tpcs tpcs' : BitVec 32}
    (h : countTpcsChecked p gpcMask numTpcPerGpc is gpcs tpcs = .ok (gpcs', tpcs')) :
    gpcs' ≤ gpcs + is.length := by
  induction is generalizing gpcs tpcs with
  | nil =>
      cases h
      exact Nat.le_add_right _ _
  | cons i rest ih =>
      rw [countTpcsChecked] at h
      rw [List.length_cons]
      by_cases hbit : gpcMask.getLsbD i = true
      · rw [if_pos hbit] at h
        have hle := ih h
        omega
      · rw [if_neg hbit] at h
        cases hread : p.read (.gpcTpcMask i) with
        | error e =>
            rw [hread] at h
            cases h
        | ok gpcTpcMask =>
            rw [hread] at h
            change (if ShiftFits numTpcPerGpc then _ else _) = _ at h
            by_cases hfits : ShiftFits numTpcPerGpc
            · rw [if_pos hfits] at h
              have hle := ih h
              omega
            · rw [if_neg hfits] at h
              cases h

end Count

/-! ## The queries -/

/-- The files that are read before the GPCs are counted, and the device and the GPU are not
too large. -/
structure Procfs.Counts (p : Procfs) (dev : ℤ) : Prop where
  numGpcs : p.Has .numGpcs
  numGpcs_le : (p.value .numGpcs).toNat ≤ 12
  dev_le : dev ≤ 16
  gpcMask : p.Has .gpcMask
  numTpcPerGpc : p.Has .numTpcPerGpc

section Queries

variable {p : Procfs} {dev : ℤ}

theorem getGpcInfoExtChecked_of_counts (h : p.Counts dev) :
    getGpcInfoExtChecked p dev = (do
      let (gpcs, tpcs) ← countTpcsChecked p (p.value .gpcMask) (p.value .numTpcPerGpc)
        (List.range (p.value .numGpcs).toNat) 0 0
      if dev < 0 ∨ 16 ≤ dev then .error .undefined
      else loadInfo p gpcs tpcs.toNat) := by
  have hsize : ¬ (16 < dev ∨ 12 < (p.value .numGpcs).toNat) := by
    have hle := h.numGpcs_le
    have hdev := h.dev_le
    omega
  rw [getGpcInfoExtChecked, Procfs.read_of_has h.numGpcs]
  refine (if_neg hsize).trans ?_
  rw [Procfs.read_of_has h.gpcMask, Procfs.read_of_has h.numTpcPerGpc]
  rfl

theorem getGpcInfoExtChecked_of_not_counts (h : ¬ p.Counts dev) :
    ∃ e, getGpcInfoExtChecked p dev = .error e ∧ e ≠ .undefined := by
  have herrno : ∀ {code}, InfoError.errno code ≠ .undefined := fun h => (nomatch h)
  rw [getGpcInfoExtChecked]
  by_cases hgpcs : p.Has .numGpcs
  swap
  · obtain ⟨code, hcode⟩ := Procfs.exists_read_of_not_has hgpcs
    rw [hcode]
    exact ⟨.errno code, rfl, herrno⟩
  rw [Procfs.read_of_has hgpcs]
  by_cases hsize : 16 < dev ∨ 12 < (p.value .numGpcs).toNat
  · exact ⟨.range, if_pos hsize, fun h => (nomatch h)⟩
  by_cases hmask : p.Has .gpcMask
  swap
  · obtain ⟨code, hcode⟩ := Procfs.exists_read_of_not_has hmask
    refine ⟨.errno code, (if_neg hsize).trans ?_, herrno⟩
    rw [hcode]
    rfl
  by_cases htpcs : p.Has .numTpcPerGpc
  · exact absurd ⟨hgpcs, by omega, by omega, hmask, htpcs⟩ h
  · obtain ⟨code, hcode⟩ := Procfs.exists_read_of_not_has htpcs
    refine ⟨.errno code, (if_neg hsize).trans ?_, herrno⟩
    rw [Procfs.read_of_has hmask, hcode]
    rfl

theorem loadInfo_gpcs {gpcs tpcs : ℕ} {info : GpcInfo 128}
    (h : loadInfo p gpcs tpcs = .ok info) : info.gpcs = gpcs := by
  rcases loadInfo_cases p gpcs tpcs with ⟨masks, hok, -⟩ | ⟨herror, -⟩ | ⟨⟨e, herror, -⟩, -⟩
  · rw [hok] at h
    cases h
    rfl
  · rw [herror] at h
    cases h
  · rw [herror] at h
    cases h

theorem loadInfo_ne_undefined_iff (p : Procfs) (gpcs tpcs : ℕ) :
    loadInfo p gpcs tpcs ≠ .error .undefined ↔
      ∀ tpc < tpcs, p.Reaches tpc → p.Fits tpc := by
  rcases loadInfo_cases p gpcs tpcs with
    ⟨masks, hok, -, hfits, -⟩ | ⟨herror, tpc, hlt, hreach, hbad⟩ | ⟨⟨e, herror, he⟩, hfits, -⟩
  · rw [hok]
    exact iff_of_true (fun h => nomatch h) fun tpc hlt _ => hfits tpc hlt
  · exact iff_of_false (fun h => h herror) fun h => hbad (h tpc hlt hreach)
  · rw [herror]
    refine iff_of_true ?_ hfits
    intro h
    cases h
    exact he rfl

theorem gpcs_le {info : GpcInfo 128} (h : getGpcInfoExtChecked p dev = .ok info) :
    info.gpcs ≤ 12 := by
  by_cases hcounts : p.Counts dev
  swap
  · obtain ⟨e, herror, -⟩ := getGpcInfoExtChecked_of_not_counts hcounts
    rw [herror] at h
    cases h
  rw [getGpcInfoExtChecked_of_counts hcounts] at h
  cases hcount : countTpcsChecked p (p.value .gpcMask) (p.value .numTpcPerGpc)
      (List.range (p.value .numGpcs).toNat) 0 0 with
  | error e =>
      rw [hcount] at h
      cases h
  | ok counted =>
      obtain ⟨gpcs, tpcs⟩ := counted
      rw [hcount] at h
      change (if dev < 0 ∨ 16 ≤ dev then _ else _) = _ at h
      have hle := gpcs_le_of_countTpcsChecked hcount
      rw [List.length_range, Nat.zero_add] at hle
      split_ifs at h
      rw [loadInfo_gpcs h]
      exact hle.trans hcounts.numGpcs_le

theorem infoIsDefined_iff_ext (p : Procfs) (dev : ℤ) :
    InfoIsDefined p dev ↔ getGpcInfoExtChecked p dev ≠ .error .undefined := by
  refine ⟨And.left, fun h => ⟨h, ?_⟩⟩
  rw [getGpcInfoChecked]
  cases hext : getGpcInfoExtChecked p dev with
  | error e =>
      rw [hext] at h
      intro heq
      cases heq
      exact h rfl
  | ok info =>
      change narrowInfo info ≠ _
      rw [narrowInfo, if_neg (Nat.not_lt.mpr (gpcs_le hext))]
      split_ifs
      · intro heq
        cases heq
      · intro heq
        cases heq

/-- Once the GPCs are counted, the device and the TPCs matter. -/
theorem info_of_counted (gpcs : ℕ) {tpcs : ℕ} :
    (if dev < 0 ∨ 16 ≤ dev then .error .undefined else loadInfo p gpcs tpcs) ≠
        .error .undefined ↔
      (0 ≤ dev ∧ dev < 16) ∧ ∀ tpc < tpcs, p.Reaches tpc → p.Fits tpc := by
  by_cases hdev : dev < 0 ∨ 16 ≤ dev
  · rw [if_pos hdev]
    exact iff_of_false (fun h => h rfl) fun h => by omega
  · rw [if_neg hdev, loadInfo_ne_undefined_iff, and_iff_right (by omega)]

/-- Both queries are defined exactly if the shift by the number of TPCs fits where a GPC is
counted, there are masks for the device, and all TPCs that are reached have a bit and a mask
for their GPC. -/
theorem infoIsDefined_iff (p : Procfs) (dev : ℤ) :
    InfoIsDefined p dev ↔ (p.Counts dev →
      (∀ i, p.enabledGpcs.head? = some i → p.Has (.gpcTpcMask i) →
        ShiftFits (p.value .numTpcPerGpc)) ∧
      ((∀ i ∈ p.enabledGpcs, p.Has (.gpcTpcMask i)) →
        (0 ≤ dev ∧ dev < 16) ∧ ∀ tpc < p.countedTpcs 0, p.Reaches tpc → p.Fits tpc)) := by
  rw [infoIsDefined_iff_ext]
  by_cases hcounts : p.Counts dev
  swap
  · obtain ⟨e, herror, hne⟩ := getGpcInfoExtChecked_of_not_counts hcounts
    rw [herror]
    refine iff_of_true ?_ fun h => absurd h hcounts
    intro h
    cases h
    exact hne rfl
  rw [imp_iff_right hcounts, getGpcInfoExtChecked_of_counts hcounts]
  by_cases hfits : ShiftFits (p.value .numTpcPerGpc)
  · rw [countTpcsChecked_of_fits hfits 0, and_iff_right fun _ _ _ => hfits]
    by_cases hall : ∀ i ∈ p.enabledGpcs, p.Has (.gpcTpcMask i)
    · rw [imp_iff_right hall, countTpcs_ok hall 0 0]
      change (if dev < 0 ∨ 16 ≤ dev then _ else loadInfo p _ _) ≠ _ ↔ _
      rw [show (0 : BitVec 32) = 0#32 from rfl, BitVec.zero_add]
      exact info_of_counted _
    · obtain ⟨code, herror⟩ := @countTpcs_error 0 _ _ _ _ hall 0 0
      rw [herror]
      exact iff_of_true (fun h => nomatch h) fun h => absurd h hall
  · cases hhead : p.enabledGpcs.head? with
    | none =>
        have hnil : p.enabledGpcs = [] := List.head?_eq_none_iff.mp hhead
        have hzero : p.countedTpcs 0 = 0 := by
          rw [Procfs.countedTpcs, hnil]
          rfl
        have hall : ∀ i ∈ p.enabledGpcs, p.Has (.gpcTpcMask i) := by
          rw [hnil]
          intro i hi
          cases hi
        have hfirst : ∀ i, none = some i → p.Has (.gpcTpcMask i) →
            ShiftFits (p.value .numTpcPerGpc) := by
          intro i hi
          cases hi
        rw [countTpcsChecked_of_none hnil, and_iff_right hfirst, imp_iff_right hall, hzero]
        exact info_of_counted 0
    | some i =>
        have hmem : i ∈ p.enabledGpcs := List.mem_of_mem_head? (by rw [hhead]; rfl)
        rw [countTpcsChecked_of_wide hfits hhead]
        by_cases hi : p.Has (.gpcTpcMask i)
        · rw [Procfs.read_of_has hi]
          exact iff_of_false (fun h => h rfl) fun h => hfits (h.1 i rfl hi)
        · obtain ⟨code, herror⟩ := Procfs.exists_read_of_not_has hi
          rw [herror]
          refine iff_of_true (fun h => nomatch h) ⟨?_, fun hall => absurd (hall i hmem) hi⟩
          intro j hj hhas
          cases hj
          exact absurd hhas hi

end Queries

/-- Already with two TPCs for a GPC, the shift is too wide. -/
theorem not_infoIsDefined : ¬ InfoIsDefined (floorswept 2 0x0100) 0 := by
  rintro ⟨hext, -⟩
  exact hext rfl

end A100Partitioning.Libsmctrl
