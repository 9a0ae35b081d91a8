import A100Partitioning.Nvdebug.CopyTopology

/-!
# The table of copy engines (`get_pces_for_lces`)

The table is filled at indices that come from registers.  This module says when every
access lies in the table and every shift is defined, for a table of any length, and what
the table holds then.
-/

namespace A100Partitioning.Nvdebug

/-! ## Accesses and shifts -/

/-- Why the table is not filled.  The second is not an error: the table is accessed outside,
or a shift is too wide. -/
inductive TableStop where
  | errno (err : ℤ)
  | undefined
  deriving DecidableEq, Repr

/-- `get_lce_for_pce`, which shifts a register by `pce_id * 4` on Pascal. -/
def Machine.lceForPce (s : Machine) (pceId : ℕ) : Except TableStop ℤ :=
  if (0x130 ≤ s.chipId ∧ s.chipId < 0x140) ∧ s.readlValue 0x0010402c ≠ BitVec.allOnes 32 ∧
      32 ≤ pceId * 4 then
    .error .undefined
  else .ok (s.getLceForPce pceId)

/-- `lce2pce[i] = entry`. -/
def setEntry (lce2pce : List Lce2pceEntry) (i : ℕ) (entry : Lce2pceEntry) :
    Except TableStop (List Lce2pceEntry) :=
  if i < lce2pce.length then .ok (lce2pce.set i entry) else .error .undefined

/-- The body of the loop over PCEs. -/
def Machine.recordPce (s : Machine) (lce2pceLen : ℕ) (lce2pce : List Lce2pceEntry)
    (pceId : ℕ) : Except TableStop (List Lce2pceEntry) :=
  if (s.readlValue 0x00104028).getLsbD pceId = false then .ok lce2pce
  else do
    let lce ← s.lceForPce pceId
    if lce = -enodev then .ok lce2pce
    else if lce < 0 then .error (.errno lce)
    else if lce2pceLen < lce then .error (.errno (-erange))
    else setEntry lce2pce lce.toNat (.pce pceId)

/-- The body of the loop over GRCEs. -/
def Machine.recordGrce (s : Machine) (lce2pce : List Lce2pceEntry) (grceId : ℕ) :
    Except TableStop (List Lce2pceEntry) :=
  match lce2pce[grceId]? with
  | none => .error .undefined
  | some entry =>
      let sharedLce := s.getSharedLceForGrce grceId
      if entry ≠ .invalidCe ∨ sharedLce = -enodev then .ok lce2pce
      else if sharedLce < 0 then .error (.errno sharedLce)
      else setEntry lce2pce grceId (.sharedLce sharedLce.toNat)

/-- `get_pces_for_lces`, for a table of any length. -/
def Machine.pcesForLces (s : Machine) (lce2pceLen : ℕ) :
    Except TableStop (List Lce2pceEntry) :=
  if s.readlValue 0x00104028 = BitVec.allOnes 32 then .error (.errno (-eio))
  else do
    let lce2pce ← (List.range 32).foldlM (s.recordPce lce2pceLen)
      (List.replicate lce2pceLen .invalidCe)
    (List.range 2).foldlM s.recordGrce lce2pce

/-! ## What registers say -/

/-- The PCE is enabled, and mapped to this LCE. -/
def Machine.MapsTo (s : Machine) (pceId lce : ℕ) : Prop :=
  (s.readlValue 0x00104028).getLsbD pceId = true ∧ s.getLceForPce pceId = lce

/-- The table that the registers stand for. -/
structure Machine.HasTable (s : Machine) (lce2pceLen : ℕ) (lce2pce : List Lce2pceEntry) :
    Prop where
  length_eq : lce2pce.length = lce2pceLen
  lt : ∀ pceId < 32, ∀ lce, s.MapsTo pceId lce → lce < lce2pceLen
  pce : ∀ lce, (∃ pceId < 32, s.MapsTo pceId lce) →
    ∃ pceId < 32, s.MapsTo pceId lce ∧ lce2pce[lce]? = some (.pce pceId)
  shared : ∀ grceId < 2, (¬ ∃ pceId < 32, s.MapsTo pceId grceId) →
    ∀ lce : ℕ, s.getSharedLceForGrce grceId = lce → lce2pce[grceId]? = some (.sharedLce lce)
  invalid : ∀ lce < lce2pceLen, (¬ ∃ pceId < 32, s.MapsTo pceId lce) →
    (lce < 2 → s.getSharedLceForGrce lce < 0) → lce2pce[lce]? = some .invalidCe

/-- No access lies outside the table and no shift is too wide, and on success the table is
the one that the registers stand for. -/
def Machine.FillsTable (s : Machine) (lce2pceLen : ℕ) : Prop :=
  s.pcesForLces lce2pceLen ≠ .error .undefined ∧
    ∀ lce2pce, s.pcesForLces lce2pceLen = .ok lce2pce → s.HasTable lce2pceLen lce2pce

/-! ## PCEs -/

section Pces

variable (s : Machine) (lce2pceLen : ℕ)

/-- The register of the PCE is read with a shift that is defined. -/
def Machine.ShiftFits (pceId : ℕ) : Prop :=
  ((0x130 ≤ s.chipId ∧ s.chipId < 0x140) ∧ s.readlValue 0x0010402c ≠ BitVec.allOnes 32) →
    pceId < 8

/-- The loop over PCEs shifts too far for this PCE, or accesses the table right behind its
end. -/
def Machine.Overruns (pceId : ℕ) : Prop :=
  (s.readlValue 0x00104028).getLsbD pceId = true ∧
    (¬ s.ShiftFits pceId ∨ s.getLceForPce pceId = lce2pceLen)

/-- The loop over PCEs returns an error for this PCE. -/
def Machine.Fails (pceId : ℕ) : Prop :=
  (s.readlValue 0x00104028).getLsbD pceId = true ∧ s.ShiftFits pceId ∧
    (s.getLceForPce pceId < 0 ∧ s.getLceForPce pceId ≠ -enodev ∨
      lce2pceLen < s.getLceForPce pceId)

/-- The loop over PCEs goes on behind this PCE. -/
def Machine.Passes (pceId : ℕ) : Prop :=
  (s.readlValue 0x00104028).getLsbD pceId = true → s.ShiftFits pceId ∧
    (s.getLceForPce pceId = -enodev ∨
      0 ≤ s.getLceForPce pceId ∧ s.getLceForPce pceId < lce2pceLen)

end Pces

section

variable {s : Machine} {lce2pceLen n pceId : ℕ} {lce2pce : List Lce2pceEntry}

theorem lceForPce_of_fits (h : s.ShiftFits pceId) :
    s.lceForPce pceId = .ok (s.getLceForPce pceId) := by
  rw [Machine.lceForPce, if_neg]
  rintro ⟨hpascal, hread, hwide⟩
  have := h ⟨hpascal, hread⟩
  omega

theorem lceForPce_of_not_fits (h : ¬ s.ShiftFits pceId) :
    s.lceForPce pceId = .error .undefined := by
  rw [Machine.ShiftFits, Classical.not_imp] at h
  obtain ⟨⟨hpascal, hread⟩, hwide⟩ := h
  rw [Machine.lceForPce, if_pos ⟨hpascal, hread, by omega⟩]

theorem enabled_or_not (s : Machine) (pceId : ℕ) :
    (s.readlValue 0x00104028).getLsbD pceId = true ∨
      (s.readlValue 0x00104028).getLsbD pceId = false :=
  (Bool.eq_false_or_eq_true _)

theorem passes_or (s : Machine) (lce2pceLen pceId : ℕ) :
    s.Passes lce2pceLen pceId ∨ s.Fails lce2pceLen pceId ∨ s.Overruns lce2pceLen pceId := by
  rcases enabled_or_not s pceId with hon | hoff
  swap
  · left
    intro hon
    rw [hoff] at hon
    cases hon
  by_cases hfits : s.ShiftFits pceId
  swap
  · exact .inr (.inr ⟨hon, .inl hfits⟩)
  by_cases hnodev : s.getLceForPce pceId = -enodev
  · exact .inl fun _ => ⟨hfits, .inl hnodev⟩
  rcases lt_trichotomy (s.getLceForPce pceId) lce2pceLen with hlt | heq | hgt
  · by_cases hneg : s.getLceForPce pceId < 0
    · exact .inr (.inl ⟨hon, hfits, .inl ⟨hneg, hnodev⟩⟩)
    · exact .inl fun _ => ⟨hfits, .inr ⟨Int.not_lt.mp hneg, hlt⟩⟩
  · exact .inr (.inr ⟨hon, .inr heq⟩)
  · exact .inr (.inl ⟨hon, hfits, .inr hgt⟩)

theorem Machine.Passes.not_fails (h : s.Passes lce2pceLen pceId) :
    ¬ s.Fails lce2pceLen pceId := by
  rintro ⟨hon, -, herror⟩
  obtain ⟨-, hgood⟩ := h hon
  rw [enodev] at hgood herror
  omega

theorem Machine.Passes.not_overruns (h : s.Passes lce2pceLen pceId) :
    ¬ s.Overruns lce2pceLen pceId := by
  rintro ⟨hon, hbad⟩
  obtain ⟨hfits, hgood⟩ := h hon
  rcases hbad with hbad | hbad
  · exact hbad hfits
  · rw [enodev] at hgood
    omega

theorem Machine.Fails.not_overruns (h : s.Fails lce2pceLen pceId) :
    ¬ s.Overruns lce2pceLen pceId := by
  obtain ⟨-, hfits, herror⟩ := h
  rintro ⟨-, hbad⟩
  rcases hbad with hbad | hbad
  · exact hbad hfits
  · omega

theorem recordPce_eq (hon : (s.readlValue 0x00104028).getLsbD pceId = true)
    (hfits : s.ShiftFits pceId) (lce2pce : List Lce2pceEntry) :
    s.recordPce lce2pceLen lce2pce pceId =
      if s.getLceForPce pceId = -enodev then .ok lce2pce
      else if s.getLceForPce pceId < 0 then .error (.errno (s.getLceForPce pceId))
      else if lce2pceLen < s.getLceForPce pceId then .error (.errno (-erange))
      else setEntry lce2pce (s.getLceForPce pceId).toNat (.pce pceId) := by
  rw [Machine.recordPce, hon, if_neg (by decide), lceForPce_of_fits hfits]
  rfl

theorem directLces_eq {pceIds : List ℕ} (hlen : lce2pce.length = 32) :
    (∀ lce2pce', pceIds.foldlM (s.recordPce 32) lce2pce = .ok lce2pce' →
      directLces s (s.readlValue 0x00104028) pceIds lce2pce = (some 0, lce2pce')) ∧
    ∀ e, pceIds.foldlM (s.recordPce 32) lce2pce = .error (.errno e) →
      e ≠ 0 ∧ (directLces s (s.readlValue 0x00104028) pceIds lce2pce).1 = some e := by
  induction pceIds generalizing lce2pce with
  | nil =>
      constructor
      · intro lce2pce' h
        cases h
        rfl
      · intro e h
        cases h
  | cons pceId pceIds ih =>
      have hends : ∀ stop, s.recordPce 32 lce2pce pceId = .error stop →
          (pceId :: pceIds).foldlM (s.recordPce 32) lce2pce = .error stop := by
        intro stop h
        rw [List.foldlM_cons, h]
        rfl
      have hgoes : ∀ t, s.recordPce 32 lce2pce pceId = .ok t →
          (pceId :: pceIds).foldlM (s.recordPce 32) lce2pce =
            pceIds.foldlM (s.recordPce 32) t := by
        intro t h
        rw [List.foldlM_cons, h]
        rfl
      rw [directLces]
      rcases enabled_or_not s pceId with hon | hoff
      swap
      · rw [hgoes lce2pce (if_pos hoff), if_pos (.inl hoff)]
        exact ih hlen
      by_cases hfits : s.ShiftFits pceId
      swap
      · have hbad : s.recordPce 32 lce2pce pceId = .error .undefined := by
          rw [Machine.recordPce, hon, if_neg (by decide), lceForPce_of_not_fits hfits]
          rfl
        rw [hends _ hbad]
        constructor
        · intro lce2pce' h
          cases h
        · intro e h
          cases h
      have hrecord : s.recordPce 32 lce2pce pceId = _ := recordPce_eq hon hfits lce2pce
      by_cases hnodev : s.getLceForPce pceId = -enodev
      · rw [if_pos hnodev] at hrecord
        rw [hgoes _ hrecord, if_pos (.inr hnodev)]
        exact ih hlen
      rw [if_neg hnodev] at hrecord
      rw [if_neg (by rw [hon]; simp [hnodev])]
      by_cases hneg : s.getLceForPce pceId < 0
      · rw [if_pos hneg] at hrecord
        rw [hends _ hrecord, if_pos hneg]
        constructor
        · intro lce2pce' h
          cases h
        · intro e h
          cases h
          exact ⟨hneg.ne, rfl⟩
      rw [if_neg hneg, Nat.cast_ofNat] at hrecord
      rw [if_neg hneg]
      by_cases hlarge : 32 < s.getLceForPce pceId
      · rw [if_pos hlarge] at hrecord
        rw [hends _ hrecord, if_pos hlarge]
        constructor
        · intro lce2pce' h
          cases h
        · intro e h
          cases h
          exact ⟨by decide, rfl⟩
      rw [if_neg hlarge, setEntry, hlen] at hrecord
      rw [if_neg hlarge]
      by_cases hend : s.getLceForPce pceId = 32
      · rw [if_neg (by omega)] at hrecord
        rw [hends _ hrecord]
        constructor
        · intro lce2pce' h
          cases h
        · intro e h
          cases h
      · rw [if_pos (by omega)] at hrecord
        rw [hgoes _ hrecord, if_neg hend]
        exact ih (List.length_set.trans hlen)

theorem recordPce_of_overruns (h : s.Overruns lce2pceLen pceId)
    (hlen : lce2pce.length = lce2pceLen) :
    s.recordPce lce2pceLen lce2pce pceId = .error .undefined := by
  obtain ⟨hon, hbad⟩ := h
  by_cases hfits : s.ShiftFits pceId
  · have heq := hbad.resolve_left (not_not.mpr hfits)
    have hnodev : (lce2pceLen : ℤ) ≠ -enodev := by
      rw [enodev]
      omega
    rw [recordPce_eq hon hfits, heq, if_neg hnodev, if_neg (by omega), if_neg (lt_irrefl _),
      setEntry, if_neg (by omega)]
  · rw [Machine.recordPce, hon, if_neg (by decide), lceForPce_of_not_fits hfits]
    rfl

theorem recordPce_of_fails (h : s.Fails lce2pceLen pceId) (lce2pce : List Lce2pceEntry) :
    ∃ e, s.recordPce lce2pceLen lce2pce pceId = .error (.errno e) := by
  obtain ⟨hon, hfits, herror⟩ := h
  have hnodev : s.getLceForPce pceId ≠ -enodev := by
    rcases herror with ⟨-, hne⟩ | hgt
    · exact hne
    · rw [enodev]
      omega
  rw [recordPce_eq hon hfits, if_neg hnodev]
  by_cases hneg : s.getLceForPce pceId < 0
  · rw [if_pos hneg]
    exact ⟨_, rfl⟩
  · rw [if_neg hneg, if_pos (herror.resolve_left fun h => hneg h.1)]
    exact ⟨_, rfl⟩

theorem recordPce_of_passes (h : s.Passes lce2pceLen pceId)
    (hlen : lce2pce.length = lce2pceLen) :
    ((¬ ∃ lce, s.MapsTo pceId lce) ∧ s.recordPce lce2pceLen lce2pce pceId = .ok lce2pce) ∨
      ∃ lce < lce2pceLen, s.MapsTo pceId lce ∧
        s.recordPce lce2pceLen lce2pce pceId = .ok (lce2pce.set lce (.pce pceId)) := by
  rcases enabled_or_not s pceId with hon | hoff
  swap
  · left
    constructor
    · rintro ⟨lce, hon, -⟩
      rw [hoff] at hon
      cases hon
    · rw [Machine.recordPce, if_pos hoff]
  obtain ⟨hfits, hgood⟩ := h hon
  rw [recordPce_eq hon hfits]
  rcases hgood with hnodev | ⟨hnonneg, hlt⟩
  · left
    constructor
    · rintro ⟨lce, -, hlce⟩
      rw [hnodev, enodev] at hlce
      omega
    · rw [if_pos hnodev]
  · right
    have hnodev : s.getLceForPce pceId ≠ -enodev := by
      rw [enodev]
      omega
    refine ⟨(s.getLceForPce pceId).toNat, by omega, ⟨hon, by omega⟩, ?_⟩
    rw [if_neg hnodev, if_neg (by omega), if_neg (by omega), setEntry, if_pos (by omega)]

theorem Machine.MapsTo.unique {lce lce' : ℕ} (h : s.MapsTo pceId lce)
    (h' : s.MapsTo pceId lce') : lce = lce' := by
  have heq := h.2.symm.trans h'.2
  omega

/-- The table after some PCEs: an LCE has one of the PCEs that are mapped to it. -/
structure Machine.Recorded (s : Machine) (n lce2pceLen : ℕ) (lce2pce : List Lce2pceEntry) :
    Prop where
  length_eq : lce2pce.length = lce2pceLen
  pce : ∀ lce, (∃ pceId < n, s.MapsTo pceId lce) →
    ∃ pceId < n, s.MapsTo pceId lce ∧ lce2pce[lce]? = some (.pce pceId)
  invalid : ∀ lce < lce2pceLen, (¬ ∃ pceId < n, s.MapsTo pceId lce) →
    lce2pce[lce]? = some .invalidCe

theorem Machine.Recorded.skip (h : s.Recorded n lce2pceLen lce2pce)
    (hmaps : ¬ ∃ lce, s.MapsTo n lce) : s.Recorded (n + 1) lce2pceLen lce2pce := by
  have hold : ∀ lce, (∃ pceId < n + 1, s.MapsTo pceId lce) →
      ∃ pceId < n, s.MapsTo pceId lce := by
    rintro lce ⟨pceId, hlt, hto⟩
    rcases Nat.lt_succ_iff_lt_or_eq.mp hlt with hlt | rfl
    · exact ⟨pceId, hlt, hto⟩
    · exact absurd ⟨lce, hto⟩ hmaps
  refine ⟨h.length_eq, ?_, ?_⟩
  · intro lce hto
    obtain ⟨pceId, hlt, hto, hentry⟩ := h.pce lce (hold lce hto)
    exact ⟨pceId, Nat.lt_succ_of_lt hlt, hto, hentry⟩
  · intro lce hlt hto
    apply h.invalid lce hlt
    rintro ⟨pceId, hlt, hto'⟩
    exact hto ⟨pceId, Nat.lt_succ_of_lt hlt, hto'⟩

theorem Machine.Recorded.record (h : s.Recorded n lce2pceLen lce2pce) {lce : ℕ}
    (hlce : lce < lce2pceLen) (hmaps : s.MapsTo n lce) :
    s.Recorded (n + 1) lce2pceLen (lce2pce.set lce (.pce n)) := by
  refine ⟨List.length_set.trans h.length_eq, ?_, ?_⟩
  · rintro lce' ⟨pceId, hlt, hto⟩
    by_cases heq : lce' = lce
    · refine ⟨n, Nat.lt_succ_self n, by rw [heq]; exact hmaps, ?_⟩
      rw [heq, List.getElem?_set_self (by rw [h.length_eq]; exact hlce)]
    · rcases Nat.lt_succ_iff_lt_or_eq.mp hlt with hlt | rfl
      · obtain ⟨pceId', hlt', hto', hentry⟩ := h.pce lce' ⟨pceId, hlt, hto⟩
        refine ⟨pceId', Nat.lt_succ_of_lt hlt', hto', ?_⟩
        rw [List.getElem?_set_ne (Ne.symm heq)]
        exact hentry
      · exact absurd (hto.unique hmaps) heq
  · intro lce' hlt hto
    have hne : lce ≠ lce' := by
      rintro rfl
      exact hto ⟨n, Nat.lt_succ_self n, hmaps⟩
    rw [List.getElem?_set_ne hne]
    apply h.invalid lce' hlt
    rintro ⟨pceId, hlt, hto'⟩
    exact hto ⟨pceId, Nat.lt_succ_of_lt hlt, hto'⟩

/-- The loop over PCEs passes all, or the first that it does not pass ends it. -/
theorem recordPces_cases (s : Machine) (lce2pceLen n : ℕ) :
    (∃ lce2pce, (List.range n).foldlM (s.recordPce lce2pceLen)
        (List.replicate lce2pceLen .invalidCe) = .ok lce2pce ∧
      (∀ pceId < n, s.Passes lce2pceLen pceId) ∧ s.Recorded n lce2pceLen lce2pce) ∨
    ∃ pceId < n, (∀ before < pceId, s.Passes lce2pceLen before) ∧
      ((s.Fails lce2pceLen pceId ∧ ∃ e, (List.range n).foldlM (s.recordPce lce2pceLen)
          (List.replicate lce2pceLen .invalidCe) = .error (.errno e)) ∨
        s.Overruns lce2pceLen pceId ∧ (List.range n).foldlM (s.recordPce lce2pceLen)
          (List.replicate lce2pceLen .invalidCe) = .error .undefined) := by
  induction n with
  | zero =>
      left
      refine ⟨_, rfl, fun pceId h => absurd h (Nat.not_lt_zero _), List.length_replicate, ?_, ?_⟩
      · rintro lce ⟨pceId, h, -⟩
        exact absurd h (Nat.not_lt_zero _)
      · intro lce hlt _
        rw [List.getElem?_replicate, if_pos hlt]
  | succ n ih =>
      have hstep : (List.range (n + 1)).foldlM (s.recordPce lce2pceLen)
          (List.replicate lce2pceLen .invalidCe) =
          (List.range n).foldlM (s.recordPce lce2pceLen)
            (List.replicate lce2pceLen .invalidCe) >>=
            fun lce2pce => s.recordPce lce2pceLen lce2pce n := by
        rw [List.range_succ, List.foldlM_append]
        refine congrArg _ (funext fun lce2pce => ?_)
        rw [List.foldlM_cons]
        exact bind_pure _
      rw [hstep]
      rcases ih with ⟨lce2pce, hok, hpasses, hrec⟩ | ⟨pceId, hlt, hbefore, hends⟩
      · rw [hok]
        change (∃ lce2pce', s.recordPce lce2pceLen lce2pce n = .ok lce2pce' ∧ _) ∨
          ∃ pceId < n + 1, _ ∧ ((_ ∧ ∃ e, s.recordPce lce2pceLen lce2pce n = .error (.errno e)) ∨
            _ ∧ s.recordPce lce2pceLen lce2pce n = .error .undefined)
        rcases passes_or s lce2pceLen n with hpass | hfail | hover
        · left
          have hall : ∀ pceId < n + 1, s.Passes lce2pceLen pceId := by
            intro pceId hlt
            rcases Nat.lt_succ_iff_lt_or_eq.mp hlt with hlt | rfl
            · exact hpasses pceId hlt
            · exact hpass
          rcases recordPce_of_passes hpass hrec.length_eq with
            ⟨hmaps, hrun⟩ | ⟨lce, hlt, hmaps, hrun⟩
          · exact ⟨lce2pce, hrun, hall, hrec.skip hmaps⟩
          · exact ⟨_, hrun, hall, hrec.record hlt hmaps⟩
        · exact .inr ⟨n, Nat.lt_succ_self n, hpasses,
            .inl ⟨hfail, recordPce_of_fails hfail lce2pce⟩⟩
        · exact .inr ⟨n, Nat.lt_succ_self n, hpasses,
            .inr ⟨hover, recordPce_of_overruns hover hrec.length_eq⟩⟩
      · right
        refine ⟨pceId, Nat.lt_succ_of_lt hlt, hbefore, ?_⟩
        rcases hends with ⟨hfail, e, herror⟩ | ⟨hover, herror⟩
        · rw [herror]
          exact .inl ⟨hfail, e, rfl⟩
        · rw [herror]
          exact .inr ⟨hover, rfl⟩

/-! ## GRCEs -/

/-- The loop over GRCEs returns an error for this GRCE. -/
def Machine.GrceFails (s : Machine) (grceId : ℕ) : Prop :=
  (¬ ∃ pceId < 32, s.MapsTo pceId grceId) ∧ s.getSharedLceForGrce grceId < 0 ∧
    s.getSharedLceForGrce grceId ≠ -enodev

/-- The table after all PCEs and some GRCEs. -/
structure Machine.Shares (s : Machine) (n lce2pceLen : ℕ) (lce2pce : List Lce2pceEntry) :
    Prop where
  length_eq : lce2pce.length = lce2pceLen
  pce : ∀ lce, (∃ pceId < 32, s.MapsTo pceId lce) →
    ∃ pceId < 32, s.MapsTo pceId lce ∧ lce2pce[lce]? = some (.pce pceId)
  shared : ∀ grceId < n, (¬ ∃ pceId < 32, s.MapsTo pceId grceId) →
    ∀ lce : ℕ, s.getSharedLceForGrce grceId = lce → lce2pce[grceId]? = some (.sharedLce lce)
  invalid : ∀ lce < lce2pceLen, (¬ ∃ pceId < 32, s.MapsTo pceId lce) →
    (lce < n → s.getSharedLceForGrce lce < 0) → lce2pce[lce]? = some .invalidCe

theorem Machine.Recorded.shares (h : s.Recorded 32 lce2pceLen lce2pce) :
    s.Shares 0 lce2pceLen lce2pce := by
  refine ⟨h.length_eq, h.pce, fun grceId hlt => absurd hlt (Nat.not_lt_zero _), ?_⟩
  intro lce hlt hmaps _
  exact h.invalid lce hlt hmaps

theorem Machine.Shares.skip (h : s.Shares n lce2pceLen lce2pce)
    (hskip : (∃ pceId < 32, s.MapsTo pceId n) ∨ s.getSharedLceForGrce n < 0) :
    s.Shares (n + 1) lce2pceLen lce2pce := by
  refine ⟨h.length_eq, h.pce, ?_, ?_⟩
  · intro grceId hlt hmaps lce hlce
    rcases Nat.lt_succ_iff_lt_or_eq.mp hlt with hlt | rfl
    · exact h.shared grceId hlt hmaps lce hlce
    · have := hskip.resolve_left hmaps
      omega
  · intro lce hlt hmaps hneg
    exact h.invalid lce hlt hmaps fun hlt' => hneg (Nat.lt_succ_of_lt hlt')

theorem Machine.Shares.share (h : s.Shares n lce2pceLen lce2pce) {lce : ℕ}
    (hlt : n < lce2pceLen) (hmaps : ¬ ∃ pceId < 32, s.MapsTo pceId n)
    (hlce : s.getSharedLceForGrce n = lce) :
    s.Shares (n + 1) lce2pceLen (lce2pce.set n (.sharedLce lce)) := by
  refine ⟨List.length_set.trans h.length_eq, ?_, ?_, ?_⟩
  · intro lce' hto
    obtain ⟨pceId, hpce, hto', hentry⟩ := h.pce lce' hto
    have hne : n ≠ lce' := by
      rintro rfl
      exact hmaps hto
    refine ⟨pceId, hpce, hto', ?_⟩
    rw [List.getElem?_set_ne hne]
    exact hentry
  · intro grceId hgrce hmaps' lce' hlce'
    rcases Nat.lt_succ_iff_lt_or_eq.mp hgrce with hgrce | rfl
    · rw [List.getElem?_set_ne (by omega)]
      exact h.shared grceId hgrce hmaps' lce' hlce'
    · have heq : lce' = lce := by omega
      rw [List.getElem?_set_self (by rw [h.length_eq]; exact hlt), heq]
  · intro lce' hlt' hmaps' hneg
    have hne : n ≠ lce' := by
      rintro rfl
      have := hneg (Nat.lt_succ_self n)
      omega
    rw [List.getElem?_set_ne hne]
    exact h.invalid lce' hlt' hmaps' fun hlt'' => hneg (Nat.lt_succ_of_lt hlt'')

/-- The loop over GRCEs accesses the table outside, returns an error or goes on. -/
theorem recordGrce_cases (h : s.Shares n lce2pceLen lce2pce) :
    (lce2pceLen ≤ n ∧ s.recordGrce lce2pce n = .error .undefined) ∨
      n < lce2pceLen ∧
        ((s.GrceFails n ∧ ∃ e, s.recordGrce lce2pce n = .error (.errno e)) ∨
          ¬ s.GrceFails n ∧ ∃ lce2pce', s.recordGrce lce2pce n = .ok lce2pce' ∧
            s.Shares (n + 1) lce2pceLen lce2pce') := by
  by_cases hlt : n < lce2pceLen
  swap
  · left
    have hnone : lce2pce[n]? = none := by
      rw [List.getElem?_eq_none_iff, h.length_eq]
      exact Nat.le_of_not_lt hlt
    refine ⟨Nat.le_of_not_lt hlt, ?_⟩
    rw [Machine.recordGrce, hnone]
  right
  refine ⟨hlt, ?_⟩
  by_cases hmaps : ∃ pceId < 32, s.MapsTo pceId n
  · obtain ⟨pceId, -, -, hentry⟩ := h.pce n hmaps
    right
    refine ⟨fun hfails => hfails.1 hmaps, lce2pce, ?_, h.skip (.inl hmaps)⟩
    rw [Machine.recordGrce, hentry]
    exact if_pos (.inl (fun heq => by cases heq))
  have hentry : lce2pce[n]? = some .invalidCe :=
    h.invalid n hlt hmaps fun hlt' => absurd hlt' (lt_irrefl n)
  have hrun : s.recordGrce lce2pce n =
      if s.getSharedLceForGrce n = -enodev then .ok lce2pce
      else if s.getSharedLceForGrce n < 0 then .error (.errno (s.getSharedLceForGrce n))
      else setEntry lce2pce n (.sharedLce (s.getSharedLceForGrce n).toNat) := by
    rw [Machine.recordGrce, hentry]
    simp only [ne_eq, not_true_eq_false, false_or]
  rw [hrun]
  by_cases hnodev : s.getSharedLceForGrce n = -enodev
  · right
    refine ⟨fun hfails => hfails.2.2 hnodev, lce2pce, if_pos hnodev, h.skip (.inr ?_)⟩
    rw [hnodev]
    decide
  by_cases hneg : s.getSharedLceForGrce n < 0
  · left
    refine ⟨⟨hmaps, hneg, hnodev⟩, s.getSharedLceForGrce n, ?_⟩
    rw [if_neg hnodev, if_pos hneg]
  · right
    have hlce : s.getSharedLceForGrce n = (s.getSharedLceForGrce n).toNat := by omega
    refine ⟨fun hfails => hneg hfails.2.1,
      lce2pce.set n (.sharedLce (s.getSharedLceForGrce n).toNat), ?_, h.share hlt hmaps hlce⟩
    rw [if_neg hnodev, if_neg hneg, setEntry, if_pos (by rw [h.length_eq]; exact hlt)]

theorem recordGrces_cases (h : s.Shares 0 lce2pceLen lce2pce) :
    (¬ (0 < lce2pceLen ∧ (s.GrceFails 0 ∨ 1 < lce2pceLen)) ∧
        (List.range 2).foldlM s.recordGrce lce2pce = .error .undefined) ∨
      (0 < lce2pceLen ∧ (s.GrceFails 0 ∨ 1 < lce2pceLen)) ∧
        ((∃ e, (List.range 2).foldlM s.recordGrce lce2pce = .error (.errno e)) ∨
          ∃ lce2pce', (List.range 2).foldlM s.recordGrce lce2pce = .ok lce2pce' ∧
            s.Shares 2 lce2pceLen lce2pce') := by
  have hsteps : (List.range 2).foldlM s.recordGrce lce2pce =
      s.recordGrce lce2pce 0 >>= fun lce2pce => s.recordGrce lce2pce 1 := by
    refine congrArg _ (funext fun lce2pce => ?_)
    exact bind_pure _
  rw [hsteps]
  rcases recordGrce_cases h with ⟨hle, hrun⟩ | ⟨hlt, ⟨hfails, e, hrun⟩ | ⟨hgoes, t, hrun, ht⟩⟩
  · rw [hrun]
    exact .inl ⟨fun hgood => by omega, rfl⟩
  · rw [hrun]
    exact .inr ⟨⟨hlt, .inl hfails⟩, .inl ⟨e, rfl⟩⟩
  · have hbind : (s.recordGrce lce2pce 0 >>= fun lce2pce => s.recordGrce lce2pce 1) =
        s.recordGrce t 1 := by
      rw [hrun]
      rfl
    rw [hbind]
    rcases recordGrce_cases ht with
      ⟨hle, hrun'⟩ | ⟨hlt', ⟨-, e, hrun'⟩ | ⟨-, t', hrun', ht'⟩⟩
    · left
      refine ⟨?_, hrun'⟩
      rintro ⟨-, hfails | hlt'⟩
      · exact hgoes hfails
      · omega
    · exact .inr ⟨⟨hlt, .inr hlt'⟩, .inl ⟨e, hrun'⟩⟩
    · exact .inr ⟨⟨hlt, .inr hlt'⟩, .inr ⟨t', hrun', ht'⟩⟩

theorem sharedLces_eq {grceIds : List ℕ} :
    (∀ lce2pce', grceIds.foldlM s.recordGrce lce2pce = .ok lce2pce' →
      sharedLces s grceIds lce2pce = (some 0, lce2pce')) ∧
    ∀ e, grceIds.foldlM s.recordGrce lce2pce = .error (.errno e) →
      (sharedLces s grceIds lce2pce).1 = some e := by
  induction grceIds generalizing lce2pce with
  | nil =>
      constructor
      · intro lce2pce' h
        cases h
        rfl
      · intro e h
        cases h
  | cons grceId grceIds ih =>
      have hends : ∀ stop, s.recordGrce lce2pce grceId = .error stop →
          (grceId :: grceIds).foldlM s.recordGrce lce2pce = .error stop := by
        intro stop h
        rw [List.foldlM_cons, h]
        rfl
      have hgoes : ∀ t, s.recordGrce lce2pce grceId = .ok t →
          (grceId :: grceIds).foldlM s.recordGrce lce2pce = grceIds.foldlM s.recordGrce t := by
        intro t h
        rw [List.foldlM_cons, h]
        rfl
      rw [sharedLces]
      cases hentry : lce2pce[grceId]? with
      | none =>
          have hbad : s.recordGrce lce2pce grceId = .error .undefined := by
            rw [Machine.recordGrce, hentry]
          rw [hends _ hbad]
          constructor
          · intro lce2pce' h
            cases h
          · intro e h
            cases h
      | some entry =>
          have hrecord : s.recordGrce lce2pce grceId =
              if entry ≠ .invalidCe ∨ s.getSharedLceForGrce grceId = -enodev then .ok lce2pce
              else if s.getSharedLceForGrce grceId < 0 then
                .error (.errno (s.getSharedLceForGrce grceId))
              else setEntry lce2pce grceId
                (.sharedLce (s.getSharedLceForGrce grceId).toNat) := by
            rw [Machine.recordGrce, hentry]
          simp only [ne_eq, Option.some.injEq] at hrecord ⊢
          by_cases hskip : ¬ entry = .invalidCe ∨ s.getSharedLceForGrce grceId = -enodev
          · rw [if_pos hskip] at hrecord
            rw [hgoes _ hrecord, if_pos hskip]
            exact ih
          rw [if_neg hskip] at hrecord
          rw [if_neg hskip]
          by_cases hneg : s.getSharedLceForGrce grceId < 0
          · rw [if_pos hneg] at hrecord
            rw [hends _ hrecord, if_pos hneg]
            constructor
            · intro lce2pce' h
              cases h
            · intro e h
              cases h
              rfl
          · have hlt : grceId < lce2pce.length :=
              (List.getElem?_eq_some_iff.mp hentry).1
            rw [if_neg hneg, setEntry, if_pos hlt] at hrecord
            rw [hgoes _ hrecord, if_neg hneg]
            exact ih

theorem getPcesForLces_eq (s : Machine) :
    (∀ lce2pce', s.pcesForLces 32 = .ok lce2pce' →
      s.getPcesForLces = (some 0, lce2pce')) ∧
    ∀ e, s.pcesForLces 32 = .error (.errno e) → s.getPcesForLces.1 = some e := by
  rw [Machine.pcesForLces, Machine.getPcesForLces]
  by_cases hmap : s.readlValue 0x00104028 = BitVec.allOnes 32
  · rw [if_pos hmap]
    simp only [if_pos hmap]
    constructor
    · intro lce2pce' h
      cases h
    · intro e h
      cases h
      rfl
  rw [if_neg hmap]
  simp only [if_neg hmap]
  have hdirect := @directLces_eq s (List.replicate 32 .invalidCe) (List.range 32)
    List.length_replicate
  cases hfold : (List.range 32).foldlM (s.recordPce 32) (List.replicate 32 .invalidCe) with
  | ok t =>
      rw [hdirect.1 t hfold]
      exact sharedLces_eq
  | error stop =>
      constructor
      · intro lce2pce' h
        cases h
      · intro e h
        cases h
        obtain ⟨hne, herr⟩ := hdirect.2 e hfold
        rw [if_neg]
        · exact herr
        · rw [herr]
          intro heq
          exact hne (Option.some.inj heq)

/-! ## The whole table -/

theorem Machine.Shares.hasTable (h : s.Shares 2 lce2pceLen lce2pce)
    (hpasses : ∀ pceId < 32, s.Passes lce2pceLen pceId) :
    s.HasTable lce2pceLen lce2pce := by
  refine ⟨h.length_eq, ?_, h.pce, h.shared, h.invalid⟩
  intro pceId hpce lce hto
  have hgood := (hpasses pceId hpce hto.1).2
  rw [hto.2, enodev] at hgood
  omega

/-- The table is filled as the registers say, without an access outside and without a shift
that is too wide, exactly if the loop over PCEs fails before it comes to a PCE for which it
overruns, and the table has room for both GRCEs if they are reached. -/
theorem fillsTable_iff (s : Machine) (lce2pceLen : ℕ) :
    s.FillsTable lce2pceLen ↔
      (s.readlValue 0x00104028 ≠ BitVec.allOnes 32 →
        (∀ pceId < 32, s.Overruns lce2pceLen pceId →
          ∃ before < pceId, s.Fails lce2pceLen before) ∧
        ((∀ pceId < 32, ¬ s.Fails lce2pceLen pceId) →
          0 < lce2pceLen ∧ (s.GrceFails 0 ∨ 1 < lce2pceLen))) := by
  by_cases hmap : s.readlValue 0x00104028 = BitVec.allOnes 32
  · have hrun : s.pcesForLces lce2pceLen = .error (.errno (-eio)) := by
      rw [Machine.pcesForLces, if_pos hmap]
    constructor
    · intro _ hne
      exact absurd hmap hne
    · intro _
      rw [Machine.FillsTable, hrun]
      constructor
      · intro h
        cases h
      · intro lce2pce h
        cases h
  have hrun : s.pcesForLces lce2pceLen =
      (List.range 32).foldlM (s.recordPce lce2pceLen) (List.replicate lce2pceLen .invalidCe) >>=
        fun lce2pce => (List.range 2).foldlM s.recordGrce lce2pce := by
    rw [Machine.pcesForLces, if_neg hmap]
  rw [Machine.FillsTable, hrun]
  rcases recordPces_cases s lce2pceLen 32 with
    ⟨lce2pce, hok, hpasses, hrec⟩ | ⟨pceId, hlt, hbefore, ⟨hfails, e, herror⟩ | ⟨hover, herror⟩⟩
  · rw [hok]
    change ((List.range 2).foldlM s.recordGrce lce2pce ≠ _ ∧
      ∀ lce2pce', (List.range 2).foldlM s.recordGrce lce2pce = .ok lce2pce' → _) ↔ _
    have hnever : ∀ pceId < 32, ¬ s.Fails lce2pceLen pceId :=
      fun pceId hlt => (hpasses pceId hlt).not_fails
    rcases recordGrces_cases hrec.shares with
      ⟨hsmall, hrun⟩ | ⟨hroom, ⟨e, hrun⟩ | ⟨lce2pce', hrun, hshares⟩⟩
    · rw [hrun]
      constructor
      · intro h
        exact absurd rfl h.1
      · intro h
        exact absurd ((h hmap).2 hnever) hsmall
    · rw [hrun]
      constructor
      · intro _ _
        exact ⟨fun pceId hlt hover => absurd hover (hpasses pceId hlt).not_overruns,
          fun _ => hroom⟩
      · intro _
        constructor
        · intro h
          cases h
        · intro lce2pce' h
          cases h
    · rw [hrun]
      constructor
      · intro _ _
        exact ⟨fun pceId hlt hover => absurd hover (hpasses pceId hlt).not_overruns,
          fun _ => hroom⟩
      · intro _
        constructor
        · intro h
          cases h
        · intro lce2pce'' h
          cases h
          exact hshares.hasTable hpasses
  · rw [herror]
    constructor
    · intro _ _
      constructor
      · intro pceId' hlt' hover
        refine ⟨pceId, ?_, hfails⟩
        by_contra hle
        rcases Nat.lt_or_eq_of_le (Nat.le_of_not_lt hle) with hlt' | rfl
        · exact (hbefore pceId' hlt').not_overruns hover
        · exact hfails.not_overruns hover
      · intro hnever
        exact absurd hfails (hnever pceId hlt)
    · intro _
      constructor
      · intro h
        cases h
      · intro lce2pce h
        cases h
  · rw [herror]
    constructor
    · intro h
      exact absurd rfl h.1
    · intro h
      obtain ⟨before, hlt', hfails⟩ := (h hmap).1 pceId hlt hover
      exact absurd hfails (hbefore before hlt').not_fails

end

/-- A Volta GPU whose first PCE is mapped to LCE 32. -/
def lceBehindTable : Machine :=
  { Machine.ofWords [] with
    chipId := 0x140
    regs := fun r => if r = 0x00104028 then 1 else if r = 0x00104040 then 32 else 0 }

theorem not_fillsTable : ¬ lceBehindTable.FillsTable 32 := by
  rintro ⟨hdefined, -⟩
  exact hdefined (by decide)

end A100Partitioning.Nvdebug
