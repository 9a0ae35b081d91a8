import A100Partitioning.Support.SetBits
import Mathlib.Algebra.BigOperators.Group.Finset.Basic
import Mathlib.Tactic.Common

/-!
# The TPCs of each GPC

The library learns from registers which TPCs belong to which GPC.  It numbers
the GPCs as one register does, and counts them by another.
-/

namespace A100Partitioning.Libsmctrl

open Support

/-! ## The code -/

/-- The files of a GPU. -/
inductive ProcFile where
  | numGpcs
  | gpcMask
  | numTpcPerGpc
  | gpcTpcMask (gpc : ℕ)
  | cwdGpcTpcId (reg : ℕ)
  deriving DecidableEq, Repr

/-- What `read_int_procfile` gives for every file: a number, or an error code. -/
abbrev Procfs := ProcFile → Except ℕ (BitVec 64)

/-- How a query ends that does not succeed.  The last one is not an error: an
array is indexed outside, or a shift is too wide. -/
inductive InfoError where
  | errno (code : ℕ)
  | range
  | io
  | undefined
  deriving DecidableEq, Repr

def Procfs.read (p : Procfs) (file : ProcFile) : Except InfoError (BitVec 64) :=
  match p file with
  | .ok n => .ok n
  | .error code => .error (.errno code)

/-- `__builtin_popcountl`. -/
def popcountl (n : BitVec 64) : ℕ := (setBits n).card

/-- The number of bits of both halves of a mask. -/
def popcount (mask : BitVec 128) : ℕ :=
  popcountl (mask.setWidth 64) + popcountl ((mask >>> 64).setWidth 64)

/-- `-1u >> (64 - num_tpc_per_gpc)`.  For a shift by 32 or more, which C leaves
open, the processor gives `wide`. -/
def lowOnes (wide : BitVec 64 → BitVec 32) (numTpcPerGpc : BitVec 64) : BitVec 64 :=
  let count := 64 - numTpcPerGpc
  (if count.toNat < 32 then BitVec.allOnes 32 >>> count.toNat
    else wide count).setWidth 64

/-- The loop that counts the enabled GPCs and TPCs. -/
def countTpcs (wide : BitVec 64 → BitVec 32) (p : Procfs)
    (gpcMask numTpcPerGpc : BitVec 64) :
    List ℕ → ℕ → BitVec 32 → Except InfoError (ℕ × BitVec 32)
  | [], gpcs, tpcs => .ok (gpcs, tpcs)
  | i :: rest, gpcs, tpcs =>
      if gpcMask.getLsbD i then countTpcs wide p gpcMask numTpcPerGpc rest gpcs tpcs
      else do
        let gpcTpcMask ← p.read (.gpcTpcMask i)
        let disabled := popcountl (gpcTpcMask &&& lowOnes wide numTpcPerGpc)
        countTpcs wide p gpcMask numTpcPerGpc rest (gpcs + 1)
          (tpcs + (numTpcPerGpc - BitVec.ofNat 64 disabled).setWidth 32)

/-- The masks of the GPCs, after a TPC was found in a register. -/
def assignTpc (config : BitVec 64) (tpcId j : ℕ) (masks : ℕ → BitVec 128) :
    Except InfoError (ℕ → BitVec 128) :=
  let gpcId := (config >>> (j * 8 + 4) &&& 0xf).toNat
  if 128 ≤ tpcId ∨ 12 ≤ gpcId then .error .undefined
  else .ok (Function.update masks gpcId
    (masks gpcId ||| (1 : BitVec 128) <<< tpcId))

/-- The loop over the TPCs of one register. -/
def assignTpcs (config : BitVec 64) (reg : ℕ) (turns : ℕ)
    (masks : ℕ → BitVec 128) : Except InfoError (ℕ → BitVec 128) :=
  (List.range turns).foldlM
    (fun masks j => assignTpc config (4 * reg + j) j masks) masks

/-- The loop over the registers, for a number of TPCs. -/
def readConfigs (p : Procfs) (tpcs : ℕ) (regs : ℕ) :
    Except InfoError (BitVec 64 × (ℕ → BitVec 128)) :=
  (List.range regs).foldlM (fun (totalRead, masks) reg => do
    let config ← p.read (.cwdGpcTpcId reg)
    let masks ← assignTpcs config reg (min 4 (tpcs - 4 * reg)) masks
    return (totalRead + config, masks)) (0, fun _ => 0)

/-- A number of GPCs and the masks of their TPCs. -/
structure GpcInfo (w : ℕ) where
  gpcs : ℕ
  masks : ℕ → BitVec w

/-- `libsmctrl_get_gpc_info_ext`. -/
def getGpcInfoExt (wide : BitVec 64 → BitVec 32) (p : Procfs) (dev : ℤ) :
    Except InfoError (GpcInfo 128) := do
  let maxGpcs ← p.read .numGpcs
  if 16 < dev ∨ 12 < maxGpcs.toNat then .error .range
  else
    let gpcMask ← p.read .gpcMask
    let numTpcPerGpc ← p.read .numTpcPerGpc
    let (gpcs, tpcs) ← countTpcs wide p gpcMask numTpcPerGpc
      (List.range maxGpcs.toNat) 0 0
    -- there are masks for 16 devices
    if dev < 0 ∨ 16 ≤ dev then .error .undefined
    else
      let (totalRead, masks) ← readConfigs p tpcs.toNat ((tpcs.toNat + 3) / 4)
      let all := (List.range 12).foldl (fun all i => all ||| masks i) 0
      if popcount all ≠ tpcs.toNat then .error .io
      else if totalRead = 0 then .error .io
      else .ok ⟨gpcs, masks⟩

/-- `libsmctrl_get_gpc_info`. -/
def getGpcInfo (wide : BitVec 64 → BitVec 32) (p : Procfs) (dev : ℤ) :
    Except InfoError (GpcInfo 64) := do
  let info ← getGpcInfoExt wide p dev
  if (List.range info.gpcs).all fun i =>
      info.masks i &&& (-1 : BitVec 64).setWidth 128 == info.masks i then
    .ok ⟨info.gpcs, fun i => (info.masks i).setWidth 64⟩
  else .error .range

/-- `libsmctrl_get_tpc_info`. -/
def getTpcInfo (wide : BitVec 64 → BitVec 32) (p : Procfs) (dev : ℤ) :
    Except InfoError (BitVec 32) := do
  let info ← getGpcInfoExt wide p dev
  return (List.range info.gpcs).foldl
    (fun tpcs gpc => tpcs + BitVec.ofNat 32 (popcount (info.masks gpc))) 0

/-! ## What the registers say -/

/-- A file can be read. -/
def Procfs.Has (p : Procfs) (file : ProcFile) : Prop := ∃ n, p file = .ok n

/-- The number in a file. -/
def Procfs.value (p : Procfs) (file : ProcFile) : BitVec 64 :=
  (p file).toOption.getD 0

/-- The GPCs that are not disabled. -/
def Procfs.enabledGpcs (p : Procfs) : List ℕ :=
  (List.range (p.value .numGpcs).toNat).filter fun i =>
    !(p.value .gpcMask).getLsbD i

/-- The number of enabled TPCs: a GPC has those of its TPCs that are not
disabled. -/
def Procfs.numTpcs (p : Procfs) : ℕ :=
  (p.enabledGpcs.map fun i => (p.value .numTpcPerGpc).toNat -
    ((setBits (p.value (.gpcTpcMask i))).filter
      (· < (p.value .numTpcPerGpc).toNat)).card).sum

/-- The number of TPCs as the library counts them. -/
def Procfs.countedTpcs (wide : BitVec 64 → BitVec 32) (p : Procfs) : ℕ :=
  (p.enabledGpcs.map fun i => (p.value .numTpcPerGpc - BitVec.ofNat 64
    (popcountl (p.value (.gpcTpcMask i) &&& lowOnes wide
      (p.value .numTpcPerGpc)))).setWidth 32).sum.toNat

/-- The GPC that a TPC belongs to. -/
def Procfs.gpcOf (p : Procfs) (tpc : ℕ) : ℕ :=
  (p.value (.cwdGpcTpcId (tpc / 4)) >>> (tpc % 4 * 8 + 4) &&& 0xf).toNat

/-- There is a bit for the TPC and a mask for its GPC. -/
def Procfs.Fits (p : Procfs) (tpc : ℕ) : Prop := tpc < 128 ∧ p.gpcOf tpc < 12

/-- All registers up to the one for the TPC can be read. -/
def Procfs.Reaches (p : Procfs) (tpc : ℕ) : Prop :=
  ∀ reg ≤ tpc / 4, p.Has (.cwdGpcTpcId reg)

/-- The files that are read before the registers are there, and the GPU is not
too large. -/
structure Procfs.HasFuses (p : Procfs) : Prop where
  numGpcs : p.Has .numGpcs
  numGpcs_le : (p.value .numGpcs).toNat ≤ 12
  gpcMask : p.Has .gpcMask
  numTpcPerGpc : p.Has .numTpcPerGpc
  gpcTpcMask : ∀ i ∈ p.enabledGpcs, p.Has (.gpcTpcMask i)

/-! ## The loops -/

theorem Procfs.read_of_has {p : Procfs} {file : ProcFile} (h : p.Has file) :
    p.read file = .ok (p.value file) := by
  obtain ⟨n, hn⟩ := h
  rw [Procfs.read, Procfs.value, hn]
  rfl

theorem Procfs.exists_read_of_not_has {p : Procfs} {file : ProcFile}
    (h : ¬ p.Has file) : ∃ code, p.read file = .error (.errno code) := by
  cases hread : p file with
  | ok n => exact absurd ⟨n, hread⟩ h
  | error code =>
      refine ⟨code, ?_⟩
      rw [Procfs.read, hread]

theorem countTpcs_ok {wide : BitVec 64 → BitVec 32} {p : Procfs}
    {gpcMask numTpcPerGpc : BitVec 64} {is : List ℕ}
    (h : ∀ i ∈ is.filter (fun i => !gpcMask.getLsbD i), p.Has (.gpcTpcMask i))
    (gpcs : ℕ) (tpcs : BitVec 32) :
    countTpcs wide p gpcMask numTpcPerGpc is gpcs tpcs =
      .ok (gpcs + (is.filter fun i => !gpcMask.getLsbD i).length,
        tpcs + ((is.filter fun i => !gpcMask.getLsbD i).map fun i =>
          (numTpcPerGpc - BitVec.ofNat 64 (popcountl (p.value (.gpcTpcMask i) &&&
            lowOnes wide numTpcPerGpc))).setWidth 32).sum) := by
  induction is generalizing gpcs tpcs with
  | nil => rw [countTpcs, List.filter_nil, List.map_nil, List.sum_nil, add_zero]; rfl
  | cons i rest ih =>
      rw [countTpcs]
      cases hbit : gpcMask.getLsbD i with
      | true =>
          rw [List.filter_cons_of_neg (by rw [hbit]; exact Bool.false_ne_true)] at h ⊢
          exact ih h gpcs tpcs
      | false =>
          rw [List.filter_cons_of_pos (by rw [hbit]; rfl)] at h ⊢
          obtain ⟨hi, hrest⟩ := List.forall_mem_cons.mp h
          rw [Procfs.read_of_has hi]
          refine (ih hrest _ _).trans ?_
          rw [List.length_cons, List.map_cons, List.sum_cons, add_assoc tpcs,
            Nat.add_right_comm, Nat.add_assoc]

theorem countTpcs_error {wide : BitVec 64 → BitVec 32} {p : Procfs}
    {gpcMask numTpcPerGpc : BitVec 64} {is : List ℕ}
    (h : ¬ ∀ i ∈ is.filter (fun i => !gpcMask.getLsbD i), p.Has (.gpcTpcMask i))
    (gpcs : ℕ) (tpcs : BitVec 32) :
    ∃ code, countTpcs wide p gpcMask numTpcPerGpc is gpcs tpcs =
      .error (.errno code) := by
  induction is generalizing gpcs tpcs with
  | nil => exact absurd (fun i hi => absurd hi List.not_mem_nil) h
  | cons i rest ih =>
      rw [countTpcs]
      cases hbit : gpcMask.getLsbD i with
      | true =>
          rw [List.filter_cons_of_neg (by rw [hbit]; exact Bool.false_ne_true)] at h
          exact ih h gpcs tpcs
      | false =>
          rw [List.filter_cons_of_pos (by rw [hbit]; rfl), List.forall_mem_cons] at h
          by_cases hi : p.Has (.gpcTpcMask i)
          · rw [Procfs.read_of_has hi]
            exact ih (fun hrest => h ⟨hi, hrest⟩) _ _
          · obtain ⟨code, hcode⟩ := Procfs.exists_read_of_not_has hi
            rw [hcode]
            exact ⟨code, rfl⟩

/-- The masks of the GPCs have the TPCs below a number. -/
def Assigned (p : Procfs) (tpcs : ℕ) (masks : ℕ → BitVec 128) : Prop :=
  ∀ gpc tpc, (masks gpc).getLsbD tpc = true ↔ tpc < tpcs ∧ p.gpcOf tpc = gpc

theorem getLsbD_one_shiftLeft {n i : ℕ} (hn : n < 128) :
    ((1 : BitVec 128) <<< n).getLsbD i = true ↔ i = n := by
  rw [show (1 : BitVec 128) = 1#128 from rfl, ← BitVec.twoPow_eq, BitVec.getLsbD_twoPow]
  simp only [Bool.and_eq_true, decide_eq_true_eq]
  exact ⟨fun h => h.2.symm, fun h => ⟨hn, h.symm⟩⟩

theorem assignTpc_ok {p : Procfs} {reg j : ℕ} (hj : j < 4)
    (hfits : p.Fits (4 * reg + j)) {masks : ℕ → BitVec 128}
    (hmasks : Assigned p (4 * reg + j) masks) :
    ∃ masks', assignTpc (p.value (.cwdGpcTpcId reg)) (4 * reg + j) j masks =
      .ok masks' ∧ Assigned p (4 * reg + (j + 1)) masks' := by
  have hdiv : (4 * reg + j) / 4 = reg := by omega
  have hmod : (4 * reg + j) % 4 = j := by omega
  obtain ⟨htpc, hgpc⟩ := hfits
  have hid : (p.value (.cwdGpcTpcId reg) >>> (j * 8 + 4) &&& 0xf).toNat =
      p.gpcOf (4 * reg + j) := by
    rw [Procfs.gpcOf, hdiv, hmod]
  refine ⟨_, if_neg (by rw [hid]; omega), fun gpc tpc => ?_⟩
  rw [hid]
  by_cases hsame : gpc = p.gpcOf (4 * reg + j)
  · subst hsame
    rw [Function.update_self, BitVec.getLsbD_or, Bool.or_eq_true, hmasks,
      getLsbD_one_shiftLeft htpc]
    constructor
    · rintro (⟨hlt, hsame⟩ | rfl)
      · exact ⟨by omega, hsame⟩
      · exact ⟨by omega, rfl⟩
    · rintro ⟨hlt, hsame⟩
      by_cases heq : tpc = 4 * reg + j
      · exact .inr heq
      · exact .inl ⟨by omega, hsame⟩
  · rw [Function.update_of_ne hsame, hmasks]
    refine ⟨fun ⟨hlt, heq⟩ => ⟨by omega, heq⟩, fun ⟨hlt, heq⟩ => ⟨?_, heq⟩⟩
    have hne : tpc ≠ 4 * reg + j := by
      rintro rfl
      exact hsame heq.symm
    omega

theorem assignTpc_undefined {p : Procfs} {reg j : ℕ} (hj : j < 4)
    (hfits : ¬ p.Fits (4 * reg + j)) (masks : ℕ → BitVec 128) :
    assignTpc (p.value (.cwdGpcTpcId reg)) (4 * reg + j) j masks =
      .error .undefined := by
  have hdiv : (4 * reg + j) / 4 = reg := by omega
  have hmod : (4 * reg + j) % 4 = j := by omega
  have hid : (p.value (.cwdGpcTpcId reg) >>> (j * 8 + 4) &&& 0xf).toNat =
      p.gpcOf (4 * reg + j) := by
    rw [Procfs.gpcOf, hdiv, hmod]
  rw [Procfs.Fits, ← hid] at hfits
  exact if_pos (by omega)

theorem assignTpcs_cases {p : Procfs} {reg turns : ℕ} (hturns : turns ≤ 4)
    {masks : ℕ → BitVec 128} (hmasks : Assigned p (4 * reg) masks) :
    (∃ masks', assignTpcs (p.value (.cwdGpcTpcId reg)) reg turns masks = .ok masks' ∧
      (∀ j < turns, p.Fits (4 * reg + j)) ∧ Assigned p (4 * reg + turns) masks') ∨
    (assignTpcs (p.value (.cwdGpcTpcId reg)) reg turns masks = .error .undefined ∧
      ∃ j < turns, ¬ p.Fits (4 * reg + j)) := by
  induction turns with
  | zero =>
      exact .inl ⟨masks, rfl, fun j hj => absurd hj (Nat.not_lt_zero j), hmasks⟩
  | succ turns ih =>
      have hstep : assignTpcs (p.value (.cwdGpcTpcId reg)) reg (turns + 1) masks =
          assignTpcs (p.value (.cwdGpcTpcId reg)) reg turns masks >>=
            assignTpc (p.value (.cwdGpcTpcId reg)) (4 * reg + turns) turns := by
        rw [assignTpcs, List.range_succ, List.foldlM_append]
        refine congrArg _ (funext fun masks => ?_)
        rw [List.foldlM_cons]
        exact bind_pure _
      rw [hstep]
      rcases ih (by omega) with ⟨masks', hok, hfits, hassigned⟩ | ⟨herror, j, hj, hfits⟩
      · rw [hok]
        by_cases hlast : p.Fits (4 * reg + turns)
        · obtain ⟨masks'', hok', hassigned'⟩ :=
            assignTpc_ok (by omega) hlast hassigned
          refine .inl ⟨masks'', hok', fun j hj => ?_, hassigned'⟩
          by_cases heq : j = turns
          · exact heq ▸ hlast
          · exact hfits j (by omega)
        · exact .inr ⟨assignTpc_undefined (by omega) hlast masks',
            turns, by omega, hlast⟩
      · rw [herror]
        exact .inr ⟨rfl, j, by omega, hfits⟩

/-- What reading some registers can come to: all TPCs so far are assigned, one of
them does not fit, or a register cannot be read. -/
def Loads (p : Procfs) (tpcs regs : ℕ) :
    Except InfoError (BitVec 64 × (ℕ → BitVec 128)) → Prop
  | .ok (totalRead, masks) =>
      (∀ reg < regs, p.Has (.cwdGpcTpcId reg)) ∧
      (∀ tpc < min (4 * regs) tpcs, p.Fits tpc) ∧
      totalRead = ((List.range regs).map fun reg =>
        p.value (.cwdGpcTpcId reg)).sum ∧
      Assigned p (min (4 * regs) tpcs) masks
  | .error .undefined =>
      ∃ tpc < min (4 * regs) tpcs, p.Reaches tpc ∧ ¬ p.Fits tpc
  | .error _ =>
      (∃ reg < regs, ¬ p.Has (.cwdGpcTpcId reg)) ∧
      ∀ tpc < min (4 * regs) tpcs, p.Reaches tpc → p.Fits tpc

theorem readConfigs_succ (p : Procfs) (tpcs regs : ℕ) :
    readConfigs p tpcs (regs + 1) = (do
      let (totalRead, masks) ← readConfigs p tpcs regs
      let config ← p.read (.cwdGpcTpcId regs)
      let masks ← assignTpcs config regs (min 4 (tpcs - 4 * regs)) masks
      return (totalRead + config, masks)) := by
  rw [readConfigs, List.range_succ, List.foldlM_append]
  refine congrArg _ (funext fun acc => ?_)
  rw [List.foldlM_cons]
  exact bind_pure _

/-- A register that cannot be read ends the query. -/
theorem loads_errno {p : Procfs} {tpcs regs code : ℕ}
    (hmissing : ∃ reg < regs, ¬ p.Has (.cwdGpcTpcId reg))
    (hfits : ∀ tpc < min (4 * regs) tpcs, p.Reaches tpc → p.Fits tpc) :
    Loads p tpcs regs (.error (.errno code)) := ⟨hmissing, hfits⟩

theorem loads_readConfigs (p : Procfs) (tpcs regs : ℕ) :
    Loads p tpcs regs (readConfigs p tpcs regs) := by
  induction regs with
  | zero =>
      refine ⟨fun reg h => absurd h (Nat.not_lt_zero reg), fun tpc h => ?_, rfl,
        fun gpc tpc => ?_⟩
      · omega
      · have hzero : (0 : BitVec 128).getLsbD tpc = false := BitVec.getLsbD_zero
        refine iff_of_false (by rw [hzero]; exact Bool.false_ne_true) fun h => ?_
        omega
  | succ regs ih =>
      rw [readConfigs_succ]
      cases hprev : readConfigs p tpcs regs with
      | error e =>
          rw [hprev] at ih
          have hlate : ∀ {reg}, reg < regs → ¬ p.Has (.cwdGpcTpcId reg) →
              ∀ tpc < min (4 * (regs + 1)) tpcs, ¬ tpc < min (4 * regs) tpcs →
                ¬ p.Reaches tpc := fun hreg hmissing tpc _ hle hreach =>
            hmissing (hreach _ (by omega))
          have hmore : (∃ reg < regs, ¬ p.Has (.cwdGpcTpcId reg)) ∧
              (∀ tpc < min (4 * regs) tpcs, p.Reaches tpc → p.Fits tpc) →
              (∃ reg < regs + 1, ¬ p.Has (.cwdGpcTpcId reg)) ∧
              ∀ tpc < min (4 * (regs + 1)) tpcs, p.Reaches tpc → p.Fits tpc := by
            rintro ⟨⟨reg, hreg, hmissing⟩, hfits⟩
            refine ⟨⟨reg, by omega, hmissing⟩, fun tpc htpc hreach => ?_⟩
            by_cases hearly : tpc < min (4 * regs) tpcs
            · exact hfits tpc hearly hreach
            · exact absurd hreach (hlate hreg hmissing tpc htpc hearly)
          cases e with
          | undefined =>
              obtain ⟨tpc, htpc, hreach⟩ := ih
              exact ⟨tpc, by omega, hreach⟩
          | errno code => exact hmore ih
          | range => exact hmore ih
          | io => exact hmore ih
      | ok loaded =>
          obtain ⟨totalRead, masks⟩ := loaded
          rw [hprev] at ih
          obtain ⟨hhas, hfits, htotal, hassigned⟩ := ih
          by_cases hreg : p.Has (.cwdGpcTpcId regs)
          · have hturns : min 4 (tpcs - 4 * regs) ≤ 4 := min_le_left _ _
            have hreach : ∀ tpc, tpc < 4 * (regs + 1) → p.Reaches tpc := by
              intro tpc htpc reg hle
              by_cases heq : reg = regs
              · exact heq ▸ hreg
              · exact hhas reg (by omega)
            change Loads p tpcs (regs + 1) (p.read (.cwdGpcTpcId regs) >>= _)
            rw [Procfs.read_of_has hreg]
            change Loads p tpcs (regs + 1) (assignTpcs (p.value (.cwdGpcTpcId regs))
              regs (min 4 (tpcs - 4 * regs)) masks >>= _)
            by_cases hdone : tpcs ≤ 4 * regs
            · have hmin : min (4 * (regs + 1)) tpcs = min (4 * regs) tpcs := by omega
              have hnone : min 4 (tpcs - 4 * regs) = 0 := by omega
              rw [hnone]
              refine ⟨fun reg h => ?_, hmin ▸ hfits, ?_, hmin ▸ hassigned⟩
              · by_cases heq : reg = regs
                · exact heq ▸ hreg
                · exact hhas reg (by omega)
              · rw [List.range_succ, List.map_append, List.sum_append, ← htotal,
                  List.map_singleton, List.sum_singleton]
            · have hstart : min (4 * regs) tpcs = 4 * regs := by omega
              have hend : min (4 * (regs + 1)) tpcs =
                  4 * regs + min 4 (tpcs - 4 * regs) := by omega
              rw [hstart] at hassigned hfits
              rcases assignTpcs_cases hturns hassigned with
                ⟨masks', hok, hnew, hassigned'⟩ | ⟨herror, j, hj, hnot⟩
              · rw [hok]
                refine ⟨fun reg h => ?_, fun tpc htpc => ?_, ?_, hend ▸ hassigned'⟩
                · by_cases heq : reg = regs
                  · exact heq ▸ hreg
                  · exact hhas reg (by omega)
                · by_cases hold : tpc < 4 * regs
                  · exact hfits tpc hold
                  · have hsum : 4 * regs + (tpc - 4 * regs) = tpc := by omega
                    exact hsum ▸ hnew (tpc - 4 * regs) (by omega)
                · rw [List.range_succ, List.map_append, List.sum_append, ← htotal,
                    List.map_singleton, List.sum_singleton]
              · rw [herror]
                exact ⟨4 * regs + j, by omega, hreach _ (by omega), hnot⟩
          · obtain ⟨code, hcode⟩ := Procfs.exists_read_of_not_has hreg
            change Loads p tpcs (regs + 1) (p.read (.cwdGpcTpcId regs) >>= _)
            rw [hcode]
            refine loads_errno ⟨regs, by omega, hreg⟩ fun tpc htpc hreach => ?_
            by_cases hold : tpc < min (4 * regs) tpcs
            · exact hfits tpc hold
            · exact absurd (hreach regs (by omega)) hreg

/-! ## The query -/

theorem getLsbD_foldl_or (masks : ℕ → BitVec 128) (n i : ℕ) :
    ((List.range n).foldl (fun all i => all ||| masks i) 0).getLsbD i = true ↔
      ∃ gpc < n, (masks gpc).getLsbD i = true := by
  induction n with
  | zero =>
      refine iff_of_false (fun h => ?_) fun ⟨gpc, h, _⟩ => Nat.not_lt_zero gpc h
      exact Bool.false_ne_true (BitVec.getLsbD_zero.symm.trans h)
  | succ n ih =>
      rw [List.range_succ, List.foldl_append, List.foldl_cons, List.foldl_nil,
        BitVec.getLsbD_or, Bool.or_eq_true, ih]
      constructor
      · rintro (⟨gpc, hgpc, hbit⟩ | hbit)
        · exact ⟨gpc, by omega, hbit⟩
        · exact ⟨n, by omega, hbit⟩
      · rintro ⟨gpc, hgpc, hbit⟩
        by_cases heq : gpc = n
        · exact .inr (heq ▸ hbit)
        · exact .inl ⟨gpc, by omega, hbit⟩

theorem popcount_eq (mask : BitVec 128) : popcount mask = (setBits mask).card :=
  card_setBits_split mask le_rfl

theorem popcount_assigned {p : Procfs} {tpcs : ℕ} {masks : ℕ → BitVec 128}
    (hfits : ∀ tpc < tpcs, p.Fits tpc) (h : Assigned p tpcs masks) :
    popcount ((List.range 12).foldl (fun all i => all ||| masks i) 0) = tpcs := by
  rw [popcount_eq]
  refine Eq.trans (congrArg Finset.card (?_ : _ = Finset.range tpcs))
    (Finset.card_range tpcs)
  ext i
  rw [mem_setBits, getLsbD_foldl_or, Finset.mem_range]
  constructor
  · rintro ⟨gpc, -, hbit⟩
    exact ((h gpc i).mp hbit).1
  · intro hi
    exact ⟨p.gpcOf i, (hfits i hi).2, (h _ i).mpr ⟨hi, rfl⟩⟩

/-- The part of the query that depends on the registers. -/
def loadInfo (p : Procfs) (gpcs tpcs : ℕ) : Except InfoError (GpcInfo 128) := do
  let (totalRead, masks) ← readConfigs p tpcs ((tpcs + 3) / 4)
  let all := (List.range 12).foldl (fun all i => all ||| masks i) 0
  if popcount all ≠ tpcs then .error .io
  else if totalRead = 0 then .error .io
  else .ok ⟨gpcs, masks⟩

theorem getGpcInfoExt_eq {wide : BitVec 64 → BitVec 32} {p : Procfs} {dev : ℤ}
    (h : p.HasFuses) (hdev : dev ≤ 16) :
    getGpcInfoExt wide p dev =
      if dev < 0 ∨ 16 ≤ dev then .error .undefined
      else loadInfo p p.enabledGpcs.length (p.countedTpcs wide) := by
  have hsize : ¬ (16 < dev ∨ 12 < (p.value .numGpcs).toNat) := by
    have hle := h.numGpcs_le
    omega
  have hcount := @countTpcs_ok wide _ _ (p.value .numTpcPerGpc) _ h.gpcTpcMask 0 0
  rw [getGpcInfoExt, Procfs.read_of_has h.numGpcs]
  refine (if_neg hsize).trans ?_
  rw [Procfs.read_of_has h.gpcMask, Procfs.read_of_has h.numTpcPerGpc]
  change (countTpcs wide p (p.value .gpcMask) (p.value .numTpcPerGpc)
    (List.range (p.value .numGpcs).toNat) 0 0 >>= _) = _
  rw [hcount, Nat.zero_add]
  refine (congrArg (fun tpcs : BitVec 32 => if dev < 0 ∨ 16 ≤ dev then
    Except.error InfoError.undefined
    else loadInfo p p.enabledGpcs.length tpcs.toNat) (BitVec.zero_add _)).trans rfl

/-- Without the fuses the query is an error. -/
theorem getGpcInfoExt_error {wide : BitVec 64 → BitVec 32} {p : Procfs} {dev : ℤ}
    (h : ¬ (p.HasFuses ∧ dev ≤ 16)) :
    ∃ e, getGpcInfoExt wide p dev = .error e ∧ e ≠ .undefined := by
  have herrno : ∀ {code}, InfoError.errno code ≠ .undefined := fun h => (nomatch h)
  rw [getGpcInfoExt]
  by_cases hgpcs : p.Has .numGpcs
  · rw [Procfs.read_of_has hgpcs]
    by_cases hsize : 16 < dev ∨ 12 < (p.value .numGpcs).toNat
    · exact ⟨.range, if_pos hsize, fun h => (nomatch h)⟩
    · by_cases hmask : p.Has .gpcMask
      · by_cases htpcs : p.Has .numTpcPerGpc
        · have hfuses : ¬ ∀ i ∈ p.enabledGpcs, p.Has (.gpcTpcMask i) := fun hall =>
            h ⟨⟨hgpcs, by omega, hmask, htpcs, hall⟩, by omega⟩
          obtain ⟨code, hcode⟩ := @countTpcs_error wide p (p.value .gpcMask)
            (p.value .numTpcPerGpc) _ hfuses 0 0
          refine ⟨.errno code, (if_neg hsize).trans ?_, herrno⟩
          rw [Procfs.read_of_has hmask, Procfs.read_of_has htpcs]
          change (countTpcs wide p (p.value .gpcMask) (p.value .numTpcPerGpc)
            (List.range (p.value .numGpcs).toNat) 0 0 >>= _) = _
          rw [hcode]
          rfl
        · obtain ⟨code, hcode⟩ := Procfs.exists_read_of_not_has htpcs
          refine ⟨.errno code, (if_neg hsize).trans ?_, herrno⟩
          rw [Procfs.read_of_has hmask, hcode]
          rfl
      · obtain ⟨code, hcode⟩ := Procfs.exists_read_of_not_has hmask
        refine ⟨.errno code, (if_neg hsize).trans ?_, herrno⟩
        rw [hcode]
        rfl
  · obtain ⟨code, hcode⟩ := Procfs.exists_read_of_not_has hgpcs
    rw [hcode]
    exact ⟨.errno code, rfl, herrno⟩

theorem loadInfo_cases (p : Procfs) (gpcs tpcs : ℕ) :
    (∃ masks, loadInfo p gpcs tpcs = .ok ⟨gpcs, masks⟩ ∧ Assigned p tpcs masks ∧
      (∀ tpc < tpcs, p.Fits tpc) ∧
      (∀ reg < (tpcs + 3) / 4, p.Has (.cwdGpcTpcId reg)) ∧
      ((List.range ((tpcs + 3) / 4)).map fun reg =>
        p.value (.cwdGpcTpcId reg)).sum ≠ 0) ∨
    (loadInfo p gpcs tpcs = .error .undefined ∧
      ∃ tpc < tpcs, p.Reaches tpc ∧ ¬ p.Fits tpc) ∨
    ((∃ e, loadInfo p gpcs tpcs = .error e ∧ e ≠ .undefined) ∧
      (∀ tpc < tpcs, p.Reaches tpc → p.Fits tpc) ∧
      ¬ ((∀ reg < (tpcs + 3) / 4, p.Has (.cwdGpcTpcId reg)) ∧
        ((List.range ((tpcs + 3) / 4)).map fun reg =>
          p.value (.cwdGpcTpcId reg)).sum ≠ 0)) := by
  have hmin : min (4 * ((tpcs + 3) / 4)) tpcs = tpcs := by omega
  have hloads := loads_readConfigs p tpcs ((tpcs + 3) / 4)
  rw [loadInfo]
  cases hread : readConfigs p tpcs ((tpcs + 3) / 4) with
  | ok loaded =>
      obtain ⟨totalRead, masks⟩ := loaded
      rw [hread] at hloads
      obtain ⟨hhas, hfits, htotal, hassigned⟩ := hloads
      rw [hmin] at hfits hassigned
      have hcount := popcount_assigned hfits hassigned
      by_cases hzero : totalRead = 0
      · refine .inr (.inr ⟨⟨.io, ?_, fun h => (nomatch h)⟩,
          fun tpc htpc _ => hfits tpc htpc, fun h => h.2 (htotal.symm.trans hzero)⟩)
        exact (if_neg (not_not_intro hcount)).trans (if_pos hzero)
      · exact .inl ⟨masks, (if_neg (not_not_intro hcount)).trans (if_neg hzero),
          hassigned, hfits, hhas, htotal ▸ hzero⟩
  | error e =>
      rw [hread] at hloads
      have hlate : ∀ {e : InfoError}, e ≠ .undefined →
          ((∃ reg < (tpcs + 3) / 4, ¬ p.Has (.cwdGpcTpcId reg)) ∧
            ∀ tpc < min (4 * ((tpcs + 3) / 4)) tpcs, p.Reaches tpc → p.Fits tpc) →
          (∃ e', (Except.error e : Except InfoError (GpcInfo 128)) = .error e' ∧
            e' ≠ .undefined) ∧
          (∀ tpc < tpcs, p.Reaches tpc → p.Fits tpc) ∧
          ¬ ((∀ reg < (tpcs + 3) / 4, p.Has (.cwdGpcTpcId reg)) ∧
            ((List.range ((tpcs + 3) / 4)).map fun reg =>
              p.value (.cwdGpcTpcId reg)).sum ≠ 0) := by
        rintro e he ⟨⟨reg, hreg, hmissing⟩, hfits⟩
        exact ⟨⟨e, rfl, he⟩, hmin ▸ hfits, fun h => hmissing (h.1 reg hreg)⟩
      cases e with
      | undefined =>
          obtain ⟨tpc, htpc, hbad⟩ := hloads
          exact .inr (.inl ⟨rfl, tpc, by omega, hbad⟩)
      | errno code => exact .inr (.inr (hlate (fun h => (nomatch h)) hloads))
      | range => exact .inr (.inr (hlate (fun h => (nomatch h)) hloads))
      | io => exact .inr (.inr (hlate (fun h => (nomatch h)) hloads))

/-- A successful query: the GPCs share no TPC, together they have exactly the
enabled ones, and the other two queries agree. -/
structure InfoIsRight (wide : BitVec 64 → BitVec 32) (p : Procfs) (dev : ℤ)
    (info : GpcInfo 128) : Prop where
  disjoint : ∀ gpc < info.gpcs, ∀ other < info.gpcs, gpc ≠ other →
    Disjoint (setBits (info.masks gpc)) (setBits (info.masks other))
  union : (Finset.range info.gpcs).biUnion (fun gpc => setBits (info.masks gpc)) =
    Finset.range p.numTpcs
  tpcInfo : ∃ tpcs, getTpcInfo wide p dev = .ok tpcs ∧ tpcs.toNat = p.numTpcs
  gpcInfo : (∀ gpc < info.gpcs, (info.masks gpc).toNat < 2 ^ 64) →
    ∃ info', getGpcInfo wide p dev = .ok info' ∧ info'.gpcs = info.gpcs ∧
      ∀ gpc < info.gpcs, (info'.masks gpc).setWidth 128 = info.masks gpc
  tooLarge : (∃ gpc < info.gpcs, 2 ^ 64 ≤ (info.masks gpc).toNat) →
    getGpcInfo wide p dev = .error .range

/-- The query succeeds with the right masks, or reports an error. -/
def InfoAsStated (wide : BitVec 64 → BitVec 32) (p : Procfs) (dev : ℤ) : Prop :=
  (∃ info, getGpcInfoExt wide p dev = .ok info ∧ InfoIsRight wide p dev info) ∨
    ∃ e, getGpcInfoExt wide p dev = .error e ∧ e ≠ .undefined

theorem and_lowHalf_iff (mask : BitVec 128) :
    mask &&& (-1 : BitVec 64).setWidth 128 = mask ↔ mask.toNat < 2 ^ 64 := by
  have hones : ((-1 : BitVec 64).setWidth 128).toNat = 2 ^ 64 - 1 := rfl
  rw [← BitVec.toNat_inj, BitVec.toNat_and, hones, Nat.and_two_pow_sub_one_eq_mod]
  exact ⟨fun h => h ▸ Nat.mod_lt _ (by decide), Nat.mod_eq_of_lt⟩

theorem foldl_popcount (masks : ℕ → BitVec 128) (gpcs : ℕ) :
    (List.range gpcs).foldl
        (fun tpcs gpc => tpcs + BitVec.ofNat 32 (popcount (masks gpc))) 0 =
      BitVec.ofNat 32 (∑ gpc ∈ Finset.range gpcs, (setBits (masks gpc)).card) := by
  induction gpcs with
  | zero => rfl
  | succ gpcs ih =>
      rw [List.range_succ, List.foldl_append, List.foldl_cons, List.foldl_nil, ih,
        Finset.sum_range_succ, popcount_eq, BitVec.ofNat_add]

/-- A successful query is right when the TPCs that belong to one of the first
GPCs are those that are enabled. -/
theorem infoIsRight_iff {wide : BitVec 64 → BitVec 32} {p : Procfs} {dev : ℤ}
    {gpcs tpcs : ℕ} {masks : ℕ → BitVec 128}
    (hinfo : getGpcInfoExt wide p dev = .ok ⟨gpcs, masks⟩)
    (hassigned : Assigned p tpcs masks) :
    InfoIsRight wide p dev ⟨gpcs, masks⟩ ↔
      ∀ tpc, tpc < p.numTpcs ↔ tpc < tpcs ∧ p.gpcOf tpc < gpcs := by
  have hmem : ∀ tpc, tpc ∈ (Finset.range gpcs).biUnion
      (fun gpc => setBits (masks gpc)) ↔ tpc < tpcs ∧ p.gpcOf tpc < gpcs := by
    intro tpc
    simp only [Finset.mem_biUnion, Finset.mem_range, mem_setBits, hassigned _ tpc]
    constructor
    · rintro ⟨_, hlt, htpc, rfl⟩
      exact ⟨htpc, hlt⟩
    · rintro ⟨htpc, hlt⟩
      exact ⟨_, hlt, htpc, rfl⟩
  have hunion : (Finset.range gpcs).biUnion (fun gpc => setBits (masks gpc)) =
      Finset.range p.numTpcs ↔
        ∀ tpc, tpc < p.numTpcs ↔ tpc < tpcs ∧ p.gpcOf tpc < gpcs := by
    rw [Finset.ext_iff]
    refine forall_congr' fun tpc => ?_
    rw [hmem, Finset.mem_range]
    exact Iff.comm
  refine ⟨fun h => hunion.mp h.union, fun h => ?_⟩
  have hdisjoint : ∀ gpc other, gpc ≠ other →
      Disjoint (setBits (masks gpc)) (setBits (masks other)) := by
    intro gpc other hne
    refine Finset.disjoint_left.mpr fun tpc hgpc hother => hne ?_
    rw [mem_setBits, hassigned] at hgpc hother
    exact hgpc.2.symm.trans hother.2
  have heq := hunion.mpr h
  have hcard : ∑ gpc ∈ Finset.range gpcs, (setBits (masks gpc)).card =
      p.numTpcs := by
    rw [← Finset.card_biUnion fun gpc _ other _ hne => hdisjoint gpc other hne, heq,
      Finset.card_range]
  have hbound : p.numTpcs ≤ 128 := by
    calc
      p.numTpcs = (Finset.range p.numTpcs).card := (Finset.card_range _).symm
      _ ≤ (Finset.range 128).card := by
        rw [← heq]
        exact Finset.card_le_card
          (Finset.biUnion_subset.mpr fun gpc _ => setBits_subset_range (masks gpc))
      _ = 128 := Finset.card_range 128
  refine ⟨fun gpc _ other _ hne => hdisjoint gpc other hne, heq,
    ⟨BitVec.ofNat 32 p.numTpcs, ?_, ?_⟩, fun hlow => ?_, ?_⟩
  · rw [getTpcInfo, hinfo, ← hcard, ← foldl_popcount]
    rfl
  · rw [BitVec.toNat_ofNat, Nat.mod_eq_of_lt (by omega)]
  · have hall : ((List.range gpcs).all fun i =>
        masks i &&& (-1 : BitVec 64).setWidth 128 == masks i) = true := by
      rw [List.all_eq_true]
      intro i hi
      exact beq_iff_eq.mpr ((and_lowHalf_iff _).mpr (hlow i (List.mem_range.mp hi)))
    refine ⟨⟨gpcs, fun i => (masks i).setWidth 64⟩, ?_, rfl, fun i hi => ?_⟩
    · rw [getGpcInfo, hinfo]
      exact if_pos hall
    · apply BitVec.eq_of_toNat_eq
      have hlt := hlow i hi
      rw [BitVec.toNat_setWidth, BitVec.toNat_setWidth, Nat.mod_eq_of_lt hlt,
        Nat.mod_eq_of_lt (by omega)]
  · rintro ⟨gpc, hgpc, hlarge⟩
    have hnot : ¬ ((List.range gpcs).all fun i =>
        masks i &&& (-1 : BitVec 64).setWidth 128 == masks i) = true := by
      rw [List.all_eq_true]
      intro hall
      have hlow := (and_lowHalf_iff _).mp
        (beq_iff_eq.mp (hall gpc (List.mem_range.mpr hgpc)))
      exact absurd hlow (not_lt.mpr hlarge)
    rw [getGpcInfo, hinfo]
    exact if_neg hnot

/-- The topology queries do what they say for exactly these registers: there are
masks for the device and for every TPC that is reached, and the TPCs of the first
GPCs, as the registers number them, are the enabled ones. -/
theorem infoAsStated_iff (wide : BitVec 64 → BitVec 32) (p : Procfs) (dev : ℤ) :
    InfoAsStated wide p dev ↔ (p.HasFuses → dev ≤ 16 →
      (0 ≤ dev ∧ dev < 16) ∧
      (∀ tpc < p.countedTpcs wide, p.Reaches tpc → p.Fits tpc) ∧
      ((∀ reg < (p.countedTpcs wide + 3) / 4, p.Has (.cwdGpcTpcId reg)) →
        ((List.range ((p.countedTpcs wide + 3) / 4)).map fun reg =>
          p.value (.cwdGpcTpcId reg)).sum ≠ 0 →
        ∀ tpc, tpc < p.numTpcs ↔
          tpc < p.countedTpcs wide ∧ p.gpcOf tpc < p.enabledGpcs.length)) := by
  by_cases hfuses : p.HasFuses ∧ dev ≤ 16
  · have heq := @getGpcInfoExt_eq wide _ _ hfuses.1 hfuses.2
    rw [imp_iff_right hfuses.1, imp_iff_right hfuses.2, InfoAsStated]
    by_cases hdev : dev < 0 ∨ 16 ≤ dev
    · rw [heq, if_pos hdev]
      refine iff_of_false ?_ fun h => by omega
      rintro (⟨info, hinfo, -⟩ | ⟨e, he, hne⟩)
      · cases hinfo
      · cases he
        exact hne rfl
    · rw [if_neg hdev] at heq
      rw [and_iff_right (by omega : 0 ≤ dev ∧ dev < 16)]
      rcases loadInfo_cases p p.enabledGpcs.length (p.countedTpcs wide) with
        ⟨masks, hload, hassigned, hfits, hhas, htotal⟩ |
        ⟨hload, tpc, htpc, hreach, hbad⟩ | ⟨⟨e, hload, he⟩, hfits, hnot⟩
      · have hinfo := heq.trans hload
        rw [and_iff_right fun tpc htpc _ => hfits tpc htpc, imp_iff_right hhas,
          imp_iff_right htotal, ← infoIsRight_iff hinfo hassigned, hinfo]
        constructor
        · rintro (⟨info, heq', hright⟩ | ⟨e, he, -⟩)
          · cases heq'
            exact hright
          · cases he
        · exact fun hright => .inl ⟨_, rfl, hright⟩
      · rw [heq, hload]
        refine iff_of_false ?_ fun h => hbad (h.1 tpc htpc hreach)
        rintro (⟨info, hinfo, -⟩ | ⟨e, he, hne⟩)
        · cases hinfo
        · cases he
          exact hne rfl
      · rw [heq, hload]
        exact iff_of_true (.inr ⟨e, rfl, he⟩)
          ⟨hfits, fun hhas htotal => absurd ⟨hhas, htotal⟩ hnot⟩
  · refine iff_of_true (.inr (getGpcInfoExt_error hfuses)) fun h hdev => ?_
    exact absurd ⟨h, hdev⟩ hfuses

/-- A wide shift as the processors do it, which take the count modulo 32. -/
def wideShift (count : BitVec 64) : BitVec 32 :=
  BitVec.allOnes 32 >>> (count.toNat % 32)

/-- A GPU with two GPCs of two TPCs, one of which is disabled. -/
def floorswept (gpcMask config : BitVec 64) : Procfs
  | .numGpcs => .ok 2
  | .gpcMask => .ok gpcMask
  | .numTpcPerGpc => .ok 2
  | .gpcTpcMask _ => .ok 0
  | .cwdGpcTpcId _ => .ok config

/-- With the first GPC disabled, the TPCs are in the mask of the second one,
which is beyond the number of GPCs, and none is reported. -/
theorem floorswept_first :
    getTpcInfo wideShift (floorswept 1 0x1110) 0 = .ok 0 ∧
      (floorswept 1 0x1110).numTpcs = 2 ∧
      ¬ InfoAsStated wideShift (floorswept 1 0x1110) 0 := by
  have htpcs : getTpcInfo wideShift (floorswept 1 0x1110) 0 = .ok 0 := by
    decide
  have hnum : (floorswept 1 0x1110).numTpcs = 2 := by decide
  refine ⟨htpcs, hnum, ?_⟩
  rintro (⟨info, -, hright⟩ | ⟨e, he, -⟩)
  · obtain ⟨tpcs, hget, heq⟩ := hright.tpcInfo
    rw [htpcs] at hget
    cases hget
    rw [hnum] at heq
    cases heq
  · rw [getTpcInfo, he] at htpcs
    cases htpcs

example : getTpcInfo wideShift (floorswept 2 0x0100) 0 = .ok 2 := by decide

end A100Partitioning.Libsmctrl
