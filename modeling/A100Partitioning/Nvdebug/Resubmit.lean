import A100Partitioning.Nvdebug.Ptop
import A100Partitioning.Nvdebug.RunlistOps

/-!
# Resubmitting different runlists

`resubmit_runlist` does not do the same for two runlists: there are GPUs of every
generation from Fermi on where even its result differs.
-/

namespace A100Partitioning.Nvdebug

/-! ## Resubmitting tells runlists apart -/

section Resubmit

variable {stack : BitVec 32} {rlId off : ℕ} {s : Machine}

theorem nvdebugReadq_apply (r : ℕ) (s : Machine) :
    ∃ raw, nvdebugReadq r s = some (raw, s) ∧
      (s.platd = none → (raw = BitVec.allOnes 64 ↔
        isBadRead (s.register r) = true ∨
          s.register (r + 4) ++ s.register r = BitVec.allOnes 64)) := by
  by_cases hoff : s.registersOff = true
  · refine ⟨BitVec.allOnes 64, ?_, ?_⟩
    · simp [nvdebugReadq, hoff]
    · intro hplatd
      simp [Core.registersOff, hplatd] at hoff
  · by_cases hbad : isBadRead (s.register r) = true
    · refine ⟨BitVec.allOnes 64, ?_, ?_⟩
      · simp [nvdebugReadq, hoff, hbad]
      · intro _
        exact ⟨fun _ => .inl hbad, fun _ => rfl⟩
    · refine ⟨s.register (r + 4) ++ s.register r, ?_, ?_⟩
      · simp [nvdebugReadq, hoff, hbad]
      · intro _
        exact ⟨.inr, fun h => h.resolve_left hbad⟩

theorem preemptRunlist_returns (s : Machine) : (preemptRunlist stack rlId s).isSome := by
  rw [preemptRunlist]
  by_cases hmaxwell : s.chipId < 0x120
  · simp [hmaxwell]
  · by_cases hampere : s.chipId < 0x170
    · simp [hmaxwell, hampere, nvdebugWritel]
    · cases hram : getRunlistRam s rlId with
      | error e => simp [hmaxwell, hampere, hram]
      | ok found => simp [hmaxwell, hampere, hram, nvdebugWritel]

/-- The end of `resubmit_runlist` fails only if the register cannot be read. -/
theorem fst_resubmitTu102 (submitReg : ℕ) {raw : BitVec 64}
    (hread : nvdebugReadq submitReg s = some (raw, s)) :
    (resubmitTu102 stack rlId off submitReg s).map Prod.fst =
      some (if raw = BitVec.allOnes 64 then -eio else 0) := by
  rw [resubmitTu102, Kernel.bind_eq_of_eq hread]
  by_cases hraw : raw = BitVec.allOnes 64
  · simp [hraw]
  · obtain ⟨⟨res, s'⟩, hpreempt⟩ :=
      Option.isSome_iff_exists.mp (@preemptRunlist_returns stack rlId s)
    rw [if_neg hraw, if_neg hraw, Kernel.bind_eq_of_eq hpreempt]
    simp [nvdebugWriteq, nvdebugWritel]

/-- The register that `resubmit_runlist` reads first. -/
def submitRegister (s : Machine) (rlId : ℕ) : Except ℤ ℕ :=
  if s.chipId < 0x160 then
    if 34 < rlId then .error (-einval) else .ok (0x00002280 + rlId * 8)
  else if s.chipId < 0x170 then
    if 80 < rlId then .error (-einval) else .ok (0x00002B08 + rlId * 16)
  else (getRunlistRam s rlId).map fun found => found.2 + 0x088

theorem fst_resubmitRunlist_error {e : ℤ} (hfermi : 0xC0 ≤ s.chipId)
    (hreg : submitRegister s rlId = .error e) :
    (resubmitRunlist stack rlId off s).map Prod.fst = some e := by
  rw [submitRegister] at hreg
  have hchip : ¬ s.chipId < 0xC0 := not_lt.mpr hfermi
  by_cases hvolta : s.chipId < 0x160
  · rw [if_pos hvolta] at hreg
    by_cases hmax : 34 < rlId
    · rw [if_pos hmax] at hreg
      cases hreg
      simp [resubmitRunlist, hchip, hvolta, hmax]
    · rw [if_neg hmax] at hreg
      cases hreg
  · rw [if_neg hvolta] at hreg
    by_cases hturing : s.chipId < 0x170
    · rw [if_pos hturing] at hreg
      by_cases hmax : 80 < rlId
      · rw [if_pos hmax] at hreg
        cases hreg
        simp [resubmitRunlist, hchip, hvolta, hturing, hmax]
      · rw [if_neg hmax] at hreg
        cases hreg
    · rw [if_neg hturing] at hreg
      cases hram : getRunlistRam s rlId with
      | error e' =>
          rw [hram] at hreg
          cases hreg
          simp [resubmitRunlist, hchip, hvolta, hturing, hram]
      | ok found =>
          rw [hram] at hreg
          cases hreg

/-- If it gets so far, it only fails if the register cannot be read. -/
theorem fst_resubmitRunlist_ok {reg : ℕ} {raw : BitVec 64} (hfermi : 0xC0 ≤ s.chipId)
    (hreg : submitRegister s rlId = .ok reg) (hread : nvdebugReadq reg s = some (raw, s)) :
    (resubmitRunlist stack rlId off s).map Prod.fst =
      some (if raw = BitVec.allOnes 64 then -eio else 0) := by
  rw [submitRegister] at hreg
  have hchip : ¬ s.chipId < 0xC0 := not_lt.mpr hfermi
  rw [resubmitRunlist, Kernel.bind_apply, Kernel.get_apply, Option.bind_some,
    if_neg hchip]
  by_cases hvolta : s.chipId < 0x160
  · rw [if_pos hvolta] at hreg
    by_cases hmax : 34 < rlId
    · rw [if_pos hmax] at hreg
      cases hreg
    · rw [if_neg hmax] at hreg
      cases hreg
      rw [if_pos hvolta, if_neg hmax, Kernel.bind_eq_of_eq hread]
      by_cases hraw : raw = BitVec.allOnes 64
      · simp [hraw]
      · rw [if_neg hraw, if_neg hraw]
        simp [nvdebugWriteq, nvdebugWritel]
  · rw [if_neg hvolta] at hreg
    rw [if_neg hvolta]
    by_cases hturing : s.chipId < 0x170
    · rw [if_pos hturing] at hreg
      by_cases hmax : 80 < rlId
      · rw [if_pos hmax] at hreg
        cases hreg
      · rw [if_neg hmax] at hreg
        cases hreg
        rw [if_pos hturing, if_neg hmax]
        exact fst_resubmitTu102 _ hread
    · rw [if_neg hturing] at hreg
      rw [if_neg hturing]
      cases hram : getRunlistRam s rlId with
      | error e =>
          rw [hram] at hreg
          cases hreg
      | ok found =>
          rw [hram] at hreg
          cases hreg
          exact fst_resubmitTu102 _ hread

end Resubmit

/-! ## GPUs that tell runlists apart -/

/-- A GPU on which one register cannot be read. -/
def badAt (chip bad : ℕ) : Machine :=
  { Machine.ofWords [] with
    chipId := chip
    regs := fun r => if r = bad then 0xbad00000 else 0 }

/-- A GPU with a PTOP table of `n` runlists. -/
def runlistTable (chip n : ℕ) : Machine :=
  { Machine.ofWords [] with
    chipId := chip
    regs := fun r =>
      if r = 0x000224fc then BitVec.ofNat 32 (n * 0x00300000)
      else if r % 12 = 0 then 0x80000001
      else if r % 12 = 4 then 0x80000002
      else 0x00000400 }

/-- The register cannot be read, all others can. -/
theorem nvdebugReadq_badAt {chip bad reg : ℕ} (hchip : chip < 0x170)
    (hreg : 0x00001800 ≤ reg) :
    ∃ raw, nvdebugReadq reg (badAt chip bad) = some (raw, badAt chip bad) ∧
      (raw = BitVec.allOnes 64 ↔ reg = bad) := by
  obtain ⟨raw, hread, hraw⟩ := nvdebugReadq_apply reg (badAt chip bad)
  refine ⟨raw, hread, (hraw rfl).trans ?_⟩
  have hwindow : reg ≠ (badAt chip bad).windowReg := by
    rw [windowReg_of_lt hchip]
    omega
  by_cases heq : reg = bad
  · have hvalue : (badAt chip bad).register reg = 0xbad00000 := by
      rw [Machine.register, if_neg hwindow]
      exact if_pos heq
    rw [hvalue]
    exact ⟨fun _ => heq, fun _ => .inl (by decide)⟩
  · have hvalue : (badAt chip bad).register reg = 0 := by
      rw [Machine.register, if_neg hwindow]
      exact if_neg heq
    rw [hvalue]
    constructor
    · rintro (hbad | hones)
      · exact absurd hbad (by decide)
      · have hbit : ((badAt chip bad).register (reg + 4) ++ (0 : BitVec 32)).getLsbD 0 =
            (BitVec.allOnes 64).getLsbD 0 := by
          rw [hones]
        rw [BitVec.getLsbD_append, if_pos (by decide)] at hbit
        exact absurd hbit (by decide)
    · intro h
      exact absurd h heq

/-- Whether a PTOP table of up to eight runlists reads as it should. -/
theorem ptopRows_runlistTable {chip n : ℕ} (hn : n ≤ 8) :
    (runlistTable chip n).ptopRowsGa100 = (runlistTable 0x172 n).ptopRowsGa100 := by
  have hread : ∀ r, r ≠ 0x00001700 → r ≠ 0x0010fd40 →
      (runlistTable chip n).readlValue r = (runlistTable 0x172 n).readlValue r := by
    intro r hr hr'
    have hwindow : ∀ chip', r ≠ (runlistTable chip' n).windowReg := by
      intro chip'
      rw [Core.windowReg]
      split
      · exact hr'
      · exact hr
    have hregister : (runlistTable chip n).register r = (runlistTable 0x172 n).register r := by
      rw [Machine.register, Machine.register, if_neg (hwindow chip), if_neg (hwindow 0x172)]
      rfl
    rw [Machine.readlValue, Machine.readlValue, hregister]
    rfl
  have hsize : (runlistTable chip n).ptopSizeGa100 = (runlistTable 0x172 n).ptopSizeGa100 := by
    rw [Machine.ptopSizeGa100, Machine.ptopSizeGa100, hread _ (by decide) (by decide)]
  have hle : (runlistTable 0x172 n).ptopSizeGa100 ≤ 24 := by
    have hall : ∀ n ≤ 8, (runlistTable 0x172 n).ptopSizeGa100 ≤ 24 := by
      decide
    exact hall n hn
  rw [Machine.ptopRowsGa100, Machine.ptopRowsGa100, hsize]
  apply List.map_congr_left
  intro i hi
  have hlt := List.mem_range.mp hi
  rw [hread]
  · rw [nvPtopDeviceInfoGa100]
    omega
  · rw [nvPtopDeviceInfoGa100]
    omega

theorem getRunlistRam_runlistTable {chip m : ℕ} (hm : m < 8) :
    (∃ found, getRunlistRam (runlistTable chip (m + 1)) m = .ok found) ∧
      ∀ k : ℕ, m < k → getRunlistRam (runlistTable chip (m + 1)) k = .error (-einval) := by
  have hrows := @ptopRows_runlistTable chip (m + 1) (by omega)
  have htable : ∀ m < 8, ReadsRows (runlistTable 0x172 (m + 1)).ptopRowsGa100 ∧
      getLastRunlistIdGa100 (runlistTable 0x172 (m + 1)) = m := by
    decide
  obtain ⟨hreads, hlast⟩ := htable m hm
  have hlast' : getLastRunlistIdGa100 (runlistTable chip (m + 1)) = m := by
    rw [getLastRunlistIdGa100, hrows]
    exact hlast
  rw [← hrows] at hreads
  have hfound := (getRunlistRam_numbers (runlistTable chip (m + 1)) hreads).1
  constructor
  · apply (hfound m).mpr
    rw [hlast']
    omega
  · intro k hk
    cases hram : getRunlistRam (runlistTable chip (m + 1)) k with
    | ok found =>
        have hle := ((hfound k).mp ⟨found, hram⟩).2
        rw [hlast'] at hle
        omega
    | error e => rw [error_of_getRunlistRamFrom hreads hram]

section Differs

variable {chip d r : ℕ} (stack : BitVec 32) (off : ℕ)

/-- The register of one runlist cannot be read. -/
theorem differs_of_registers (base step max : ℕ) (hfermi : 0xC0 ≤ chip)
    (hampere : chip < 0x170) (hbase : 0x00001800 ≤ base) (hstep : 0 < step)
    (hreg : ∀ bad k, submitRegister (badAt chip bad) k =
      if max < k then .error (-einval) else .ok (base + k * step))
    (hd : d ≤ max) (hne : r ≠ d) :
    (resubmitRunlist stack d off (badAt chip (base + d * step))).map Prod.fst ≠
      (resubmitRunlist stack r off (badAt chip (base + d * step))).map Prod.fst := by
  have hlarge : ∀ k, 0x00001800 ≤ base + k * step :=
    fun k => hbase.trans (Nat.le_add_right _ _)
  have hfails : (resubmitRunlist stack d off (badAt chip (base + d * step))).map Prod.fst =
      some (-eio) := by
    have hfound := hreg (base + d * step) d
    rw [if_neg (not_lt.mpr hd)] at hfound
    obtain ⟨raw, hread, hraw⟩ := @nvdebugReadq_badAt chip (base + d * step) _ hampere (hlarge d)
    rw [fst_resubmitRunlist_ok hfermi hfound hread, if_pos (hraw.mpr rfl)]
  rw [hfails]
  have hother := hreg (base + d * step) r
  by_cases hr : max < r
  · rw [if_pos hr] at hother
    rw [fst_resubmitRunlist_error hfermi hother]
    decide
  · rw [if_neg hr] at hother
    obtain ⟨raw, hread, hraw⟩ := @nvdebugReadq_badAt chip (base + d * step) _ hampere (hlarge r)
    have hreadable : raw ≠ BitVec.allOnes 64 := by
      intro hones
      have heq := hraw.mp hones
      exact hne (Nat.eq_of_mul_eq_mul_right hstep (Nat.add_left_cancel heq))
    rw [fst_resubmitRunlist_ok hfermi hother hread, if_neg hreadable]
    decide

theorem differs_of_table {m k : ℕ} (hampere : 0x170 ≤ chip) (hm : m < 8) (hk : m < k) :
    (resubmitRunlist stack m off (runlistTable chip (m + 1))).map Prod.fst ≠
      (resubmitRunlist stack k off (runlistTable chip (m + 1))).map Prod.fst := by
  have hfermi : 0xC0 ≤ (runlistTable chip (m + 1)).chipId := le_trans (by decide) hampere
  have hsubmit : ∀ k, submitRegister (runlistTable chip (m + 1)) k =
      (getRunlistRam (runlistTable chip (m + 1)) k).map fun found => found.2 + 0x088 := by
    intro k
    have hvolta : ¬ (runlistTable chip (m + 1)).chipId < 0x160 :=
      not_lt.mpr (le_trans (by decide) hampere)
    have hturing : ¬ (runlistTable chip (m + 1)).chipId < 0x170 := not_lt.mpr hampere
    rw [submitRegister, if_neg hvolta, if_neg hturing]
  obtain ⟨⟨found, hfound⟩, herror⟩ := @getRunlistRam_runlistTable chip m hm
  have hlater := hsubmit k
  rw [herror k hk] at hlater
  have hfirst := hsubmit m
  rw [hfound] at hfirst
  obtain ⟨raw, hread, -⟩ := nvdebugReadq_apply (found.2 + 0x088) (runlistTable chip (m + 1))
  rw [fst_resubmitRunlist_error hfermi hlater, fst_resubmitRunlist_ok hfermi hfirst hread]
  split <;> decide

/-- From Fermi on, `resubmit_runlist` can do different things for two runlists. -/
theorem resubmitRunlist_differs (hfermi : 0xC0 ≤ chip) (hd : d < 8) (hne : r ≠ d) :
    ∃ s : Machine, s.chipId = chip ∧
      (resubmitRunlist stack d off s).map Prod.fst ≠
        (resubmitRunlist stack r off s).map Prod.fst := by
  by_cases hampere : chip < 0x170
  · by_cases hvolta : chip < 0x160
    · refine ⟨_, ?_, differs_of_registers stack off 0x00002280 8 34 hfermi hampere
        (by decide) (by decide) ?_ (by omega) hne⟩
      · rfl
      · intro bad k
        exact if_pos hvolta
    · refine ⟨_, ?_, differs_of_registers stack off 0x00002B08 16 80 hfermi hampere
        (by decide) (by decide) ?_ (by omega) hne⟩
      · rfl
      · intro bad k
        exact (if_neg hvolta).trans (if_pos hampere)
  · have hampere' := not_lt.mp hampere
    rcases lt_or_gt_of_ne hne with hlt | hlt
    · exact ⟨_, rfl, (differs_of_table stack off hampere' (by omega) hlt).symm⟩
    · exact ⟨_, rfl, differs_of_table stack off hampere' hd hlt⟩

end Differs

end A100Partitioning.Nvdebug
