import Mathlib.Order.Monotone.Defs
import Mathlib.Data.Nat.Bitwise
import Mathlib.Tactic.Common

/-!
# The clock of the GPU

The clock has 64 bits, and is read in halves of 32 bits.  The upper half is read again
behind the lower one, to notice that it changed.
-/

namespace A100Partitioning.TaskHost

/-- The register `%globaltimer_hi`. -/
def globaltimerHi (clock : BitVec 64) : BitVec 32 := clock.extractLsb' 32 32

/-- The register `%globaltimer_lo`. -/
def globaltimerLo (clock : BitVec 64) : BitVec 32 := clock.extractLsb' 0 32

/-- `GlobalTimer64`, whose three reads are at these times. -/
def globalTimer64 (clock : ℕ → BitVec 64) (t₁ t₂ t₃ : ℕ) : BitVec 64 :=
  let hiBits := globaltimerHi (clock t₁)
  let loBits := globaltimerLo (clock t₂)
  let hiBits2 := globaltimerHi (clock t₃)
  let loBits := if hiBits ≠ hiBits2 then 0 else loBits
  hiBits2.setWidth 64 <<< 32 ||| loBits.setWidth 64

/-- The clock does not go back. -/
def IsMonotone (clock : ℕ → BitVec 64) : Prop := Monotone fun t => (clock t).toNat

/-! ## Halves -/

theorem toNat_globaltimerHi (clock : BitVec 64) :
    (globaltimerHi clock).toNat = clock.toNat / 2 ^ 32 := by
  have hlt := clock.isLt
  rw [globaltimerHi, BitVec.extractLsb'_toNat, Nat.shiftRight_eq_div_pow]
  omega

theorem toNat_globaltimerLo (clock : BitVec 64) :
    (globaltimerLo clock).toNat = clock.toNat % 2 ^ 32 := by
  rw [globaltimerLo, BitVec.extractLsb'_toNat, Nat.shiftRight_zero]

/-- Two halves are put together without overlap. -/
theorem toNat_halves (hi lo : BitVec 32) :
    (hi.setWidth 64 <<< 32 ||| lo.setWidth 64).toNat = hi.toNat * 2 ^ 32 + lo.toNat := by
  have hhi := hi.isLt
  have hlo := lo.isLt
  rw [BitVec.toNat_or, BitVec.toNat_shiftLeft, BitVec.toNat_setWidth, BitVec.toNat_setWidth,
    Nat.mod_eq_of_lt (by omega), Nat.mod_eq_of_lt (by omega), Nat.shiftLeft_eq,
    Nat.mod_eq_of_lt (by omega), Nat.mul_comm]
  exact (Nat.two_pow_add_eq_or_of_lt hlo hi.toNat).symm

section Reads

variable {clock : ℕ → BitVec 64} {t₁ t₂ t₃ : ℕ}

/-- Where the upper half is read unchanged, the two halves are of the same reading. -/
theorem globalTimer64_of_eq (hmono : IsMonotone clock) (h₁₂ : t₁ ≤ t₂) (h₂₃ : t₂ ≤ t₃)
    (heq : globaltimerHi (clock t₁) = globaltimerHi (clock t₃)) :
    globalTimer64 clock t₁ t₂ t₃ = clock t₂ := by
  have hfirst := hmono h₁₂
  have hlast := hmono h₂₃
  have hhi := congrArg BitVec.toNat heq
  rw [toNat_globaltimerHi, toNat_globaltimerHi] at hhi
  apply BitVec.eq_of_toNat_eq
  rw [globalTimer64, if_neg (not_not.mpr heq), toNat_halves, toNat_globaltimerHi,
    toNat_globaltimerLo]
  dsimp only at hfirst hlast
  omega

/-- Where it changed, the result is the beginning of the last period of the lower half. -/
theorem toNat_globalTimer64_of_ne
    (hne : globaltimerHi (clock t₁) ≠ globaltimerHi (clock t₃)) :
    (globalTimer64 clock t₁ t₂ t₃).toNat = (clock t₃).toNat / 2 ^ 32 * 2 ^ 32 := by
  rw [globalTimer64, if_pos hne, toNat_halves, toNat_globaltimerHi]
  exact Nat.add_zero _

theorem le_globalTimer64 (hmono : IsMonotone clock) (h₁₂ : t₁ ≤ t₂) (h₂₃ : t₂ ≤ t₃) :
    (clock t₁).toNat ≤ (globalTimer64 clock t₁ t₂ t₃).toNat := by
  by_cases heq : globaltimerHi (clock t₁) = globaltimerHi (clock t₃)
  · rw [globalTimer64_of_eq hmono h₁₂ h₂₃ heq]
    exact hmono h₁₂
  · have hdiff : (clock t₁).toNat / 2 ^ 32 ≠ (clock t₃).toNat / 2 ^ 32 := by
      intro h
      apply heq
      apply BitVec.eq_of_toNat_eq
      rw [toNat_globaltimerHi, toNat_globaltimerHi, h]
    have hle := hmono (h₁₂.trans h₂₃)
    rw [toNat_globalTimer64_of_ne heq]
    dsimp only at hle
    omega

theorem globalTimer64_le (hmono : IsMonotone clock) (h₁₂ : t₁ ≤ t₂) (h₂₃ : t₂ ≤ t₃) :
    (globalTimer64 clock t₁ t₂ t₃).toNat ≤ (clock t₃).toNat := by
  by_cases heq : globaltimerHi (clock t₁) = globaltimerHi (clock t₃)
  · rw [globalTimer64_of_eq hmono h₁₂ h₂₃ heq]
    exact hmono h₂₃
  · rw [toNat_globalTimer64_of_ne heq]
    exact Nat.div_mul_le_self _ _

end Reads

/-- The result is between the first read and the last one, however far these are apart. -/
theorem globalTimer64_mem_Icc (clock : ℕ → BitVec 64) (t₁ t₂ t₃ : ℕ)
    (hmono : IsMonotone clock) (h₁₂ : t₁ ≤ t₂) (h₂₃ : t₂ ≤ t₃) :
    (clock t₁).toNat ≤ (globalTimer64 clock t₁ t₂ t₃).toNat ∧
      (globalTimer64 clock t₁ t₂ t₃).toNat ≤ (clock t₃).toNat :=
  ⟨le_globalTimer64 hmono h₁₂ h₂₃, globalTimer64_le hmono h₁₂ h₂₃⟩

/-- A clock whose lower half rolls over behind the first two reads. -/
def rollover (t : ℕ) : BitVec 64 := if t = 0 then 0xffffffff else 0x100000000

theorem isMonotone_rollover : IsMonotone rollover := by
  intro t u h
  by_cases hu : u = 0
  · subst hu
    rw [Nat.le_zero.mp h]
  · by_cases ht : t = 0
    · simp [rollover, ht, hu]
    · simp [rollover, ht, hu]

theorem globalTimer64_mem_Icc_rollover :
    (rollover 0).toNat ≤ (globalTimer64 rollover 0 0 1).toNat ∧
      (globalTimer64 rollover 0 0 1).toNat ≤ (rollover 1).toNat :=
  globalTimer64_mem_Icc rollover 0 0 1 isMonotone_rollover le_rfl (Nat.zero_le 1)

end A100Partitioning.TaskHost
