import Mathlib.Tactic

/-!
# Packed bit-fields of a machine word

A C bit-field is a run of adjacent bits of a word.  Several overlapping layouts
of the same word are common in register and table formats, so a field is given
here by its position alone: the lowest bit and the width.  Reading a field
yields a natural number; storing a number keeps its low bits, as an assignment
to a C bit-field does.
-/

namespace A100Partitioning.Support.Bitfield

variable {w : ℕ}

/-- The unsigned value of the `width` bits of `raw` from bit `lsb` on. -/
def get (lsb width : ℕ) (raw : BitVec w) : ℕ :=
  (raw.extractLsb' lsb width).toNat

/-- Store the low `width` bits of `value` at bit `lsb`, keeping the rest. -/
def set (lsb width : ℕ) (raw : BitVec w) (value : ℕ) : BitVec w :=
  (raw &&& ~~~((BitVec.allOnes width).setWidth w <<< lsb)) |||
    ((BitVec.ofNat width value).setWidth w <<< lsb)

theorem getLsbD_set (lsb width : ℕ) (raw : BitVec w) (value i : ℕ) :
    (set lsb width raw value).getLsbD i =
      if lsb ≤ i ∧ i < lsb + width ∧ i < w then value.testBit (i - lsb)
      else raw.getLsbD i := by
  by_cases hw : i < w
  · by_cases hlo : lsb ≤ i
    · by_cases hhi : i < lsb + width
      · have hsub : i - lsb < width := by omega
        have hsubw : i - lsb < w := by omega
        have hnlt : ¬ i < lsb := Nat.not_lt.mpr hlo
        simp [set, hw, hlo, hhi, hsub, hsubw, hnlt, BitVec.getLsbD_ofNat,
          -BitVec.getLsbD_eq_getElem]
      · have hsub : ¬ i - lsb < width := by omega
        have hge := BitVec.getLsbD_of_ge (BitVec.ofNat width value)
          (i - lsb) (Nat.le_of_not_lt hsub)
        simp [set, hw, hlo, hhi, hsub, hge]
    · have hlt : i < lsb := by omega
      simp [set, hw, hlo, hlt]
  · have hge : w ≤ i := Nat.le_of_not_lt hw
    simp [hw, BitVec.getLsbD_of_ge _ i hge]

theorem get_lt (lsb width : ℕ) (raw : BitVec w) :
    get lsb width raw < 2 ^ width :=
  BitVec.isLt _

theorem testBit_get (lsb width : ℕ) (raw : BitVec w) (i : ℕ) :
    (get lsb width raw).testBit i =
      (decide (i < width) && raw.getLsbD (lsb + i)) := by
  rw [get, ← BitVec.getLsbD, BitVec.getLsbD_extractLsb']

/-- A field read back after it was stored holds the stored low bits. -/
@[simp] theorem get_set_self {lsb width : ℕ} (raw : BitVec w) (value : ℕ)
    (hfit : lsb + width ≤ w) :
    get lsb width (set lsb width raw value) = value % 2 ^ width := by
  apply Nat.eq_of_testBit_eq
  intro i
  rw [testBit_get, getLsbD_set, Nat.testBit_mod_two_pow]
  by_cases hi : i < width
  · have hlt : lsb + i < w := by omega
    simp [hi, hlt]
  · simp [hi]

/-- Storing a field leaves every field that shares no bit with it alone. -/
theorem get_set_of_disjoint {lsb width lsb' width' : ℕ}
    (raw : BitVec w) (value : ℕ)
    (hdisjoint : lsb + width ≤ lsb' ∨ lsb' + width' ≤ lsb) :
    get lsb width (set lsb' width' raw value) = get lsb width raw := by
  apply Nat.eq_of_testBit_eq
  intro i
  rw [testBit_get, testBit_get, getLsbD_set]
  by_cases hi : i < width
  · have hout : ¬ (lsb' ≤ lsb + i ∧ lsb + i < lsb' + width' ∧ lsb + i < w) := by
      omega
    rw [if_neg hout]
  · simp [hi]

/-- The low part of a field is the narrower field at the same position. -/
theorem get_mod_two_pow {lsb narrow wide : ℕ} (raw : BitVec w)
    (hle : narrow ≤ wide) :
    get lsb wide raw % 2 ^ narrow = get lsb narrow raw := by
  apply Nat.eq_of_testBit_eq
  intro i
  rw [Nat.testBit_mod_two_pow, testBit_get, testBit_get]
  by_cases hi : i < narrow
  · have hwide : i < wide := by omega
    simp [hi, hwide]
  · simp [hi]

/-- The high part of a field is the field that starts further up. -/
theorem get_div_two_pow {lsb low high : ℕ} (raw : BitVec w) :
    get lsb (low + high) raw / 2 ^ low = get (lsb + low) high raw := by
  apply Nat.eq_of_testBit_eq
  intro i
  rw [Nat.testBit_div_two_pow, testBit_get, testBit_get]
  have hiff : i + low < low + high ↔ i < high := by omega
  simp [hiff, Nat.add_assoc, Nat.add_comm low i]

theorem get_add (lsb low high : ℕ) (raw : BitVec w) :
    get lsb (low + high) raw =
      2 ^ low * get (lsb + low) high raw + get lsb low raw := by
  rw [← get_div_two_pow, ← get_mod_two_pow raw (Nat.le_add_right low high)]
  exact (Nat.div_add_mod _ _).symm

@[simp] theorem get_zero (lsb width : ℕ) :
    get lsb width (0 : BitVec w) = 0 := by
  simp [get]

end A100Partitioning.Support.Bitfield
