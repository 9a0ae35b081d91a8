import Mathlib

/-!
# Wide words in 32-bit words

A wide mask is stored as 32-bit words, the lowest first.  Both directions are
given bit by bit, so that operations on the whole and on its words agree.
-/

namespace A100Partitioning.Support

/-- The 32-bit word at a position, as `(uint32_t)(m >> 32 * k)`. -/
def word {w : ℕ} (m : BitVec w) (k : ℕ) : BitVec 32 := (m >>> (32 * k)).setWidth 32

/-- The wide word with the given 32-bit words. -/
def ofWords (w : ℕ) (f : ℕ → BitVec 32) : BitVec w :=
  BitVec.ofFnLE fun i => (f (i / 32)).getLsbD (i % 32)

variable {w : ℕ}

theorem getLsbD_word (m : BitVec w) (k i : ℕ) :
    (word m k).getLsbD i = (decide (i < 32) && m.getLsbD (32 * k + i)) := by
  rw [word, BitVec.getLsbD_setWidth, BitVec.getLsbD_ushiftRight]

theorem getLsbD_ofWords (f : ℕ → BitVec 32) (i : ℕ) :
    (ofWords w f).getLsbD i =
      (decide (i < w) && (f (i / 32)).getLsbD (i % 32)) := by
  rw [ofWords, BitVec.getLsbD_ofFnLE]
  split_ifs with h <;> simp [h]

theorem ofWords_word (m : BitVec w) : ofWords w (word m) = m := by
  ext i hi
  rw [← BitVec.getLsbD_eq_getElem, ← BitVec.getLsbD_eq_getElem, getLsbD_ofWords,
    getLsbD_word, Nat.div_add_mod]
  simp [hi, Nat.mod_lt]

theorem word_ofWords (f : ℕ → BitVec 32) {k : ℕ} (hk : 32 * (k + 1) ≤ w) :
    word (ofWords w f) k = f k := by
  ext i hi
  rw [← BitVec.getLsbD_eq_getElem, ← BitVec.getLsbD_eq_getElem, getLsbD_word,
    getLsbD_ofWords]
  have hdiv : (32 * k + i) / 32 = k := by omega
  have hmod : (32 * k + i) % 32 = i := by omega
  have hlt : 32 * k + i < w := by omega
  simp [hi, hdiv, hmod, hlt]

theorem word_setWidth {v : ℕ} (m : BitVec w) {k : ℕ} (hk : 32 * (k + 1) ≤ v) :
    word (m.setWidth v) k = word m k := by
  ext i hi
  rw [← BitVec.getLsbD_eq_getElem, ← BitVec.getLsbD_eq_getElem, getLsbD_word,
    getLsbD_word, BitVec.getLsbD_setWidth]
  have hlt : 32 * k + i < v := by omega
  simp [hlt]

theorem word_or (m m' : BitVec w) (k : ℕ) :
    word (m ||| m') k = word m k ||| word m' k := by
  ext i hi
  rw [BitVec.getElem_or, ← BitVec.getLsbD_eq_getElem, ← BitVec.getLsbD_eq_getElem,
    ← BitVec.getLsbD_eq_getElem, getLsbD_word, getLsbD_word, getLsbD_word,
    BitVec.getLsbD_or, Bool.and_or_distrib_left]

theorem ofWords_or (f g : ℕ → BitVec 32) :
    ofWords w f ||| ofWords w g = ofWords w fun k => f k ||| g k := by
  ext i hi
  rw [BitVec.getElem_or, ← BitVec.getLsbD_eq_getElem, ← BitVec.getLsbD_eq_getElem,
    ← BitVec.getLsbD_eq_getElem, getLsbD_ofWords, getLsbD_ofWords, getLsbD_ofWords,
    BitVec.getLsbD_or, Bool.and_or_distrib_left]

theorem ofWords_congr {f g : ℕ → BitVec 32} (h : ∀ k, 32 * k < w → f k = g k) :
    ofWords w f = ofWords w g := by
  ext i hi
  rw [← BitVec.getLsbD_eq_getElem, ← BitVec.getLsbD_eq_getElem, getLsbD_ofWords,
    getLsbD_ofWords, h (i / 32) (by omega)]

theorem word_zero (k : ℕ) : word (0 : BitVec w) k = 0 := by
  ext i hi
  rw [← BitVec.getLsbD_eq_getElem, getLsbD_word]
  simp

end A100Partitioning.Support
