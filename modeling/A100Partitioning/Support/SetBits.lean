import Mathlib.Data.BitVec
import Mathlib.Data.Finset.Card
import Mathlib.Tactic.Common

/-!
# Masks as sets

The set bits of a word, as a finite set of positions.  The operations on words
are those on the sets, and counting the bits of words without a common bit is
counting their union.
-/

namespace A100Partitioning.Support

/-- The positions of the set bits. -/
def setBits {w : ℕ} (m : BitVec w) : Finset ℕ :=
  (Finset.range w).filter fun i => m.getLsbD i = true

variable {w : ℕ}

@[simp]
theorem mem_setBits {m : BitVec w} {i : ℕ} :
    i ∈ setBits m ↔ m.getLsbD i = true := by
  rw [setBits, Finset.mem_filter, Finset.mem_range]
  exact and_iff_right_of_imp BitVec.lt_of_getLsbD

theorem setBits_subset_range (m : BitVec w) : setBits m ⊆ Finset.range w :=
  Finset.filter_subset _ _

theorem setBits_setWidth {v : ℕ} (m : BitVec w) :
    setBits (m.setWidth v) = (setBits m).filter (· < v) := by
  ext i
  rw [mem_setBits, Finset.mem_filter, mem_setBits, BitVec.getLsbD_setWidth,
    Bool.and_eq_true, decide_eq_true_iff, and_comm]

theorem card_setBits_split (m : BitVec w) {v u : ℕ} (hw : w ≤ v + u) :
    (setBits (m.setWidth v)).card + (setBits ((m >>> v).setWidth u)).card =
      (setBits m).card := by
  have hhigh : (setBits ((m >>> v).setWidth u)).card =
      ((setBits m).filter fun i => ¬ i < v).card := by
    refine Finset.card_bij (fun i _ => v + i) (fun i hi => ?_)
      (fun i _ j _ heq => Nat.add_left_cancel heq) fun j hj => ?_
    · rw [mem_setBits, BitVec.getLsbD_setWidth, BitVec.getLsbD_ushiftRight,
        Bool.and_eq_true] at hi
      exact Finset.mem_filter.mpr ⟨mem_setBits.mpr hi.2, by omega⟩
    · rw [Finset.mem_filter, mem_setBits] at hj
      have hlt : j < w := BitVec.lt_of_getLsbD hj.1
      have hj' : v + (j - v) = j := by omega
      refine ⟨j - v, ?_, hj'⟩
      rw [mem_setBits, BitVec.getLsbD_setWidth, BitVec.getLsbD_ushiftRight, hj',
        hj.1, Bool.and_true, decide_eq_true_iff]
      omega
  rw [setBits_setWidth, hhigh]
  exact Finset.card_filter_add_card_filter_not _

end A100Partitioning.Support
