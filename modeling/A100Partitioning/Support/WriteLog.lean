import Mathlib.Logic.Function.Basic
import Mathlib.Tactic.Common

/-!
# Memories with a log of their writes

Whether a loop stays within its buffer is a question about where it writes, and what it
leaves there is a question about the memory.  Here both are kept.
-/

namespace A100Partitioning.Support

variable {α : Type}

/-- A memory with the places that were written to. -/
structure Logged (α : Type) where
  mem : ℕ → α
  log : List ℕ

namespace Logged

/-- A write. -/
def put (m : Logged α) (i : ℕ) (a : α) : Logged α :=
  ⟨Function.update m.mem i a, i :: m.log⟩

/-- Writes from a place on. -/
def putAll (m : Logged α) (i : ℕ) : List α → Logged α
  | [] => m
  | a :: l => (m.put i a).putAll (i + 1) l

@[simp] theorem putAll_nil (m : Logged α) (i : ℕ) : m.putAll i [] = m := rfl

@[simp] theorem putAll_cons (m : Logged α) (i : ℕ) (a : α) (l : List α) :
    m.putAll i (a :: l) = (m.put i a).putAll (i + 1) l := rfl

theorem putAll_append (m : Logged α) (i : ℕ) (l r : List α) :
    m.putAll i (l ++ r) = (m.putAll i l).putAll (i + l.length) r := by
  induction l generalizing m i with
  | nil => rfl
  | cons a l ih =>
      have hindex : i + (a :: l).length = i + 1 + l.length := by
        rw [List.length_cons]
        omega
      rw [List.cons_append, putAll_cons, putAll_cons, ih, hindex]

theorem mem_log_putAll (m : Logged α) (i : ℕ) (l : List α) (j : ℕ) :
    j ∈ (m.putAll i l).log ↔ j ∈ m.log ∨ i ≤ j ∧ j < i + l.length := by
  induction l generalizing m i with
  | nil =>
      rw [putAll_nil, List.length_nil]
      exact (or_iff_left (by omega)).symm
  | cons a l ih =>
      have hplace : (j = i ∨ j ∈ m.log) ∨ i + 1 ≤ j ∧ j < i + 1 + l.length ↔
          j ∈ m.log ∨ i ≤ j ∧ j < i + (l.length + 1) := by
        rw [or_comm (a := j = i), or_assoc]
        exact or_congr_right (by omega)
      rw [putAll_cons, ih, put, List.mem_cons, List.length_cons]
      exact hplace

theorem putAll_of_outside (m : Logged α) {i j : ℕ} {l : List α}
    (h : j < i ∨ i + l.length ≤ j) : (m.putAll i l).mem j = m.mem j := by
  induction l generalizing m i with
  | nil => rfl
  | cons a l ih =>
      rw [List.length_cons] at h
      rw [putAll_cons, ih _ (by omega)]
      exact Function.update_of_ne (by omega) _ _

theorem putAll_mem (m : Logged α) (i : ℕ) (l : List α) (k : ℕ) (hk : k < l.length) :
    (m.putAll i l).mem (i + k) = l[k] := by
  induction l generalizing m i k with
  | nil => exact absurd hk (Nat.not_lt_zero k)
  | cons a l ih =>
      cases k with
      | zero =>
          rw [putAll_cons, putAll_of_outside _ (.inl (by omega))]
          exact Function.update_self _ _ _
      | succ k =>
          have hindex : i + (k + 1) = i + 1 + k := by omega
          rw [putAll_cons, hindex, ih _ _ k (Nat.lt_of_succ_lt_succ hk)]
          rfl

end Logged

end A100Partitioning.Support
