import Mathlib.Data.List.Basic
import Mathlib.Order.Basic
import Mathlib.Tactic.Common

/-!
# Scans over tables

A scan goes over the rows of a table once, in order, with a state that each row
updates, and picks out some rows by the state in which it meets them.  A table
is a list of rows, a row is known by its index, and both the rows that a scan
picks and the state in which it meets a row are functions of the table.
-/

namespace A100Partitioning.Support.RowScan

universe u v

variable {α : Type u} {σ : Type v}

/-- The state in which the scan meets row `i`. -/
def stateAt (step : σ → α → σ) (init : σ) (rows : List α) (i : ℕ) : σ :=
  (rows.take i).foldl step init

/-- The rows that the scan picks, when the first row has index `n`. -/
def picksFrom (step : σ → α → σ) (pick : σ → α → Bool) :
    ℕ → σ → List α → List ℕ
  | _, _, [] => []
  | n, s, a :: rows =>
      if pick s a then n :: picksFrom step pick (n + 1) (step s a) rows
      else picksFrom step pick (n + 1) (step s a) rows

section

variable {step : σ → α → σ} {pick : σ → α → Bool} {n : ℕ} {s : σ}
variable {rows : List α}

theorem stateAt_succ {init : σ} {i : ℕ} {a : α} (h : rows[i]? = some a) :
    stateAt step init rows (i + 1) = step (stateAt step init rows i) a := by
  obtain ⟨hi, rfl⟩ := List.getElem?_eq_some_iff.mp h
  rw [stateAt, stateAt, List.take_succ_eq_append_getElem hi, List.foldl_append]
  rfl

theorem le_of_mem_picksFrom {i : ℕ} (h : i ∈ picksFrom step pick n s rows) :
    n ≤ i := by
  induction rows generalizing n s with
  | nil => cases h
  | cons a rows ih =>
      rw [picksFrom] at h
      split at h
      · rcases List.mem_cons.mp h with rfl | hrest
        · exact Nat.le_refl _
        · exact Nat.le_of_succ_le (ih hrest)
      · exact Nat.le_of_succ_le (ih h)

theorem pairwise_picksFrom :
    (picksFrom step pick n s rows).Pairwise (· < ·) := by
  induction rows generalizing n s with
  | nil => exact List.Pairwise.nil
  | cons a rows ih =>
      rw [picksFrom]
      split
      · exact List.Pairwise.cons (fun i hi => le_of_mem_picksFrom hi) ih
      · exact ih

end

end A100Partitioning.Support.RowScan
