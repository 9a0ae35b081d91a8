import Mathlib.Algebra.Ring.Int.Defs
import Mathlib.Tactic.Common

/-!
# A counter between two bounds

A counter goes up and down by one, and must stay between zero and a maximum.  A
list of moves can be made from a value if and only if the value plus each of the
partial sums stays within the bounds.
-/

namespace A100Partitioning.Support.BoundedCounter

variable {max n m : ℕ} {moves : List Bool}

/-- One move; `true` is up. -/
def step (max : ℕ) (up : Bool) (n : ℕ) : Option ℕ :=
  if up then if n < max then some (n + 1) else none
  else if n = 0 then none else some (n - 1)

/-- The moves, one after another. -/
def run (max : ℕ) : List Bool → ℕ → Option ℕ
  | [], n => some n
  | up :: moves, n => (step max up n).bind (run max moves)

/-- What a move adds. -/
def delta (up : Bool) : ℤ := if up then 1 else -1

/-- What the moves add together. -/
def net (moves : List Bool) : ℤ := (moves.map delta).sum

/-- From `n`, every beginning of the moves stays within the bounds. -/
def Within (max : ℕ) (moves : List Bool) (n : ℕ) : Prop :=
  ∀ k, 0 ≤ n + net (moves.take k) ∧ n + net (moves.take k) ≤ max

@[simp] theorem net_nil : net [] = 0 := rfl

@[simp] theorem net_cons (up : Bool) (moves : List Bool) :
    net (up :: moves) = delta up + net moves := by
  rw [net, List.map_cons, List.sum_cons]
  rfl

theorem net_eq_count (moves : List Bool) :
    net moves = moves.count true - moves.count false := by
  induction moves with
  | nil => rfl
  | cons up moves ih =>
      rw [net_cons, ih]
      cases up with
      | true =>
          rw [List.count_cons_self, List.count_cons_of_ne (by decide), delta, if_pos rfl]
          omega
      | false =>
          rw [List.count_cons_self, List.count_cons_of_ne (by decide), delta,
            if_neg Bool.false_ne_true]
          omega

theorem step_eq_some (hn : n ≤ max) (up : Bool) :
    step max up n = some m ↔ (m : ℤ) = n + delta up ∧ m ≤ max := by
  cases up with
  | true =>
      rw [step, if_pos rfl, delta, if_pos rfl]
      split
      · rw [Option.some_inj]
        omega
      · constructor
        · intro h
          cases h
        · omega
  | false =>
      rw [step, if_neg Bool.false_ne_true, delta, if_neg Bool.false_ne_true]
      split
      · constructor
        · intro h
          cases h
        · omega
      · rw [Option.some_inj]
        omega

theorem within_cons (hn : n ≤ max) {up : Bool} :
    Within max (up :: moves) n ↔ ∃ m, step max up n = some m ∧ Within max moves m := by
  constructor
  · intro h
    have hfirst := h 1
    rw [List.take_succ_cons, List.take_zero, net_cons, net_nil, add_zero] at hfirst
    have hstep : step max up n = some (n + delta up).toNat :=
      (step_eq_some hn up).mpr (by omega)
    refine ⟨_, hstep, ?_⟩
    intro k
    have hlater := h (k + 1)
    rw [List.take_succ_cons, net_cons] at hlater
    omega
  · rintro ⟨m, hstep, h⟩ k
    have hm := (step_eq_some hn up).mp hstep
    cases k with
    | zero =>
        rw [List.take_zero, net_nil]
        omega
    | succ k =>
        have hlater := h k
        rw [List.take_succ_cons, net_cons]
        omega

/-- The moves can be made exactly if every beginning of them stays within the
bounds. -/
theorem run_eq_some_iff (hn : n ≤ max) :
    run max moves n = some m ↔ (m : ℤ) = n + net moves ∧ Within max moves n := by
  induction moves generalizing n with
  | nil =>
      rw [run, Option.some_inj, net_nil, add_zero]
      constructor
      · rintro rfl
        refine ⟨rfl, ?_⟩
        intro k
        rw [List.take_nil, net_nil]
        omega
      · rintro ⟨heq, -⟩
        omega
  | cons up moves ih =>
      rw [run, Option.bind_eq_some_iff, within_cons hn, net_cons]
      constructor
      · rintro ⟨m', hstep, hrun⟩
        have hm := (step_eq_some hn up).mp hstep
        obtain ⟨heq, hwithin⟩ := (ih hm.2).mp hrun
        exact ⟨by omega, m', hstep, hwithin⟩
      · rintro ⟨heq, m', hstep, hwithin⟩
        have hm := (step_eq_some hn up).mp hstep
        exact ⟨m', hstep, (ih hm.2).mpr ⟨by omega, hwithin⟩⟩

theorem run_isSome_iff (hn : n ≤ max) :
    (run max moves n).isSome ↔ Within max moves n := by
  rw [Option.isSome_iff_exists]
  constructor
  · rintro ⟨m, hrun⟩
    exact ((run_eq_some_iff hn).mp hrun).2
  · intro h
    have hlast := h moves.length
    rw [List.take_length] at hlast
    exact ⟨(n + net moves).toNat, (run_eq_some_iff hn).mpr ⟨by omega, h⟩⟩

end A100Partitioning.Support.BoundedCounter
