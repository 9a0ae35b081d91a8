import Mathlib.Data.Int.CardIntervalMod
import Mathlib.Tactic.Linarith

/-!
# Taking turns on a ring

The places of a ring are numbered modulo its size, and some of them are marked.  A position
on the unrolled ring moves from one marked place to the next, and takes each place that it
leaves.  Between two positions any two places are passed equally often, but for one time,
and so the marked ones are taken equally often.
-/

namespace A100Partitioning.Support

variable {n : ℕ}

/-- How many positions before this one are on the place. -/
def passes (n place position : ℕ) : ℕ := Nat.count (· % n = place) position

theorem passes_succ (n place position : ℕ) :
    passes n place (position + 1) =
      passes n place position + if position % n = place then 1 else 0 :=
  Nat.count_succ _ _

theorem passes_eq {place : ℕ} (hplace : place < n) (position : ℕ) :
    passes n place position = position / n + if place < position % n then 1 else 0 := by
  have hcount := Nat.count_modEq_card position (Nat.zero_lt_of_lt hplace) place
  simp only [Nat.ModEq, Nat.mod_eq_of_lt hplace] at hcount
  exact hcount

/-- Any two places are passed equally often, but for one time. -/
theorem passes_balanced {place place' : ℕ} (hplace : place < n) (hplace' : place' < n)
    {start position : ℕ} (h : start ≤ position) :
    passes n place position + passes n place' start ≤
      passes n place' position + passes n place start + 1 := by
  have hrounds : start / n ≤ position / n := Nat.div_le_div_right h
  rw [passes_eq hplace, passes_eq hplace, passes_eq hplace', passes_eq hplace']
  split_ifs <;> omega

theorem passes_of_not {place start position : ℕ} (hle : start ≤ position)
    (h : ∀ z, start ≤ z → z < position → z % n ≠ place) :
    passes n place position = passes n place start := by
  induction position, hle using Nat.le_induction with
  | base => rfl
  | succ position hle ih =>
      rw [passes_succ, if_neg (h position hle (Nat.lt_succ_self _)), Nat.add_zero]
      exact ih fun z hz hlt => h z hz (Nat.lt_succ_of_lt hlt)

theorem exists_add_mod_eq {place : ℕ} (hplace : place < n) (position : ℕ) :
    ∃ d, 1 ≤ d ∧ d ≤ n ∧ (position + d) % n = place := by
  have hlt : position % n < n := Nat.mod_lt _ (Nat.zero_lt_of_lt hplace)
  by_cases hahead : position % n < place
  · refine ⟨place - position % n, by omega, by omega, ?_⟩
    rw [← Nat.mod_add_mod, Nat.add_sub_of_le hahead.le, Nat.mod_eq_of_lt hplace]
  · refine ⟨place + n - position % n, by omega, by omega, ?_⟩
    rw [← Nat.mod_add_mod, Nat.add_sub_of_le (by omega), Nat.add_mod_right,
      Nat.mod_eq_of_lt hplace]

/-- On the way from the start, all marked places were taken that were passed. -/
structure Toured (n : ℕ) (marked : ℕ → Prop) (start position : ℕ) (taken : List ℕ) : Prop where
  le : start ≤ position
  idle : taken = [] → position = start
  first : ∀ place, taken.head? = some place → place = start % n
  counts : ∀ place, marked place →
    taken.count place + passes n place start = passes n place position

namespace Toured

variable {marked : ℕ → Prop} {start position next : ℕ} {taken : List ℕ}

theorem refl (n : ℕ) (marked : ℕ → Prop) (start : ℕ) : Toured n marked start start [] := by
  refine ⟨le_rfl, fun _ => rfl, ?_, ?_⟩
  · intro place hhead
    cases hhead
  · intro place _
    rw [List.count_nil, Nat.zero_add]

/-- The place is taken, and the position moves to the next marked place. -/
theorem take (h : Toured n marked start position taken) (hnext : position < next)
    (hbetween : ∀ z, position < z → z < next → ¬ marked (z % n)) :
    Toured n marked start next (taken ++ [position % n]) := by
  refine ⟨h.le.trans hnext.le, ?_, ?_, ?_⟩
  · intro hnil
    exact absurd hnil (List.append_ne_nil_of_right_ne_nil _ (List.cons_ne_nil _ _))
  · intro place hhead
    cases taken with
    | nil =>
        rw [h.idle rfl] at hhead
        exact (Option.some.inj hhead).symm
    | cons place' taken => exact h.first place hhead
  · intro place hmarked
    have hrest : passes n place next = passes n place (position + 1) := by
      apply passes_of_not hnext
      rintro z hz hlt rfl
      exact hbetween z hz hlt hmarked
    have hcounts := h.counts place hmarked
    rw [hrest, passes_succ, List.count_append, List.count_singleton]
    simp only [beq_iff_eq]
    omega

/-- No marked place is taken more often than another one, but for one time. -/
theorem balanced (h : Toured n marked start position taken) {place place' : ℕ}
    (hplace : place < n) (hplace' : place' < n) (hmarked : marked place)
    (hmarked' : marked place') : taken.count place ≤ taken.count place' + 1 := by
  have hcounts := h.counts place hmarked
  have hcounts' := h.counts place' hmarked'
  have hbalanced := passes_balanced hplace hplace' h.le
  omega

end Toured

end A100Partitioning.Support
