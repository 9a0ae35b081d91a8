import Mathlib.GroupTheory.Perm.Cycle.Basic
import Mathlib.Order.Interval.Finset.Nat

/-!
# Permutations that are one cycle

A cycle grows by one point when the point is swapped with one that is on it.  A shuffle that
swaps each place with a later one is therefore a single cycle exactly when it never leaves a
place where it is.
-/

namespace A100Partitioning.Support

open Equiv

/-! ## One more point -/

section Insert

variable {α : Type*} {f g : Perm α} {s : Set α} {a b x : α}

/-- If each step of `g` stays within a cycle of `f`, then so does any number of steps. -/
theorem sameCycle_pow_of_step (r : α → α) (hmaps : Set.MapsTo g s s)
    (hstep : ∀ x ∈ s, f.SameCycle (r x) (r (g x))) (hx : x ∈ s) (n : ℕ) :
    f.SameCycle (r x) (r ((g ^ n) x)) := by
  induction n with
  | zero => exact .refl f (r x)
  | succ n ih =>
      have hmem : (g ^ n) x ∈ s := by
        rw [← Perm.iterate_eq_pow]
        exact hmaps.iterate n hx
      rw [pow_succ']
      exact ih.trans (hstep _ hmem)

variable [DecidableEq α]

theorem swap_mul_mem_insert_iff (ha : f a = a) (hmem : ∀ x, f x ∈ s ↔ x ∈ s) (hb : b ∈ s) :
    (swap a b * f) x ∈ insert a s ↔ x ∈ insert a s := by
  by_cases hx : x = a
  · subst hx
    rw [Perm.mul_apply, ha, swap_apply_left]
    exact iff_of_true (.inr hb) (.inl rfl)
  · have hfx : f x ≠ a := fun h => hx (f.injective (h.trans ha.symm))
    rw [Perm.mul_apply]
    by_cases hfb : f x = b
    · rw [hfb, swap_apply_right]
      exact iff_of_true (.inl rfl) (.inr ((hmem x).mp (hfb ▸ hb)))
    · rw [swap_apply_of_ne_of_ne hfx hfb, Set.mem_insert_iff, Set.mem_insert_iff, hmem,
        or_iff_right hfx, or_iff_right hx]

theorem isCycleOn_insert_iff (hs : s.Finite) (ha : f a = a) (hnot : a ∉ s)
    (hmem : ∀ x, f x ∈ s ↔ x ∈ s) (hb : b ∈ s) :
    (swap a b * f).IsCycleOn (insert a s) ↔ f.IsCycleOn s := by
  have hbij := Equiv.bijOn f hmem
  have hbij' := Equiv.bijOn (swap a b * f) fun x => swap_mul_mem_insert_iff ha hmem hb
  have hfirst : (swap a b * f) a = b := by rw [Perm.mul_apply, ha, swap_apply_left]
  constructor
  · intro h
    refine ⟨hbij, fun x hx y hy => ?_⟩
    -- along the larger cycle, `a` counts as `b`
    let r : α → α := fun z => if z = a then b else z
    have hne {z : α} (hz : z ∈ s) : z ≠ a := fun heq => hnot (heq ▸ hz)
    have hr {z : α} (hz : z ∈ s) : r z = z := if_neg (hne hz)
    have hstep : ∀ z ∈ insert a s, f.SameCycle (r z) (r ((swap a b * f) z)) := by
      intro z hz
      rcases hz with rfl | hz
      · rw [hfirst, hr hb, show r z = b from if_pos rfl]
      · have hfz := (hmem z).mpr hz
        have hnext : r ((swap a b * f) z) = f z := by
          rw [Perm.mul_apply]
          by_cases hfb : f z = b
          · rw [hfb, swap_apply_right]
            exact if_pos rfl
          · rw [swap_apply_of_ne_of_ne (hne hfz) hfb]
            exact hr hfz
        rw [hnext, hr hz]
        exact Perm.sameCycle_apply_right.mpr .rfl
    obtain ⟨n, hn⟩ := h.exists_pow_eq' (hs.insert a) (.inr hx) (.inr hy)
    have hsame := sameCycle_pow_of_step r hbij'.mapsTo hstep (.inr hx) n
    rwa [hn, hr hx, hr hy] at hsame
  · intro h
    refine ⟨hbij', ?_⟩
    have hstep : ∀ z ∈ s, (swap a b * f).SameCycle z (f z) := by
      intro z hz
      by_cases hfb : f z = b
      · have htwo : (swap a b * f) ((swap a b * f) z) = f z := by
          rw [Perm.mul_apply _ _ z, hfb, swap_apply_right, hfirst]
        rw [← htwo]
        exact Perm.sameCycle_apply_right.mpr (Perm.sameCycle_apply_right.mpr .rfl)
      · have hone : (swap a b * f) z = f z := by
          have hne : f z ≠ a := fun heq => hnot (heq ▸ (hmem z).mpr hz)
          rw [Perm.mul_apply, swap_apply_of_ne_of_ne hne hfb]
        rw [← hone]
        exact Perm.sameCycle_apply_right.mpr .rfl
    have hwithin {x : α} (hx : x ∈ s) : (swap a b * f).SameCycle b x := by
      obtain ⟨n, hn⟩ := h.exists_pow_eq' hs hb hx
      have hsame := sameCycle_pow_of_step id hbij.mapsTo hstep hb n
      rwa [id, id, hn] at hsame
    have hall {x : α} (hx : x ∈ insert a s) : (swap a b * f).SameCycle b x := by
      rcases hx with rfl | hx
      · have hnext : (swap x b * f).SameCycle ((swap x b * f) x) x :=
          Perm.sameCycle_apply_left.mpr .rfl
        rwa [hfirst] at hnext
      · exact hwithin hx
    exact fun x hx y hy => (hall hx).symm.trans (hall hy)

end Insert

/-! ## A shuffle -/

/-- Each place from `i` on, of some number of places, is swapped with the one that `dst` says;
the first place comes last when the permutation is applied. -/
def swaps (dst : ℕ → ℕ) (i : ℕ) : ℕ → Perm ℕ
  | 0 => 1
  | k + 1 => swap i (dst i) * swaps dst (i + 1) k

section Swaps

variable {dst : ℕ → ℕ} {i k x : ℕ}

theorem swaps_succ (dst : ℕ → ℕ) (i k : ℕ) :
    swaps dst i (k + 1) = swaps dst i k * swap (i + k) (dst (i + k)) := by
  induction k generalizing i with
  | zero => rw [swaps, swaps, swaps, mul_one, one_mul, Nat.add_zero]
  | succ k ih =>
      rw [swaps, ih, swaps, mul_assoc, Nat.add_right_comm, Nat.add_assoc]

theorem swaps_of_notMem (hdst : ∀ j, i ≤ j → j < i + k → j ≤ dst j ∧ dst j < i + k)
    (hx : x ∉ Set.Ico i (i + k)) : swaps dst i k x = x := by
  induction k generalizing i with
  | zero => rfl
  | succ k ih =>
      rw [Set.mem_Ico, not_and_or] at hx
      have hrest := ih (i := i + 1) (fun j hj hlt => by
        have hj := hdst j (by omega) (by omega)
        omega) (by rw [Set.mem_Ico]; omega)
      have hlast := hdst i le_rfl (by omega)
      rw [swaps, Perm.mul_apply, hrest]
      exact swap_apply_of_ne_of_ne (by omega) (by omega)

/-- What fixes all points outside keeps those that are inside. -/
theorem mem_iff_of_fixes {α : Type*} {f : Perm α} {s : Set α} (hfix : ∀ x, x ∉ s → f x = x)
    (x : α) : f x ∈ s ↔ x ∈ s := by
  by_cases hx : x ∈ s
  · refine iff_of_true (by_contra fun hfx => hfx ?_) hx
    rwa [f.injective (hfix (f x) hfx)]
  · rw [hfix x hx]

/-- The shuffle is a single cycle exactly when no place but the last one is swapped with
itself. -/
theorem isCycleOn_swaps_iff (hdst : ∀ j, i ≤ j → j < i + k → j ≤ dst j ∧ dst j < i + k) :
    (swaps dst i k).IsCycleOn (Set.Ico i (i + k)) ↔
      ∀ j, i ≤ j → j + 1 < i + k → dst j ≠ j := by
  induction k generalizing i with
  | zero =>
      rw [Nat.add_zero, Set.Ico_self]
      exact iff_of_true Perm.isCycleOn_empty fun j hj hlt => by omega
  | succ k ih =>
      have hfirst := hdst i le_rfl (by omega)
      have hrest : ∀ j, i + 1 ≤ j → j < i + 1 + k → j ≤ dst j ∧ dst j < i + 1 + k := by
        intro j hj hlt
        have hj := hdst j (by omega) (by omega)
        omega
      have hfix : swaps dst (i + 1) k i = i :=
        swaps_of_notMem hrest fun hmem => absurd hmem.1 (by omega)
      have hmem := mem_iff_of_fixes fun x hx => swaps_of_notMem hrest hx
      have hinsert : Set.Ico i (i + (k + 1)) = insert i (Set.Ico (i + 1) (i + 1 + k)) := by
        ext x
        simp only [Set.mem_Ico, Set.mem_insert_iff]
        omega
      by_cases hself : dst i = i
      · have happly : swaps dst i (k + 1) i = i := by
          rw [swaps, Perm.mul_apply, hfix, hself, swap_self, refl_apply]
        cases k with
        | zero =>
            rw [hinsert, Nat.add_zero, Set.Ico_self, insert_empty_eq,
              Perm.isCycleOn_singleton]
            exact iff_of_true happly fun j hj hlt => by omega
        | succ k =>
            refine iff_of_false (fun h => ?_) fun h => h i le_rfl (by omega) hself
            have htwo : (Set.Ico i (i + (k + 1 + 1))).Nontrivial :=
              ⟨i, ⟨le_rfl, by omega⟩, i + 1, ⟨by omega, by omega⟩, by omega⟩
            exact h.apply_ne htwo ⟨le_rfl, by omega⟩ happly
      · rw [hinsert, swaps, isCycleOn_insert_iff (Set.finite_Ico _ _) hfix
          (fun hmem => absurd hmem.1 (by omega)) hmem ⟨by omega, by omega⟩, ih hrest]
        constructor
        · intro h j hj hlt
          rcases hj.eq_or_lt with rfl | hj
          · exact hself
          · exact h j hj (by omega)
        · intro h j hj hlt
          exact h j (by omega) (by omega)

end Swaps

end A100Partitioning.Support
