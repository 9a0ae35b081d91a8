import Mathlib.Tactic.Ring

/-!
# Printed numerals

A number printed in some base is read back by any loop that appends one digit
after another, also behind leading zeros and behind digits that were read
before.
-/

namespace A100Partitioning.Support

theorem exists_digitChar_of_mem_toDigits {b n : ℕ} (hb : 1 < b) {c : Char}
    (hc : c ∈ Nat.toDigits b n) : ∃ d, d < b ∧ c = d.digitChar := by
  induction n using Nat.base_induction b hb with
  | single m hm =>
      rw [Nat.toDigits_of_lt_base hm, List.mem_singleton] at hc
      exact ⟨m, hm, hc⟩
  | digit m k hk hm ih =>
      rw [← Nat.toDigits_append_toDigits hb hm hk, List.mem_append] at hc
      rcases hc with hc | hc
      · exact ih hc
      · rw [Nat.toDigits_of_lt_base hk, List.mem_singleton] at hc
        exact ⟨k, hk, hc⟩

section Reading

variable {α : Type} {b : ℕ} {value : ℕ → α} {step : α → Char → α}

/-- Reading the digits of a number behind those of another one. -/
theorem foldl_toDigits (hb : 1 < b)
    (hstep : ∀ n d, d < b → step (value n) d.digitChar = value (b * n + d))
    (a n : ℕ) :
    (Nat.toDigits b n).foldl step (value a) =
      value (b ^ (Nat.toDigits b n).length * a + n) := by
  induction n using Nat.base_induction b hb with
  | single m hm =>
      rw [Nat.toDigits_of_lt_base hm, List.foldl_cons, List.foldl_nil,
        hstep a m hm, List.length_singleton, pow_one]
  | digit m k hk hm ih =>
      rw [← Nat.toDigits_append_toDigits hb hm hk, List.foldl_append, ih,
        Nat.toDigits_of_lt_base hk, List.foldl_cons, List.foldl_nil,
        hstep _ k hk, List.length_append, List.length_singleton]
      congr 1
      ring

theorem foldl_leftpad_toDigits (hb : 1 < b)
    (hstep : ∀ n d, d < b → step (value n) d.digitChar = value (b * n + d))
    {n w : ℕ} (hlen : (Nat.toDigits b n).length ≤ w) (a : ℕ) :
    ((Nat.toDigits b n).leftpad w '0').foldl step (value a) =
      value (b ^ w * a + n) := by
  have hzeros : ∀ k a, (List.replicate k '0').foldl step (value a) =
      value (b ^ k * a) := by
    intro k
    induction k with
    | zero => intro a; rw [pow_zero, one_mul]; rfl
    | succ k ih =>
        intro a
        have hzero := hstep a 0 (by omega)
        rw [List.replicate_succ, List.foldl_cons]
        refine (congrArg (List.foldl step · _) hzero).trans ?_
        rw [Nat.add_zero, ih, pow_succ, mul_assoc]
  rw [List.leftpad, List.foldl_append, hzeros, foldl_toDigits hb hstep,
    ← mul_assoc, ← pow_add, Nat.add_sub_cancel' hlen]

end Reading

end A100Partitioning.Support
