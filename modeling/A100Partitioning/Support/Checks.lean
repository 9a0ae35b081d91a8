import Mathlib.Data.List.Forall2
import Mathlib.Tactic.Common

/-!
# Checks in sequence

A computation that checks its input step by step stops at the first step that fails.  When
the later steps do not depend on what the earlier ones have read, it succeeds if all steps
do, and it fails in a certain way if one step does and all before it succeed.
-/

namespace A100Partitioning.Support

variable {ε α β : Type}

/-- The computation has a result. -/
def Succeeds (x : Except ε α) : Prop := ∃ a, x = .ok a

theorem succeeds_ok (a : α) : Succeeds (.ok a : Except ε α) := ⟨a, rfl⟩

theorem not_succeeds_error (e : ε) : ¬ Succeeds (.error e : Except ε α) := by
  rintro ⟨a, h⟩
  cases h

theorem exists_of_bind_ok {x : Except ε α} {f : α → Except ε β} {b : β}
    (h : x >>= f = .ok b) : ∃ a, x = .ok a ∧ f a = .ok b := by
  cases x with
  | error e => cases h
  | ok a => exact ⟨a, rfl, h⟩

theorem succeeds_bind {x : Except ε α} {f : α → Except ε β} {p : Prop}
    (h : ∀ a, x = .ok a → (Succeeds (f a) ↔ p)) : Succeeds (x >>= f) ↔ Succeeds x ∧ p := by
  cases x with
  | error e => exact iff_of_false (not_succeeds_error e) fun hx => not_succeeds_error e hx.1
  | ok a => exact (h a rfl).trans (iff_and_self.mpr fun _ => succeeds_ok a)

theorem succeeds_bind_ok {x : Except ε α} {f : α → β} :
    (Succeeds (x >>= fun a => .ok (f a)) : Prop) ↔ Succeeds x :=
  (succeeds_bind fun a _ => iff_of_true (succeeds_ok (f a)) trivial).trans (and_iff_left trivial)

theorem bind_eq_error_of_ne {x : Except ε α} {f : α → Except ε β} {e : ε} {p : Prop}
    (hx : x ≠ .error e) (h : ∀ a, x = .ok a → (f a = .error e ↔ p)) :
    x >>= f = .error e ↔ Succeeds x ∧ p := by
  cases x with
  | error e' =>
      refine iff_of_false ?_ fun hp => not_succeeds_error e' hp.1
      intro herror
      cases herror
      exact hx rfl
  | ok a => exact (h a rfl).trans (iff_and_self.mpr fun _ => succeeds_ok a)

theorem bind_eq_error {x : Except ε α} {f : α → Except ε β} {e : ε} {p : Prop}
    (h : ∀ a, x = .ok a → (f a = .error e ↔ p)) :
    x >>= f = .error e ↔ x = .error e ∨ Succeeds x ∧ p := by
  cases x with
  | error e' =>
      have hf : (.error e' : Except ε α) >>= f = .error e' := rfl
      rw [hf, Except.error.injEq, Except.error.injEq]
      exact (or_iff_left fun hp => not_succeeds_error e' hp.1).symm
  | ok a =>
      have hok : (.ok a : Except ε α) ≠ .error e := fun heq => by cases heq
      rw [or_iff_right hok, and_iff_right (succeeds_ok a)]
      exact h a rfl

theorem bind_ne_error {x : Except ε α} {f : α → Except ε β} {e : ε} (hx : x ≠ .error e)
    (h : ∀ a, f a ≠ .error e) : x >>= f ≠ .error e := by
  cases x with
  | error e' =>
      intro herror
      cases herror
      exact hx rfl
  | ok a => exact h a

/-! ## Lists -/

theorem mapM_cons_eq (f : α → Except ε β) (a : α) (l : List α) :
    (a :: l).mapM f = f a >>= fun b => l.mapM f >>= fun bs => .ok (b :: bs) :=
  List.mapM_cons

theorem succeeds_mapM (f : α → Except ε β) (l : List α) :
    Succeeds (l.mapM f) ↔ ∀ a ∈ l, Succeeds (f a) := by
  induction l with
  | nil => exact iff_of_true ⟨[], rfl⟩ fun a ha => (List.not_mem_nil ha).elim
  | cons a l ih =>
      rw [mapM_cons_eq, List.forall_mem_cons, ← ih]
      apply succeeds_bind
      intro b _
      exact succeeds_bind_ok

theorem forall₂_of_mapM {f : α → Except ε β} {l : List α} {r : List β}
    (h : l.mapM f = .ok r) : List.Forall₂ (fun a b => f a = .ok b) l r := by
  induction l generalizing r with
  | nil =>
      cases h
      exact .nil
  | cons a l ih =>
      rw [mapM_cons_eq] at h
      obtain ⟨b, hb, hl⟩ := exists_of_bind_ok h
      obtain ⟨bs, hbs, hr⟩ := exists_of_bind_ok hl
      cases hr
      exact .cons hb (ih hbs)

theorem mapM_eq_error_iff (f : α → Except ε β) (l : List α) (e : ε) :
    l.mapM f = .error e ↔
      ∃ before a after, l = before ++ a :: after ∧ (∀ a' ∈ before, Succeeds (f a')) ∧
        f a = .error e := by
  induction l with
  | nil =>
      refine iff_of_false (fun h => by cases h) ?_
      rintro ⟨before, a, after, hnil, -⟩
      exact absurd hnil.symm (List.append_ne_nil_of_right_ne_nil _ (List.cons_ne_nil a after))
  | cons a l ih =>
      have htail (b : β) : (l.mapM f >>= fun bs => .ok (b :: bs)) = .error e ↔
          l.mapM f = .error e := by
        cases l.mapM f with
        | error e' => exact Iff.rfl
        | ok bs => exact iff_of_false (fun h => by cases h) (fun h => by cases h)
      rw [mapM_cons_eq, bind_eq_error fun b _ => htail b, ih]
      constructor
      · rintro (hfirst | ⟨hsucceeds, before, a', after, rfl, hbefore, herror⟩)
        · exact ⟨[], a, l, rfl, fun _ h => (List.not_mem_nil h).elim, hfirst⟩
        · exact ⟨a :: before, a', after, rfl, List.forall_mem_cons.mpr ⟨hsucceeds, hbefore⟩,
            herror⟩
      · rintro ⟨before, a', after, heq, hbefore, herror⟩
        cases before with
        | nil =>
            rw [List.nil_append, List.cons.injEq] at heq
            rw [heq.1]
            exact .inl herror
        | cons a'' before =>
            rw [List.cons_append, List.cons.injEq] at heq
            rw [List.forall_mem_cons, ← heq.1] at hbefore
            exact .inr ⟨hbefore.1, before, a', after, heq.2, hbefore.2, herror⟩

end A100Partitioning.Support
