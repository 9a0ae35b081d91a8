import Mathlib.Data.List.Basic
import Mathlib.Tactic.Common

/-!
# Clients that share cells

Several clients make calls that read and write cells of one state.  A client is
served as if it were alone as long as each call finds, in the cells that it reads,
what the earlier calls of the same client left there.
-/

namespace A100Partitioning.Support.SharedCells

universe u v w x y z

/-- Calls of clients `ρ` on a state with cells `κ`.  Which cells a call reads can depend on
what it finds. -/
structure System (ρ : Type u) (γ : Type v) (τ : Type w) (σ : Type x)
    (κ : Type y) (V : κ → Type z) where
  get : ∀ k, σ → V k
  step : ρ → γ → σ → τ × σ
  reads : ρ → γ → σ → κ → Bool
  writes : ρ → γ → κ → Bool

variable {ρ : Type u} {γ : Type v} {τ : Type w} {σ : Type x} {κ : Type y}
variable {V : κ → Type z}

namespace System

variable (S : System ρ γ τ σ κ V)

/-- Two states look alike to a call. -/
def Alike (r : ρ) (c : γ) (s s' : σ) : Prop :=
  ∀ k, S.reads r c s k = true → S.get k s = S.get k s'

/-- A call depends on the cells that it reads, and changes those that it
writes. -/
structure Local : Prop where
  output : ∀ {r c s s'}, S.Alike r c s s' → (S.step r c s).1 = (S.step r c s').1
  write : ∀ {r c s s' k}, S.Alike r c s s' → S.writes r c k = true →
    S.get k (S.step r c s).2 = S.get k (S.step r c s').2
  frame : ∀ {r c s k}, S.writes r c k = false →
    S.get k (S.step r c s).2 = S.get k s

/-- What a sequence of calls returns. -/
def outputs : σ → List (ρ × γ) → List (ρ × τ)
  | _, [] => []
  | s, (r, c) :: calls => (r, (S.step r c s).1) :: outputs (S.step r c s).2 calls

variable [DecidableEq ρ]

/-- What the clients left in the cells, after one more call. -/
def leave (left : ρ → ∀ k, V k) (r : ρ) (c : γ) (s : σ) : ρ → ∀ k, V k :=
  fun r' k =>
    if r' = r ∧ S.writes r c k = true then S.get k (S.step r c s).2 else left r' k

/-- Every call finds what its client left. -/
def Undisturbed : (ρ → ∀ k, V k) → σ → List (ρ × γ) → Prop
  | _, _, [] => True
  | left, s, (r, c) :: calls =>
      (∀ k, S.reads r c s k = true → S.get k s = left r k) ∧
        Undisturbed (S.leave left r c s) (S.step r c s).2 calls

/-- The calls of one client. -/
def callsOf {α : Type*} (r : ρ) (calls : List (ρ × α)) : List (ρ × α) :=
  calls.filter fun c => decide (c.1 = r)

theorem callsOf_cons_self {α : Type*} (r : ρ) (c : α) (calls : List (ρ × α)) :
    callsOf r ((r, c) :: calls) = (r, c) :: callsOf r calls :=
  List.filter_cons_of_pos (decide_eq_true rfl)

theorem callsOf_cons_of_ne {α : Type*} {r r' : ρ} (h : r' ≠ r) (c : α)
    (calls : List (ρ × α)) : callsOf r ((r', c) :: calls) = callsOf r calls :=
  List.filter_cons_of_neg (by rw [decide_eq_true_iff]; exact h)

variable {S}

theorem leave_of_ne {left : ρ → ∀ k, V k} {r r' : ρ} (h : r' ≠ r) (c : γ) (s : σ)
    (k : κ) : S.leave left r c s r' k = left r' k :=
  if_neg fun hr => h hr.1

/-- The cells of a client that reads alone stay what the client leaves in the
shared ones. -/
theorem Local.get_step (hlocal : S.Local) {left : ρ → ∀ k, V k} {r : ρ} {c : γ}
    {s s₁ : σ} (halike : S.Alike r c s s₁) (hleft : ∀ k, S.get k s₁ = left r k)
    (k : κ) : S.get k (S.step r c s₁).2 = S.leave left r c s r k := by
  rw [leave]
  by_cases hwrites : S.writes r c k = true
  · rw [if_pos ⟨rfl, hwrites⟩]
    exact (hlocal.write halike hwrites).symm
  · rw [if_neg fun h => hwrites h.2, hlocal.frame (eq_false_of_ne_true hwrites)]
    exact hleft k

theorem Local.outputs_eq (hlocal : S.Local) {r : ρ} {left : ρ → ∀ k, V k}
    {s s₁ : σ} {calls : List (ρ × γ)} (h : S.Undisturbed left s calls)
    (hleft : ∀ k, S.get k s₁ = left r k) :
    callsOf r (S.outputs s calls) = S.outputs s₁ (callsOf r calls) := by
  induction calls generalizing left s s₁ with
  | nil => rfl
  | cons call calls ih =>
      obtain ⟨r', c⟩ := call
      obtain ⟨hfound, hrest⟩ := h
      rw [outputs]
      by_cases hr : r' = r
      · subst hr
        have halike : S.Alike r' c s s₁ := by
          intro k hk
          rw [hfound k hk, hleft k]
        rw [callsOf_cons_self, callsOf_cons_self, outputs,
          ih hrest (hlocal.get_step halike hleft), hlocal.output halike]
      · rw [callsOf_cons_of_ne hr, callsOf_cons_of_ne hr]
        apply ih hrest
        intro k
        rw [leave_of_ne (Ne.symm hr), hleft k]

end System

end A100Partitioning.Support.SharedCells
