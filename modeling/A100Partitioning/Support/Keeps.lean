import Mathlib.Control.Monad.Basic
import Mathlib.Tactic.Common

/-!
# What a computation leaves alone

A stateful computation that can fail keeps a part of its state if every run that
ends leaves this part as it was.  Larger computations keep what their steps keep.
-/

namespace A100Partitioning.Support.Keeping

universe u v

variable {σ : Type u} {τ : Type v} {α β : Type u} {part : σ → τ}

/-- No run changes this part of the state. -/
def Keeps (part : σ → τ) (x : StateT σ Option α) : Prop :=
  ∀ s a s', x s = some (a, s') → part s' = part s

theorem Keeps.pure (a : α) : Keeps part (Pure.pure a : StateT σ Option α) := by
  intro s a s' h
  cases h
  rfl

theorem Keeps.get : Keeps part (MonadStateOf.get : StateT σ Option σ) := by
  intro s a s' h
  cases h
  rfl

theorem Keeps.fail : Keeps part (fun _ => none : StateT σ Option α) := by
  intro s a s' h
  cases h

theorem Keeps.bind {x : StateT σ Option α} {f : α → StateT σ Option β}
    (hx : Keeps part x) (hf : ∀ a, Keeps part (f a)) : Keeps part (x >>= f) := by
  intro s b s' h
  obtain ⟨⟨a, s₁⟩, hfirst, hsecond⟩ := Option.bind_eq_some_iff.mp h
  exact (hf a s₁ b s' hsecond).trans (hx s a s₁ hfirst)

theorem Keeps.map {x : StateT σ Option α} (f : α → β) (hx : Keeps part x) :
    Keeps part (f <$> x) := by
  rw [← bind_pure_comp]
  exact hx.bind fun a => .pure (f a)

theorem Keeps.ite {p : Prop} [Decidable p] {x y : StateT σ Option α}
    (hx : p → Keeps part x) (hy : ¬ p → Keeps part y) :
    Keeps part (if p then x else y) := by
  by_cases hp : p
  · rw [if_pos hp]
    exact hx hp
  · rw [if_neg hp]
    exact hy hp

theorem Keeps.of_eq {x : StateT σ Option α}
    (h : ∀ s, ∃ a s', x s = some (a, s') ∧ part s' = part s) : Keeps part x := by
  intro s a s' hrun
  obtain ⟨a', s'', heq, hpart⟩ := h s
  rw [heq] at hrun
  cases hrun
  exact hpart

/-! ## Invariants -/

/-- Every run that starts where the property holds and ends, ends where it holds. -/
def Stays (I : σ → Prop) (x : StateT σ Option α) : Prop :=
  ∀ s a s', I s → x s = some (a, s') → I s'

section Stays

variable {I : σ → Prop}

theorem Keeps.of_stays {x : StateT σ Option α} (h : ∀ v, Stays (fun s => part s = v) x) :
    Keeps part x :=
  fun s a s' hrun => h (part s) s a s' rfl hrun

theorem Stays.pure (a : α) : Stays I (Pure.pure a : StateT σ Option α) := by
  intro s a' s' hI h
  cases h
  exact hI

theorem Stays.get : Stays I (MonadStateOf.get : StateT σ Option σ) := by
  intro s a s' hI h
  cases h
  exact hI

theorem Stays.bind {x : StateT σ Option α} {f : α → StateT σ Option β}
    (hx : Stays I x) (hf : ∀ a, Stays I (f a)) : Stays I (x >>= f) := by
  intro s b s' hI h
  obtain ⟨⟨a, s₁⟩, hfirst, hsecond⟩ := Option.bind_eq_some_iff.mp h
  exact hf a s₁ b s' (hx s a s₁ hI hfirst) hsecond

theorem Stays.map {x : StateT σ Option α} (f : α → β) (hx : Stays I x) :
    Stays I (f <$> x) := by
  rw [← bind_pure_comp]
  exact hx.bind fun a => .pure (f a)

theorem Stays.ite {p : Prop} [Decidable p] {x y : StateT σ Option α}
    (hx : p → Stays I x) (hy : ¬ p → Stays I y) : Stays I (if p then x else y) := by
  by_cases hp : p
  · rw [if_pos hp]
    exact hx hp
  · rw [if_neg hp]
    exact hy hp

theorem Stays.mapM {f : β → StateT σ Option α} (hf : ∀ b, Stays I (f b)) (l : List β) :
    Stays I (l.mapM f) := by
  induction l with
  | nil => exact .pure _
  | cons b l ih =>
      rw [List.mapM_cons]
      exact (hf b).bind fun a => ih.bind fun as => .pure _

end Stays

/-- Every run that starts where the property holds ends, and ends where it holds. -/
def Runs (I : σ → Prop) (x : StateT σ Option α) : Prop :=
  ∀ s, I s → ∃ a s', x s = some (a, s') ∧ I s'

section Runs

variable {I : σ → Prop}

theorem Runs.pure (a : α) : Runs I (Pure.pure a : StateT σ Option α) :=
  fun s hI => ⟨a, s, rfl, hI⟩

theorem Runs.bind {x : StateT σ Option α} {f : α → StateT σ Option β}
    (hx : Runs I x) (hf : ∀ a, Runs I (f a)) : Runs I (x >>= f) := by
  intro s hI
  obtain ⟨a, s₁, hfirst, hI₁⟩ := hx s hI
  obtain ⟨b, s', hsecond, hI'⟩ := hf a s₁ hI₁
  refine ⟨b, s', ?_, hI'⟩
  exact Option.bind_eq_some_iff.mpr ⟨(a, s₁), hfirst, hsecond⟩

theorem Runs.map {x : StateT σ Option α} (f : α → β) (hx : Runs I x) : Runs I (f <$> x) := by
  rw [← bind_pure_comp]
  exact hx.bind fun a => .pure (f a)

theorem Runs.mapM {f : β → StateT σ Option α} {l : List β} (hf : ∀ b ∈ l, Runs I (f b)) :
    Runs I (l.mapM f) := by
  induction l with
  | nil => exact .pure _
  | cons b l ih =>
      rw [List.mapM_cons]
      obtain ⟨hb, hl⟩ := List.forall_mem_cons.mp hf
      exact hb.bind fun a => (ih hl).bind fun as => .pure _

end Runs

/-- Every run that starts where the property holds ends with such a value, and where the
property holds. -/
def Gives (I : σ → Prop) (p : α → Prop) (x : StateT σ Option α) : Prop :=
  ∀ s, I s → ∃ a s', x s = some (a, s') ∧ p a ∧ I s'

/-- No run that starts where the property holds ends. -/
def Fails (I : σ → Prop) (x : StateT σ Option α) : Prop := ∀ s, I s → x s = none

section Gives

variable {I : σ → Prop} {p : α → Prop} {q : β → Prop}

theorem Gives.pure {a : α} (ha : p a) : Gives I p (Pure.pure a : StateT σ Option α) :=
  fun s hI => ⟨a, s, rfl, ha, hI⟩

theorem Gives.bind {x : StateT σ Option α} {f : α → StateT σ Option β}
    (hx : Gives I p x) (hf : ∀ a, p a → Gives I q (f a)) : Gives I q (x >>= f) := by
  intro s hI
  obtain ⟨a, s₁, hfirst, ha, hI₁⟩ := hx s hI
  obtain ⟨b, s', hsecond, hb, hI'⟩ := hf a ha s₁ hI₁
  refine ⟨b, s', ?_, hb, hI'⟩
  exact Option.bind_eq_some_iff.mpr ⟨(a, s₁), hfirst, hsecond⟩

theorem Gives.runs {x : StateT σ Option α} (hx : Gives I p x) : Runs I x := by
  intro s hI
  obtain ⟨a, s', hrun, -, hI'⟩ := hx s hI
  exact ⟨a, s', hrun, hI'⟩

theorem Runs.gives {x : StateT σ Option α} (hx : Runs I x) : Gives I (fun _ => True) x := by
  intro s hI
  obtain ⟨a, s', hrun, hI'⟩ := hx s hI
  exact ⟨a, s', hrun, trivial, hI'⟩

theorem Gives.bind_runs {x : StateT σ Option α} {f : α → StateT σ Option β}
    (hx : Gives I p x) (hf : ∀ a, p a → Runs I (f a)) : Runs I (x >>= f) :=
  (hx.bind fun a ha => (hf a ha).gives).runs

theorem Gives.bind_fails {x : StateT σ Option α} {f : α → StateT σ Option β}
    (hx : Gives I p x) (hf : ∀ a, p a → Fails I (f a)) : Fails I (x >>= f) := by
  intro s hI
  obtain ⟨a, s₁, hfirst, ha, hI₁⟩ := hx s hI
  have hsecond : (x >>= f) s = f a s₁ := congrArg (Option.bind · _) hfirst
  rw [hsecond]
  exact hf a ha s₁ hI₁

theorem Fails.bind {x : StateT σ Option α} (hx : Fails I x) (f : α → StateT σ Option β) :
    Fails I (x >>= f) :=
  fun s hI => congrArg (Option.bind · _) (hx s hI)

end Gives

/-- Every run of the first computation is one of the second, which may have more. -/
def Within (x y : StateT σ Option α) : Prop := ∀ s p, x s = some p → y s = some p

section Within

theorem Within.refl (x : StateT σ Option α) : Within x x := fun _ _ h => h

theorem Within.bind {x y : StateT σ Option α} {f g : α → StateT σ Option β}
    (hx : Within x y) (hf : ∀ a, Within (f a) (g a)) : Within (x >>= f) (y >>= g) := by
  intro s b hrun
  obtain ⟨⟨a, s₁⟩, hfirst, hsecond⟩ := Option.bind_eq_some_iff.mp hrun
  exact Option.bind_eq_some_iff.mpr ⟨(a, s₁), hx s _ hfirst, hf a s₁ b hsecond⟩

theorem Within.check {c : Prop} [Decidable c] {x y : StateT σ Option α} (hx : Within x y) :
    Within (if c then x else fun _ => none) y := by
  intro s a hrun
  by_cases hc : c
  · rw [if_pos hc] at hrun
    exact hx s a hrun
  · rw [if_neg hc] at hrun
    cases hrun

theorem Within.ite {c : Prop} [Decidable c] {x y x' y' : StateT σ Option α}
    (hx : Within x x') (hy : Within y y') :
    Within (if c then x else y) (if c then x' else y') := by
  by_cases hc : c
  · rw [if_pos hc, if_pos hc]
    exact hx
  · rw [if_neg hc, if_neg hc]
    exact hy

end Within

/-! ## What a computation returns -/

/-- Every run that ends returns a value with this property. -/
def Returns (p : α → Prop) (x : StateT σ Option α) : Prop :=
  ∀ s a s', x s = some (a, s') → p a

section Returns

variable {p : α → Prop} {q : β → Prop}

theorem Returns.pure {a : α} (ha : p a) : Returns p (Pure.pure a : StateT σ Option α) := by
  intro s a' s' h
  cases h
  exact ha

theorem Returns.bind {x : StateT σ Option α} {f : α → StateT σ Option β}
    (hx : Returns p x) (hf : ∀ a, p a → Returns q (f a)) : Returns q (x >>= f) := by
  intro s b s' h
  obtain ⟨⟨a, s₁⟩, hfirst, hsecond⟩ := Option.bind_eq_some_iff.mp h
  exact hf a (hx s a s₁ hfirst) s₁ b s' hsecond

theorem Returns.after {x : StateT σ Option α} {f : α → StateT σ Option β}
    (hf : ∀ a, Returns q (f a)) : Returns q (x >>= f) := by
  have hx : Returns (fun _ => True) x := fun _ _ _ _ => trivial
  exact hx.bind fun a _ => hf a

theorem Returns.ite {c : Prop} [Decidable c] {x y : StateT σ Option α}
    (hx : c → Returns p x) (hy : ¬ c → Returns p y) :
    Returns p (if c then x else y) := by
  by_cases hc : c
  · rw [if_pos hc]
    exact hx hc
  · rw [if_neg hc]
    exact hy hc

theorem Returns.mapM {f : β → StateT σ Option α} (hf : ∀ b, Returns p (f b))
    (l : List β) : Returns (fun as => ∀ a ∈ as, p a) (l.mapM f) := by
  induction l with
  | nil =>
      apply Returns.pure
      intro a ha
      cases ha
  | cons b l ih =>
      rw [List.mapM_cons]
      refine (hf b).bind fun a ha => ih.bind fun as has => ?_
      exact .pure (List.forall_mem_cons.mpr ⟨ha, has⟩)

end Returns

end A100Partitioning.Support.Keeping
