import Mathlib.Data.List.Basic
import Mathlib.Data.List.Nodup
import Mathlib.Tactic.Common

/-!
# Registries of named entries

Entries are registered one after another under their names.  Registering one
fails if its name is taken, or for a reason of its own; the entries before it
stay.
-/

namespace A100Partitioning.Support.Registry

universe u v

variable {π : Type u} {β : Type v} [DecidableEq π]

/-- Register the entries of a list, up to the first one that fails. -/
def register (name : β → π) (fails : π → Bool) : List β → List β → Bool × List β
  | [], entries => (true, entries)
  | e :: es, entries =>
      if fails (name e) = true ∨ name e ∈ entries.map name then (false, entries)
      else register name fails es (e :: entries)

variable {name : β → π} {fails : π → Bool} {es entries : List β}

theorem register_cons_of_ok {e : β} (hfails : fails (name e) = false)
    (hfree : name e ∉ entries.map name) :
    register name fails (e :: es) entries =
      register name fails es (e :: entries) := by
  rw [register, if_neg]
  rintro (h | h)
  · rw [hfails] at h
    cases h
  · exact hfree h

theorem register_append (es es' entries : List β) :
    register name fails (es ++ es') entries =
      if (register name fails es entries).1 = true then
        register name fails es' (register name fails es entries).2
      else register name fails es entries := by
  induction es generalizing entries with
  | nil => rfl
  | cons e es ih =>
      rw [List.cons_append, register, register]
      split
      · rfl
      · exact ih (e :: entries)

theorem mem_of_mem_register {e : β}
    (h : e ∈ (register name fails es entries).2) : e ∈ es ∨ e ∈ entries := by
  induction es generalizing entries with
  | nil => exact .inr h
  | cons e' es ih =>
      rw [register] at h
      split at h
      · exact .inr h
      · rcases ih h with h | h
        · exact .inl (List.mem_cons_of_mem _ h)
        · rcases List.mem_cons.mp h with rfl | h
          · exact .inl List.mem_cons_self
          · exact .inr h

/-- Registering a list succeeds if and only if no entry fails for itself and the
names are new and different. -/
theorem register_ok_iff :
    (register name fails es entries).1 = true ↔
      (∀ e ∈ es, fails (name e) = false) ∧ (es.map name).Nodup ∧
        ∀ e ∈ es, name e ∉ entries.map name := by
  induction es generalizing entries with
  | nil => simp [register]
  | cons e es ih =>
      by_cases hbad : fails (name e) = true ∨ name e ∈ entries.map name
      · rw [register, if_pos hbad]
        constructor
        · intro h
          cases h
        · rintro ⟨hfails, -, hfree⟩
          rcases hbad with h | h
          · rw [hfails e List.mem_cons_self] at h
            cases h
          · exact absurd h (hfree e List.mem_cons_self)
      · obtain ⟨hfails, hfree⟩ := not_or.mp hbad
        rw [register_cons_of_ok (eq_false_of_ne_true hfails) hfree, ih]
        simp only [List.map_cons, List.mem_cons, List.nodup_cons, not_or,
          forall_eq_or_imp, List.mem_map, not_exists, not_and]
        constructor
        · rintro ⟨hes, hnodup, hnew⟩
          exact ⟨⟨eq_false_of_ne_true hfails, hes⟩,
            ⟨fun e' he' heq => (hnew e' he').1 heq, hnodup⟩,
            fun e' he' heq => hfree (List.mem_map.mpr ⟨e', he', heq⟩),
            fun e' he' => (hnew e' he').2⟩
        · rintro ⟨⟨-, hes⟩, ⟨hhead, hnodup⟩, -, hnew⟩
          exact ⟨hes, hnodup, fun e' he' => ⟨hhead e' he', hnew e' he'⟩⟩

theorem register_ok (h : (register name fails es entries).1 = true) :
    (register name fails es entries).2 = es.reverse ++ entries := by
  induction es generalizing entries with
  | nil => rfl
  | cons e es ih =>
      obtain ⟨hfails, -, hnew⟩ := register_ok_iff.mp h
      rw [register_cons_of_ok (hfails e List.mem_cons_self)
        (hnew e List.mem_cons_self)] at h ⊢
      rw [ih h, List.reverse_cons, List.append_assoc]
      rfl

end A100Partitioning.Support.Registry
