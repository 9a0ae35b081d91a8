import Mathlib.Data.List.Perm.Basic
import Mathlib.Data.List.Nodup

/-!
# What is allocated and what is freed

A ledger records what has been allocated and what has been freed.  Code that holds
some resources is in order if what it holds is, together with what is freed, what
was allocated, and nothing was allocated twice.
-/

namespace A100Partitioning.Support

/-- The resources allocated, and those freed, each with the newest first. -/
structure Ledger (α : Type*) where
  allocated : List α
  freed : List α

namespace Ledger

variable {α : Type*} {l : Ledger α} {a : α} {held held' : List α}

/-- A resource is allocated. -/
def alloc (l : Ledger α) (a : α) : Ledger α := { l with allocated := a :: l.allocated }

/-- A resource is freed. -/
def free (l : Ledger α) (a : α) : Ledger α := { l with freed := a :: l.freed }

/-- Some resources are freed, one after another. -/
def freeAll (l : Ledger α) (held : List α) : Ledger α := held.foldl free l

theorem freeAll_append (l : Ledger α) (held held' : List α) :
    l.freeAll (held ++ held') = (l.freeAll held).freeAll held' :=
  List.foldl_append

theorem mem_freed_freeAll {b : α} : b ∈ (l.freeAll held).freed ↔ b ∈ held ∨ b ∈ l.freed := by
  induction held generalizing l with
  | nil => simp [freeAll]
  | cons a held ih =>
      have hstep : l.freeAll (a :: held) = (l.free a).freeAll held := rfl
      rw [hstep, ih, List.mem_cons, free, List.mem_cons, or_left_comm, or_assoc]

/-- These resources, and no others, are allocated and not freed. -/
structure Holds (l : Ledger α) (held : List α) : Prop where
  nodup : l.allocated.Nodup
  perm : (l.freed ++ held).Perm l.allocated

namespace Holds

theorem empty : Holds (⟨[], []⟩ : Ledger α) [] :=
  ⟨List.nodup_nil, .refl _⟩

theorem of_perm (h : l.Holds held) (hperm : held.Perm held') : l.Holds held' :=
  ⟨h.nodup, (hperm.symm.append_left _).trans h.perm⟩

theorem alloc (h : l.Holds held) (hfresh : a ∉ l.allocated) :
    (l.alloc a).Holds (a :: held) := by
  constructor
  · exact List.nodup_cons.mpr ⟨hfresh, h.nodup⟩
  · exact List.perm_middle.trans (h.perm.cons a)

theorem free (h : l.Holds (a :: held)) : (l.free a).Holds held := by
  constructor
  · exact h.nodup
  · exact List.perm_middle.symm.trans h.perm

theorem freeAll (h : l.Holds (held ++ held')) : (l.freeAll held).Holds held' := by
  induction held generalizing l with
  | nil => exact h
  | cons a held ih => exact ih h.free

theorem freeIf {b : Bool} (h : l.Holds ((if b then [a] else []) ++ held)) :
    (if b then l.free a else l).Holds held := by
  cases b with
  | false => exact h
  | true => exact h.free

theorem nodup_freed (h : l.Holds held) : l.freed.Nodup :=
  (List.nodup_append.mp (h.perm.nodup_iff.mpr h.nodup)).1

/-- If nothing is held any more, then everything was freed once. -/
theorem count_freed [BEq α] [LawfulBEq α] (h : l.Holds []) (ha : a ∈ l.allocated) :
    l.freed.count a = 1 := by
  have hperm := h.perm
  rw [List.append_nil] at hperm
  rw [hperm.count_eq]
  exact List.count_eq_one_of_mem h.nodup ha

end Holds

end Ledger

end A100Partitioning.Support
