import Mathlib.Algebra.Order.Ring.Int
import Mathlib.Data.Nat.Cast.Order.Ring
import Mathlib.Data.List.Basic

/-!
# Runs with checked numbers

A program computes indices in `int` and accesses its buffers there.  A run stops being defined
at the first number that is not an `int`; otherwise it is the list of its accesses.  What makes
a run safe can be read off its parts.
-/

namespace A100Partitioning.Support

/-- The numbers of an `int`. -/
def IsInt (x : ℤ) : Prop := -2 ^ 31 ≤ x ∧ x < 2 ^ 31

instance (x : ℤ) : Decidable (IsInt x) := inferInstanceAs (Decidable (_ ∧ _))

theorem isInt_natCast {x : ℕ} : IsInt x ↔ x < 2 ^ 31 := by
  rw [IsInt]
  omega

/-- An access to a buffer of some size. -/
structure Access (β : Type) where
  buffer : β
  size : ℤ
  index : ℤ
  deriving DecidableEq, Repr

/-- The accesses of a run, or none if a number was not an `int`. -/
abbrev Run (β : Type) : Type := Option (List (Access β))

namespace Run

variable {α β : Type} {x size index : ℤ} {b : β} {a : Access β}

/-- Nothing is left to do. -/
def done : Run β := some []

/-- One access. -/
def access (b : β) (size index : ℤ) : Run β := some [⟨b, size, index⟩]

/-- A number is computed and used. -/
def int (x : ℤ) (use : ℤ → Run β) : Run β := if IsInt x then use x else none

/-- One run and then another one. -/
def both : Run β → Run β → Run β
  | some first, some second => some (first ++ second)
  | _, _ => none

/-- A loop, or threads that run one after the other. -/
def each (l : List α) (f : α → Run β) : Run β := l.foldr (fun a r => both (f a) r) done

/-- The accesses of a run that is defined. -/
def accesses (r : Run β) : List (Access β) := r.getD []

/-- All numbers are in range, and all accesses are in their buffers. -/
def Safe (r : Run β) : Prop := ∃ l, r = some l ∧ ∀ a ∈ l, 0 ≤ a.index ∧ a.index < a.size

/-! ## Safety -/

theorem safe_done : Safe (done : Run β) :=
  ⟨[], rfl, fun _ ha => absurd ha List.not_mem_nil⟩

theorem safe_access : Safe (access b size index) ↔ 0 ≤ index ∧ index < size := by
  constructor
  · rintro ⟨l, hl, h⟩
    cases hl
    exact h _ List.mem_cons_self
  · intro h
    refine ⟨_, rfl, fun a ha => ?_⟩
    rw [List.mem_singleton.mp ha]
    exact h

theorem safe_int {use : ℤ → Run β} : Safe (int x use) ↔ IsInt x ∧ Safe (use x) := by
  rw [int]
  split_ifs with hx
  · exact (and_iff_right hx).symm
  · exact iff_of_false (fun ⟨l, hl, _⟩ => (nomatch hl)) fun h => hx h.1

theorem safe_both {r s : Run β} : Safe (both r s) ↔ Safe r ∧ Safe s := by
  constructor
  · rintro ⟨l, hl, h⟩
    cases r with
    | none => cases hl
    | some first =>
        cases s with
        | none => cases hl
        | some second =>
            cases hl
            exact ⟨⟨first, rfl, fun a ha => h a (List.mem_append_left _ ha)⟩,
              ⟨second, rfl, fun a ha => h a (List.mem_append_right _ ha)⟩⟩
  · rintro ⟨⟨first, rfl, hfirst⟩, ⟨second, rfl, hsecond⟩⟩
    refine ⟨first ++ second, rfl, fun a ha => ?_⟩
    rcases List.mem_append.mp ha with ha | ha
    · exact hfirst a ha
    · exact hsecond a ha

theorem safe_each {l : List α} {f : α → Run β} : Safe (each l f) ↔ ∀ a ∈ l, Safe (f a) := by
  induction l with
  | nil => exact iff_of_true safe_done fun a ha => absurd ha List.not_mem_nil
  | cons a l ih =>
      rw [each, List.foldr_cons, safe_both, List.forall_mem_cons]
      exact and_congr_right fun _ => ih

theorem safe_ite {p : Prop} [Decidable p] {r : Run β} :
    Safe (if p then r else done) ↔ (p → Safe r) := by
  split_ifs with hp
  · exact ⟨fun h _ => h, fun h => h hp⟩
  · exact iff_of_true safe_done fun h => absurd h hp

/-! ## Accesses -/

theorem accesses_done : accesses (done : Run β) = [] := rfl

theorem accesses_access : accesses (access b size index) = [⟨b, size, index⟩] := rfl

theorem accesses_int {use : ℤ → Run β} (hx : IsInt x) :
    accesses (int x use) = accesses (use x) := by
  rw [int, if_pos hx]

theorem mem_accesses_both {r s : Run β} (h : Safe (both r s)) :
    a ∈ accesses (both r s) ↔ a ∈ accesses r ∨ a ∈ accesses s := by
  obtain ⟨⟨first, rfl, -⟩, ⟨second, rfl, -⟩⟩ := safe_both.mp h
  exact List.mem_append

theorem mem_accesses_each {l : List α} {f : α → Run β} (h : Safe (each l f)) :
    a ∈ accesses (each l f) ↔ ∃ x ∈ l, a ∈ accesses (f x) := by
  induction l with
  | nil => exact iff_of_false List.not_mem_nil fun ⟨x, hx, _⟩ => List.not_mem_nil hx
  | cons x l ih =>
      have hrest : Safe (each l f) := (safe_both.mp h).2
      rw [each, List.foldr_cons, mem_accesses_both h, List.exists_mem_cons_iff]
      exact or_congr_right (ih hrest)

theorem accesses_ite {p : Prop} [Decidable p] {r : Run β} :
    a ∈ accesses (if p then r else done) ↔ p ∧ a ∈ accesses r := by
  split_ifs with hp
  · exact (and_iff_right hp).symm
  · exact iff_of_false List.not_mem_nil fun h => hp h.1

/-- All accesses of a run are of a kind. -/
def Only (p : Access β → Prop) (r : Run β) : Prop := ∀ a ∈ accesses r, p a

section Only

variable {p : Access β → Prop}

theorem only_done : Only p done := fun _ ha => absurd ha List.not_mem_nil

theorem only_access (h : p ⟨b, size, index⟩) : Only p (access b size index) := by
  intro a ha
  rw [List.mem_singleton.mp ha]
  exact h

theorem only_int {use : ℤ → Run β} (h : Only p (use x)) : Only p (int x use) := by
  rw [int]
  split_ifs
  · exact h
  · exact only_done

theorem only_both {r s : Run β} (hr : Only p r) (hs : Only p s) : Only p (both r s) := by
  cases r with
  | none => exact only_done
  | some first =>
      cases s with
      | none => exact only_done
      | some second =>
          intro a ha
          rcases List.mem_append.mp ha with ha | ha
          · exact hr a ha
          · exact hs a ha

theorem only_each {l : List α} {f : α → Run β} (h : ∀ a, Only p (f a)) : Only p (each l f) := by
  induction l with
  | nil => exact only_done
  | cons a l ih => exact only_both (h a) ih

theorem only_ite {q : Prop} [Decidable q] {r : Run β} (h : Only p r) :
    Only p (if q then r else done) := by
  split_ifs
  · exact h
  · exact only_done

end Only

/-! ## Matrices -/

/-- The access to an element of a matrix of some height and width. -/
def element (b : β) (height width row col : ℤ) : Run β :=
  .int (row * width) fun first => .int (first + col) fun i => .access b (height * width) i

theorem safe_element {height width row col : ℤ} (hrow : 0 ≤ row) (hheight : row < height)
    (hcol : 0 ≤ col) (hwidth : col < width) :
    Safe (element b height width row col) ↔ row * width + col < 2 ^ 31 := by
  have hpos : 0 ≤ row * width := mul_nonneg hrow (hcol.trans hwidth.le)
  have hnext : (row + 1) * width ≤ height * width :=
    mul_le_mul_of_nonneg_right hheight (hcol.trans hwidth.le)
  rw [add_mul, one_mul] at hnext
  rw [element, safe_int, safe_int, safe_access, IsInt, IsInt]
  omega

theorem safe_element_natCast {height width row col : ℕ} (hrow : row < height)
    (hcol : col < width) :
    Safe (element b height width row col) ↔ row * width + col < 2 ^ 31 := by
  rw [safe_element (Nat.cast_nonneg row) (Nat.cast_lt.mpr hrow) (Nat.cast_nonneg col)
    (Nat.cast_lt.mpr hcol)]
  norm_cast

/-- Where the rows up to some height fit, so do their elements. -/
theorem element_lt {height width row col : ℕ} (hfit : height * width ≤ 2 ^ 31)
    (hrow : row < height) (hcol : col < width) : row * width + col < 2 ^ 31 := by
  have hnext : (row + 1) * width ≤ height * width := Nat.mul_le_mul_right width hrow
  rw [add_mul, one_mul] at hnext
  omega

theorem mul_le_of_last_lt {height width : ℕ} (hheight : 0 < height)
    (hlast : (height - 1) * width + (width - 1) < 2 ^ 31) : height * width ≤ 2 ^ 31 := by
  obtain ⟨height, rfl⟩ : ∃ rows, height = rows + 1 := ⟨height - 1, by omega⟩
  rw [Nat.add_sub_cancel] at hlast
  rw [add_mul, one_mul]
  omega

theorem mem_accesses_element {height width row col : ℤ}
    (h : Safe (element b height width row col)) :
    a ∈ accesses (element b height width row col) ↔
      a = ⟨b, height * width, row * width + col⟩ := by
  obtain ⟨hfirst, hindex⟩ := safe_int.mp h
  rw [element, accesses_int hfirst, accesses_int (safe_int.mp hindex).1, accesses_access,
    List.mem_singleton]

/-! ## Grids -/

/-- The threads of a grid of two-dimensional blocks: `f` has the indices of the block, and then
those of the thread. -/
def grid (gridX gridY blockX blockY : ℕ) (f : ℕ → ℕ → ℕ → ℕ → Run β) : Run β :=
  each (List.range gridY) fun by' => each (List.range gridX) fun bx =>
    each (List.range blockY) fun ty => each (List.range blockX) fun tx => f bx by' tx ty

theorem block_index_lt {gridX gridY bx by' : ℕ} (hbx : bx < gridX) (hby : by' < gridY) :
    by' * gridX + bx < gridX * gridY := by
  have hnext : (by' + 1) * gridX ≤ gridY * gridX := Nat.mul_le_mul_right gridX hby
  rw [add_mul, one_mul, mul_comm gridY] at hnext
  omega

theorem safe_grid {gridX gridY blockX blockY : ℕ} {f : ℕ → ℕ → ℕ → ℕ → Run β} :
    Safe (grid gridX gridY blockX blockY f) ↔
      ∀ bx < gridX, ∀ by' < gridY, ∀ tx < blockX, ∀ ty < blockY, Safe (f bx by' tx ty) := by
  simp only [grid, safe_each, List.mem_range]
  constructor
  · intro h bx hbx by' hby tx htx ty hty
    exact h by' hby bx hbx ty hty tx htx
  · intro h by' hby bx hbx ty hty tx htx
    exact h bx hbx by' hby tx htx ty hty

theorem mem_accesses_grid {gridX gridY blockX blockY : ℕ} {f : ℕ → ℕ → ℕ → ℕ → Run β}
    (h : Safe (grid gridX gridY blockX blockY f)) :
    a ∈ accesses (grid gridX gridY blockX blockY f) ↔
      ∃ bx < gridX, ∃ by' < gridY, ∃ tx < blockX, ∃ ty < blockY,
        a ∈ accesses (f bx by' tx ty) := by
  rw [grid, mem_accesses_each h]
  constructor
  · rintro ⟨by', hby, ha⟩
    have hrow := safe_each.mp h by' hby
    obtain ⟨bx, hbx, ha⟩ := (mem_accesses_each hrow).mp ha
    have hblock := safe_each.mp hrow bx hbx
    obtain ⟨ty, hty, ha⟩ := (mem_accesses_each hblock).mp ha
    have hthreads := safe_each.mp hblock ty hty
    obtain ⟨tx, htx, ha⟩ := (mem_accesses_each hthreads).mp ha
    exact ⟨bx, List.mem_range.mp hbx, by', List.mem_range.mp hby, tx, List.mem_range.mp htx, ty,
      List.mem_range.mp hty, ha⟩
  · rintro ⟨bx, hbx, by', hby, tx, htx, ty, hty, ha⟩
    have hrow := safe_each.mp h by' (List.mem_range.mpr hby)
    have hblock := safe_each.mp hrow bx (List.mem_range.mpr hbx)
    have hthreads := safe_each.mp hblock ty (List.mem_range.mpr hty)
    exact ⟨by', List.mem_range.mpr hby, (mem_accesses_each hrow).mpr ⟨bx, List.mem_range.mpr hbx,
      (mem_accesses_each hblock).mpr ⟨ty, List.mem_range.mpr hty,
        (mem_accesses_each hthreads).mpr ⟨tx, List.mem_range.mpr htx, ha⟩⟩⟩⟩

end Run

end A100Partitioning.Support
