import Mathlib.Data.Fintype.Card

/-!
# Cyclic barriers

A barrier that a fixed number of parties meet at again and again, as one finds
it in thread libraries: a party that arrives waits until all have arrived, and
then the barrier starts over.  `Counts` relates its state to the number of times
each party has arrived.
-/

namespace A100Partitioning.Support

/-- The number of parties, how many of them have arrived, and how often all
have. -/
structure CyclicBarrier where
  count : ℕ
  arrived : ℕ
  generation : ℕ
  deriving DecidableEq, Repr

namespace CyclicBarrier

/-- A new barrier. -/
def init (count : ℕ) : CyclicBarrier := ⟨count, 0, 0⟩

/-- One more party arrives. -/
def arrive (b : CyclicBarrier) : CyclicBarrier :=
  if b.arrived + 1 = b.count then
    { b with arrived := 0, generation := b.generation + 1 }
  else { b with arrived := b.arrived + 1 }

/-- A party that arrived in the given generation may go on. -/
def IsOpen (b : CyclicBarrier) (generation : ℕ) : Prop :=
  generation < b.generation

instance (b : CyclicBarrier) (generation : ℕ) : Decidable (b.IsOpen generation) :=
  inferInstanceAs (Decidable (_ < _))

variable {ι : Type*} [Fintype ι]

/-- The parties that have arrived more often than all parties together. -/
def ahead (b : CyclicBarrier) (arrivals : ι → ℕ) : Finset ι :=
  {i | arrivals i = b.generation + 1}

/-- The parties have arrived as often as `arrivals` says. -/
structure Counts (b : CyclicBarrier) (arrivals : ι → ℕ) : Prop where
  count : b.count = Fintype.card ι
  near : ∀ i, arrivals i = b.generation ∨ arrivals i = b.generation + 1
  arrived : b.arrived = (b.ahead arrivals).card
  lt : b.arrived < b.count

variable {b : CyclicBarrier} {arrivals : ι → ℕ} {i : ι}

theorem mem_ahead : i ∈ b.ahead arrivals ↔ arrivals i = b.generation + 1 := by
  simp [ahead]

theorem counts_init [Nonempty ι] :
    Counts (init (Fintype.card ι)) (fun _ : ι => 0) where
  count := rfl
  near _ := .inl rfl
  arrived := by simp [init, ahead]
  lt := Fintype.card_pos

theorem Counts.generation_le (h : Counts b arrivals) (i : ι) :
    b.generation ≤ arrivals i := by
  rcases h.near i with hi | hi <;> omega

theorem Counts.le_succ (h : Counts b arrivals) (i : ι) :
    arrivals i ≤ b.generation + 1 := by
  rcases h.near i with hi | hi <;> omega

theorem Counts.exists_eq (h : Counts b arrivals) :
    ∃ i, arrivals i = b.generation := by
  by_contra hnone
  have hall : b.ahead arrivals = Finset.univ :=
    Finset.eq_univ_iff_forall.mpr fun i => mem_ahead.mpr <|
      (h.near i).resolve_left fun hi => hnone ⟨i, hi⟩
  have hlt := h.lt
  rw [h.arrived, h.count, hall, Finset.card_univ] at hlt
  exact absurd hlt (lt_irrefl _)

/-- A party that has not yet arrived in this generation arrives. -/
theorem Counts.arrive [DecidableEq ι] (h : Counts b arrivals)
    (hi : arrivals i = b.generation) :
    Counts b.arrive (Function.update arrivals i (b.generation + 1)) := by
  have hself : Function.update arrivals i (b.generation + 1) i =
      b.generation + 1 := Function.update_self i _ _
  have hother : ∀ j, j ≠ i →
      Function.update arrivals i (b.generation + 1) j = arrivals j := fun j hj =>
    Function.update_of_ne hj _ _
  have hahead : b.ahead (Function.update arrivals i (b.generation + 1)) =
      insert i (b.ahead arrivals) := by
    ext j
    rw [Finset.mem_insert, mem_ahead, mem_ahead]
    by_cases hj : j = i
    · simp [hj]
    · simp [hj]
  have hcard : (b.ahead (Function.update arrivals i (b.generation + 1))).card =
      b.arrived + 1 := by
    rw [hahead, Finset.card_insert_of_notMem, h.arrived]
    rw [mem_ahead]
    omega
  rw [CyclicBarrier.arrive]
  split_ifs with hlast
  · -- With the last party, all are one generation further.
    have hall : ∀ j, Function.update arrivals i (b.generation + 1) j =
        b.generation + 1 := by
      have huniv : b.ahead (Function.update arrivals i (b.generation + 1)) =
          Finset.univ := by
        apply Finset.eq_univ_of_card
        rw [hcard, hlast, h.count]
      exact fun j => mem_ahead.mp (huniv ▸ Finset.mem_univ j)
    refine ⟨h.count, fun j => .inl (hall j), ?_, ?_⟩
    · symm
      rw [Finset.card_eq_zero]
      refine Finset.eq_empty_of_forall_notMem fun j hj => ?_
      rw [mem_ahead, hall j] at hj
      simp at hj
    · rw [h.count]
      exact Fintype.card_pos_iff.mpr ⟨i⟩
  · refine ⟨h.count, fun j => ?_, hcard.symm, ?_⟩
    · by_cases hj : j = i
      · exact .inr (hj ▸ hself)
      · rw [hother j hj]
        exact h.near j
    · have hlt := h.lt
      simp only
      omega

/-- The parties have arrived and gone on as often as `arrivals` and `returns`
say. -/
structure Synced (b : CyclicBarrier) (arrivals returns : ι → ℕ) : Prop where
  counts : Counts b arrivals
  returns_le : ∀ i, returns i ≤ b.generation

variable {returns : ι → ℕ}

theorem Synced.le_arrivals (h : Synced b arrivals returns) (i j : ι) :
    returns i ≤ arrivals j :=
  (h.returns_le i).trans (h.counts.generation_le j)

/-- A party that is not waiting arrives in the current generation. -/
theorem Synced.eq_generation (h : Synced b arrivals returns) {i : ι}
    (hi : returns i = arrivals i) : arrivals i = b.generation :=
  le_antisymm (hi ▸ h.returns_le i) (h.counts.generation_le i)

theorem Synced.arrive [DecidableEq ι] (h : Synced b arrivals returns) {i : ι}
    (hi : returns i = arrivals i) :
    Synced b.arrive (Function.update arrivals i (arrivals i + 1)) returns where
  counts := by
    have hgeneration := h.eq_generation hi
    have hcounts := h.counts.arrive hgeneration
    rwa [← hgeneration] at hcounts
  returns_le j := by
    have hj := h.returns_le j
    rw [CyclicBarrier.arrive]
    split_ifs
    · exact hj.trans (Nat.le_succ _)
    · exact hj

theorem Synced.leave [DecidableEq ι] (h : Synced b arrivals returns) {i : ι}
    (hopen : b.IsOpen (returns i)) :
    Synced b arrivals (Function.update returns i (returns i + 1)) where
  counts := h.counts
  returns_le j := by
    by_cases hj : j = i
    · subst hj
      rw [Function.update_self]
      exact hopen
    · rw [Function.update_of_ne hj]
      exact h.returns_le j

end CyclicBarrier

end A100Partitioning.Support
