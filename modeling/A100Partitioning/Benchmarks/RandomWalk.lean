import A100Partitioning.Support.OneCycle
import Mathlib.Logic.Function.Iterate

/-!
# The random walk

`random_walk` and `cpu_random_walk` shuffle an array of indices, and then go from one element
to the one that it names.
-/

namespace A100Partitioning.Benchmarks

open Equiv Function
open Support (swaps swaps_succ swaps_of_notMem mem_iff_of_fixes isCycleOn_swaps_iff)

/-! ## The code

Both benchmarks have the same functions. -/

/-- `Random64`, after some calls of `rand`. -/
def random64 (rand : ℕ → BitVec 32) (calls : ℕ) : BitVec 64 :=
  (List.range 4).foldl (fun toReturn i =>
    (toReturn <<< 16) ||| ((rand (calls + i) &&& 0xffff).setWidth 64)) 0

/-- `RandomRange`, with the calls of `rand` there have been then. -/
def randomRange (rand : ℕ → BitVec 32) (calls base limit : ℕ) : ℕ × ℕ :=
  if limit ≤ base then (base, calls)
  else ((random64 rand calls).toNat % (limit - base) + base, calls + 4)

/-- The buffer while it is shuffled, and the calls of `rand`. -/
structure Shuffle where
  buffer : ℕ → ℕ
  calls : ℕ

/-- Two elements change places. -/
def exchange (buffer : ℕ → ℕ) (i dst : ℕ) : ℕ → ℕ :=
  update (update buffer i (buffer dst)) dst (buffer i)

/-- One turn of the loop of `ShuffleArray`. -/
def Shuffle.step (rand : ℕ → BitVec 32) (elementCount : ℕ) (s : Shuffle) (i : ℕ) : Shuffle :=
  let (dst, calls) := randomRange rand s.calls i elementCount
  ⟨exchange s.buffer i dst, calls⟩

/-- `ShuffleArray`. -/
def shuffleArray (rand : ℕ → BitVec 32) (buffer : ℕ → ℕ) (elementCount : ℕ) : Shuffle :=
  (List.range elementCount).foldl (Shuffle.step rand elementCount) ⟨buffer, 0⟩

/-- The loop of `Initialize` that stores in each element its own index. -/
def ownIndices (buffer : ℕ → ℕ) (length : ℕ) : ℕ → ℕ :=
  (List.range length).foldl (fun buffer i => update buffer i i) buffer

/-- What `Initialize` leaves in the buffer. -/
def hostInitialBuffer (rand : ℕ → BitVec 32) (buffer : ℕ → ℕ) (length : ℕ) : ℕ → ℕ :=
  (shuffleArray rand (ownIndices buffer length) length).buffer

/-- `walk_index` after some accesses. -/
def walkIndex (buffer : ℕ → ℕ) (start accessCount : ℕ) : ℕ :=
  (List.range accessCount).foldl (fun walkIndex _ => buffer walkIndex) start

/-! ## What is meant -/

/-- A walk stays in the buffer, visits every element, and only then comes back. -/
structure IsSingleCycle (buffer : ℕ → ℕ) (length : ℕ) : Prop where
  inside : ∀ start < length, ∀ k, walkIndex buffer start k < length
  visits : ∀ start < length, ∀ i < length, ∃ k < length, walkIndex buffer start k = i
  returns : ∀ start < length, walkIndex buffer start length = start
  first : ∀ start < length, ∀ k, 0 < k → walkIndex buffer start k = start → length ≤ k

/-! ## Walks -/

section Walks

variable {buffer : ℕ → ℕ} {length start k : ℕ}

theorem walkIndex_eq_iterate (buffer : ℕ → ℕ) (start k : ℕ) :
    walkIndex buffer start k = buffer^[k] start := by
  induction k with
  | zero => rfl
  | succ k ih =>
      rw [walkIndex, List.range_succ, List.foldl_append, iterate_succ_apply', ← ih]
      rfl

theorem walkIndex_congr {f g : ℕ → ℕ} (hsame : ∀ i < length, f i = g i)
    (hinside : ∀ i < length, f i < length) (hstart : start < length) (k : ℕ) :
    walkIndex f start k = walkIndex g start k ∧ walkIndex f start k < length := by
  rw [walkIndex_eq_iterate, walkIndex_eq_iterate]
  induction k with
  | zero => exact ⟨rfl, hstart⟩
  | succ k ih =>
      obtain ⟨heq, hlt⟩ := ih
      rw [iterate_succ_apply', iterate_succ_apply', ← heq]
      exact ⟨hsame _ hlt, hinside _ hlt⟩

theorem isSingleCycle_iff_isCycleOn {f : Perm ℕ} (hsame : ∀ i < length, buffer i = f i)
    (hmem : ∀ i, f i ∈ Set.Ico 0 length ↔ i ∈ Set.Ico 0 length) :
    IsSingleCycle buffer length ↔ f.IsCycleOn (Set.Ico 0 length) := by
  have hinside (i : ℕ) (hi : i < length) : buffer i < length := by
    rw [hsame i hi]
    exact ((hmem i).mpr ⟨i.zero_le, hi⟩).2
  have hwalk {start : ℕ} (hstart : start < length) (k : ℕ) :
      walkIndex buffer start k = (f ^ k) start := by
    rw [(walkIndex_congr hsame hinside hstart k).1, walkIndex_eq_iterate, Perm.iterate_eq_pow]
  constructor
  · intro h
    refine ⟨Equiv.bijOn f hmem, fun x hx y hy => ?_⟩
    obtain ⟨k, -, hk⟩ := h.visits x hx.2 y hy.2
    refine ⟨k, ?_⟩
    rw [zpow_natCast, ← hwalk hx.2 k, hk]
  · intro h
    have hcycle : f.IsCycleOn (Finset.range length : Set ℕ) := by
      rwa [Finset.range_eq_Ico, Finset.coe_Ico]
    have hcard := Finset.card_range length
    have hin {i : ℕ} (hi : i < length) : i ∈ Finset.range length := Finset.mem_range.mpr hi
    refine ⟨fun start hstart k => (walkIndex_congr hsame hinside hstart k).2,
      fun start hstart i hi => ?_, fun start hstart => ?_, fun start hstart k hpos hk => ?_⟩
    · obtain ⟨k, hlt, hk⟩ := hcycle.exists_pow_eq (hin hstart) (hin hi)
      exact ⟨k, hcard ▸ hlt, (hwalk hstart k).trans hk⟩
    · have hpow := hcycle.pow_card_apply (hin hstart)
      rw [hcard] at hpow
      exact (hwalk hstart length).trans hpow
    · have hdvd := (hcycle.pow_apply_eq (hin hstart)).mp ((hwalk hstart k).symm.trans hk)
      rw [hcard] at hdvd
      exact Nat.le_of_dvd hpos hdvd

end Walks

/-! ## The shuffle -/

section Shuffle

variable {rand : ℕ → BitVec 32} {buffer : ℕ → ℕ} {length i : ℕ}

theorem exchange_eq (buffer : ℕ → ℕ) (i dst : ℕ) :
    exchange buffer i dst = buffer ∘ swap i dst := by
  funext x
  rw [exchange, comp_apply]
  by_cases hdst : x = dst
  · rw [hdst, update_self, swap_apply_right]
  · rw [update_of_ne hdst]
    by_cases hi : x = i
    · rw [hi, update_self, swap_apply_left]
    · rw [update_of_ne hi, swap_apply_of_ne_of_ne hi hdst]

/-- The place that the element at `i` goes to. -/
def destination (rand : ℕ → BitVec 32) (length i : ℕ) : ℕ :=
  (random64 rand (4 * i)).toNat % (length - i) + i

theorem destination_mem (hi : i < length) :
    i ≤ destination rand length i ∧ destination rand length i < length := by
  have hlt := Nat.mod_lt (random64 rand (4 * i)).toNat (Nat.sub_pos_of_lt hi)
  rw [destination]
  omega

theorem destination_eq_iff :
    destination rand length i = i ↔ length - i ∣ (random64 rand (4 * i)).toNat := by
  rw [destination, Nat.add_eq_right, Nat.dvd_iff_mod_eq_zero]

theorem foldl_step (hi : i ≤ length) :
    (List.range i).foldl (Shuffle.step rand length) ⟨buffer, 0⟩ =
      ⟨buffer ∘ swaps (destination rand length) 0 i, 4 * i⟩ := by
  induction i with
  | zero => rfl
  | succ i ih =>
      rw [List.range_succ, List.foldl_append, ih (Nat.le_of_succ_le hi), List.foldl_cons,
        List.foldl_nil, Shuffle.step, randomRange, if_neg (not_le.mpr hi), swaps_succ,
        Nat.zero_add, Perm.coe_mul, ← comp_assoc, ← exchange_eq]
      rfl

theorem ownIndices_apply {x : ℕ} (hx : x < length) : ownIndices buffer length x = x := by
  induction length with
  | zero => exact absurd hx x.not_lt_zero
  | succ length ih =>
      rw [ownIndices, List.range_succ, List.foldl_append, List.foldl_cons, List.foldl_nil]
      rcases Nat.lt_succ_iff_lt_or_eq.mp hx with hlt | rfl
      · rw [update_of_ne hlt.ne]
        exact ih hlt
      · rw [update_self]

/-- The buffer is a single cycle exactly when no element but the last one is exchanged with
itself, which it is for a random number that is a multiple of how many elements are left. -/
theorem isSingleCycle_hostInitialBuffer_iff (rand : ℕ → BitVec 32) (buffer : ℕ → ℕ) (length : ℕ) :
    IsSingleCycle (hostInitialBuffer rand buffer length) length ↔
      ∀ i, i + 1 < length → ¬ length - i ∣ (random64 rand (4 * i)).toNat := by
  have hdst : ∀ j, 0 ≤ j → j < 0 + length →
      j ≤ destination rand length j ∧ destination rand length j < 0 + length := by
    intro j _ hj
    rw [Nat.zero_add] at hj ⊢
    exact destination_mem hj
  have hmem := mem_iff_of_fixes fun x hx => swaps_of_notMem hdst hx
  have hcycle := isCycleOn_swaps_iff hdst
  rw [Nat.zero_add] at hmem hcycle
  have hsame : ∀ x < length, hostInitialBuffer rand buffer length x =
      swaps (destination rand length) 0 length x := by
    intro x hx
    rw [hostInitialBuffer, shuffleArray, foldl_step le_rfl]
    exact ownIndices_apply ((hmem x).mpr ⟨x.zero_le, hx⟩).2
  rw [isSingleCycle_iff_isCycleOn hsame hmem, hcycle]
  constructor
  · intro h i hi hdvd
    exact h i i.zero_le hi (destination_eq_iff.mpr hdvd)
  · intro h i _ hi heq
    exact h i hi (destination_eq_iff.mp heq)

/-- With zeroes from the generator, both elements of a buffer stay where they are. -/
theorem not_isSingleCycle_twoElements :
    ¬ IsSingleCycle (hostInitialBuffer (fun _ => 0) (fun _ => 0) 2) 2 := by
  intro h
  have hone := h.first 0 (by decide) 1 (by decide) (by decide)
  exact absurd hone (by decide)

end Shuffle

end A100Partitioning.Benchmarks
