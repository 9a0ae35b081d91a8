import Mathlib.Data.Nat.Nth
import A100Partitioning.TaskHost.GlobalTimer

/-!
# The preemption logger

A kernel that does nothing but read the clock sees a gap whenever it was preempted.  It logs
the intervals between the gaps.
-/

namespace A100Partitioning.Microbench

/-! ## The code -/

/-- A write to `ivls`, by index. -/
inductive Write where
  | start (index : ℕ) (value : BitVec 64)
  | finish (index : ℕ) (value : BitVec 64)
  deriving DecidableEq, Repr

/-- The index of the interval. -/
def Write.index : Write → ℕ
  | .start index _ => index
  | .finish index _ => index

/-- `curr_ivl` as an index, and `last_time`; with what has been written. -/
structure Logger where
  currIvl : ℕ
  lastTime : BitVec 64
  writes : List Write
  deriving DecidableEq, Repr

/-- `MIN_PREEMPT_TICKS`. -/
def minPreemptTicks : BitVec 64 := 2000

/-- The body of the loop. -/
def Logger.step (s : Logger) (now : BitVec 64) : Logger :=
  if s.lastTime + minPreemptTicks < now then
    { currIvl := s.currIvl + 1
      lastTime := now
      writes := s.writes ++ [.finish s.currIvl s.lastTime, .start (s.currIvl + 1) now] }
  else { s with lastTime := now }

/-- The loop, which has read the clock `k` times; for some rounds at most. -/
def logLoop (readings : ℕ → BitVec 64) (numIvls : ℤ) : ℕ → ℕ → Logger → Option Logger
  | 0, _, _ => none
  | rounds + 1, k, s =>
      if s.currIvl < numIvls then
        logLoop readings numIvls rounds (k + 1) (s.step (readings k))
      else some s

/-- `loop_on_gpu`, where `GlobalTimer64` returns these readings one after the other. -/
def loopOnGpu (readings : ℕ → BitVec 64) (numIvls : ℤ) (rounds : ℕ) : Option Logger :=
  if numIvls ≤ 0 then some ⟨0, readings 0, []⟩
  else logLoop readings numIvls rounds 1 ⟨0, readings 0, [.start 0 (readings 0)]⟩

/-- The kernel terminates, and this is how. -/
def Terminates (readings : ℕ → BitVec 64) (numIvls : ℤ) (s : Logger) : Prop :=
  ∃ rounds, loopOnGpu readings numIvls rounds = some s

/-! ## What is meant -/

/-- From one reading to the next one, more than `MIN_PREEMPT_TICKS` pass. -/
def IsGap (readings : ℕ → BitVec 64) (k : ℕ) : Prop :=
  (readings k).toNat + 2000 < (readings (k + 1)).toNat

instance (readings : ℕ → BitVec 64) : DecidablePred (IsGap readings) :=
  fun k => inferInstanceAs (Decidable ((readings k).toNat + 2000 < (readings (k + 1)).toNat))

/-- No gap is among these readings, and there is one before and one behind them. -/
structure IsRun (readings : ℕ → BitVec 64) (first last : ℕ) : Prop where
  le : first ≤ last
  inside : ∀ k, first ≤ k → k < last → ¬ IsGap readings k
  before : ∀ k, k + 1 = first → IsGap readings k
  behind : IsGap readings last

/-- The intervals that are logged are the first runs, one behind the other. -/
structure LogsRuns (readings : ℕ → BitVec 64) (numIvls : ℤ) (writes : List Write)
    (first last : ℕ → ℕ) : Prop where
  first_zero : first 0 = 0
  first_succ : ∀ i, first (i + 1) = last i + 1
  isRun : ∀ i : ℕ, (i : ℤ) < numIvls → IsRun readings (first i) (last i)
  start_iff : ∀ (i : ℕ) value, (i : ℤ) < numIvls →
    (.start i value ∈ writes ↔ value = readings (first i))
  finish_iff : ∀ (i : ℕ) value, (i : ℤ) < numIvls →
    (.finish i value ∈ writes ↔ value = readings (last i))

/-- Only `ivls` is written, and it holds the first runs. -/
def LogsExactly (readings : ℕ → BitVec 64) (numIvls : ℤ) (writes : List Write) : Prop :=
  (∀ w ∈ writes, (w.index : ℤ) < numIvls) ∧
    ∃ first last, LogsRuns readings numIvls writes first last

/-! ## The write behind the array -/

section Run

variable {readings : ℕ → BitVec 64} {numIvls : ℤ}

/-- What a step keeps, a run keeps, and a run ends behind the last interval. -/
theorem logLoop_induction {I : ℕ → Logger → Prop}
    (hstep : ∀ k s, I k s → I (k + 1) (s.step (readings k))) {rounds k : ℕ} {s s' : Logger}
    (hI : I k s) (hrun : logLoop readings numIvls rounds k s = some s') :
    (∃ k', I k' s') ∧ numIvls ≤ s'.currIvl := by
  induction rounds generalizing k s with
  | zero => cases hrun
  | succ rounds ih =>
      rw [logLoop] at hrun
      by_cases hmore : (s.currIvl : ℤ) < numIvls
      · rw [if_pos hmore] at hrun
        exact ih (hstep k s hI) hrun
      · rw [if_neg hmore] at hrun
        obtain rfl := Option.some.inj hrun
        exact ⟨⟨k, hI⟩, Int.not_lt.mp hmore⟩

theorem Terminates.induction {I : ℕ → Logger → Prop} (hpos : 1 ≤ numIvls)
    (hinit : I 1 ⟨0, readings 0, [.start 0 (readings 0)]⟩)
    (hstep : ∀ k s, I k s → I (k + 1) (s.step (readings k))) {s : Logger}
    (hs : Terminates readings numIvls s) : (∃ k, I k s) ∧ numIvls ≤ s.currIvl := by
  obtain ⟨rounds, hrun⟩ := hs
  rw [loopOnGpu, if_neg (by omega)] at hrun
  exact logLoop_induction hstep hinit hrun

/-- The start of the current interval is written already. -/
def Logger.HasStarted (s : Logger) : Prop := ∃ value, .start s.currIvl value ∈ s.writes

theorem Logger.HasStarted.step {s : Logger} (h : s.HasStarted) (now : BitVec 64) :
    (s.step now).HasStarted := by
  rw [Logger.step]
  split
  · refine ⟨now, List.mem_append_right _ ?_⟩
    exact List.mem_cons_of_mem _ (List.mem_singleton_self _)
  · exact h

/-- Whenever the kernel terminates, it has written the start of an interval behind the
array. -/
theorem Terminates.exists_start (hpos : 1 ≤ numIvls) {s : Logger}
    (hs : Terminates readings numIvls s) : ∃ w ∈ s.writes, numIvls ≤ w.index := by
  have hinit : Logger.HasStarted ⟨0, readings 0, [.start 0 (readings 0)]⟩ :=
    ⟨readings 0, List.mem_singleton_self _⟩
  obtain ⟨⟨_, value, hmem⟩, hend⟩ := hs.induction (I := fun _ => Logger.HasStarted) hpos hinit
    fun k s h => h.step (readings k)
  exact ⟨_, hmem, hend⟩

end Run

/-! ## The intervals in the array -/

section Logged

variable {readings : ℕ → BitVec 64}

/-- The last reading of each run. -/
noncomputable def lastOf (readings : ℕ → BitVec 64) (i : ℕ) : ℕ := Nat.nth (IsGap readings) i

/-- The first reading of each run. -/
noncomputable def firstOf (readings : ℕ → BitVec 64) : ℕ → ℕ
  | 0 => 0
  | i + 1 => lastOf readings i + 1

/-- What is logged when `k` is the last reading. -/
structure Logged (readings : ℕ → BitVec 64) (k : ℕ) (s : Logger) : Prop where
  lastTime : s.lastTime = readings k
  currIvl : s.currIvl = Nat.count (IsGap readings) k
  first_le : firstOf readings s.currIvl ≤ k
  quiet : ∀ j, firstOf readings s.currIvl ≤ j → j < k → ¬ IsGap readings j
  before : ∀ j, j + 1 = firstOf readings s.currIvl → IsGap readings j
  isRun : ∀ i < s.currIvl, IsRun readings (firstOf readings i) (lastOf readings i)
  start_iff : ∀ i value, .start i value ∈ s.writes ↔
    i ≤ s.currIvl ∧ value = readings (firstOf readings i)
  finish_iff : ∀ i value, .finish i value ∈ s.writes ↔
    i < s.currIvl ∧ value = readings (lastOf readings i)

theorem logged_init (readings : ℕ → BitVec 64) :
    Logged readings 0 ⟨0, readings 0, [.start 0 (readings 0)]⟩ := by
  refine ⟨rfl, rfl, le_rfl, fun _ _ h => absurd h (Nat.not_lt_zero _),
    fun j h => absurd h (Nat.succ_ne_zero j), fun _ h => absurd h (Nat.not_lt_zero _),
    fun i value => ?_, fun i value => ?_⟩
  · rw [List.mem_singleton, Write.start.injEq, Nat.le_zero]
    refine and_congr_right fun hi => ?_
    rw [hi, firstOf]
  · simp

/-- Where no reading is close to the end of the 64 bits, the code sees exactly the gaps. -/
theorem isGap_iff {k : ℕ} (hsmall : (readings k).toNat + 2000 < 2 ^ 64) :
    readings k + minPreemptTicks < readings (k + 1) ↔ IsGap readings k := by
  have hsum : (readings k + minPreemptTicks).toNat = (readings k).toNat + 2000 := by
    rw [BitVec.toNat_add]
    exact Nat.mod_eq_of_lt hsmall
  rw [BitVec.lt_def, hsum, IsGap]

theorem Logged.step {k : ℕ} {s : Logger} (h : Logged readings k s)
    (hsmall : (readings k).toNat + 2000 < 2 ^ 64) :
    Logged readings (k + 1) (s.step (readings (k + 1))) := by
  have hgap := isGap_iff hsmall
  rw [Logger.step, h.lastTime]
  by_cases hk : IsGap readings k
  · -- The run ends with `k`, and the next one begins.
    have hlast : lastOf readings s.currIvl = k := by
      rw [lastOf, h.currIvl]
      exact Nat.nth_count hk
    have hfirst : firstOf readings (s.currIvl + 1) = k + 1 := by
      rw [firstOf, hlast]
    rw [if_pos (hgap.mpr hk)]
    refine ⟨rfl, ?_, hfirst.le, fun j hj hlt => ?_, fun j hj => ?_, fun i hi => ?_,
      fun i value => ?_, fun i value => ?_⟩
    · rw [Nat.count_succ, if_pos hk, h.currIvl]
    · dsimp only at hj
      omega
    · rw [hfirst] at hj
      rwa [Nat.succ.inj hj]
    · rcases Nat.lt_succ_iff_lt_or_eq.mp hi with hi | rfl
      · exact h.isRun i hi
      · rw [hlast]
        exact ⟨h.first_le, h.quiet, h.before, hk⟩
    · rw [List.mem_append, h.start_iff]
      simp only [List.mem_cons, List.not_mem_nil, or_false, reduceCtorEq, false_or,
        Write.start.injEq]
      constructor
      · rintro (⟨hi, hvalue⟩ | ⟨rfl, rfl⟩)
        · exact ⟨hi.trans (Nat.le_succ _), hvalue⟩
        · rw [hfirst]
          exact ⟨le_rfl, rfl⟩
      · rintro ⟨hi, hvalue⟩
        rcases Nat.le_succ_iff.mp hi with hi | rfl
        · exact .inl ⟨hi, hvalue⟩
        · rw [hfirst] at hvalue
          exact .inr ⟨rfl, hvalue⟩
    · rw [List.mem_append, h.finish_iff]
      simp only [List.mem_cons, List.not_mem_nil, or_false, reduceCtorEq,
        Write.finish.injEq]
      constructor
      · rintro (⟨hi, hvalue⟩ | ⟨rfl, rfl⟩)
        · exact ⟨hi.trans (Nat.lt_succ_self _), hvalue⟩
        · rw [hlast]
          exact ⟨Nat.lt_succ_self _, rfl⟩
      · rintro ⟨hi, hvalue⟩
        rcases Nat.lt_succ_iff_lt_or_eq.mp hi with hi | rfl
        · exact .inl ⟨hi, hvalue⟩
        · rw [hlast] at hvalue
          exact .inr ⟨rfl, hvalue⟩
  · rw [if_neg fun hlt => hk (hgap.mp hlt)]
    refine ⟨rfl, ?_, h.first_le.trans (Nat.le_succ _), fun j hj hlt => ?_, h.before, h.isRun,
      h.start_iff, h.finish_iff⟩
    · rw [Nat.count_succ, if_neg hk, Nat.add_zero]
      exact h.currIvl
    · rcases Nat.lt_succ_iff_lt_or_eq.mp hlt with hlt | rfl
      · exact h.quiet j hj hlt
      · exact hk

/-- The array holds the first runs, unless the clock comes to its end. -/
theorem Terminates.logsRuns {numIvls : ℤ} (hpos : 1 ≤ numIvls)
    (hsmall : ∀ k, (readings k).toNat + 2000 < 2 ^ 64) {s : Logger}
    (hs : Terminates readings numIvls s) :
    LogsRuns readings numIvls s.writes (firstOf readings) (lastOf readings) := by
  let I : ℕ → Logger → Prop := fun k s => ∃ j, k = j + 1 ∧ Logged readings j s
  have hstep : ∀ k s, I k s → I (k + 1) (s.step (readings k)) := by
    rintro _ s ⟨j, rfl, h⟩
    exact ⟨j + 1, rfl, h.step (hsmall j)⟩
  obtain ⟨⟨k, j, -, h⟩, hend⟩ := hs.induction hpos ⟨0, rfl, logged_init readings⟩ hstep
  refine ⟨rfl, fun _ => rfl, fun i hi => h.isRun i (by omega), fun i value hi => ?_,
    fun i value hi => ?_⟩
  · rw [h.start_iff, and_iff_right (by omega)]
  · rw [h.finish_iff, and_iff_right (by omega)]

end Logged

/-- The kernel never logs as it is meant to: whenever it terminates, it has also written the
start of an interval behind the array. -/
theorem not_logsExactly_of_terminates (readings : ℕ → BitVec 64) (numIvls : ℤ) (s : Logger)
    (hpos : 1 ≤ numIvls) (hs : Terminates readings numIvls s) :
    ¬ LogsExactly readings numIvls s.writes := by
  rintro ⟨hwithin, -⟩
  obtain ⟨w, hmem, hindex⟩ := hs.exists_start hpos
  exact absurd (hwithin w hmem) (not_lt.mpr hindex)

/-- A clock that stands still but for one gap. -/
def oneGap (k : ℕ) : BitVec 64 := if k < 2 then 1000 else 5000

theorem terminates_oneGap :
    Terminates oneGap 1 ⟨1, 5000, [.start 0 1000, .finish 0 1000, .start 1 5000]⟩ :=
  ⟨3, by decide⟩

theorem monotone_oneGap : Monotone fun k => (oneGap k).toNat := by
  intro k l h
  by_cases hl : l < 2
  · simp [oneGap, hl, h.trans_lt hl]
  · by_cases hk : k < 2 <;> simp [oneGap, hl, hk]

theorem not_logsExactly_oneGap :
    ¬ LogsExactly oneGap 1 [.start 0 1000, .finish 0 1000, .start 1 5000] :=
  not_logsExactly_of_terminates oneGap 1 _ le_rfl terminates_oneGap

/-- With room for one interval, the start of a second one is written. -/
theorem exists_start_behind :
    (Monotone fun k => (oneGap k).toNat) ∧
      Terminates oneGap 1 ⟨1, 5000, [.start 0 1000, .finish 0 1000, .start 1 5000]⟩ ∧
      ¬ LogsExactly oneGap 1 [.start 0 1000, .finish 0 1000, .start 1 5000] := by
  refine ⟨monotone_oneGap, terminates_oneGap, fun h => ?_⟩
  exact absurd (h.1 (.start 1 5000) (by decide)) (by decide)

end A100Partitioning.Microbench
