import A100Partitioning.Barrier.BarrierWait
import A100Partitioning.TaskHost.CpuAssignment

/-!
# Running the benchmarks

Each task waits for the others after its initialization, before its cleanup and, if
`sync_every_iteration` is set, before each iteration.  All of these are the same barrier, which
cannot tell them apart: a task that leaves its loop early meets the next iteration of the others.
-/

namespace A100Partitioning.TaskHost

open Barrier (Round Moves)
open Config (Double)
open Relation (ReflTransGen)

/-! ## The code -/

/-- Where a task is in `RunBenchmark`. -/
inductive Point where
  /-- Before the first `BarrierWait`. -/
  | initializing
  | initSync
  | sleeping
  /-- At the top of the loop. -/
  | limits
  | iterationSync
  | iterating
  /-- Behind the loop. -/
  | leaving
  | cleanupSync
  | cleaningUp
  | returned
  /-- Returned `NULL`. -/
  | failed
  deriving DecidableEq, Repr

/-- A `BarrierWait`. -/
def Point.IsSync (point : Point) : Prop :=
  point = .initSync ∨ point = .iterationSync ∨ point = .cleanupSync

instance : DecidablePred Point.IsSync :=
  fun point => inferInstanceAs (Decidable (point = _ ∨ point = _ ∨ point = _))

/-- Where a task goes on behind a `BarrierWait`. -/
def Point.afterSync : Point → Point
  | .initSync => .sleeping
  | .iterationSync => .iterating
  | .cleanupSync => .cleaningUp
  | point => point

/-- Where `RunBenchmark` may return `NULL`, as everything there may fail. -/
def Point.MayFail (point : Point) : Prop :=
  point = .initializing ∨ point = .sleeping ∨ point = .iterating ∨ point = .leaving

/-- What the tasks share, and the variables of each.  `iterations` counts the iterations that a
task has finished. -/
structure HostState (N : ℕ) where
  barrier : Barrier.State N
  terminate : Bool
  point : Fin N → Point
  i : Fin N → ℕ
  iterations : Fin N → ℕ

/-- The state in which the tasks are started. -/
def hostInit (N : ℕ) : HostState N where
  barrier := Barrier.barrierCreate N
  terminate := false
  point _ := .initializing
  i _ := 0
  iterations _ := 0

/-- `max_seconds` is set and over. -/
def timeIsOver (maxSeconds : Double) (elapsed : ℚ) : Prop :=
  match maxSeconds with
  | .finite seconds => 0 < seconds ∧ seconds ≤ elapsed
  | .infinite _ => False

/-- The iteration counter, which only counts when it is needed. -/
def nextI (task : Assignment.TaskConfig) (i : ℕ) : ℕ :=
  if 0 < task.maxIterations then i + 1 else i

/-- The checks at the top of the loop, one of which ends it. -/
def Breaks (task : Assignment.TaskConfig) (i : ℕ) (elapsed : ℚ) (terminate : Bool) : Prop :=
  (0 < task.maxIterations ∧ task.maxIterations < nextI task i) ∨
    timeIsOver task.maxSeconds elapsed ∨ terminate = true

section Code

variable {N : ℕ}

/-- A task moves on. -/
def HostState.goto (s : HostState N) (t : Fin N) (point : Point) : HostState N :=
  { s with point := Function.update s.point t point }

/-- A task calls `BarrierWait`. -/
def HostState.sync (s : HostState N) (t : Fin N) (point : Point) : HostState N :=
  { s.goto t point with barrier := s.barrier.call t }

/-- A step of a task.  Clocks may be read in any way. -/
inductive HostStep (syncEveryIteration : Bool) (tasks : Fin N → Assignment.TaskConfig) :
    HostState N → HostState N → Prop where
  | initialized {s : HostState N} (t : Fin N) (point : s.point t = .initializing) :
      HostStep syncEveryIteration tasks s (s.sync t .initSync)
  | wait {s : HostState N} (t : Fin N) (point : (s.point t).IsSync) (barrier : Barrier.State N)
      (step : Barrier.Step s.barrier barrier) (moves : Moves s.barrier barrier t)
      (inside : barrier.pc t ≠ .outside) :
      HostStep syncEveryIteration tasks s { s with barrier }
  | goOn {s : HostState N} (t : Fin N) (point : (s.point t).IsSync) (barrier : Barrier.State N)
      (step : Barrier.Step s.barrier barrier) (moves : Moves s.barrier barrier t)
      (outside : barrier.pc t = .outside) :
      HostStep syncEveryIteration tasks s { s.goto t (s.point t).afterSync with barrier }
  | sleep {s : HostState N} (t : Fin N) (point : s.point t = .sleeping) :
      HostStep syncEveryIteration tasks s (s.goto t .limits)
  | leave {s : HostState N} (t : Fin N) (point : s.point t = .limits) (elapsed : ℚ)
      (breaks : Breaks (tasks t) (s.i t) elapsed s.terminate) :
      HostStep syncEveryIteration tasks s
        { s.goto t .leaving with i := Function.update s.i t (nextI (tasks t) (s.i t)) }
  | enter {s : HostState N} (t : Fin N) (point : s.point t = .limits) (elapsed : ℚ)
      (breaks : ¬ Breaks (tasks t) (s.i t) elapsed s.terminate) :
      HostStep syncEveryIteration tasks s
        { (if syncEveryIteration then s.sync t .iterationSync else s.goto t .iterating) with
          i := Function.update s.i t (nextI (tasks t) (s.i t)) }
  | iterate {s : HostState N} (t : Fin N) (point : s.point t = .iterating) :
      HostStep syncEveryIteration tasks s
        { s.goto t .limits with iterations := Function.update s.iterations t (s.iterations t + 1) }
  | signal {s : HostState N} (t : Fin N) (point : s.point t = .leaving) :
      HostStep syncEveryIteration tasks s
        { s.sync t .cleanupSync with terminate := (tasks t).terminator || s.terminate }
  | cleanup {s : HostState N} (t : Fin N) (point : s.point t = .cleaningUp) :
      HostStep syncEveryIteration tasks s (s.goto t .returned)
  | fail {s : HostState N} (t : Fin N) (point : (s.point t).MayFail) :
      HostStep syncEveryIteration tasks s (s.goto t .failed)

/-- States of the host that the tasks reach. -/
def HostReachable (syncEveryIteration : Bool) (tasks : Fin N → Assignment.TaskConfig)
    (s : HostState N) : Prop :=
  ReflTransGen (HostStep syncEveryIteration tasks) (hostInit N) s

end Code

/-! ## The calls of each task -/

section Calls

variable {N : ℕ} {syncEveryIteration : Bool} {tasks : Fin N → Assignment.TaskConfig}
  {s s' : HostState N} {t j : Fin N}

/-- How often a task has called `BarrierWait` when it is at a point after some iterations. -/
def waits (syncEveryIteration : Bool) (iterations : ℕ) : Point → ℕ
  | .initializing | .failed => 0
  | .initSync | .sleeping => 1
  | .limits | .leaving => if syncEveryIteration then iterations + 1 else 1
  | .iterationSync | .iterating => if syncEveryIteration then iterations + 2 else 1
  | .cleanupSync | .cleaningUp | .returned => if syncEveryIteration then iterations + 2 else 2

/-- A task can be at the point after some iterations and calls. -/
structure Fits (syncEveryIteration : Bool) (iterations calls : ℕ) (point : Point) : Prop where
  calls_eq : calls = waits syncEveryIteration iterations point
  first : point = .initializing ∨ point = .initSync ∨ point = .sleeping → iterations = 0

/-- The calls of a task are those on the way to its point, or to where it failed. -/
structure TaskInv (syncEveryIteration : Bool) (s : HostState N) (t : Fin N) : Prop where
  isSync_iff : (s.point t).IsSync ↔ s.barrier.pc t ≠ .outside
  fits : ∃ point, Fits syncEveryIteration (s.iterations t) (s.barrier.calls t) point ∧
    (s.point t = point ∧ point ≠ .failed ∨ s.point t = .failed ∧ point.MayFail)

theorem TaskInv.fits_point (h : TaskInv syncEveryIteration s t) (hrunning : s.point t ≠ .failed) :
    Fits syncEveryIteration (s.iterations t) (s.barrier.calls t) (s.point t) := by
  obtain ⟨point, hfits, ⟨rfl, -⟩ | ⟨hfailed, -⟩⟩ := h.fits
  · exact hfits
  · exact absurd hfailed hrunning

/-- A task that has no part in a step. -/
structure Unmoved (s s' : HostState N) (j : Fin N) : Prop where
  point : s'.point j = s.point j
  iterations : s'.iterations j = s.iterations j
  pc : s'.barrier.pc j = s.barrier.pc j
  calls : s'.barrier.calls j = s.barrier.calls j

theorem TaskInv.of_unmoved (h : TaskInv syncEveryIteration s j) (hunmoved : Unmoved s s' j) :
    TaskInv syncEveryIteration s' j := by
  obtain ⟨hpoint, hiterations, hpc, hcalls⟩ := hunmoved
  constructor
  · rw [hpoint, hpc]
    exact h.isSync_iff
  · rw [hpoint, hcalls, hiterations]
    exact h.fits

theorem calls_eq_of_inside {b b' : Barrier.State N} (hstep : Barrier.Step b b')
    (hmoves : Moves b b' t) (hinside : b.pc t ≠ .outside) : b'.calls = b.calls := by
  cases hstep with
  | call i hpc =>
      by_cases hi : i = t
      · exact absurd (hi ▸ hpc) hinside
      · have hsame := hmoves.pc i hi
        have hentered : (b.call i).pc i = .entered := b.goto_pc_self i .entered
        rw [hentered, hpc] at hsame
        cases hsame
  | fetchSub | reset | release | spin | leave => rfl

theorem moves_call (b : Barrier.State N) (t : Fin N) : Moves b (b.call t) t := by
  constructor <;> intro j hj <;> simp [Barrier.State.call, Barrier.State.goto, hj]

theorem unmoved_goto {point : Point} (hj : j ≠ t) : Unmoved s (s.goto t point) j :=
  ⟨Function.update_of_ne hj _ _, rfl, rfl, rfl⟩

theorem unmoved_sync {point : Point} (hj : j ≠ t) : Unmoved s (s.sync t point) j :=
  ⟨Function.update_of_ne hj _ _, rfl, (moves_call _ t).pc j hj, (moves_call _ t).calls j hj⟩

/-- A task goes from one point to another without a call. -/
theorem TaskInv.goto {point : Point} (h : TaskInv syncEveryIteration s t)
    (hfrom : ¬ (s.point t).IsSync) (hto : ¬ point.IsSync)
    (hfits : Fits syncEveryIteration (s.iterations t) (s.barrier.calls t) point ∧
      point ≠ .failed ∨ point = .failed ∧ (s.point t).MayFail) :
    TaskInv syncEveryIteration (s.goto t point) t := by
  have hself : (s.goto t point).point t = point := Function.update_self _ _ _
  constructor
  · rw [hself]
    exact iff_of_false hto (not_not.mpr (not_ne_iff.mp fun hpc => hfrom (h.isSync_iff.mpr hpc)))
  · rw [hself]
    rcases hfits with ⟨hfits, hrunning⟩ | ⟨rfl, hmay⟩
    · exact ⟨_, hfits, .inl ⟨rfl, hrunning⟩⟩
    · refine ⟨_, h.fits_point ?_, .inr ⟨rfl, hmay⟩⟩
      intro heq
      rw [heq] at hmay
      rcases hmay with h | h | h | h <;> cases h

theorem TaskInv.sync {point : Point} (h : TaskInv syncEveryIteration s t) (hto : point.IsSync)
    (hrunning : s.point t ≠ .failed)
    (hfits : Fits syncEveryIteration (s.iterations t) (s.barrier.calls t) (s.point t) →
      Fits syncEveryIteration (s.iterations t) (s.barrier.calls t + 1) point) :
    TaskInv syncEveryIteration (s.sync t point) t := by
  have hself : (s.sync t point).point t = point := Function.update_self _ _ _
  have hpc : (s.barrier.call t).pc t = .entered := s.barrier.goto_pc_self t .entered
  have hcalls : (s.barrier.call t).calls t = s.barrier.calls t + 1 := Function.update_self _ _ _
  constructor
  · rw [hself]
    refine iff_of_true hto ?_
    intro hout
    cases hpc.symm.trans hout
  · refine ⟨point, ?_, .inl ⟨hself, ?_⟩⟩
    · have hnext := hfits (h.fits_point hrunning)
      rwa [← hcalls] at hnext
    · rintro rfl
      rcases hto with h | h | h <;> cases h

/-- A step is one of a task, which keeps its invariant, while the others do not take part. -/
theorem HostStep.exists_task (hstep : HostStep syncEveryIteration tasks s s')
    (hinv : ∀ t, TaskInv syncEveryIteration s t) :
    ∃ t, TaskInv syncEveryIteration s' t ∧ ∀ j, j ≠ t → Unmoved s s' j := by
  cases hstep with
  | initialized t hpoint =>
      refine ⟨t, (hinv t).sync (.inl rfl) (by simp [hpoint]) ?_, fun j => unmoved_sync⟩
      rw [hpoint]
      rintro ⟨hcalls, hfirst⟩
      exact ⟨congrArg (· + 1) hcalls, fun _ => hfirst (.inl rfl)⟩
  | wait t hpoint barrier step hmoves inside =>
      have h := hinv t
      have hcalls := calls_eq_of_inside step hmoves (h.isSync_iff.mp hpoint)
      refine ⟨t, ⟨iff_of_true hpoint inside, ?_⟩, fun j hj => ?_⟩
      · rw [hcalls]
        exact h.fits
      · exact ⟨rfl, rfl, hmoves.pc j hj, hmoves.calls j hj⟩
  | goOn t hpoint barrier step hmoves outside =>
      have h := hinv t
      have hcalls := calls_eq_of_inside step hmoves (h.isSync_iff.mp hpoint)
      refine ⟨t, ⟨?_, (s.point t).afterSync, ?_, .inl ⟨Function.update_self _ _ _, ?_⟩⟩,
        fun j hj => ⟨Function.update_of_ne hj _ _, rfl, hmoves.pc j hj, hmoves.calls j hj⟩⟩
      · refine iff_of_false ?_ (not_not.mpr outside)
        dsimp only [HostState.goto]
        rw [Function.update_self]
        rcases hpoint with hpoint | hpoint | hpoint <;> rw [hpoint] <;> decide
      · dsimp only
        rw [hcalls]
        rcases hpoint with hpoint | hpoint | hpoint
        all_goals
          obtain ⟨heq, hfirst⟩ := h.fits_point (by simp [hpoint])
          rw [hpoint] at heq hfirst ⊢
          refine ⟨heq, ?_⟩
        · exact fun _ => hfirst (.inr (.inl rfl))
        · rintro (heq | heq | heq) <;> cases heq
        · rintro (heq | heq | heq) <;> cases heq
      · rcases hpoint with hpoint | hpoint | hpoint <;> rw [hpoint] <;> decide
  | sleep t hpoint =>
      have h := hinv t
      obtain ⟨hcalls, hfirst⟩ := h.fits_point (by simp [hpoint])
      rw [hpoint] at hcalls hfirst
      refine ⟨t, h.goto (by rw [hpoint]; decide) (by decide) (.inl ⟨⟨?_, ?_⟩, by decide⟩),
        fun j => unmoved_goto⟩
      · rw [hcalls, hfirst (.inr (.inr rfl))]
        simp only [waits]
        split_ifs <;> rfl
      · rintro (heq | heq | heq) <;> cases heq
  | leave t hpoint elapsed breaks =>
      have h := hinv t
      obtain ⟨hcalls, -⟩ := h.fits_point (by simp [hpoint])
      have hgoto : TaskInv syncEveryIteration (s.goto t .leaving) t := by
        refine h.goto (by rw [hpoint]; decide) (by decide) (.inl ⟨⟨?_, ?_⟩, by decide⟩)
        · rw [hcalls, hpoint]
          rfl
        · rintro (heq | heq | heq) <;> cases heq
      exact ⟨t, hgoto.of_unmoved ⟨rfl, rfl, rfl, rfl⟩,
        fun j hj => ⟨Function.update_of_ne hj _ _, rfl, rfl, rfl⟩⟩
  | enter t hpoint elapsed breaks =>
      have h := hinv t
      cases syncEveryIteration with
      | false =>
          obtain ⟨hcalls, -⟩ := h.fits_point (by simp [hpoint])
          have hgoto : TaskInv false (s.goto t .iterating) t := by
            refine h.goto (by rw [hpoint]; decide) (by decide) (.inl ⟨⟨?_, ?_⟩, by decide⟩)
            · rw [hcalls, hpoint]
              rfl
            · rintro (heq | heq | heq) <;> cases heq
          exact ⟨t, hgoto.of_unmoved ⟨rfl, rfl, rfl, rfl⟩,
            fun j hj => ⟨Function.update_of_ne hj _ _, rfl, rfl, rfl⟩⟩
      | true =>
          have hsync : TaskInv true (s.sync t .iterationSync) t := by
            refine h.sync (.inr (.inl rfl)) (by simp [hpoint]) ?_
            rw [hpoint]
            rintro ⟨hcalls, -⟩
            refine ⟨congrArg (· + 1) hcalls, ?_⟩
            rintro (heq | heq | heq) <;> cases heq
          refine ⟨t, hsync.of_unmoved ⟨rfl, rfl, rfl, rfl⟩, fun j hj => ?_⟩
          have hunmoved : Unmoved s (s.sync t .iterationSync) j := unmoved_sync hj
          exact ⟨hunmoved.point, rfl, hunmoved.pc, hunmoved.calls⟩
  | iterate t hpoint =>
      have h := hinv t
      obtain ⟨hcalls, -⟩ := h.fits_point (by simp [hpoint])
      refine ⟨t, ⟨?_, .limits, ⟨?_, ?_⟩, .inl ⟨Function.update_self _ _ _, by decide⟩⟩,
        fun j hj => ⟨Function.update_of_ne hj _ _, Function.update_of_ne hj _ _, rfl, rfl⟩⟩
      · dsimp only [HostState.goto]
        rw [Function.update_self, ← h.isSync_iff, hpoint]
        decide
      · dsimp only [HostState.goto]
        rw [Function.update_self, hcalls, hpoint]
        simp only [waits]
      · rintro (heq | heq | heq) <;> cases heq
  | signal t hpoint =>
      have hsync : TaskInv syncEveryIteration (s.sync t .cleanupSync) t := by
        refine (hinv t).sync (.inr (.inr rfl)) (by simp [hpoint]) ?_
        rw [hpoint]
        rintro ⟨hcalls, -⟩
        refine ⟨?_, ?_⟩
        · rw [hcalls]
          simp only [waits]
          split_ifs <;> rfl
        · rintro (heq | heq | heq) <;> cases heq
      refine ⟨t, hsync.of_unmoved ⟨rfl, rfl, rfl, rfl⟩, fun j hj => ?_⟩
      have hunmoved : Unmoved s (s.sync t .cleanupSync) j := unmoved_sync hj
      exact ⟨hunmoved.point, rfl, hunmoved.pc, hunmoved.calls⟩
  | cleanup t hpoint =>
      have h := hinv t
      obtain ⟨hcalls, -⟩ := h.fits_point (by simp [hpoint])
      refine ⟨t, h.goto (by rw [hpoint]; decide) (by decide) (.inl ⟨⟨?_, ?_⟩, by decide⟩),
        fun j => unmoved_goto⟩
      · rw [hcalls, hpoint]
        rfl
      · rintro (heq | heq | heq) <;> cases heq
  | fail t hpoint =>
      refine ⟨t, (hinv t).goto ?_ (by decide) (.inr ⟨rfl, hpoint⟩), fun j => unmoved_goto⟩
      rcases hpoint with h | h | h | h <;> rw [h] <;> decide

theorem HostReachable.taskInv (hs : HostReachable syncEveryIteration tasks s) :
    ∀ t, TaskInv syncEveryIteration s t := by
  induction hs with
  | refl =>
      intro t
      refine ⟨iff_of_false ?_ (not_not.mpr rfl), .initializing, ⟨rfl, fun _ => rfl⟩,
        .inl ⟨rfl, by decide⟩⟩
      rintro (h | h | h) <;> cases h
  | tail _ hstep ih =>
      intro j
      obtain ⟨t, ht, hunmoved⟩ := hstep.exists_task ih
      by_cases hj : j = t
      · exact hj ▸ ht
      · exact (ih j).of_unmoved (hunmoved j hj)

/-- Who is at a point without a barrier may call it. -/
theorem TaskInv.call (h : TaskInv syncEveryIteration s t) (hpoint : ¬ (s.point t).IsSync) :
    Barrier.Step s.barrier (s.barrier.call t) :=
  .call t (not_ne_iff.mp fun hpc => hpoint (h.isSync_iff.mpr hpc))

/-- The tasks of a host use the barrier as it is meant to be used. -/
theorem HostReachable.barrier_reachable (hs : HostReachable syncEveryIteration tasks s) :
    Barrier.Reachable s.barrier := by
  induction hs with
  | refl => exact .refl
  | tail hbefore hstep ih =>
      have hinv := HostReachable.taskInv hbefore
      cases hstep with
      | initialized t hpoint => exact ih.tail ((hinv t).call (by rw [hpoint]; decide))
      | wait t hpoint barrier step => exact ih.tail step
      | goOn t hpoint barrier step => exact ih.tail step
      | enter t hpoint =>
          cases syncEveryIteration with
          | false => exact ih
          | true => exact ih.tail ((hinv t).call (by rw [hpoint]; decide))
      | signal t hpoint => exact ih.tail ((hinv t).call (by rw [hpoint]; decide))
      | sleep | leave | iterate | cleanup | fail => exact ih

theorem HostReachable.exists_round (hs : HostReachable syncEveryIteration tasks s) (t : Fin N) :
    ∃ round, Round s.barrier round :=
  hs.barrier_reachable.exists_round t.pos

end Calls

/-! ## What the tasks wait for -/

section Order

variable {N : ℕ} {syncEveryIteration : Bool} {tasks : Fin N → Assignment.TaskConfig}
  {s s' : HostState N} {t j : Fin N}

/-- With `sync_every_iteration` the calls of a task follow from its iterations. -/
theorem TaskInv.calls_cases (h : TaskInv true s t) :
    s.iterations t = 0 ∧ s.barrier.calls t ≤ 1 ∨ s.barrier.calls t = s.iterations t + 1 ∨
      s.barrier.calls t = s.iterations t + 2 := by
  obtain ⟨point, ⟨hcalls, hfirst⟩, hat⟩ := h.fits
  rw [hcalls]
  cases point <;> simp_all [waits, Point.MayFail]

theorem HostReachable.calls_le (hs : HostReachable syncEveryIteration tasks s)
    (hpoint : ¬ (s.point t).IsSync) : s.barrier.calls t ≤ s.barrier.calls j := by
  obtain ⟨round, hround⟩ := hs.exists_round t
  have hout := not_ne_iff.mp fun hpc => hpoint ((hs.taskInv t).isSync_iff.mpr hpc)
  obtain ⟨hcalls, hreturns⟩ := (hround.inRound t).outside hout
  rw [hcalls, ← hreturns]
  exact hround.returns_le_calls

theorem HostReachable.calls_le_succ (hs : HostReachable syncEveryIteration tasks s) :
    s.barrier.calls t ≤ s.barrier.calls j + 1 := by
  obtain ⟨round, hround⟩ := hs.exists_round t
  have ht := (hround.inRound t).calls
  have hj := (hround.inRound j).calls
  omega

/-- Behind the last barrier. -/
def Point.IsDone (point : Point) : Prop := point = .cleaningUp ∨ point = .returned

/-- With `sync_every_iteration`, an iteration or the cleanup starts when all tasks have finished as
many iterations. -/
theorem HostReachable.iterations_le (hs : HostReachable true tasks s)
    (hpoint : s.point t = .iterating ∨ (s.point t).IsDone) : s.iterations t ≤ s.iterations j := by
  have hle : s.barrier.calls t ≤ s.barrier.calls j := by
    refine hs.calls_le ?_
    rcases hpoint with h | h | h <;> rw [h] <;> decide
  have hcalls : s.barrier.calls t = s.iterations t + 2 := by
    rcases hpoint with h | h | h
    all_goals
      have hfits := (hs.taskInv t).fits_point (by simp [h])
      rw [h] at hfits
      exact hfits.calls_eq
  have hj := (hs.taskInv j).calls_cases
  omega

theorem HostReachable.iterations_le_succ (hs : HostReachable true tasks s) :
    s.iterations t ≤ s.iterations j + 1 := by
  have hj := (hs.taskInv j).calls_cases
  have ht := (hs.taskInv t).calls_cases
  by_cases hsync : (s.point t).IsSync
  · have hle : s.barrier.calls t ≤ s.barrier.calls j + 1 := hs.calls_le_succ
    obtain ⟨hcalls, hfirst⟩ := (hs.taskInv t).fits_point (by
      rintro heq
      rw [heq] at hsync
      exact absurd hsync (by decide))
    rcases hsync with h | h | h
    · have hzero := hfirst (.inr (.inl h))
      omega
    all_goals
      rw [h] at hcalls
      simp only [waits, if_true] at hcalls
      omega
  · have hle : s.barrier.calls t ≤ s.barrier.calls j := hs.calls_le hsync
    omega

/-- Without it, the cleanup starts when all tasks have left their loops. -/
theorem HostReachable.behind_loop (hs : HostReachable false tasks s) (hdone : (s.point t).IsDone) :
    s.point j = .cleanupSync ∨ (s.point j).IsDone := by
  have hle : s.barrier.calls t ≤ s.barrier.calls j := by
    refine hs.calls_le ?_
    rcases hdone with h | h <;> rw [h] <;> decide
  have htwo : s.barrier.calls t = 2 := by
    rcases hdone with h | h
    all_goals
      have hfits := (hs.taskInv t).fits_point (by simp [h])
      rw [h] at hfits
      exact hfits.calls_eq
  obtain ⟨point, ⟨hcalls, -⟩, hat⟩ := (hs.taskInv j).fits
  rw [htwo, hcalls] at hle
  cases point <;> simp_all [waits, Point.MayFail, Point.IsDone]

end Order

end A100Partitioning.TaskHost
