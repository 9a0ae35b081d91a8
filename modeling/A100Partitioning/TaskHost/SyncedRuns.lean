import A100Partitioning.TaskHost.Deadlock
import A100Partitioning.Config.KnownKeys

/-!
# Runs that only the iteration limits end

The parser refuses a limit for one benchmark when `sync_every_iteration` is set, so all tasks
have the same one.  If there are neither time limits nor terminators, no task ends an iteration
before another, and the tasks never get stuck.
-/

namespace A100Partitioning.TaskHost

open Config (Double GlobalConfiguration BenchmarkConfiguration CJson Stop)
open Assignment (Host createTaskConfigs createLoop)
open Relation (ReflTransGen)

/-! ## The iterations -/

/-- Only the number of iterations ends the loop of the task. -/
structure OnlyLimited (task : Assignment.TaskConfig) : Prop where
  maxIterations : 0 < task.maxIterations
  maxSeconds : ∀ elapsed, ¬ timeIsOver task.maxSeconds elapsed
  terminator : task.terminator = false

/-- The counters of a task at a point. -/
def Counts (limit : ℤ) (i iterations : ℕ) : Point → Prop
  | .initializing | .initSync | .sleeping | .limits => i = iterations ∧ iterations ≤ limit
  | .iterationSync | .iterating => i = iterations + 1 ∧ iterations + 1 ≤ limit
  | .leaving | .cleanupSync | .cleaningUp | .returned => iterations = limit
  | .failed => True

section Iterations

variable {N : ℕ} {syncEveryIteration : Bool} {tasks : Fin N → Assignment.TaskConfig}
  {s s' : HostState N}
  {t j : Fin N}

/-- The counters of all tasks, none of which tells the others to stop. -/
structure CountInv (tasks : Fin N → Assignment.TaskConfig) (s : HostState N) : Prop where
  terminate : s.terminate = false
  counts : ∀ t, Counts (tasks t).maxIterations (s.i t) (s.iterations t) (s.point t)

theorem Counts.iterations_le {limit : ℤ} {i iterations : ℕ} {point : Point}
    (h : Counts limit i iterations point) (hrunning : point ≠ .failed) : iterations ≤ limit := by
  cases point with
  | failed => exact absurd rfl hrunning
  | initializing | initSync | sleeping | limits => exact h.2
  | iterationSync | iterating =>
      have hlt := h.2
      omega
  | leaving | cleanupSync | cleaningUp | returned => exact h.le

theorem CountInv.of_update (h : CountInv tasks s) {point : Point} {i iterations : ℕ}
    (hcounts : Counts (tasks t).maxIterations i iterations point)
    (hterminate : s'.terminate = false) (hpoint : s'.point = Function.update s.point t point)
    (hi : s'.i = Function.update s.i t i)
    (hiterations : s'.iterations = Function.update s.iterations t iterations) :
    CountInv tasks s' := by
  refine ⟨hterminate, fun j => ?_⟩
  rw [hpoint, hi, hiterations]
  by_cases hj : j = t
  · rw [hj, Function.update_self, Function.update_self, Function.update_self]
    exact hcounts
  · rw [Function.update_of_ne hj, Function.update_of_ne hj, Function.update_of_ne hj]
    exact h.counts j

theorem CountInv.of_point (h : CountInv tasks s) {point : Point}
    (hcounts : Counts (tasks t).maxIterations (s.i t) (s.iterations t) point)
    (hterminate : s'.terminate = false) (hpoint : s'.point = Function.update s.point t point)
    (hi : s'.i = s.i) (hiterations : s'.iterations = s.iterations) : CountInv tasks s' := by
  apply h.of_update hcounts hterminate hpoint
  · rw [hi, Function.update_eq_self]
  · rw [hiterations, Function.update_eq_self]

/-- The checks at the top of the loop compare the iterations with the limit. -/
theorem OnlyLimited.breaks_iff {task : Assignment.TaskConfig} (h : OnlyLimited task) (i : ℕ)
    (elapsed : ℚ) :
    Breaks task i elapsed false ↔ task.maxIterations < i + 1 := by
  have hnext : nextI task i = i + 1 := if_pos h.maxIterations
  constructor
  · rintro (⟨-, hlt⟩ | htime | hterminate)
    · rw [hnext] at hlt
      exact_mod_cast hlt
    · exact absurd htime (h.maxSeconds elapsed)
    · cases hterminate
  · intro hlt
    refine .inl ⟨h.maxIterations, ?_⟩
    rw [hnext]
    exact_mod_cast hlt

theorem CountInv.step (htasks : ∀ t, OnlyLimited (tasks t)) (h : CountInv tasks s)
    (hstep : HostStep syncEveryIteration tasks s s') : CountInv tasks s' := by
  cases hstep with
  | initialized t hpoint =>
      have ht := h.counts t
      rw [hpoint] at ht
      have hto : Counts (tasks t).maxIterations (s.i t) (s.iterations t) .initSync := ht
      exact h.of_point hto h.terminate rfl rfl rfl
  | wait t => exact ⟨h.terminate, h.counts⟩
  | goOn t hpoint =>
      have ht := h.counts t
      have hto : Counts (tasks t).maxIterations (s.i t) (s.iterations t)
          (s.point t).afterSync := by
        rcases hpoint with hpoint | hpoint | hpoint <;> rw [hpoint] at ht ⊢ <;> exact ht
      exact h.of_point hto h.terminate rfl rfl rfl
  | sleep t hpoint =>
      have ht := h.counts t
      rw [hpoint] at ht
      have hto : Counts (tasks t).maxIterations (s.i t) (s.iterations t) .limits := ht
      exact h.of_point hto h.terminate rfl rfl rfl
  | leave t hpoint elapsed breaks =>
      have ht := h.counts t
      rw [hpoint] at ht
      rw [h.terminate, (htasks t).breaks_iff] at breaks
      have hto : Counts (tasks t).maxIterations (nextI (tasks t) (s.i t)) (s.iterations t)
          .leaving := by
        obtain ⟨hi, hle⟩ := ht
        change (s.iterations t : ℤ) = _
        omega
      exact h.of_update hto h.terminate rfl rfl (Function.update_eq_self _ _).symm
  | enter t hpoint elapsed breaks =>
      have ht := h.counts t
      rw [hpoint] at ht
      rw [h.terminate, (htasks t).breaks_iff] at breaks
      have hi : nextI (tasks t) (s.i t) = s.iterations t + 1 := by
        rw [nextI, if_pos (htasks t).maxIterations, ht.1]
      have hle : (s.iterations t : ℤ) + 1 ≤ (tasks t).maxIterations := by
        have heq := ht.1
        omega
      cases syncEveryIteration with
      | false =>
          have hto : Counts (tasks t).maxIterations (nextI (tasks t) (s.i t)) (s.iterations t)
              .iterating := ⟨hi, hle⟩
          exact h.of_update hto h.terminate rfl rfl (Function.update_eq_self _ _).symm
      | true =>
          have hto : Counts (tasks t).maxIterations (nextI (tasks t) (s.i t)) (s.iterations t)
              .iterationSync := ⟨hi, hle⟩
          exact h.of_update hto h.terminate rfl rfl (Function.update_eq_self _ _).symm
  | iterate t hpoint =>
      have ht := h.counts t
      rw [hpoint] at ht
      have hto : Counts (tasks t).maxIterations (s.i t) (s.iterations t + 1) .limits :=
        ⟨ht.1, by exact_mod_cast ht.2⟩
      exact h.of_update hto h.terminate rfl (Function.update_eq_self _ _).symm rfl
  | signal t hpoint =>
      have ht := h.counts t
      rw [hpoint] at ht
      have hto : Counts (tasks t).maxIterations (s.i t) (s.iterations t) .cleanupSync := ht
      refine h.of_point hto ?_ rfl rfl rfl
      change ((tasks t).terminator || s.terminate) = false
      rw [(htasks t).terminator, h.terminate, Bool.or_false]
  | cleanup t hpoint =>
      have ht := h.counts t
      rw [hpoint] at ht
      have hto : Counts (tasks t).maxIterations (s.i t) (s.iterations t) .returned := ht
      exact h.of_point hto h.terminate rfl rfl rfl
  | fail t =>
      have hto : Counts (tasks t).maxIterations (s.i t) (s.iterations t) .failed := trivial
      exact h.of_point hto h.terminate rfl rfl rfl

/-- A task that leaves its loop has done all of its iterations. -/
theorem HostReachable.countInv (htasks : ∀ t, OnlyLimited (tasks t))
    (hs : HostReachable syncEveryIteration tasks s) : CountInv tasks s := by
  induction hs with
  | refl =>
      refine ⟨rfl, fun t => ⟨rfl, ?_⟩⟩
      have hpos := (htasks t).maxIterations
      change ((0 : ℕ) : ℤ) ≤ _
      omega
  | tail _ hstep ih => exact CountInv.step htasks ih hstep

/-- With one limit for all, none waits for a task that has ended. -/
theorem CountInv.not_stuck (h : CountInv tasks s) (hs : HostReachable syncEveryIteration tasks s)
    (hlimits : syncEveryIteration = true → ∀ t j, (tasks t).maxIterations = (tasks j).maxIterations)
    (hrunning : ∀ t, s.point t ≠ .failed) (ht : s.point t ≠ .returned) : ¬ Stuck s := by
  rw [← hs.canMoveOn_iff]
  by_contra hnot
  rw [hs.canMoveOn_iff, not_not] at hnot
  have hended (j : Fin N) (hj : (s.point j).Ended) : s.point j = .returned :=
    hj.resolve_right (hrunning j)
  obtain ⟨hsync, i, hi, hcalls⟩ := hnot t fun hj => ht (hended t hj)
  have hreturned := hended i hi
  have hcallsI := (hs.taskInv i).calls_of_returned hreturned
  have hfits := ((hs.taskInv t).fits_point (hrunning t)).calls_eq
  have hall : (s.iterations i : ℤ) = (tasks i).maxIterations := by
    have hcounts := h.counts i
    rwa [hreturned] at hcounts
  have hcounts := h.counts t
  cases hevery : syncEveryIteration with
  | false =>
      rw [hevery] at hcallsI hfits
      rcases hsync with hpoint | hpoint | hpoint
      all_goals
        rw [hpoint] at hfits
        simp [waits] at hfits hcallsI
        omega
  | true =>
      have hsame := hlimits hevery t i
      rw [hevery] at hcallsI hfits
      rcases hsync with hpoint | hpoint | hpoint
      all_goals
        rw [hpoint] at hfits hcounts
        simp only [waits, if_true, Counts] at hfits hcallsI hcounts
        omega

/-! ## The end of a run -/

/-- Where a point is in the code. -/
def Point.place : Point → ℕ
  | .initializing | .failed => 0
  | .initSync => 1
  | .sleeping => 2
  | .limits => 3
  | .iterationSync | .leaving => 4
  | .iterating | .cleanupSync => 5
  | .cleaningUp => 6
  | .returned => 7

/-- How far a task is. -/
def HostState.progress (s : HostState N) (t : Fin N) : ℕ :=
  4 * s.iterations t + (s.point t).place

/-- A task gets further or stays where it is. -/
def GetsFurther (s s' : HostState N) (t : Fin N) : Prop :=
  s'.point t = s.point t ∧ s'.progress t = s.progress t ∨ s.progress t < s'.progress t

theorem GetsFurther.trans {s'' : HostState N} (h : GetsFurther s s' t)
    (h' : GetsFurther s' s'' t) : GetsFurther s s'' t := by
  rcases h with ⟨hpoint, heq⟩ | hlt <;> rcases h' with ⟨hpoint', heq'⟩ | hlt'
  · exact .inl ⟨hpoint'.trans hpoint, heq'.trans heq⟩
  · exact .inr (heq ▸ hlt')
  · exact .inr (heq'.symm ▸ hlt)
  · exact .inr (hlt.trans hlt')

theorem GetsFurther.le (h : GetsFurther s s' t) : s.progress t ≤ s'.progress t :=
  h.elim (fun hsame => hsame.2.ge) le_of_lt

theorem getsFurther_update {point : Point} {iterations : ℕ}
    (hpoint : s'.point = Function.update s.point t point)
    (hiterations : s'.iterations = Function.update s.iterations t iterations)
    (hlater : 4 * s.iterations t + (s.point t).place < 4 * iterations + point.place) (j : Fin N) :
    GetsFurther s s' j := by
  by_cases hj : j = t
  · refine .inr ?_
    rw [hj, HostState.progress, HostState.progress, hpoint, hiterations, Function.update_self,
      Function.update_self]
    exact hlater
  · have hsame : s'.point j = s.point j := by rw [hpoint, Function.update_of_ne hj]
    refine .inl ⟨hsame, ?_⟩
    rw [HostState.progress, HostState.progress, hsame, hiterations, Function.update_of_ne hj]

/-- Without failures, a step gets some task further or leaves all where they are. -/
theorem HostStep.getsFurther (hstep : HostStep syncEveryIteration tasks s s')
    (hrunning : ∀ t, s'.point t ≠ .failed) :
    (∀ t, s.point t ≠ .failed) ∧ ∀ t, GetsFurther s s' t := by
  have hbefore {point from' : Point} {t : Fin N} (hpoint : s.point t = from')
      (hfrom : from' ≠ .failed) (hs' : s'.point = Function.update s.point t point) :
      ∀ j, s.point j ≠ .failed := by
    intro j hj
    by_cases hjt : j = t
    · rw [hjt, hpoint] at hj
      exact hfrom hj
    · refine hrunning j ?_
      rw [hs', Function.update_of_ne hjt, hj]
  have hsame {point from' : Point} {t : Fin N} (hpoint : s.point t = from')
      (hs' : s'.point = Function.update s.point t point)
      (hiterations : s'.iterations = s.iterations)
      (hlater : from'.place < point.place) : ∀ j, GetsFurther s s' j := by
    apply getsFurther_update hs' (hiterations.trans (Function.update_eq_self t _).symm)
    rw [hpoint]
    omega
  cases hstep with
  | initialized t hpoint =>
      exact ⟨hbefore hpoint (by decide) rfl, hsame hpoint rfl rfl (by decide)⟩
  | wait t => exact ⟨hrunning, fun j => .inl ⟨rfl, rfl⟩⟩
  | goOn t hpoint =>
      rcases hpoint with hpoint | hpoint | hpoint
      all_goals
        refine ⟨hbefore hpoint (by decide) rfl, hsame hpoint rfl rfl ?_⟩
        rw [hpoint]
        decide
  | sleep t hpoint => exact ⟨hbefore hpoint (by decide) rfl, hsame hpoint rfl rfl (by decide)⟩
  | leave t hpoint => exact ⟨hbefore hpoint (by decide) rfl, hsame hpoint rfl rfl (by decide)⟩
  | enter t hpoint =>
      cases syncEveryIteration with
      | false => exact ⟨hbefore hpoint (by decide) rfl, hsame hpoint rfl rfl (by decide)⟩
      | true => exact ⟨hbefore hpoint (by decide) rfl, hsame hpoint rfl rfl (by decide)⟩
  | iterate t hpoint =>
      refine ⟨hbefore hpoint (by decide) rfl, getsFurther_update rfl rfl ?_⟩
      rw [hpoint]
      simp only [Point.place]
      omega
  | signal t hpoint => exact ⟨hbefore hpoint (by decide) rfl, hsame hpoint rfl rfl (by decide)⟩
  | cleanup t hpoint => exact ⟨hbefore hpoint (by decide) rfl, hsame hpoint rfl rfl (by decide)⟩
  | fail t => exact absurd (Function.update_self _ _ _) (hrunning t)

theorem getsFurther_run (hrun : ReflTransGen (HostStep syncEveryIteration tasks) s s')
    (hrunning : ∀ t, s'.point t ≠ .failed) : ∀ t, GetsFurther s s' t := by
  induction hrun with
  | refl => exact fun t => .inl ⟨rfl, rfl⟩
  | tail _ hstep ih =>
      obtain ⟨hbefore, hfurther⟩ := hstep.getsFurther hrunning
      exact fun t => (ih hbefore t).trans (hfurther t)

/-- No task gets further than to its return after all iterations. -/
theorem CountInv.progress_le (h : CountInv tasks s) (hrunning : s.point t ≠ .failed) :
    s.progress t ≤ 4 * (tasks t).maxIterations.toNat + 7 := by
  have hle := (h.counts t).iterations_le hrunning
  have hplace : (s.point t).place ≤ 7 := by
    cases s.point t <;> decide
  simp only [HostState.progress]
  omega

/-- As long as no task fails, the tasks can get to where none can move on. -/
theorem HostReachable.exists_stuck (htasks : ∀ t, OnlyLimited (tasks t))
    (hs : HostReachable syncEveryIteration tasks s) (hrunning : ∀ t, s.point t ≠ .failed) :
    ∃ s', ReflTransGen (HostStep syncEveryIteration tasks) s s' ∧
      (∀ t, s'.point t ≠ .failed) ∧ Stuck s' := by
  -- by induction on how far the tasks have yet to get
  induction hn : ∑ t, (4 * (tasks t).maxIterations.toNat + 7 - s.progress t) using
    Nat.strong_induction_on generalizing s with
  | _ n ih =>
      by_cases hstuck : Stuck s
      · exact ⟨s, .refl, hrunning, hstuck⟩
      · obtain ⟨next, hrun, hadvances⟩ := hs.canMoveOn_iff.mpr hstuck
        have hnext (j : Fin N) : next.point j ≠ .failed := fun hj =>
          hrunning j (hadvances.2 j hj)
        have hs' : HostReachable syncEveryIteration tasks next := hs.trans hrun
        have hfurther := getsFurther_run hrun hnext
        obtain ⟨j, hj⟩ := Function.ne_iff.mp hadvances.1
        have hlt : s.progress j < next.progress j :=
          (hfurther j).resolve_left fun hsame => hj hsame.1
        have hless : ∑ t, (4 * (tasks t).maxIterations.toNat + 7 - next.progress t) < n := by
          rw [← hn]
          refine Finset.sum_lt_sum (fun i _ => Nat.sub_le_sub_left (hfurther i).le _)
            ⟨j, Finset.mem_univ j, ?_⟩
          have hle := (hs'.countInv htasks).progress_le (hnext j)
          omega
        obtain ⟨s', hrest, hend⟩ := ih _ hless hs' hnext rfl
        exact ⟨s', hrun.trans hrest, hend⟩

theorem HostReachable.exists_returned (htasks : ∀ t, OnlyLimited (tasks t))
    (hlimits : syncEveryIteration = true → ∀ t j, (tasks t).maxIterations = (tasks j).maxIterations)
    (hs : HostReachable syncEveryIteration tasks s) (hrunning : ∀ t, s.point t ≠ .failed) :
    ∃ s', ReflTransGen (HostStep syncEveryIteration tasks) s s' ∧
      ∀ t, s'.point t = .returned := by
  obtain ⟨s', hrun, hrunning', hstuck⟩ := hs.exists_stuck htasks hrunning
  have hs' : HostReachable syncEveryIteration tasks s' := hs.trans hrun
  refine ⟨s', hrun, fun t => ?_⟩
  by_contra ht
  exact (hs'.countInv htasks).not_stuck hs' hlimits hrunning' ht hstuck

theorem HostReachable.iterations_of_returned (htasks : ∀ t, OnlyLimited (tasks t))
    (hs : HostReachable syncEveryIteration tasks s) (ht : s.point t = .returned) :
    (s.iterations t : ℤ) = (tasks t).maxIterations := by
  have hcounts := (hs.countInv htasks).counts t
  rwa [ht] at hcounts

end Iterations

/-! ## The limits that are accepted -/

section Limits

variable {outOfRange : Double → ℤ} {smctrl : Bool} {root benchmark : CJson}
  {config : GlobalConfiguration}

/-- With `sync_every_iteration` no benchmark has a limit of its own. -/
theorem maxIterations_of_parseBenchmark {c : BenchmarkConfiguration}
    (h : Config.parseBenchmark outOfRange smctrl true benchmark = .ok c) :
    c.maxIterations = -1 := by
  iterate 9
    obtain ⟨_, -, h⟩ := Support.exists_of_bind_ok h
  obtain ⟨maxIterations, hiterations, h⟩ := Support.exists_of_bind_ok h
  iterate 5
    obtain ⟨_, -, h⟩ := Support.exists_of_bind_ok h
  cases h
  obtain ⟨value, -, hvalue⟩ := Support.exists_of_bind_ok hiterations
  cases value with
  | none =>
      cases hvalue
      rfl
  | some value => cases hvalue

theorem syncEveryIteration_of_parseRoot (h : Config.parseRoot outOfRange smctrl root = .ok config) :
    Config.syncs root = config.syncEveryIteration := by
  iterate 8
    obtain ⟨_, -, h⟩ := Support.exists_of_bind_ok h
  obtain ⟨sync, hsync, h⟩ := Support.exists_of_bind_ok h
  iterate 3
    obtain ⟨_, -, h⟩ := Support.exists_of_bind_ok h
  cases h
  exact Config.syncs_of_optional hsync

theorem maxIterations_of_parseRoot (h : Config.parseRoot outOfRange smctrl root = .ok config)
    (hsync : config.syncEveryIteration = true) :
    ∀ c ∈ config.benchmarks, c.maxIterations = -1 := by
  intro c hc
  have hbenchmarks := Config.benchmarks_of_parseRoot h
  rw [syncEveryIteration_of_parseRoot h, hsync] at hbenchmarks
  obtain ⟨benchmark, hbenchmark⟩ := Config.exists_of_forall₂ hbenchmarks.flip hc
  exact maxIterations_of_parseBenchmark hbenchmark

theorem exists_benchmark_of_createLoop {host : Host} {cpuSet : Assignment.CpuSet}
    {benchmarks : List BenchmarkConfiguration} {i currentCpu : ℕ}
    {newList created : List Assignment.TaskConfig}
    (h : createLoop host cpuSet config benchmarks i currentCpu newList = .created created)
    {task : Assignment.TaskConfig} (htask : task ∈ created) :
    task ∈ newList ∨ ∃ c ∈ benchmarks, ∃ cpu, task = Assignment.taskConfig config c cpu := by
  induction benchmarks generalizing i currentCpu newList with
  | nil =>
      cases h
      exact .inl htask
  | cons c benchmarks ih =>
      have hgrow {cpu : ℤ} {next : ℕ}
          (hnext : createLoop host cpuSet config benchmarks (i + 1) next
            (newList ++ [Assignment.taskConfig config c cpu]) = .created created) :
          task ∈ newList ∨
            ∃ c' ∈ c :: benchmarks, ∃ cpu, task = Assignment.taskConfig config c' cpu := by
        rcases ih hnext with hold | ⟨c', hc', cpu', heq⟩
        · rcases List.mem_append.mp hold with hold | hself
          · exact .inl hold
          · exact .inr ⟨c, List.mem_cons_self, cpu, List.mem_singleton.mp hself⟩
        · exact .inr ⟨c', List.mem_cons_of_mem c hc', cpu', heq⟩
      rw [createLoop] at h
      by_cases hpin : config.pinCpus = true
      · rw [if_pos hpin] at h
        split at h
        · cases h
        · split_ifs at h
          exact hgrow h
      · rw [if_neg hpin] at h
        split_ifs at h
        exact hgrow h

theorem exists_benchmark_of_created {host : Host} {newList : List Assignment.TaskConfig}
    (h : createTaskConfigs host config = .created newList) {task : Assignment.TaskConfig}
    (htask : task ∈ newList) :
    ∃ c ∈ config.benchmarks, ∃ cpu, task = Assignment.taskConfig config c cpu := by
  rw [createTaskConfigs] at h
  split_ifs at h
  split at h
  · cases h
  · split at h
    · cases h
    · exact (exists_benchmark_of_createLoop h htask).resolve_left List.not_mem_nil

/-- With `sync_every_iteration` all tasks have the same limit. -/
theorem maxIterations_of_created {host : Host} {newList : List Assignment.TaskConfig}
    (hparse : Config.parseRoot outOfRange smctrl root = .ok config)
    (hcreated : createTaskConfigs host config = .created newList)
    (hsync : config.syncEveryIteration = true) {task : Assignment.TaskConfig}
    (htask : task ∈ newList) :
    task.maxIterations = config.maxIterations := by
  obtain ⟨c, hc, cpu, rfl⟩ := exists_benchmark_of_created hcreated htask
  refine if_neg ?_
  rw [maxIterations_of_parseRoot hparse hsync c hc]
  decide

end Limits

/-! ## Results -/

/-- With `sync_every_iteration`, an iteration starts when all tasks have finished the one before,
so that no task is more than one ahead; and a task cleans up when all have finished as many
iterations as it has. -/
theorem iterations_lockstep {N : ℕ} (tasks : Fin N → Assignment.TaskConfig) (s : HostState N)
    (hs : HostReachable true tasks s) (t j : Fin N) :
    (s.point t = .iterating → s.iterations t ≤ s.iterations j) ∧
      s.iterations t ≤ s.iterations j + 1 ∧
        ((s.point t).IsDone → s.iterations t ≤ s.iterations j) :=
  ⟨fun hpoint => hs.iterations_le (.inl hpoint), hs.iterations_le_succ,
    fun hdone => hs.iterations_le (.inr hdone)⟩

/-- A task whose loop ends after some iterations. -/
def limited (limit : ℤ) : Assignment.TaskConfig where
  maxIterations := limit
  maxSeconds := .ofInt 0
  terminator := false
  cudaDevice := 0
  label := none
  mpsThreadPercentage := .ofInt 100
  blockDim := [1, 1, 1]
  gridDim := [1, 1, 1]
  dataSize := 0
  additionalInfo := none
  releaseTime := .ofInt 0
  streamPriority := -100
  smMask := 0
  cpuCore := -1

theorem onlyLimited_limited {limit : ℤ} (hlimit : 0 < limit) : OnlyLimited (limited limit) where
  maxIterations := hlimit
  maxSeconds _ htime := lt_irrefl _ htime.1
  terminator := rfl

/-- Two tasks that have returned after two iterations each. -/
theorem iterations_lockstep_two :
    ∃ s : HostState 2, (∀ t, s.point t = .returned ∧ s.iterations t = 2) ∧
      ∀ t j, s.iterations t ≤ s.iterations j := by
  have hinit : HostReachable true (fun _ : Fin 2 => limited 2) (hostInit 2) := .refl
  obtain ⟨s, hs, hreturned⟩ := hinit.exists_returned (fun _ => onlyLimited_limited (by decide))
    (fun _ _ _ => rfl) (fun _ => by simp [hostInit])
  refine ⟨s, fun t => ⟨hreturned t, ?_⟩, fun t j => ?_⟩
  · have hiterations := HostReachable.iterations_of_returned
      (fun _ => onlyLimited_limited (by decide)) hs (hreturned t)
    exact Int.ofNat_inj.mp hiterations
  · exact (iterations_lockstep _ s hs t j).2.2 (.inr (hreturned t))

/-- Without it, no task cleans up before all have left their loops. -/
theorem cleanup_after_loops {N : ℕ} (tasks : Fin N → Assignment.TaskConfig) (s : HostState N)
    (hs : HostReachable false tasks s) (t j : Fin N) (hdone : (s.point t).IsDone) :
    s.point j = .cleanupSync ∨ (s.point j).IsDone :=
  hs.behind_loop hdone

/-- Tasks with different limits that have returned. -/
theorem cleanup_after_loops_two :
    ∃ s : HostState 2, (s.iterations 0 = 1 ∧ s.iterations 1 = 2) ∧
      ∀ t j, (s.point t).IsDone ∧ (s.point j = .cleanupSync ∨ (s.point j).IsDone) := by
  have htasks (t : Fin 2) : OnlyLimited (limited (t + 1)) := onlyLimited_limited (by omega)
  have hinit : HostReachable false (fun t : Fin 2 => limited (t + 1)) (hostInit 2) := .refl
  obtain ⟨s, hs, hreturned⟩ := hinit.exists_returned htasks (fun h => by cases h)
    (fun _ => by simp [hostInit])
  refine ⟨s, ⟨?_, ?_⟩, fun t j => ⟨.inr (hreturned t), ?_⟩⟩
  · have hiterations := HostReachable.iterations_of_returned htasks hs (hreturned 0)
    exact Int.ofNat_inj.mp hiterations
  · have hiterations := HostReachable.iterations_of_returned htasks hs (hreturned 1)
    exact Int.ofNat_inj.mp hiterations
  · exact cleanup_after_loops _ s hs t j (.inr (hreturned t))

/-- Where no task has failed, those that have not returned wait forever exactly if
`sync_every_iteration` is set and each of them has finished one iteration more than one that
has returned. -/
theorem deadlock_iff {N : ℕ} (syncEveryIteration : Bool) (tasks : Fin N → Assignment.TaskConfig)
    (s : HostState N) (hs : HostReachable syncEveryIteration tasks s)
    (hrunning : ∀ t, s.point t ≠ .failed) (hwaiting : ∃ t, s.point t ≠ .returned) :
    ¬ CanMoveOn syncEveryIteration tasks s ↔
      syncEveryIteration = true ∧ ∃ i, s.point i = .returned ∧ ∀ j, s.point j ≠ .returned →
        (s.point j).IsSync ∧ s.iterations j = s.iterations i + 1 := by
  rw [hs.canMoveOn_iff, not_not]
  exact hs.stuck_iff hrunning hwaiting

/-- Two tasks with different limits get stuck. -/
theorem deadlock_iff_two :
    ∃ s : HostState 2, ¬ CanMoveOn true (fun t => limited (t + 1)) s ∧
      ∃ i, s.point i = .returned ∧ ∀ j, s.point j ≠ .returned →
        (s.point j).IsSync ∧ s.iterations j = s.iterations i + 1 := by
  have htasks (t : Fin 2) : OnlyLimited (limited (t + 1)) := onlyLimited_limited (by omega)
  have hinit : HostReachable true (fun t : Fin 2 => limited (t + 1)) (hostInit 2) := .refl
  obtain ⟨s, hs, hrunning, hstuck⟩ := hinit.exists_stuck htasks (fun _ => by simp [hostInit])
  have hdeadlock := mt (HostReachable.canMoveOn_iff hs).mp (not_not.mpr hstuck)
  refine ⟨s, hdeadlock, ((deadlock_iff true _ s hs hrunning ?_).mp hdeadlock).2⟩
  by_contra hall
  have hreturned (t : Fin 2) : s.point t = .returned := not_not.mp (not_exists.mp hall t)
  have hzero := HostReachable.iterations_of_returned htasks hs (hreturned 0)
  have hone := HostReachable.iterations_of_returned htasks hs (hreturned 1)
  have hle : s.iterations 1 ≤ s.iterations 0 :=
    HostReachable.iterations_le hs (.inr (.inr (hreturned 1)))
  have hlt := (Int.ofNat_inj.mp hzero : s.iterations 0 = 1)
  have hgt := (Int.ofNat_inj.mp hone : s.iterations 1 = 2)
  omega

/-- Tasks whose loops only end by their limits can all return exactly if they are not
synchronized or have the same limit. -/
theorem all_return_iff {N : ℕ} (syncEveryIteration : Bool) (tasks : Fin N → Assignment.TaskConfig)
    (htasks : ∀ t, OnlyLimited (tasks t)) :
    (∃ s, HostReachable syncEveryIteration tasks s ∧ ∀ t, s.point t = .returned) ↔
      (syncEveryIteration = true →
        ∀ t j, (tasks t).maxIterations = (tasks j).maxIterations) := by
  constructor
  · rintro ⟨s, hs, hreturned⟩ rfl t j
    have hle (t j : Fin N) : (s.iterations t : ℤ) ≤ s.iterations j :=
      Int.ofNat_le.mpr (hs.iterations_le (.inr (.inr (hreturned t))))
    rw [← hs.iterations_of_returned htasks (hreturned t),
      ← hs.iterations_of_returned htasks (hreturned j)]
    exact le_antisymm (hle t j) (hle j t)
  · intro hlimits
    exact HostReachable.exists_returned htasks hlimits .refl fun t => by simp [hostInit]

/-- Two tasks with different limits cannot both return if they are synchronized. -/
theorem all_return_iff_two :
    ¬ ∃ s, HostReachable true (fun t : Fin 2 => limited (t + 1)) s ∧
      ∀ t, s.point t = .returned := by
  rw [all_return_iff true _ fun t => onlyLimited_limited (by omega)]
  intro hlimits
  exact absurd (hlimits rfl 0 1) (by decide)

/-- Where only the iteration limits of an accepted configuration end the loops, all tasks can
still return as long as none has failed, and each task that has returned has done exactly the
iterations that it was given. -/
theorem accepted_tasks_return (outOfRange : Double → ℤ) (smctrl : Bool) (root : CJson)
    (config : GlobalConfiguration) (host : Host) (newList : List Assignment.TaskConfig)
    (hparse : Config.parseRoot outOfRange smctrl root = .ok config)
    (hcreated : createTaskConfigs host config = .created newList)
    (hlimited : ∀ task ∈ newList, OnlyLimited task) (s : HostState newList.length)
    (hs : HostReachable config.syncEveryIteration newList.get s)
    (hrunning : ∀ t, s.point t ≠ .failed) :
    (∃ s', ReflTransGen (HostStep config.syncEveryIteration newList.get) s s' ∧
      ∀ t, s'.point t = .returned) ∧
    ∀ t, s.point t = .returned → (s.iterations t : ℤ) = (newList.get t).maxIterations := by
  have htasks (t : Fin newList.length) : OnlyLimited (newList.get t) :=
    hlimited _ (newList.get_mem t)
  refine ⟨hs.exists_returned htasks (fun hsync t j => ?_) hrunning, fun t ht => ?_⟩
  · rw [maxIterations_of_created hparse hcreated hsync (newList.get_mem t),
      maxIterations_of_created hparse hcreated hsync (newList.get_mem j)]
  · exact hs.iterations_of_returned htasks ht

/-- A host with one CPU, where everything can be opened. -/
def oneCpu : Host where
  allocates := true
  affinity := some {0}
  opens _ := true

/-- Two benchmarks that are synchronized, with one iteration. -/
def syncedPair : CJson :=
  let benchmark := CJson.object (Config.named
    [("filename", .string "b".toList), ("thread_count", .number (.ofInt 1)),
      ("block_count", .number (.ofInt 1)), ("data_size", .number (.ofInt 0))])
  .object (Config.named
    [("sync_every_iteration", .bool true), ("max_iterations", .number (.ofInt 1)),
      ("max_time", .number (.ofInt 0)), ("cuda_device", .number (.ofInt 0)),
      ("name", .string "n".toList), ("benchmarks", .array [benchmark, benchmark])])

/-- What the tasks of the pair are made from. -/
def Paired (config : GlobalConfiguration) : Prop :=
  config.pinCpus = false ∧ config.maxIterations = 1 ∧ config.maxTime = .ofInt 0 ∧
    config.benchmarks.length = 2 ∧ ∀ c ∈ config.benchmarks,
      c.cpuCore = -1 ∧ c.maxIterations = -1 ∧ c.maxTime = .ofInt (-1) ∧ c.terminator = false

instance : DecidablePred Paired := fun _ => inferInstanceAs (Decidable (_ ∧ _))

theorem exists_paired :
    ∃ config, Config.parseRoot (fun _ => 0) false syncedPair = .ok config ∧ Paired config := by
  have hpaired : (Config.parseRoot (fun _ => 0) false syncedPair).toOption.any
      (fun config => decide (Paired config)) = true := by
    decide +kernel
  cases hconfig : Config.parseRoot (fun _ => 0) false syncedPair with
  | error stop =>
      rw [hconfig] at hpaired
      cases hpaired
  | ok config =>
      rw [hconfig] at hpaired
      exact ⟨config, rfl, of_decide_eq_true hpaired⟩

/-- A benchmark that asks for no core keeps the loop on its CPU. -/
theorem createLoop_unpinned {config : GlobalConfiguration} {c : BenchmarkConfiguration}
    {host : Host} {i : ℕ} (cpuSet : Assignment.CpuSet) (hpin : config.pinCpus = false)
    (hcore : c.cpuCore = -1) (hopens : host.opens i = true)
    {benchmarks : List BenchmarkConfiguration} {cpu : ℕ} {newList : List Assignment.TaskConfig} :
    createLoop host cpuSet config (c :: benchmarks) i cpu newList =
      createLoop host cpuSet config benchmarks (i + 1) cpu
        (newList ++ [Assignment.taskConfig config c c.cpuCore]) := by
  rw [createLoop, if_neg (by rw [hpin]; exact Bool.false_ne_true),
    if_neg (fun h => h.1 hcore), if_pos hopens]

/-- Each of the two is limited to one iteration. -/
theorem Paired.task {config : GlobalConfiguration} (h : Paired config)
    {c : BenchmarkConfiguration} (hc : c ∈ config.benchmarks) :
    (Assignment.taskConfig config c c.cpuCore).maxIterations = 1 ∧
      OnlyLimited (Assignment.taskConfig config c c.cpuCore) := by
  obtain ⟨-, hiterations, htime, -, heach⟩ := h
  obtain ⟨-, hown, hownTime, hterminator⟩ := heach c hc
  have hone : (Assignment.taskConfig config c c.cpuCore).maxIterations = 1 := by
    simp [Assignment.taskConfig, hown, hiterations]
  refine ⟨hone, by rw [hone]; exact Int.one_pos, fun elapsed hover => ?_, hterminator⟩
  simp only [Assignment.taskConfig, hownTime, htime] at hover
  exact lt_irrefl _ hover.1

/-- With one CPU, both get their tasks. -/
theorem Paired.exists_created {config : GlobalConfiguration} (h : Paired config) :
    ∃ newList, createTaskConfigs oneCpu config = .created newList ∧
      newList.map Assignment.TaskConfig.maxIterations = [1, 1] ∧
      ∀ task ∈ newList, OnlyLimited task := by
  have ⟨hpin, _, _, hlength, heach⟩ := h
  obtain ⟨c, c', hbenchmarks⟩ := List.length_eq_two.mp hlength
  have hmem : c ∈ config.benchmarks := by rw [hbenchmarks]; exact List.mem_cons_self
  have hmem' : c' ∈ config.benchmarks := by rw [hbenchmarks]; simp
  have hfirst : Assignment.firstCpu {0} = some 0 := by
    refine if_pos ⟨Finset.card_le_one_iff_subset_singleton.mpr ⟨0, subset_rfl⟩, 0, ?_, ?_⟩
    · exact Finset.mem_singleton_self 0
    · rw [Fin.val_zero]
      rfl
  obtain ⟨hone, honly⟩ := h.task hmem
  obtain ⟨hone', honly'⟩ := h.task hmem'
  refine ⟨[Assignment.taskConfig config c c.cpuCore, Assignment.taskConfig config c' c'.cpuCore],
    ?_, ?_, ?_⟩
  · have hallocates : oneCpu.allocates = true := rfl
    have haffinity : oneCpu.affinity = some {0} := rfl
    rw [createTaskConfigs, if_pos hallocates, haffinity]
    simp only [hfirst, hbenchmarks]
    rw [createLoop_unpinned _ hpin (heach c hmem).1 rfl,
      createLoop_unpinned _ hpin (heach c' hmem').1 rfl, createLoop]
    rfl
  · rw [List.map_cons, List.map_cons, List.map_nil, hone, hone']
  · intro task htask
    rcases List.mem_pair.mp htask with rfl | rfl
    · exact honly
    · exact honly'

/-- Two benchmarks with one iteration return after it. -/
theorem accepted_tasks_return_two :
    ∃ config newList, Config.parseRoot (fun _ => 0) false syncedPair = .ok config ∧
      createTaskConfigs oneCpu config = .created newList ∧
      newList.map Assignment.TaskConfig.maxIterations = [1, 1] ∧
      (∃ s', HostReachable config.syncEveryIteration newList.get s' ∧
        ∀ t, s'.point t = .returned) := by
  obtain ⟨config, hconfig, hpaired⟩ := exists_paired
  obtain ⟨newList, hcreated, hiterations, hlimited⟩ := hpaired.exists_created
  refine ⟨config, newList, hconfig, hcreated, hiterations, ?_⟩
  exact (accepted_tasks_return (fun _ => 0) false syncedPair config oneCpu newList hconfig
    hcreated hlimited (hostInit _) .refl (fun _ => by simp [hostInit])).1

end A100Partitioning.TaskHost
