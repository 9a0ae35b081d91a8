import A100Partitioning.Support.Ledger
import A100Partitioning.Config.KnownKeys
import A100Partitioning.TaskHost.CpuAssignment

/-!
# What the task host holds

`Initialize` of the task host opens a log and a library for each benchmark, and calls `Cleanup`
on every error.  The large buffers that the logs get are never freed, and neither is the memory
shared with a child if that child cannot be forked.
-/

namespace A100Partitioning.TaskHost.HostResources

open Support
open Config (Double Stop BenchmarkConfiguration GlobalConfiguration)
open Assignment (CpuSet Created cpuIsSet cpuSetSize cycleToNextCPU firstCpu taskConfig)

/-! ## The code -/

/-- What the task host acquires: memory, files and libraries. -/
inductive Resource where
  | sharedState
  | config
  | threadCount
  | taskList
  | logName (i : ℕ)
  | outputFile (i : ℕ)
  | blockBuffer (i : ℕ)
  | library (i : ℕ)
  | timeScale
  | barrier
  | terminate
  | gpuTime
  | cpuTime
  deriving DecidableEq, Repr

/-- Which calls succeed, and what is read from the GPU. -/
structure System where
  acquires : Resource → Bool
  affinity : Option CpuSet
  exports : ℕ → Bool
  forks : Resource → Bool
  waits : Resource → Bool
  exits : Resource → Bool
  maxResidentThreads : ℤ
  gpuTimeScale : Double

/-- What `SharedState` has pointers to; of the tasks, the files and libraries in order. -/
structure SharedState where
  config : Bool
  taskConfigs : Option (List Resource)
  barrierCreated : Bool
  terminate : Bool

section Code

variable (system : System)

/-- A child fills buffers that have been allocated for it.  They are freed, but not by all callers
if there is no child. -/
def inChild (child : Resource) (buffers : List Resource) (freesUnforked : Bool)
    (ledger : Ledger Resource) : Bool × Ledger Resource :=
  if system.forks child then (system.waits child && system.exits child, ledger.freeAll buffers)
  else (false, if freesUnforked then ledger.freeAll buffers else ledger)

/-- `GetMaxResidentThreads`. -/
def getMaxResidentThreads (ledger : Ledger Resource) : ℤ × Ledger Resource :=
  if system.acquires .threadCount then
    match inChild system .threadCount [.threadCount] false (ledger.alloc .threadCount) with
    | (true, ledger) => (system.maxResidentThreads, ledger)
    | (false, ledger) => (0, ledger)
  else (0, ledger)

/-- `GetGPUTimerScale`. -/
def getGPUTimerScale (ledger : Ledger Resource) : Double × Ledger Resource :=
  if system.acquires .timeScale then
    match inChild system .timeScale [.timeScale] true (ledger.alloc .timeScale) with
    | (true, ledger) => (system.gpuTimeScale, ledger)
    | (false, ledger) => (.ofInt (-1), ledger)
  else (.ofInt (-1), ledger)

/-- `GetHostDeviceTimeOffset`. -/
def getHostDeviceTimeOffset (ledger : Ledger Resource) : Bool × Ledger Resource :=
  if system.acquires .gpuTime then
    let ledger := ledger.alloc .gpuTime
    if system.acquires .cpuTime then
      inChild system .gpuTime [.cpuTime, .gpuTime] false (ledger.alloc .cpuTime)
    else (false, ledger.free .gpuTime)
  else (false, ledger)

/-- The log and the library of a benchmark, behind those that have been opened. -/
def openBenchmark (i : ℕ) (opened : List Resource) (ledger : Ledger Resource) :
    Bool × List Resource × Ledger Resource :=
  if system.acquires (.logName i) then
    let ledger := ledger.alloc (.logName i)
    if system.acquires (.outputFile i) then
      let ledger := (ledger.alloc (.outputFile i)).free (.logName i)
      let ledger :=
        if system.acquires (.blockBuffer i) then ledger.alloc (.blockBuffer i) else ledger
      if system.acquires (.library i) then
        (system.exports i, opened ++ [.outputFile i, .library i], ledger.alloc (.library i))
      else (false, opened ++ [.outputFile i], ledger)
    else (false, opened, ledger.free (.logName i))
  else (false, opened, ledger)

/-- `FreeTaskConfigs`, and the end of `CreateTaskConfigs` after an error. -/
def freeTaskConfigs (opened : List Resource) (ledger : Ledger Resource) : Ledger Resource :=
  (ledger.freeAll opened).free .taskList

/-- The loop in `CreateTaskConfigs`, with the files and libraries that have been opened. -/
def createLoop (cpuSet : CpuSet) (config : GlobalConfiguration) :
    List BenchmarkConfiguration → ℕ → ℕ → List Assignment.TaskConfig → List Resource →
      Ledger Resource → Created × List Resource × Ledger Resource
  | [], _, _, newList, opened, ledger => (.created newList, opened, ledger)
  | benchmark :: benchmarks, i, currentCpuCore, newList, opened, ledger =>
      if config.pinCpus then
        match cycleToNextCPU cpuSet cpuSetSize currentCpuCore with
        | none => (.hangs, opened, ledger)
        | some nextCpuCore =>
            match openBenchmark system i opened ledger with
            | (true, opened, ledger) =>
                createLoop cpuSet config benchmarks (i + 1) nextCpuCore
                  (newList ++ [taskConfig config benchmark currentCpuCore]) opened ledger
            | (false, opened, ledger) => (.null, [], freeTaskConfigs opened ledger)
      else if benchmark.cpuCore ≠ -1 ∧ ¬ cpuIsSet benchmark.cpuCore cpuSet then
        (.null, [], freeTaskConfigs opened ledger)
      else
        match openBenchmark system i opened ledger with
        | (true, opened, ledger) =>
            createLoop cpuSet config benchmarks (i + 1) currentCpuCore
              (newList ++ [taskConfig config benchmark benchmark.cpuCore]) opened ledger
        | (false, opened, ledger) => (.null, [], freeTaskConfigs opened ledger)

/-- `CreateTaskConfigs`. -/
def createTaskConfigs (config : GlobalConfiguration) (ledger : Ledger Resource) :
    Created × List Resource × Ledger Resource :=
  if system.acquires .taskList then
    let ledger := ledger.alloc .taskList
    match system.affinity with
    | none => (.null, [], freeTaskConfigs [] ledger)
    | some cpuSet =>
        match firstCpu cpuSet with
        | none => (.hangs, [], ledger)
        | some currentCpuCore =>
            createLoop system cpuSet config config.benchmarks 0 currentCpuCore [] [] ledger
  else (.null, [], ledger)

/-- `Cleanup`. -/
def cleanup (state : SharedState) (ledger : Ledger Resource) : Ledger Resource :=
  let ledger := if state.barrierCreated then ledger.free .barrier else ledger
  let ledger := if state.terminate then ledger.free .terminate else ledger
  let ledger := match state.taskConfigs with
    | some opened => freeTaskConfigs opened ledger
    | none => ledger
  let ledger := if state.config then ledger.free .config else ledger
  ledger.free .sharedState

/-- What comes of `Initialize`. -/
inductive Started where
  | hangs
  | null (ledger : Ledger Resource)
  | started (state : SharedState) (ledger : Ledger Resource)

/-- The rest of `Initialize`, when the tasks have been created. -/
def startHost (opened : List Resource) (ledger : Ledger Resource) : Started :=
  match getGPUTimerScale system ledger with
  | (gpuTimeScale, ledger) =>
      if ¬ gpuTimeScale.Positive then .null (cleanup ⟨true, some opened, false, false⟩ ledger)
      else if system.acquires .barrier then
        let ledger := ledger.alloc .barrier
        let ledger := if system.acquires .terminate then ledger.alloc .terminate else ledger
        let state : SharedState := ⟨true, some opened, true, system.acquires .terminate⟩
        match getHostDeviceTimeOffset system ledger with
        | (true, ledger) => .started state ledger
        | (false, ledger) => .null (cleanup state ledger)
      else .null (cleanup ⟨true, some opened, false, false⟩ ledger)

/-- `Initialize`, with what `ParseConfiguration` makes of `additional_info`. -/
def initializeHost (parsed : Except Stop GlobalConfiguration) (ledger : Ledger Resource) :
    Started :=
  if system.acquires .sharedState then
    let ledger := ledger.alloc .sharedState
    match parsed with
    | .error _ => .null (cleanup ⟨false, none, false, false⟩ ledger)
    | .ok config =>
        let ledger := ledger.alloc .config
        match getMaxResidentThreads system ledger with
        | (maxResidentThreads, ledger) =>
            if maxResidentThreads = 0 then .null (cleanup ⟨true, none, false, false⟩ ledger)
            else
              match createTaskConfigs system config ledger with
              | (.hangs, _, _) => .hangs
              | (.null, _, ledger) => .null (cleanup ⟨true, none, false, false⟩ ledger)
              | (.created _, opened, ledger) => startHost system opened ledger
  else .null ledger

end Code

/-! ## The tasks -/

/-- What the assignment of CPUs is given by the system. -/
def System.host (system : System) : Assignment.Host where
  allocates := system.acquires .taskList
  affinity := system.affinity
  opens i := system.acquires (.logName i) && system.acquires (.outputFile i) &&
    system.acquires (.library i) && system.exports i

section Tasks

variable {i : ℕ} {opened : List Resource} {ledger : Ledger Resource}

theorem openBenchmark_fst (system : System) :
    (openBenchmark system i opened ledger).1 = system.host.opens i := by
  rw [openBenchmark, System.host]
  dsimp only
  split_ifs with hname hfile hlibrary <;> simp [*]

theorem createLoop_fst (system : System) {cpuSet : CpuSet} {config : GlobalConfiguration}
    {benchmarks : List BenchmarkConfiguration} {currentCpuCore : ℕ}
    {newList : List Assignment.TaskConfig} :
    (createLoop system cpuSet config benchmarks i currentCpuCore newList opened ledger).1 =
      Assignment.createLoop system.host cpuSet config benchmarks i currentCpuCore newList := by
  induction benchmarks generalizing i currentCpuCore newList opened ledger with
  | nil => rfl
  | cons benchmark benchmarks ih =>
      have hopens : (openBenchmark system i opened ledger).1 = system.host.opens i :=
        openBenchmark_fst system
      cases hopen : openBenchmark system i opened ledger with
      | mk ok rest =>
          obtain ⟨opened', ledger'⟩ := rest
          rw [hopen] at hopens
          rw [createLoop, Assignment.createLoop, hopen, ← hopens]
          by_cases hpin : config.pinCpus = true
          · rw [if_pos hpin, if_pos hpin]
            cases cycleToNextCPU cpuSet cpuSetSize currentCpuCore with
            | none => rfl
            | some nextCpuCore =>
                cases ok with
                | true => exact ih
                | false => rfl
          · rw [if_neg hpin, if_neg hpin]
            split_ifs with hcore hok
            · rfl
            · cases hok
              exact ih
            · cases ok with
              | true => exact absurd rfl hok
              | false => rfl

theorem createTaskConfigs_fst (system : System) (config : GlobalConfiguration) :
    (createTaskConfigs system config ledger).1 =
      Assignment.createTaskConfigs system.host config := by
  rw [createTaskConfigs, Assignment.createTaskConfigs]
  by_cases hlist : system.acquires .taskList = true
  · have hallocates : system.host.allocates = true := hlist
    have haffinity : system.host.affinity = system.affinity := rfl
    rw [if_pos hlist, if_pos hallocates, haffinity]
    dsimp only
    cases system.affinity with
    | none => rfl
    | some cpuSet =>
        dsimp only
        cases firstCpu cpuSet with
        | none => rfl
        | some currentCpuCore => exact createLoop_fst system
  · have hallocates : ¬ system.host.allocates = true := hlist
    rw [if_neg hlist, if_neg hallocates]

end Tasks

/-! ## Who owns what -/

/-- The order in which the resources are acquired for `n` benchmarks. -/
def turn (n : ℕ) : Resource → ℕ
  | .sharedState => 0
  | .config => 1
  | .threadCount => 2
  | .taskList => 3
  | .logName i => 4 + 4 * i
  | .outputFile i => 5 + 4 * i
  | .blockBuffer i => 6 + 4 * i
  | .library i => 7 + 4 * i
  | .timeScale => 4 + 4 * n
  | .barrier => 5 + 4 * n
  | .terminate => 6 + 4 * n
  | .gpuTime => 7 + 4 * n
  | .cpuTime => 8 + 4 * n

/-- These resources are held, all before some turn, and no buffer of a log has been freed. -/
structure Owns (n : ℕ) (ledger : Ledger Resource) (held : List Resource) (next : ℕ) : Prop where
  holds : ledger.Holds held
  before : ∀ r ∈ ledger.allocated, turn n r < next
  buffers : ∀ i, Resource.blockBuffer i ∉ ledger.freed

/-- Buffers of logs, which nobody frees. -/
def AreBuffers (left : List Resource) : Prop := ∀ r ∈ left, ∃ i, r = .blockBuffer i

section Owns

variable {system : System} {n i next : ℕ} {ledger : Ledger Resource} {held held' : List Resource}
  {opened left base : List Resource} {r : Resource}

theorem Owns.of_perm (h : Owns n ledger held next) (hperm : held.Perm held') :
    Owns n ledger held' next :=
  ⟨h.holds.of_perm hperm, h.before, h.buffers⟩

theorem Owns.mono {next' : ℕ} (h : Owns n ledger held next) (hle : next ≤ next') :
    Owns n ledger held next' :=
  ⟨h.holds, fun r hr => (h.before r hr).trans_le hle, h.buffers⟩

theorem Owns.alloc (h : Owns n ledger held next) (hnext : next ≤ turn n r) :
    Owns n (ledger.alloc r) (r :: held) (turn n r + 1) := by
  refine ⟨h.holds.alloc fun hr => ?_, fun r' hr' => ?_, h.buffers⟩
  · exact absurd (h.before r hr) (not_lt.mpr hnext)
  · rcases List.mem_cons.mp hr' with rfl | hbefore
    · exact Nat.lt_succ_self _
    · have hlt := h.before r' hbefore
      omega

theorem Owns.free (h : Owns n ledger (r :: held) next) (hr : ∀ i, r ≠ .blockBuffer i) :
    Owns n (ledger.free r) held next := by
  refine ⟨h.holds.free, h.before, fun i hi => ?_⟩
  rcases List.mem_cons.mp hi with hself | hfreed
  · exact hr i hself.symm
  · exact h.buffers i hfreed

theorem Owns.freeAll (h : Owns n ledger (opened ++ held) next)
    (hopened : ∀ i, Resource.blockBuffer i ∉ opened) :
    Owns n (ledger.freeAll opened) held next := by
  induction opened generalizing ledger with
  | nil => exact h
  | cons r opened ih =>
      refine ih (h.free fun i hi => hopened i (hi ▸ List.mem_cons_self)) fun i hi => ?_
      exact hopened i (List.mem_cons_of_mem r hi)

/-- What a benchmark opens is kept, or left if it is the buffer of the log. -/
theorem openBenchmark_spec (h : Owns n ledger (opened ++ left ++ base) (4 + 4 * i))
    (hleft : AreBuffers left) (hopened : ∀ i, Resource.blockBuffer i ∉ opened)
    {ok : Bool} {opened' : List Resource} {ledger' : Ledger Resource}
    (hopen : openBenchmark system i opened ledger = (ok, opened', ledger')) :
    ∃ left', AreBuffers left' ∧ (∀ i, Resource.blockBuffer i ∉ opened') ∧
      Owns n ledger' (opened' ++ left' ++ base) (4 + 4 * (i + 1)) := by
  have hmono {l : Ledger Resource} {held : List Resource} {next : ℕ} (h : Owns n l held next)
      (hle : next ≤ 4 + 4 * (i + 1)) : Owns n l held (4 + 4 * (i + 1)) := h.mono hle
  rw [openBenchmark] at hopen
  by_cases hname : system.acquires (.logName i) = true
  · rw [if_pos hname] at hopen
    have hnamed := h.alloc (r := .logName i) le_rfl
    by_cases hfile : system.acquires (.outputFile i) = true
    · dsimp only at hopen
      rw [if_pos hfile] at hopen
      have hfiled := ((hnamed.alloc (r := .outputFile i) (by simp only [turn]; omega)).of_perm
        (List.Perm.swap _ _ _)).free (fun _ => by simp)
      have hbuffered : ∃ left', AreBuffers left' ∧
          Owns n (if system.acquires (.blockBuffer i) = true then
            (((ledger.alloc (.logName i)).alloc (.outputFile i)).free (.logName i)).alloc
              (.blockBuffer i)
            else ((ledger.alloc (.logName i)).alloc (.outputFile i)).free (.logName i))
            (opened ++ [.outputFile i] ++ left' ++ base) (7 + 4 * i) := by
        split_ifs
        · refine ⟨.blockBuffer i :: left, ?_, ?_⟩
          · intro r hr
            rcases List.mem_cons.mp hr with rfl | hr
            · exact ⟨i, rfl⟩
            · exact hleft r hr
          · refine ((hfiled.alloc (r := .blockBuffer i) (by simp only [turn]; omega)).mono
              (by simp only [turn]; omega)).of_perm (List.perm_iff_count.mpr fun a => ?_)
            simp only [List.count_append, List.count_cons, List.count_nil]
            omega
        · refine ⟨left, hleft, (hfiled.mono (by simp only [turn]; omega)).of_perm
            (List.perm_iff_count.mpr fun a => ?_)⟩
          simp only [List.count_append, List.count_cons, List.count_nil]
          omega
      obtain ⟨left', hleft', howns⟩ := hbuffered
      by_cases hlibrary : system.acquires (.library i) = true
      · rw [if_pos hlibrary] at hopen
        cases hopen
        refine ⟨left', hleft', fun j => by simp [hopened j], ?_⟩
        refine hmono ((howns.alloc (r := .library i) (by simp only [turn]; omega)).of_perm
          (List.perm_iff_count.mpr fun a => ?_)) (by simp only [turn]; omega)
        simp only [List.count_append, List.count_cons, List.count_nil]
        omega
      · rw [if_neg hlibrary] at hopen
        cases hopen
        exact ⟨left', hleft', fun j => by simp [hopened j], hmono howns (by omega)⟩
    · dsimp only at hopen
      rw [if_neg hfile] at hopen
      cases hopen
      exact ⟨left, hleft, hopened,
        hmono (hnamed.free fun _ => by simp) (by simp only [turn]; omega)⟩
  · rw [if_neg hname] at hopen
    cases hopen
    exact ⟨left, hleft, hopened, hmono h (by omega)⟩

theorem owns_freeTaskConfigs (h : Owns n ledger (opened ++ left ++ .taskList :: base) next)
    (hopened : ∀ i, Resource.blockBuffer i ∉ opened) :
    Owns n (freeTaskConfigs opened ledger) (left ++ base) next := by
  have hlist : Owns n ledger (opened ++ (.taskList :: (left ++ base))) next := by
    refine h.of_perm (List.perm_iff_count.mpr fun a => ?_)
    simp only [List.count_append, List.count_cons]
    omega
  exact (hlist.freeAll hopened).free fun _ => by simp

/-- What is held when the tasks have been created, or not. -/
def Opened (n : ℕ) (base : List Resource) : Created × List Resource × Ledger Resource → Prop
  | (.hangs, _, _) => True
  | (.null, _, ledger) => ∃ left, AreBuffers left ∧ Owns n ledger (left ++ base) (4 + 4 * n)
  | (.created _, opened, ledger) =>
      ∃ left, AreBuffers left ∧ (∀ i, Resource.blockBuffer i ∉ opened) ∧
        Owns n ledger (opened ++ left ++ .taskList :: base) (4 + 4 * n)

theorem opened_createLoop {cpuSet : CpuSet} {config : GlobalConfiguration}
    {benchmarks : List BenchmarkConfiguration} {currentCpuCore : ℕ}
    {newList : List Assignment.TaskConfig} (hn : i + benchmarks.length = n)
    (h : Owns n ledger (opened ++ left ++ .taskList :: base) (4 + 4 * i))
    (hleft : AreBuffers left) (hopened : ∀ i, Resource.blockBuffer i ∉ opened) :
    Opened n base
      (createLoop system cpuSet config benchmarks i currentCpuCore newList opened ledger) := by
  induction benchmarks generalizing i currentCpuCore newList opened ledger left with
  | nil =>
      obtain rfl : i = n := hn
      exact ⟨left, hleft, hopened, h⟩
  | cons benchmark benchmarks ih =>
      rw [List.length_cons] at hn
      cases hopen : openBenchmark system i opened ledger with
      | mk ok rest =>
          obtain ⟨opened', ledger'⟩ := rest
          obtain ⟨left', hleft', hopened', howns⟩ := openBenchmark_spec h hleft hopened hopen
          have hnull := (owns_freeTaskConfigs howns hopened').mono
            (by omega : 4 + 4 * (i + 1) ≤ 4 + 4 * n)
          rw [createLoop, hopen]
          by_cases hpin : config.pinCpus = true
          · rw [if_pos hpin]
            cases cycleToNextCPU cpuSet cpuSetSize currentCpuCore with
            | none => trivial
            | some nextCpuCore =>
                cases ok with
                | true => exact ih (by omega) howns hleft' hopened'
                | false => exact ⟨left', hleft', hnull⟩
          · rw [if_neg hpin]
            split_ifs with hcore
            · exact ⟨left, hleft, (owns_freeTaskConfigs h hopened).mono (by omega)⟩
            · cases ok with
              | true => exact ih (by omega) howns hleft' hopened'
              | false => exact ⟨left', hleft', hnull⟩

theorem opened_createTaskConfigs (system : System) {config : GlobalConfiguration}
    (h : Owns config.benchmarks.length ledger base 3) :
    Opened config.benchmarks.length base (createTaskConfigs system config ledger) := by
  have hnone : AreBuffers [] := fun r hr => absurd hr List.not_mem_nil
  rw [createTaskConfigs]
  by_cases hlist : system.acquires .taskList = true
  · rw [if_pos hlist]
    have howns : Owns config.benchmarks.length (ledger.alloc .taskList)
        ([] ++ [] ++ .taskList :: base) 4 := h.alloc le_rfl
    dsimp only
    cases system.affinity with
    | none =>
        exact ⟨[], hnone, (owns_freeTaskConfigs howns fun _ => List.not_mem_nil).mono
          (by omega)⟩
    | some cpuSet =>
        dsimp only
        cases firstCpu cpuSet with
        | none => trivial
        | some currentCpuCore =>
            exact opened_createLoop (by simp) howns hnone fun _ => List.not_mem_nil
  · rw [if_neg hlist]
    exact ⟨[], hnone, h.mono (by omega)⟩

/-! ## The children -/

theorem getMaxResidentThreads_spec (system : System) (h : Owns n ledger held 2) :
    ∃ left, Owns n (getMaxResidentThreads system ledger).2 (left ++ held) 3 ∧
      (left = [] ∨ left = [.threadCount] ∧ system.forks .threadCount = false ∧
        (getMaxResidentThreads system ledger).1 = 0) := by
  rw [getMaxResidentThreads]
  by_cases hacquires : system.acquires .threadCount = true
  · rw [if_pos hacquires, inChild]
    have howns : Owns n (ledger.alloc .threadCount) (.threadCount :: held) 3 := h.alloc le_rfl
    cases hforks : system.forks .threadCount with
    | true =>
        refine ⟨[], ?_, .inl rfl⟩
        have hfreed := howns.free fun _ => by simp
        rw [if_pos rfl]
        cases system.waits .threadCount && system.exits .threadCount <;> exact hfreed
    | false => exact ⟨[.threadCount], howns, .inr ⟨rfl, rfl, rfl⟩⟩
  · rw [if_neg hacquires]
    exact ⟨[], h.mono (by omega), .inl rfl⟩

theorem getGPUTimerScale_spec (system : System) (h : Owns n ledger held (4 + 4 * n)) :
    Owns n (getGPUTimerScale system ledger).2 held (5 + 4 * n) := by
  rw [getGPUTimerScale]
  by_cases hacquires : system.acquires .timeScale = true
  · rw [if_pos hacquires, inChild]
    have howns := (h.alloc (r := .timeScale) le_rfl).free fun _ => by simp
    have hfreed : Owns n ((ledger.alloc .timeScale).freeAll [.timeScale]) held (5 + 4 * n) :=
      howns.mono (by simp only [turn]; omega)
    cases system.forks .timeScale with
    | true =>
        rw [if_pos rfl]
        cases system.waits .timeScale && system.exits .timeScale <;> exact hfreed
    | false => exact hfreed
  · rw [if_neg hacquires]
    exact h.mono (by omega)

theorem getHostDeviceTimeOffset_spec (system : System) (h : Owns n ledger held (7 + 4 * n)) :
    ∃ left, Owns n (getHostDeviceTimeOffset system ledger).2 (left ++ held) (9 + 4 * n) ∧
      (left = [] ∨ left = [.cpuTime, .gpuTime] ∧ system.forks .gpuTime = false ∧
        (getHostDeviceTimeOffset system ledger).1 = false) := by
  rw [getHostDeviceTimeOffset]
  by_cases hgpu : system.acquires .gpuTime = true
  · rw [if_pos hgpu]
    have howns := h.alloc (r := .gpuTime) le_rfl
    dsimp only
    by_cases hcpu : system.acquires .cpuTime = true
    · rw [if_pos hcpu, inChild]
      have hboth : Owns n ((ledger.alloc .gpuTime).alloc .cpuTime)
          (.cpuTime :: .gpuTime :: held) (9 + 4 * n) :=
        (howns.alloc (r := .cpuTime) (by simp only [turn]; omega)).mono
          (by simp only [turn]; omega)
      cases hforks : system.forks .gpuTime with
      | true =>
          rw [if_pos rfl]
          exact ⟨[], (hboth.free fun _ => by simp).free fun _ => by simp, .inl rfl⟩
      | false => exact ⟨[.cpuTime, .gpuTime], hboth, .inr ⟨rfl, rfl, rfl⟩⟩
    · rw [if_neg hcpu]
      exact ⟨[], (howns.free fun _ => by simp).mono (by simp only [turn]; omega), .inl rfl⟩
  · rw [if_neg hgpu]
    exact ⟨[], h.mono (by omega), .inl rfl⟩

/-! ## Cleaning up -/

/-- What `Cleanup` frees. -/
def SharedState.resources (state : SharedState) : List Resource :=
  (if state.barrierCreated then [.barrier] else []) ++
    ((if state.terminate then [.terminate] else []) ++
      ((match state.taskConfigs with
        | some opened => opened ++ [.taskList]
        | none => []) ++
        ((if state.config then [.config] else []) ++ [.sharedState])))

theorem Owns.freeIf {b : Bool} (h : Owns n ledger ((if b then [r] else []) ++ held) next)
    (hr : ∀ i, r ≠ .blockBuffer i) :
    Owns n (if b then ledger.free r else ledger) held next := by
  cases b with
  | false => exact h
  | true => exact h.free hr

theorem owns_cleanup {state : SharedState} (h : Owns n ledger (state.resources ++ left) next)
    (hopened : ∀ opened, state.taskConfigs = some opened →
      ∀ i, Resource.blockBuffer i ∉ opened) : Owns n (cleanup state ledger) left next := by
  obtain ⟨config, taskConfigs, barrierCreated, terminate⟩ := state
  simp only [SharedState.resources, List.append_assoc] at h
  have hbarrier := h.freeIf fun _ => by simp
  have hterminate := hbarrier.freeIf fun _ => by simp
  cases taskConfigs with
  | none =>
      have hconfig := hterminate.freeIf fun _ => by simp
      exact hconfig.free fun _ => by simp
  | some opened =>
      rw [List.append_assoc] at hterminate
      have htasks := (hterminate.freeAll (hopened opened rfl)).free fun _ => by simp
      have hconfig := htasks.freeIf fun _ => by simp
      exact hconfig.free fun _ => by simp

/-! ## Starting -/

/-- What may be left: the buffers of the logs, and what was allocated for a child that could not
be forked. -/
def MayRemain (system : System) (r : Resource) : Prop :=
  (∃ i, r = .blockBuffer i) ∨ r = .threadCount ∧ system.forks .threadCount = false ∨
    (r = .gpuTime ∨ r = .cpuTime) ∧ system.forks .gpuTime = false

/-- Only some resources are left, and no buffer of a log has been freed. -/
def Leaves (remains : Resource → Prop) (ledger : Ledger Resource) : Prop :=
  ∃ left, ledger.Holds left ∧ (∀ r ∈ left, remains r) ∧
    ∀ i, Resource.blockBuffer i ∉ ledger.freed

/-- What is left in the end, also if the host is cleaned up later. -/
def Settles (system : System) : Started → Prop
  | .hangs => True
  | .null ledger => Leaves (MayRemain system) ledger
  | .started state ledger => Leaves (fun r => ∃ i, r = .blockBuffer i) (cleanup state ledger)

theorem Owns.leaves {remains : Resource → Prop} (h : Owns n ledger left next)
    (hleft : ∀ r ∈ left, remains r) : Leaves remains ledger := ⟨left, h.holds, hleft, h.buffers⟩

theorem AreBuffers.mayRemain (h : AreBuffers left) : ∀ r ∈ left, MayRemain system r :=
  fun r hr => .inl (h r hr)

theorem settles_startHost (hopened : ∀ i, Resource.blockBuffer i ∉ opened)
    (hleft : AreBuffers left)
    (h : Owns n ledger (opened ++ left ++ .taskList :: [.config, .sharedState]) (4 + 4 * n)) :
    Settles system (startHost system opened ledger) := by
  have hall (opened' : List Resource) (heq : some opened = some opened') :
      ∀ i, Resource.blockBuffer i ∉ opened' := by
    cases heq
    exact hopened
  have hscale := getGPUTimerScale_spec system h
  have hplain : Owns n (getGPUTimerScale system ledger).2
      ((SharedState.mk true (some opened) false false).resources ++ left) (5 + 4 * n) := by
    refine hscale.of_perm (List.perm_iff_count.mpr fun a => ?_)
    simp [SharedState.resources, List.count_cons]
    omega
  have hnull : Settles system (.null (cleanup ⟨true, some opened, false, false⟩
      (getGPUTimerScale system ledger).2)) :=
    (owns_cleanup hplain hall).leaves hleft.mayRemain
  rw [startHost]
  cases hresult : getGPUTimerScale system ledger with
  | mk gpuTimeScale ledger₁ =>
      rw [hresult] at hnull hplain
      dsimp only
      by_cases hpositive : gpuTimeScale.Positive
      · rw [if_neg (not_not.mpr hpositive)]
        by_cases hbarrier : system.acquires .barrier = true
        · rw [if_pos hbarrier]
          have hmapped : Owns n
              (if system.acquires .terminate = true then
                (ledger₁.alloc .barrier).alloc .terminate else ledger₁.alloc .barrier)
              ((SharedState.mk true (some opened) true (system.acquires .terminate)).resources ++
                left)
              (7 + 4 * n) := by
            have hcreated := hplain.alloc (r := .barrier) le_rfl
            cases system.acquires .terminate with
            | false =>
                refine (hcreated.mono (by simp only [turn]; omega)).of_perm
                  (List.perm_iff_count.mpr fun a => ?_)
                simp [SharedState.resources, List.count_cons]
            | true =>
                refine ((hcreated.alloc (r := .terminate) (by simp only [turn]; omega)).mono
                  (by simp only [turn]; omega)).of_perm (List.perm_iff_count.mpr fun a => ?_)
                simp [SharedState.resources, List.count_cons]
                omega
          obtain ⟨more, howns, hmore⟩ := getHostDeviceTimeOffset_spec system hmapped
          cases hoffset : getHostDeviceTimeOffset system
              (if system.acquires .terminate = true then
                (ledger₁.alloc .barrier).alloc .terminate else ledger₁.alloc .barrier) with
          | mk ok ledger₂ =>
              rw [hoffset] at howns hmore
              have hclean : Owns n (cleanup ⟨true, some opened, true, system.acquires .terminate⟩
                  ledger₂) (more ++ left) (9 + 4 * n) := by
                refine owns_cleanup (howns.of_perm (List.perm_iff_count.mpr fun a => ?_)) hall
                simp only [List.count_append]
                omega
              cases ok with
              | true =>
                  have hmore' := hmore.resolve_right (fun hboth => by cases hboth.2.2)
                  rw [hmore', List.nil_append] at hclean
                  exact hclean.leaves hleft
              | false =>
                  refine hclean.leaves fun r hr => ?_
                  rcases List.mem_append.mp hr with hr | hr
                  · rcases hmore with rfl | ⟨rfl, hforks, -⟩
                    · exact absurd hr List.not_mem_nil
                    · simp only [List.mem_cons, List.not_mem_nil, or_false] at hr
                      exact .inr (.inr ⟨hr.symm, hforks⟩)
                  · exact .inl (hleft r hr)
        · rw [if_neg hbarrier]
          exact hnull
      · rw [if_pos hpositive]
        exact hnull

theorem settles_initializeHost (system : System) (parsed : Except Stop GlobalConfiguration) :
    Settles system (initializeHost system parsed ⟨[], []⟩) := by
  have hempty (n : ℕ) : Owns n (⟨[], []⟩ : Ledger Resource) [] 0 :=
    ⟨.empty, fun r hr => absurd hr List.not_mem_nil, fun _ => List.not_mem_nil⟩
  rw [initializeHost]
  by_cases hstate : system.acquires .sharedState = true
  · rw [if_pos hstate]
    have hshared (n : ℕ) : Owns n (Ledger.alloc ⟨[], []⟩ Resource.sharedState) [.sharedState] 1 :=
      (hempty n).alloc le_rfl
    dsimp only
    cases parsed with
    | error stop =>
        exact ((hshared 0).free fun _ => by simp).leaves fun r hr => absurd hr List.not_mem_nil
    | ok config =>
        have hconfig : Owns config.benchmarks.length
            ((Ledger.alloc ⟨[], []⟩ Resource.sharedState).alloc .config)
            [.config, .sharedState] 2 := (hshared _).alloc le_rfl
        obtain ⟨left, hthreads, hleft⟩ := getMaxResidentThreads_spec system hconfig
        dsimp only
        cases hresult : getMaxResidentThreads system
            ((Ledger.alloc ⟨[], []⟩ Resource.sharedState).alloc .config) with
        | mk maxResidentThreads ledger₁ =>
            rw [hresult] at hthreads hleft
            dsimp only at hthreads hleft ⊢
            by_cases hzero : maxResidentThreads = 0
            · rw [if_pos hzero]
              have hclean : Owns config.benchmarks.length
                  (cleanup ⟨true, none, false, false⟩ ledger₁) left 3 := by
                refine owns_cleanup (hthreads.of_perm List.perm_append_comm) ?_
                intro _ hnone
                cases hnone
              refine hclean.leaves fun r hr => ?_
              rcases hleft with rfl | ⟨rfl, hforks, -⟩
              · exact absurd hr List.not_mem_nil
              · exact .inr (.inl ⟨List.mem_singleton.mp hr, hforks⟩)
            · rw [if_neg hzero]
              have hnone := hleft.resolve_right fun hboth => hzero hboth.2.2
              rw [hnone, List.nil_append] at hthreads
              have hcreated := opened_createTaskConfigs system hthreads
              cases hcreate : createTaskConfigs system config ledger₁ with
              | mk created rest =>
                  obtain ⟨opened, ledger₂⟩ := rest
                  rw [hcreate] at hcreated
                  cases created with
                  | hangs => trivial
                  | null =>
                      obtain ⟨left', hleft', howns⟩ := hcreated
                      have hclean : Owns config.benchmarks.length
                          (cleanup ⟨true, none, false, false⟩ ledger₂) left'
                          (4 + 4 * config.benchmarks.length) := by
                        refine owns_cleanup (howns.of_perm List.perm_append_comm) ?_
                        intro _ hnone
                        cases hnone
                      exact hclean.leaves hleft'.mayRemain
                  | created newList =>
                      obtain ⟨left', hleft', hopened, howns⟩ := hcreated
                      exact settles_startHost hopened hleft' howns
  · rw [if_neg hstate]
    exact (hempty 0).leaves fun r hr => absurd hr List.not_mem_nil

end Owns

/-! ## Results -/

/-- Whichever calls fail: if `Initialize` of the task host returns `NULL`, all that it has
acquired has been released, each once, but for the buffers of the logs, none of which is ever
freed, and for what was allocated for a child that could not be forked.  If it succeeds, `Cleanup`
releases all but the buffers of the logs. -/
theorem host_releases (system : System) (parsed : Except Stop GlobalConfiguration) :
    (∀ ledger, initializeHost system parsed ⟨[], []⟩ = .null ledger →
      Leaves (MayRemain system) ledger) ∧
    ∀ state ledger, initializeHost system parsed ⟨[], []⟩ = .started state ledger →
      Leaves (fun r => ∃ i, r = .blockBuffer i) (cleanup state ledger) := by
  have hsettles := settles_initializeHost system parsed
  constructor
  · intro ledger hnull
    rwa [hnull] at hsettles
  · intro state ledger hstarted
    rwa [hstarted] at hsettles

/-- All calls succeed but the first `fork`. -/
def unforked : System where
  acquires _ := true
  affinity := some {0}
  exports _ := true
  forks child := child ≠ .threadCount
  waits _ := true
  exits _ := true
  maxResidentThreads := 2048
  gpuTimeScale := .ofInt 1

/-- What was allocated for that child is left. -/
theorem host_releases_unforked :
    initializeHost unforked (Config.parseRoot (fun _ => 0) false (Config.scenario [] []))
        ⟨[], []⟩ = .null ⟨[.threadCount, .config, .sharedState], [.sharedState, .config]⟩ ∧
      Leaves (MayRemain unforked)
        ⟨[.threadCount, .config, .sharedState], [.sharedState, .config]⟩ :=
  ⟨rfl, (host_releases unforked
    (Config.parseRoot (fun _ => 0) false (Config.scenario [] []))).1 _ rfl⟩

end A100Partitioning.TaskHost.HostResources
