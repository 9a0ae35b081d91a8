import A100Partitioning.Config.ParseConfiguration
import A100Partitioning.Support.RoundRobin
import Mathlib.Tactic.Common

/-!
# The CPUs of the benchmarks

The benchmarks take turns on the available CPUs.  The search for the first CPU starts
behind core 1, so that core 1 is only found after core 0.
-/

namespace A100Partitioning.TaskHost.Assignment

open Support
open Config (GlobalConfiguration BenchmarkConfiguration CJson Double)

/-! ## The code -/

/-- `CPU_SETSIZE`. -/
@[irreducible] def cpuSetSize : ℕ := 1024

theorem cpuSetSize_eq : cpuSetSize = 1024 := by
  rw [cpuSetSize]

instance : NeZero cpuSetSize := ⟨by rw [cpuSetSize_eq]; exact Nat.succ_ne_zero 1023⟩

/-- A `cpu_set_t`. -/
abbrev CpuSet := Finset (Fin cpuSetSize)

/-- `CPU_ISSET`, which no other number is. -/
def cpuIsSet (cpu : ℤ) (cpuSet : CpuSet) : Prop := ∃ c ∈ cpuSet, (c.val : ℤ) = cpu

instance (cpu : ℤ) (cpuSet : CpuSet) : Decidable (cpuIsSet cpu cpuSet) :=
  inferInstanceAs (Decidable (∃ c ∈ cpuSet, (c.val : ℤ) = cpu))

/-- `CycleToNextCPU`, for some turns. -/
def cycleToNextCPU (cpuSet : CpuSet) : ℕ → ℕ → Option ℕ
  | 0, _ => none
  | turns + 1, currentCpu =>
      if cpuIsSet ((currentCpu + 1) % cpuSetSize : ℕ) cpuSet then
        some ((currentCpu + 1) % cpuSetSize)
      else cycleToNextCPU cpuSet turns ((currentCpu + 1) % cpuSetSize)

/-- The CPU that the assignment starts with.  Where nothing is found in a round, the search
does not end. -/
def firstCpu (cpuSet : CpuSet) : Option ℕ :=
  if cpuSet.card ≤ 1 ∧ cpuIsSet 0 cpuSet then some 0 else cycleToNextCPU cpuSet cpuSetSize 1

/-- The settings in a `TaskConfig`. -/
structure TaskConfig where
  maxIterations : ℤ
  maxSeconds : Double
  terminator : Bool
  cudaDevice : ℤ
  label : Option (List Char)
  mpsThreadPercentage : Double
  blockDim : List ℤ
  gridDim : List ℤ
  dataSize : ℤ
  additionalInfo : Option CJson
  releaseTime : Double
  streamPriority : ℤ
  smMask : BitVec 64
  cpuCore : ℤ

/-- The time is given. -/
def isGiven : Double → Bool
  | .finite value => decide (0 ≤ value)
  | .infinite negative => !negative

/-- The settings of a benchmark, on its CPU. -/
def taskConfig (config : GlobalConfiguration) (benchmark : BenchmarkConfiguration)
    (cpuCore : ℤ) : TaskConfig where
  maxIterations :=
    if 0 ≤ benchmark.maxIterations then benchmark.maxIterations else config.maxIterations
  maxSeconds := if isGiven benchmark.maxTime then benchmark.maxTime else config.maxTime
  terminator := benchmark.terminator
  cudaDevice := config.cudaDevice
  label := benchmark.label
  mpsThreadPercentage := benchmark.mpsThreadPercentage
  blockDim := benchmark.blockDim
  gridDim := benchmark.gridDim
  dataSize := benchmark.dataSize
  additionalInfo := benchmark.additionalInfo
  releaseTime := benchmark.releaseTime
  streamPriority := benchmark.streamPriority
  smMask := benchmark.smMask
  cpuCore

/-- What the code is given by the system: memory for the list, the available CPUs, and for
each benchmark its log file and its library. -/
structure Host where
  allocates : Bool
  affinity : Option CpuSet
  opens : ℕ → Bool

/-- What comes of `CreateTaskConfigs`. -/
inductive Created where
  | hangs
  | null
  | created (newList : List TaskConfig)

/-- The loop in `CreateTaskConfigs`, from the `i`-th benchmark on. -/
def createLoop (host : Host) (cpuSet : CpuSet) (config : GlobalConfiguration) :
    List BenchmarkConfiguration → ℕ → ℕ → List TaskConfig → Created
  | [], _, _, newList => .created newList
  | benchmark :: benchmarks, i, currentCpuCore, newList =>
      if config.pinCpus then
        match cycleToNextCPU cpuSet cpuSetSize currentCpuCore with
        | none => .hangs
        | some nextCpuCore =>
            if host.opens i then
              createLoop host cpuSet config benchmarks (i + 1) nextCpuCore
                (newList ++ [taskConfig config benchmark currentCpuCore])
            else .null
      else if benchmark.cpuCore ≠ -1 ∧ ¬ cpuIsSet benchmark.cpuCore cpuSet then .null
      else if host.opens i then
        createLoop host cpuSet config benchmarks (i + 1) currentCpuCore
          (newList ++ [taskConfig config benchmark benchmark.cpuCore])
      else .null

/-- `CreateTaskConfigs`. -/
def createTaskConfigs (host : Host) (config : GlobalConfiguration) : Created :=
  if host.allocates then
    match host.affinity with
    | none => .null
    | some cpuSet =>
        match firstCpu cpuSet with
        | none => .hangs
        | some currentCpuCore =>
            createLoop host cpuSet config config.benchmarks 0 currentCpuCore []
  else .null

/-! ## What is meant -/

/-- The number of benchmarks on a CPU. -/
def load (newList : List TaskConfig) (cpu : Fin cpuSetSize) : ℕ :=
  (newList.map TaskConfig.cpuCore).count (cpu.val : ℤ)

/-- The benchmarks are spread over the available CPUs, and the first is not on core 0 if
there is another. -/
structure WellAssigned (cpuSet : CpuSet) (newList : List TaskConfig) : Prop where
  available : ∀ task ∈ newList, cpuIsSet task.cpuCore cpuSet
  balanced : ∀ cpu ∈ cpuSet, ∀ cpu' ∈ cpuSet, load newList cpu ≤ load newList cpu' + 1
  first : ∀ task, newList.head? = some task → task.cpuCore = 0 → cpuSet = {0}

/-- Every host with these CPUs gets such a list for all benchmarks, unless something cannot
be opened. -/
structure PinsWell (cpuSet : CpuSet) (config : GlobalConfiguration) : Prop where
  returns : ∀ host : Host, host.affinity = some cpuSet → createTaskConfigs host config ≠ .hangs
  opened : ∀ host : Host, host.affinity = some cpuSet → host.allocates = true →
    (∀ i < config.benchmarks.length, host.opens i = true) →
    ∃ newList, createTaskConfigs host config = .created newList
  assigned : ∀ (host : Host) newList, host.affinity = some cpuSet →
    createTaskConfigs host config = .created newList →
    newList.length = config.benchmarks.length ∧ WellAssigned cpuSet newList

/-! ## The next CPU -/

variable {cpuSet : CpuSet}

theorem cycleToNextCPU_eq_some {turns currentCpu nextCpu : ℕ}
    (h : cycleToNextCPU cpuSet turns currentCpu = some nextCpu) :
    ∃ d, 1 ≤ d ∧ d ≤ turns ∧ nextCpu = (currentCpu + d) % cpuSetSize ∧
      cpuIsSet nextCpu cpuSet ∧
      ∀ e, 1 ≤ e → e < d → ¬ cpuIsSet ((currentCpu + e) % cpuSetSize : ℕ) cpuSet := by
  induction turns generalizing currentCpu with
  | zero => cases h
  | succ turns ih =>
      rw [cycleToNextCPU] at h
      split_ifs at h with hset
      · cases h
        exact ⟨1, le_rfl, by omega, rfl, hset, fun e he hlt => absurd hlt (by omega)⟩
      · obtain ⟨d, hd, hturns, hnext, hisSet, hbetween⟩ := ih h
        have hplace (e : ℕ) : ((currentCpu + 1) % cpuSetSize + e) % cpuSetSize =
            (currentCpu + (e + 1)) % cpuSetSize := by
          rw [Nat.mod_add_mod, Nat.add_assoc, Nat.add_comm 1 e]
        refine ⟨d + 1, by omega, by omega, ?_, hisSet, ?_⟩
        · rw [hnext, hplace]
        · intro e he hlt
          by_cases hone : e = 1
          · rw [hone]
            exact hset
          · have hrest := hbetween (e - 1) (by omega) (by omega)
            rw [hplace, Nat.sub_add_cancel he] at hrest
            exact hrest

theorem cycleToNextCPU_isSome {turns currentCpu d : ℕ} (hd : 1 ≤ d) (hturns : d ≤ turns)
    (hset : cpuIsSet ((currentCpu + d) % cpuSetSize : ℕ) cpuSet) :
    ∃ nextCpu, cycleToNextCPU cpuSet turns currentCpu = some nextCpu := by
  induction turns generalizing currentCpu d with
  | zero => omega
  | succ turns ih =>
      rw [cycleToNextCPU]
      split_ifs with hnext
      · exact ⟨_, rfl⟩
      · by_cases hone : d = 1
        · rw [hone] at hset
          exact absurd hset hnext
        · apply ih (d := d - 1) (by omega) (by omega)
          have hplace : currentCpu + 1 + (d - 1) = currentCpu + d := by omega
          rw [Nat.mod_add_mod, hplace]
          exact hset

theorem exists_nextCPU (hcpus : cpuSet.Nonempty) {turns : ℕ} (hturns : cpuSetSize ≤ turns)
    (currentCpu : ℕ) : ∃ nextCpu, cycleToNextCPU cpuSet turns currentCpu = some nextCpu := by
  obtain ⟨cpu, hcpu⟩ := hcpus
  obtain ⟨d, hd, hle, hplace⟩ := exists_add_mod_eq cpu.isLt currentCpu
  apply cycleToNextCPU_isSome hd (hle.trans hturns)
  exact ⟨cpu, hcpu, by rw [hplace]⟩

/-! ## The loop -/

/-- The CPUs that were assigned, on a tour through the available ones. -/
def Assigned (cpuSet : CpuSet) (start position : ℕ) (newList : List TaskConfig) : Prop :=
  ∃ taken : List ℕ, newList.map TaskConfig.cpuCore = taken.map (fun cpu : ℕ => (cpu : ℤ)) ∧
    (∀ cpu ∈ taken, cpuIsSet cpu cpuSet) ∧
    Toured cpuSetSize (fun cpu => cpuIsSet cpu cpuSet) start position taken

/-- A turn of the loop takes the current CPU and moves to the next one. -/
theorem Assigned.step {start position nextCpu : ℕ} {newList : List TaskConfig}
    (h : Assigned cpuSet start position newList)
    (hset : cpuIsSet (position % cpuSetSize : ℕ) cpuSet)
    (hnext : cycleToNextCPU cpuSet cpuSetSize (position % cpuSetSize) = some nextCpu)
    {task : TaskConfig} (htask : task.cpuCore = (position % cpuSetSize : ℕ)) :
    ∃ position', position' % cpuSetSize = nextCpu ∧ cpuIsSet nextCpu cpuSet ∧
      Assigned cpuSet start position' (newList ++ [task]) := by
  obtain ⟨taken, hlist, hall, htour⟩ := h
  obtain ⟨d, hd, -, hplace, hnextSet, hbetween⟩ := cycleToNextCPU_eq_some hnext
  rw [Nat.mod_add_mod] at hplace
  refine ⟨position + d, hplace.symm, hnextSet, taken ++ [position % cpuSetSize], ?_, ?_, ?_⟩
  · rw [List.map_append, List.map_append, hlist, List.map_singleton, List.map_singleton, htask]
  · intro cpu hcpu
    rcases List.mem_append.mp hcpu with hcpu | hcpu
    · exact hall cpu hcpu
    · rw [List.mem_singleton.mp hcpu]
      exact hset
  · apply htour.take (by omega)
    intro z hz hlt
    have hstep := hbetween (z - position) (by omega) (by omega)
    rw [Nat.mod_add_mod, Nat.add_sub_of_le hz.le] at hstep
    exact hstep

theorem createLoop_assigned {host : Host} {config : GlobalConfiguration}
    (hpin : config.pinCpus = true) {benchmarks : List BenchmarkConfiguration} {i start position : ℕ}
    {newList created : List TaskConfig}
    (h : createLoop host cpuSet config benchmarks i (position % cpuSetSize) newList =
      .created created)
    (hset : cpuIsSet (position % cpuSetSize : ℕ) cpuSet)
    (hassigned : Assigned cpuSet start position newList) :
    created.length = newList.length + benchmarks.length ∧
      ∃ position', Assigned cpuSet start position' created := by
  induction benchmarks generalizing i position newList with
  | nil =>
      cases h
      exact ⟨rfl, position, hassigned⟩
  | cons benchmark benchmarks ih =>
      rw [createLoop, if_pos hpin] at h
      cases hnext : cycleToNextCPU cpuSet cpuSetSize (position % cpuSetSize) with
      | none =>
          rw [hnext] at h
          cases h
      | some nextCpu =>
          rw [hnext] at h
          simp only [] at h
          split_ifs at h with hopens
          have htask :
              (taskConfig config benchmark (position % cpuSetSize : ℕ)).cpuCore =
                (position % cpuSetSize : ℕ) := rfl
          obtain ⟨position', hplace, hnextSet, hstep⟩ := hassigned.step hset hnext htask
          rw [← hplace] at h hnextSet
          obtain ⟨hlength, hend⟩ := ih h hnextSet hstep
          refine ⟨?_, hend⟩
          rw [hlength, List.length_append, List.length_singleton, List.length_cons]
          omega

theorem createLoop_ne_hangs (hcpus : cpuSet.Nonempty) (host : Host)
    (config : GlobalConfiguration) (benchmarks : List BenchmarkConfiguration)
    (i currentCpu : ℕ) (newList : List TaskConfig) :
    createLoop host cpuSet config benchmarks i currentCpu newList ≠ .hangs := by
  induction benchmarks generalizing i currentCpu newList with
  | nil => exact fun h => by cases h
  | cons benchmark benchmarks ih =>
      obtain ⟨nextCpu, hnext⟩ := exists_nextCPU hcpus le_rfl currentCpu
      rw [createLoop, hnext]
      simp only []
      split_ifs
      · exact ih _ _ _
      · exact fun h => by cases h
      · exact fun h => by cases h
      · exact ih _ _ _
      · exact fun h => by cases h

/-- The loop fails only if something cannot be opened. -/
theorem createLoop_created (hcpus : cpuSet.Nonempty) {host : Host}
    {config : GlobalConfiguration} (hpin : config.pinCpus = true)
    {benchmarks : List BenchmarkConfiguration} {i currentCpu : ℕ}
    (hopens : ∀ j < benchmarks.length, host.opens (i + j) = true) (newList : List TaskConfig) :
    ∃ created, createLoop host cpuSet config benchmarks i currentCpu newList =
      .created created := by
  induction benchmarks generalizing i currentCpu newList with
  | nil => exact ⟨newList, rfl⟩
  | cons benchmark benchmarks ih =>
      obtain ⟨nextCpu, hnext⟩ := exists_nextCPU hcpus le_rfl currentCpu
      have hfirst : host.opens i = true := hopens 0 (Nat.succ_pos _)
      rw [createLoop, if_pos hpin, hnext]
      simp only [hfirst, if_true]
      apply ih
      intro j hj
      rw [Nat.add_assoc, Nat.add_comm 1 j]
      exact hopens (j + 1) (Nat.succ_lt_succ hj)

/-! ## The first CPU -/

theorem cpuIsSet_val {cpu : Fin cpuSetSize} : cpuIsSet cpu.val cpuSet ↔ cpu ∈ cpuSet := by
  constructor
  · rintro ⟨c, hc, heq⟩
    rw [← Fin.ext (Int.ofNat_inj.mp heq)]
    exact hc
  · exact fun h => ⟨cpu, h, rfl⟩

theorem cpuIsSet_firstCpu {cpu : ℕ} (h : firstCpu cpuSet = some cpu) :
    cpuIsSet cpu cpuSet ∧ cpu % cpuSetSize = cpu := by
  rw [firstCpu] at h
  split_ifs at h with honly
  · cases h
    exact ⟨honly.2, rfl⟩
  · obtain ⟨d, -, -, hplace, hset, -⟩ := cycleToNextCPU_eq_some h
    refine ⟨hset, ?_⟩
    rw [hplace, Nat.mod_mod]

theorem exists_firstCpu (hcpus : cpuSet.Nonempty) : ∃ cpu, firstCpu cpuSet = some cpu := by
  rw [firstCpu]
  split_ifs
  · exact ⟨0, rfl⟩
  · exact exists_nextCPU hcpus le_rfl 1

theorem val_one : (1 : Fin cpuSetSize).val = 1 := by
  have hval : (1 : Fin cpuSetSize).val = 1 % cpuSetSize := rfl
  rw [hval, cpuSetSize_eq]

theorem firstCpu_zero_one : firstCpu {0, 1} = some 0 := by
  have hcard : ¬ ({0, 1} : CpuSet).card ≤ 1 := by
    intro hcard
    have heq := Finset.card_le_one.mp hcard 0 (Finset.mem_insert_self 0 {1}) 1
      (Finset.mem_insert_of_mem (Finset.mem_singleton_self 1))
    have hval := congrArg Fin.val heq
    rw [val_one] at hval
    exact Nat.zero_ne_one hval
  have hcpus : ({0, 1} : CpuSet).Nonempty := ⟨0, Finset.mem_insert_self 0 {1}⟩
  obtain ⟨nextCpu, hnext⟩ := exists_nextCPU hcpus le_rfl 1
  obtain ⟨d, hd, hle, hplace, ⟨cpu, hcpu, hval⟩, hbetween⟩ := cycleToNextCPU_eq_some hnext
  have hzero : ¬ 1023 < d := by
    intro hlt
    apply hbetween 1023 (by decide) hlt
    have hround : (1 + 1023) % cpuSetSize = 0 := by rw [cpuSetSize_eq]
    rw [hround]
    exact ⟨0, Finset.mem_insert_self 0 {1}, rfl⟩
  have hsmall : nextCpu ≤ 1 := by
    rw [Finset.mem_insert, Finset.mem_singleton] at hcpu
    have hone : cpu.val ≤ 1 := by
      rcases hcpu with rfl | rfl
      · exact Nat.zero_le 1
      · exact val_one.le
    omega
  rw [cpuSetSize_eq] at hplace hle
  rw [firstCpu, if_neg fun h => hcard h.1, hnext]
  congr 1
  omega

/-- Core 0 comes first if it is alone, or if core 1 is the only other one. -/
theorem firstCpu_eq_zero_iff : firstCpu cpuSet = some 0 ↔ cpuSet = {0} ∨ cpuSet = {0, 1} := by
  constructor
  · intro h
    have hzero : (0 : Fin cpuSetSize) ∈ cpuSet := cpuIsSet_val.mp (cpuIsSet_firstCpu h).1
    rw [firstCpu] at h
    split_ifs at h with honly
    · exact .inl (Finset.eq_singleton_iff_unique_mem.mpr
        ⟨hzero, fun cpu hcpu => Finset.card_le_one.mp honly.1 cpu hcpu 0 hzero⟩)
    · obtain ⟨d, hd, hle, hplace, -, hbetween⟩ := cycleToNextCPU_eq_some h
      rw [cpuSetSize_eq] at hplace hle
      have hround : d = 1023 := by omega
      have hsmall : ∀ cpu ∈ cpuSet, cpu.val ≤ 1 := by
        intro cpu hcpu
        by_contra hlarge
        have hlt : cpu.val < 1024 := lt_of_lt_of_eq cpu.isLt cpuSetSize_eq
        have hindex : 1 + (cpu.val - 1) = cpu.val := by omega
        have hstep : (1 + (cpu.val - 1)) % cpuSetSize = cpu.val := by
          rw [hindex, Nat.mod_eq_of_lt cpu.isLt]
        have hnot := hbetween (cpu.val - 1) (by omega) (by omega)
        rw [hstep] at hnot
        exact hnot (cpuIsSet_val.mpr hcpu)
      have hsub : cpuSet ⊆ {0, 1} := by
        intro cpu hcpu
        rw [Finset.mem_insert, Finset.mem_singleton]
        rcases Nat.le_one_iff_eq_zero_or_eq_one.mp (hsmall cpu hcpu) with hval | hval
        · exact .inl (Fin.ext hval)
        · exact .inr (Fin.ext (hval.trans val_one.symm))
      right
      apply Finset.eq_of_subset_of_card_le hsub
      have hcard : ¬ cpuSet.card ≤ 1 := fun hcard => honly ⟨hcard, ⟨0, hzero, rfl⟩⟩
      have htwo : ({0, 1} : CpuSet).card ≤ 2 := Finset.card_le_two
      omega
  · rintro (rfl | rfl)
    · exact if_pos ⟨le_of_eq (Finset.card_singleton 0), ⟨0, Finset.mem_singleton_self 0, rfl⟩⟩
    · exact firstCpu_zero_one

/-! ## When the benchmarks are well assigned -/

/-- A list is the result of a tour that starts with the first CPU. -/
theorem assigned_of_created {host : Host} {config : GlobalConfiguration}
    (hpin : config.pinCpus = true) (haffinity : host.affinity = some cpuSet)
    {newList : List TaskConfig} (h : createTaskConfigs host config = .created newList) :
    newList.length = config.benchmarks.length ∧
      ∃ start position, firstCpu cpuSet = some start ∧ Assigned cpuSet start position newList := by
  rw [createTaskConfigs, haffinity] at h
  split_ifs at h
  cases hfirst : firstCpu cpuSet with
  | none =>
      simp only [hfirst] at h
      cases h
  | some start =>
      simp only [hfirst] at h
      obtain ⟨hset, hplace⟩ := cpuIsSet_firstCpu hfirst
      rw [← hplace] at h hset
      have hnone : Assigned cpuSet start start [] :=
        ⟨[], rfl, fun cpu hcpu => (List.not_mem_nil hcpu).elim, Toured.refl _ _ _⟩
      obtain ⟨hlength, position, hassigned⟩ := createLoop_assigned hpin h hset hnone
      rw [List.length_nil, Nat.zero_add] at hlength
      exact ⟨hlength, start, position, rfl, hassigned⟩

theorem Assigned.head {start position : ℕ} {newList : List TaskConfig}
    (h : Assigned cpuSet start position newList) {task : TaskConfig}
    (hhead : newList.head? = some task) : task.cpuCore = (start % cpuSetSize : ℕ) := by
  obtain ⟨taken, hlist, -, htour⟩ := h
  cases newList with
  | nil => cases hhead
  | cons first newList =>
      cases hhead
      cases taken with
      | nil => cases hlist
      | cons cpu taken =>
          rw [List.map_cons, List.map_cons, List.cons.injEq] at hlist
          rw [hlist.1, htour.first cpu rfl]

theorem Assigned.available {start position : ℕ} {newList : List TaskConfig}
    (h : Assigned cpuSet start position newList) {task : TaskConfig} (htask : task ∈ newList) :
    cpuIsSet task.cpuCore cpuSet := by
  obtain ⟨taken, hlist, hall, -⟩ := h
  have hmem := List.mem_map_of_mem (f := TaskConfig.cpuCore) htask
  rw [hlist] at hmem
  obtain ⟨cpu, hcpu, heq⟩ := List.mem_map.mp hmem
  rw [← heq]
  exact hall cpu hcpu

theorem Assigned.balanced {start position : ℕ} {newList : List TaskConfig}
    (h : Assigned cpuSet start position newList) {cpu cpu' : Fin cpuSetSize}
    (hcpu : cpu ∈ cpuSet) (hcpu' : cpu' ∈ cpuSet) :
    load newList cpu ≤ load newList cpu' + 1 := by
  obtain ⟨taken, hlist, -, htour⟩ := h
  have hload (cpu : Fin cpuSetSize) : load newList cpu = taken.count cpu.val := by
    rw [load, hlist]
    exact List.count_map_of_injective taken _ Nat.cast_injective cpu.val
  rw [hload, hload]
  exact htour.balanced cpu.isLt cpu'.isLt (cpuIsSet_val.mpr hcpu) (cpuIsSet_val.mpr hcpu')

/-- With the cores 0 and 1, any first benchmark is placed on core 0. -/
theorem not_pinsWell_zero_one {config : GlobalConfiguration} (hpin : config.pinCpus = true)
    (hsome : config.benchmarks ≠ []) : ¬ PinsWell {0, 1} config := by
  intro h
  let host : Host := ⟨true, some {0, 1}, fun _ => true⟩
  obtain ⟨newList, hcreated⟩ := h.opened host rfl rfl fun _ _ => rfl
  obtain ⟨hlength, hwell⟩ := h.assigned host newList rfl hcreated
  have haffinity : host.affinity = some {0, 1} := rfl
  obtain ⟨-, start, position, hfirst, hassigned⟩ := assigned_of_created hpin haffinity hcreated
  rw [firstCpu_zero_one, Option.some.injEq] at hfirst
  cases newList with
  | nil => exact hsome (List.eq_nil_of_length_eq_zero hlength.symm)
  | cons task newList =>
      have hcore := hassigned.head rfl
      rw [← hfirst, Nat.zero_mod] at hcore
      have hone : (1 : Fin cpuSetSize) ∈ ({0, 1} : CpuSet) :=
        Finset.mem_insert_of_mem (Finset.mem_singleton_self 1)
      rw [hwell.first task rfl hcore, Finset.mem_singleton] at hone
      have hval := congrArg Fin.val hone
      rw [val_one] at hval
      exact Nat.one_ne_zero hval

/-- Only for cores 0 and 1 alone, core 0 comes first although it is not the only one. -/
theorem pinsWell_iff (cpuSet : CpuSet) (config : GlobalConfiguration)
    (hcpus : cpuSet.Nonempty) (hpin : config.pinCpus = true) :
    PinsWell cpuSet config ↔ (cpuSet = {0, 1} → config.benchmarks = []) := by
  have hopened : ∀ host : Host, host.affinity = some cpuSet → host.allocates = true →
      (∀ i < config.benchmarks.length, host.opens i = true) →
      ∃ newList, createTaskConfigs host config = .created newList := by
    intro host haffinity hallocates hopens
    obtain ⟨start, hfirst⟩ := exists_firstCpu hcpus
    have hindex : ∀ j < config.benchmarks.length, host.opens (0 + j) = true := by
      intro j hj
      rw [Nat.zero_add]
      exact hopens j hj
    rw [createTaskConfigs, if_pos hallocates, haffinity]
    simp only [hfirst]
    exact createLoop_created hcpus hpin hindex []
  constructor
  · rintro h rfl
    by_contra hsome
    exact not_pinsWell_zero_one hpin hsome h
  · intro h
    refine ⟨?_, hopened, ?_⟩
    · intro host haffinity
      obtain ⟨start, hfirst⟩ := exists_firstCpu hcpus
      rw [createTaskConfigs, haffinity]
      simp only [hfirst]
      split_ifs
      · exact createLoop_ne_hangs hcpus host config _ _ _ _
      · exact fun hnull => by cases hnull
    · intro host newList haffinity hcreated
      obtain ⟨hlength, start, position, hfirst, hassigned⟩ :=
        assigned_of_created hpin haffinity hcreated
      refine ⟨hlength, fun task htask => hassigned.available htask,
        fun cpu hcpu cpu' hcpu' => hassigned.balanced hcpu hcpu', ?_⟩
      intro task hhead hcore
      have hstart := hassigned.head hhead
      rw [(cpuIsSet_firstCpu hfirst).2, hcore] at hstart
      obtain rfl : start = 0 := (Int.ofNat_inj.mp hstart).symm
      rcases firstCpu_eq_zero_iff.mp hfirst with honly | hzeroOne
      · exact honly
      · -- without benchmarks there is no first one
        rw [h hzeroOne, List.length_nil] at hlength
        rw [List.eq_nil_of_length_eq_zero hlength] at hhead
        cases hhead

/-- A configuration with one benchmark. -/
def pinned : GlobalConfiguration where
  maxIterations := 1
  maxTime := .ofInt 0
  useProcesses := false
  cudaDevice := 0
  baseResultDirectory := "./results".toList
  scenarioName := "n".toList
  pinCpus := true
  doWarmup := false
  syncEveryIteration := false
  benchmarks := [{
    filename := "b".toList, logName := none, label := none
    mpsThreadPercentage := .ofInt 100, blockDim := [1, 1, 1], gridDim := [1, 1, 1]
    dataSize := 0, additionalInfo := none, maxIterations := -1, maxTime := .ofInt (-1)
    releaseTime := .ofInt 0, terminator := false, cpuCore := -1, streamPriority := -100
    smMask := 0 }]

/-- With the cores 0, 1 and 2, two benchmarks are well assigned. -/
theorem pinsWell_two :
    PinsWell {0, 1, 2} { pinned with benchmarks := pinned.benchmarks ++ pinned.benchmarks } := by
  refine (pinsWell_iff {0, 1, 2} _ (Finset.insert_nonempty _ _) rfl).mpr fun h => ?_
  have htwo : (2 : Fin cpuSetSize) ∈ ({0, 1} : CpuSet) := by
    rw [← h]
    exact Finset.mem_insert_of_mem (Finset.mem_insert_of_mem (Finset.mem_singleton_self 2))
  rcases Finset.mem_insert.mp htwo with hcore | hcore
  · have hval := congrArg Fin.val hcore
    simp [cpuSetSize_eq] at hval
  · have hval := congrArg Fin.val (Finset.mem_singleton.mp hcore)
    simp [cpuSetSize_eq] at hval

/-- With the cores 0 and 1, the first benchmark is placed on core 0. -/
theorem not_pinsWell :
    firstCpu {0, 1} = some 0 ∧
      ¬ ∀ (cpuSet : CpuSet) config, cpuSet.Nonempty → config.pinCpus = true →
        PinsWell cpuSet config := by
  refine ⟨firstCpu_zero_one, fun h => ?_⟩
  exact not_pinsWell_zero_one rfl (List.cons_ne_nil _ _)
    (h {0, 1} pinned ⟨0, Finset.mem_insert_self 0 {1}⟩ rfl)

end A100Partitioning.TaskHost.Assignment
