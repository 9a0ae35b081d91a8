import A100Partitioning.Config.ParseConfiguration
import A100Partitioning.Support.Ledger

/-!
# A benchmark of several kernels (`multikernel.cu`)

`Initialize` reads the kernels from a list and allocates the buffers of each while it does so.
On an error there, it frees the names and the list, and the buffers are lost.
-/

namespace A100Partitioning.Multikernel

open Support
open Config (CJson Double Stop asNumber asString asList required optional parseSmMask toUInt64)

/-! ## The code -/

/-- The buffers of a kernel. -/
inductive Buffer where
  | hostBlockTimes
  | hostSmids
  | hostCopyData
  | deviceBlockTimes
  | deviceSmids
  | deviceCopyData
  deriving DecidableEq, Repr

/-- What is allocated, by `malloc` or by CUDA. -/
inductive Resource where
  | state
  | parsed
  | kernelConfigs
  | kernelTimes
  | stream
  | name (kernel : ℕ)
  | buffer (kernel : ℕ) (buffer : Buffer)
  deriving DecidableEq, Repr

/-- Which calls succeed. -/
structure System where
  setDevice : Bool
  allocates : Resource → Bool
  allocatesBuffer : ℕ → Buffer → BitVec 64 → Bool

/-- `SingleKernelData`, as it is configured. -/
structure SingleKernelData where
  name : List Char
  spinDuration : ℤ
  blockCount : ℤ
  threadCount : ℤ
  sharedMemoryCount : ℤ
  copyInCount : ℤ
  copyOutCount : ℤ
  delay : Double
  smMask : BitVec 64

/-- `BenchmarkState`, with what it has pointers to. -/
structure BenchmarkState where
  kernels : List SingleKernelData
  kernelConfigs : Bool
  kernelTimes : Bool
  streamCreated : Bool

/-- A count, which is 0 if it is missing or no number. -/
def countOrZero (entry : Option CJson) : ℤ :=
  ((entry.bind asNumber).map Double.valueint).getD 0

/-- The settings of a kernel behind its label. -/
def kernelSettings (outOfRange : Double → ℤ) (smctrl : Bool) (name : List Char) (item : CJson) :
    Except Stop SingleKernelData := do
  let duration ← required asNumber (item.getObjectItem "duration")
  let blockCount ← required asNumber (item.getObjectItem "block_count")
  let threadCount ← required asNumber (item.getObjectItem "thread_count")
  let delay ← optional asNumber (item.getObjectItem "delay")
  let smMask ← parseSmMask smctrl (item.getObjectItem "sm_mask")
  return {
    name
    spinDuration := toUInt64 outOfRange duration
    blockCount := blockCount.valueint
    threadCount := threadCount.valueint
    sharedMemoryCount := countOrZero (item.getObjectItem "shared_memory_size")
    copyInCount := countOrZero (item.getObjectItem "copy_in_count")
    copyOutCount := countOrZero (item.getObjectItem "copy_out_count")
    delay := delay.getD (.ofInt 0)
    smMask }

/-- The size of a buffer, as a `size_t`. -/
def bufferSize (config : SingleKernelData) : Buffer → BitVec 64
  | .hostBlockTimes | .deviceBlockTimes => .ofInt 64 (2 * config.blockCount * 8)
  | .hostSmids | .deviceSmids => .ofInt 64 (config.blockCount * 4)
  | .hostCopyData | .deviceCopyData =>
      if config.copyOutCount < config.copyInCount then .ofInt 64 (config.copyInCount * 4)
      else .ofInt 64 (config.copyOutCount * 4)

/-- The order in which `AllocateKernelDataMemory` allocates the buffers. -/
def bufferOrder : List Buffer :=
  [.hostBlockTimes, .hostSmids, .hostCopyData, .deviceBlockTimes, .deviceSmids, .deviceCopyData]

section Code

variable (system : System) (outOfRange : Double → ℤ) (smctrl : Bool)

/-- Some buffers of a kernel, up to the first that cannot be allocated. -/
def allocateBuffers (i : ℕ) (config : SingleKernelData) :
    List Buffer → Ledger Resource → Bool × Ledger Resource
  | [], ledger => (true, ledger)
  | buffer :: buffers, ledger =>
      if system.allocatesBuffer i buffer (bufferSize config buffer) then
        allocateBuffers i config buffers (ledger.alloc (.buffer i buffer))
      else (false, ledger)

/-- `AllocateKernelDataMemory`. -/
def allocateKernelDataMemory (i : ℕ) (config : SingleKernelData) :
    Ledger Resource → Bool × Ledger Resource :=
  allocateBuffers system i config bufferOrder

/-- The kernels that have been read, and how many entries of `kernel_configs` have a name. -/
structure Configs where
  kernels : List SingleKernelData
  names : ℕ
  ledger : Ledger Resource

/-- The loop over the list in `InitializeKernelConfigs`. -/
def readKernels : ℕ → List CJson → Configs → Bool × Configs
  | _, [], c => (true, c)
  | i, item :: items, c =>
      match (item.getObjectItem "kernel_label").bind asString with
      | none => (false, c)
      | some name =>
          if system.allocates (.name i) then
            let ledger := c.ledger.alloc (.name i)
            match kernelSettings outOfRange smctrl name item with
            | .error _ => (false, ⟨c.kernels, i + 1, ledger⟩)
            | .ok config =>
                match allocateKernelDataMemory system i config ledger with
                | (true, ledger) => readKernels (i + 1) items ⟨c.kernels ++ [config], i + 1, ledger⟩
                | (false, ledger) => (false, ⟨c.kernels, i + 1, ledger⟩)
          else (false, c)

/-- The names and the list, which are freed after an error. -/
def freeConfigs (names : ℕ) (ledger : Ledger Resource) : Ledger Resource :=
  (ledger.freeAll ((List.range names).map .name)).free .kernelConfigs

/-- `InitializeKernelConfigs`, with what `cJSON_Parse` returns. -/
def initializeKernelConfigs (parsed : Option CJson) (ledger : Ledger Resource) :
    Option (List SingleKernelData) × Ledger Resource :=
  match parsed with
  | none => (none, ledger)
  | some parsed =>
      let ledger := ledger.alloc .parsed
      match asList parsed with
      | none => (none, ledger.free .parsed)
      | some items =>
          if system.allocates .kernelConfigs then
            match readKernels system outOfRange smctrl 0 items
              ⟨[], 0, ledger.alloc .kernelConfigs⟩ with
            | (false, c) => (none, freeConfigs c.names (c.ledger.free .parsed))
            | (true, c) =>
                let ledger := c.ledger.free .parsed
                if ∀ kernel ∈ c.kernels,
                    kernel.sharedMemoryCount ∈ ([0, 4096, 8192, 10240] : List ℤ) then
                  (some c.kernels, ledger)
                else (none, freeConfigs c.names ledger)
          else (none, ledger.free .parsed)

/-- What `CleanupKernelConfig` frees. -/
def kernelResources (i : ℕ) : List Resource :=
  [.buffer i .hostBlockTimes, .buffer i .hostSmids, .buffer i .hostCopyData, .name i,
    .buffer i .deviceBlockTimes, .buffer i .deviceSmids, .buffer i .deviceCopyData]

/-- `Cleanup`. -/
def cleanup (state : BenchmarkState) (ledger : Ledger Resource) : Ledger Resource :=
  let ledger := ledger.freeAll ((List.range state.kernels.length).flatMap kernelResources)
  let ledger := if state.streamCreated then ledger.free .stream else ledger
  let ledger := if state.kernelConfigs then ledger.free .kernelConfigs else ledger
  let ledger := if state.kernelTimes then ledger.free .kernelTimes else ledger
  ledger.free .state

/-- `Initialize`. -/
def initializeBenchmark (parsed : Option CJson) (ledger : Ledger Resource) :
    Option BenchmarkState × Ledger Resource :=
  if system.allocates .state then
    let ledger := ledger.alloc .state
    if system.setDevice then
      match initializeKernelConfigs system outOfRange smctrl parsed ledger with
      | (none, ledger) => (none, cleanup ⟨[], false, false, false⟩ ledger)
      | (some kernels, ledger) =>
          if system.allocates .kernelTimes then
            let ledger := ledger.alloc .kernelTimes
            if system.allocates .stream then
              (some ⟨kernels, true, true, true⟩, ledger.alloc .stream)
            else (none, cleanup ⟨kernels, true, true, false⟩ ledger)
          else (none, cleanup ⟨kernels, true, false, false⟩ ledger)
    else (none, cleanup ⟨[], false, false, false⟩ ledger)
  else (none, ledger)

end Code

/-! ## What is held -/

/-- The buffers of the first kernels, in the order in which they are allocated. -/
def buffersOf (n : ℕ) : List Resource :=
  (List.range n).flatMap fun i => bufferOrder.map (.buffer i)

/-- Their names. -/
def namesOf (n : ℕ) : List Resource := (List.range n).map .name

section Held

variable {system : System} {outOfRange : Double → ℤ} {smctrl : Bool} {ledger : Ledger Resource}
  {held : List Resource} {i n : ℕ}

theorem buffersOf_succ (n : ℕ) :
    buffersOf (n + 1) = buffersOf n ++ bufferOrder.map (.buffer n) := by
  rw [buffersOf, List.range_succ, List.flatMap_append, List.flatMap_singleton]
  rfl

theorem namesOf_succ (n : ℕ) : namesOf (n + 1) = namesOf n ++ [.name n] := by
  rw [namesOf, List.range_succ, List.map_append]
  rfl

theorem buffersOf_mono {m : ℕ} (h : n ≤ m) : buffersOf n <+: buffersOf m := by
  induction h with
  | refl => exact List.prefix_rfl
  | step _ ih =>
      rw [buffersOf_succ]
      exact ih.trans (List.prefix_append _ _)

/-- What the first kernels hold is freed by `CleanupKernelConfig`. -/
theorem perm_kernelResources (n : ℕ) :
    (buffersOf n ++ namesOf n).Perm ((List.range n).flatMap kernelResources) := by
  have hnames : namesOf n = (List.range n).flatMap fun i => [Resource.name i] := by
    rw [namesOf, List.map_eq_flatMap]
  rw [hnames, buffersOf]
  refine (List.flatMap_append_perm _ _ _).trans (List.Perm.flatMap_left _ fun i _ => ?_)
  -- the name is freed between the buffers
  exact (List.perm_append_singleton (Resource.name i) [.buffer i .deviceBlockTimes,
    .buffer i .deviceSmids, .buffer i .deviceCopyData]).append_left [.buffer i .hostBlockTimes,
      .buffer i .hostSmids, .buffer i .hostCopyData]

/-- These resources have been allocated, and nothing has been freed. -/
structure Keeps (ledger : Ledger Resource) (held : List Resource) : Prop where
  freed : ledger.freed = []
  holds : ledger.Holds held

theorem Keeps.mem_iff (h : Keeps ledger held) {r : Resource} :
    r ∈ ledger.allocated ↔ r ∈ held := by
  have hperm := h.holds.perm
  rw [h.freed, List.nil_append] at hperm
  exact hperm.mem_iff.symm

theorem Keeps.of_perm {held' : List Resource} (h : Keeps ledger held)
    (hperm : held.Perm held') : Keeps ledger held' :=
  ⟨h.freed, h.holds.of_perm hperm⟩

theorem Keeps.alloc (h : Keeps ledger held) {r : Resource} (hfresh : r ∉ held) :
    Keeps (ledger.alloc r) (held ++ [r]) := by
  have hholds : (ledger.alloc r).Holds (r :: held) :=
    h.holds.alloc fun hr => hfresh (h.mem_iff.mp hr)
  exact ⟨h.freed, hholds.of_perm (List.perm_append_singleton r held).symm⟩

/-- Buffers are allocated up to the first that cannot be. -/
theorem allocateBuffers_spec {config : SingleKernelData} {buffers : List Buffer}
    (hnodup : buffers.Nodup) (h : Keeps ledger held)
    (hfresh : ∀ b ∈ buffers, Resource.buffer i b ∉ held) :
    ∃ taken, taken <+: buffers ∧
      Keeps (allocateBuffers system i config buffers ledger).2
        (held ++ taken.map (.buffer i)) ∧
      ((allocateBuffers system i config buffers ledger).1 = true → taken = buffers) := by
  induction buffers generalizing ledger held with
  | nil => exact ⟨[], List.prefix_rfl, by rwa [List.map_nil, List.append_nil], fun _ => rfl⟩
  | cons b buffers ih =>
      rw [List.nodup_cons] at hnodup
      rw [allocateBuffers]
      by_cases hallocates : system.allocatesBuffer i b (bufferSize config b) = true
      · rw [if_pos hallocates]
        obtain ⟨taken, hstart, hkeeps, hall⟩ :=
          ih hnodup.2 (h.alloc (hfresh b List.mem_cons_self)) (by
            intro b' hb' hmem
            rcases List.mem_append.mp hmem with hheld | hself
            · exact hfresh b' (List.mem_cons_of_mem b hb') hheld
            · rw [List.mem_singleton, Resource.buffer.injEq] at hself
              exact hnodup.1 (hself.2 ▸ hb'))
        refine ⟨b :: taken, (List.prefix_cons_inj b).mpr hstart, ?_, fun htrue => ?_⟩
        · rw [List.append_assoc] at hkeeps
          exact hkeeps
        · rw [hall htrue]
      · rw [if_neg hallocates]
        refine ⟨[], List.nil_prefix, ?_, fun hfalse => by cases hfalse⟩
        rwa [List.map_nil, List.append_nil]

/-- What is held besides names and buffers while the list is read. -/
def listHeld : List Resource := [.state, .parsed, .kernelConfigs]

theorem name_notMem (h : n ≤ i) : Resource.name i ∉ listHeld ++ namesOf n ++ buffersOf n := by
  simp only [listHeld, namesOf, buffersOf, List.mem_append, List.mem_cons, List.mem_map,
    List.mem_flatMap, List.mem_range, Resource.name.injEq, not_or, reduceCtorEq, not_exists,
    not_and, List.not_mem_nil, not_false_eq_true, true_and, and_true, imp_true_iff, exists_eq_right]
  omega

theorem buffer_notMem (b : Buffer) :
    Resource.buffer i b ∉ listHeld ++ namesOf (i + 1) ++ buffersOf i := by
  simp only [listHeld, namesOf, buffersOf, List.mem_append, List.mem_cons, List.mem_map,
    List.mem_flatMap, List.mem_range, Resource.buffer.injEq, not_or, reduceCtorEq, not_exists,
    not_and, List.not_mem_nil, not_false_eq_true, true_and, and_false, imp_true_iff]
  rintro k hk b' - rfl
  exact absurd hk (Nat.lt_irrefl k)

theorem readKernels_spec {items : List CJson} {c c' : Configs} {read : Bool}
    (hread : readKernels system outOfRange smctrl i items c = (read, c')) (hnames : c.names = i)
    (hlength : c.kernels.length = i)
    (h : Keeps c.ledger (listHeld ++ namesOf i ++ buffersOf i)) :
    ∃ buffers, buffers <+: buffersOf (i + items.length) ∧
      Keeps c'.ledger (listHeld ++ namesOf c'.names ++ buffers) ∧
      (read = true → buffers = buffersOf c'.names ∧ c'.kernels.length = c'.names) := by
  induction items generalizing i c with
  | nil =>
      rw [readKernels] at hread
      cases hread
      refine ⟨buffersOf i, List.prefix_rfl, ?_, fun _ => ⟨?_, ?_⟩⟩
      · rwa [hnames]
      · rw [hnames]
      · rw [hnames, hlength]
  | cons item items ih =>
      have hstop (hfalse : (false, c) = (read, c')) :
          ∃ buffers, buffers <+: buffersOf (i + (item :: items).length) ∧
            Keeps c'.ledger (listHeld ++ namesOf c'.names ++ buffers) ∧
            (read = true → buffers = buffersOf c'.names ∧ c'.kernels.length = c'.names) := by
        cases hfalse
        exact ⟨buffersOf i, buffersOf_mono (Nat.le_add_right i _), hnames.symm ▸ h, nofun⟩
      rw [readKernels] at hread
      cases hlabel : (item.getObjectItem "kernel_label").bind asString with
      | none =>
          rw [hlabel] at hread
          exact hstop hread
      | some name =>
          rw [hlabel] at hread
          dsimp only at hread
          by_cases hallocates : system.allocates (.name i) = true
          · rw [if_pos hallocates] at hread
            have hnamed : Keeps (c.ledger.alloc (.name i))
                (listHeld ++ namesOf (i + 1) ++ buffersOf i) := by
              refine (h.alloc (name_notMem le_rfl)).of_perm ?_
              rw [namesOf_succ, List.append_assoc, List.append_assoc, List.append_assoc,
                List.append_assoc]
              exact (List.perm_append_comm.append_left _).append_left _
            cases hsettings : kernelSettings outOfRange smctrl name item with
            | error stop =>
                rw [hsettings] at hread
                cases hread
                exact ⟨buffersOf i, buffersOf_mono (Nat.le_add_right i _), hnamed, nofun⟩
            | ok config =>
                rw [hsettings] at hread
                dsimp only at hread
                obtain ⟨taken, hstart, hkeeps, hall⟩ : ∃ taken, taken <+: bufferOrder ∧
                    Keeps (allocateKernelDataMemory system i config
                      (c.ledger.alloc (.name i))).2
                      (listHeld ++ namesOf (i + 1) ++ buffersOf i ++ taken.map (.buffer i)) ∧
                    ((allocateKernelDataMemory system i config
                      (c.ledger.alloc (.name i))).1 = true → taken = bufferOrder) :=
                  allocateBuffers_spec (by decide) hnamed fun b _ => buffer_notMem b
                rw [List.append_assoc] at hkeeps
                cases hresult : allocateKernelDataMemory system i config
                    (c.ledger.alloc (.name i)) with
                | mk allocated ledger =>
                    rw [hresult] at hread hkeeps hall
                    cases allocated with
                    | true =>
                        rw [hall rfl, ← buffersOf_succ] at hkeeps
                        rw [List.length_cons, Nat.add_comm items.length, ← Nat.add_assoc]
                        exact ih hread rfl (by simp [hlength]) hkeeps
                    | false =>
                        cases hread
                        refine ⟨buffersOf i ++ taken.map (.buffer i), ?_, hkeeps, nofun⟩
                        have hsucc : buffersOf i ++ taken.map (.buffer i) <+:
                            buffersOf (i + 1) := by
                          rw [buffersOf_succ]
                          exact (List.prefix_append_right_inj _).mpr (hstart.map _)
                        exact hsucc.trans (buffersOf_mono (by simp))
          · rw [if_neg hallocates] at hread
            exact hstop hread

/-- After an error, the names, the list and what was parsed are freed, but no buffer is. -/
theorem freeConfigs_spec {buffers : List Resource}
    (h : Keeps ledger (listHeld ++ namesOf n ++ buffers)) :
    (freeConfigs n (ledger.free .parsed)).Holds (.state :: buffers) ∧
      ∀ k b, Resource.buffer k b ∉ (freeConfigs n (ledger.free .parsed)).freed := by
  constructor
  · have hholds : ledger.Holds
        (.parsed :: (namesOf n ++ (.kernelConfigs :: .state :: buffers))) := by
      refine h.holds.of_perm (List.perm_iff_count.mpr fun a => ?_)
      simp only [listHeld, List.count_append, List.count_cons, List.count_nil]
      omega
    exact hholds.free.freeAll.free
  · intro k b hfreed
    rw [freeConfigs, Ledger.free, List.mem_cons, Ledger.mem_freed_freeAll] at hfreed
    rcases hfreed with hself | hname | hbefore
    · cases hself
    · obtain ⟨j, -, hj⟩ := List.mem_map.mp hname
      cases hj
    · rw [Ledger.free, h.freed, List.mem_singleton] at hbefore
      cases hbefore

/-- What a state with these kernels holds. -/
def stateHeld (kernels : List SingleKernelData) : List Resource :=
  [.state, .kernelConfigs] ++ namesOf kernels.length ++ buffersOf kernels.length

theorem kernelTimes_notMem (kernels : List SingleKernelData) :
    Resource.kernelTimes ∉ stateHeld kernels := by
  simp [stateHeld, namesOf, buffersOf]

theorem stream_notMem (kernels : List SingleKernelData) :
    Resource.stream ∉ stateHeld kernels := by
  simp [stateHeld, namesOf, buffersOf]

/-- What `InitializeKernelConfigs` leaves behind. -/
structure Configured (result : Option (List SingleKernelData)) (ledger : Ledger Resource) :
    Prop where
  failed : result = none → ∃ n buffers, buffers <+: buffersOf n ∧
    ledger.Holds (.state :: buffers) ∧ ∀ k b, Resource.buffer k b ∉ ledger.freed
  succeeded : ∀ kernels, result = some kernels →
    ledger.Holds (stateHeld kernels) ∧ ledger.freed = [.parsed]

theorem Configured.of_state (h : ledger.Holds [.state])
    (hfreed : ∀ k b, Resource.buffer k b ∉ ledger.freed) : Configured none ledger :=
  ⟨fun _ => ⟨0, [], List.nil_prefix, h, hfreed⟩, nofun⟩

theorem Configured.of_list {buffers : List Resource} {m : ℕ} (hstart : buffers <+: buffersOf m)
    (h : Keeps ledger (listHeld ++ namesOf n ++ buffers)) :
    Configured none (freeConfigs n (ledger.free .parsed)) := by
  obtain ⟨hholds, hfreed⟩ := freeConfigs_spec h
  exact ⟨fun _ => ⟨m, buffers, hstart, hholds, hfreed⟩, nofun⟩

theorem initializeKernelConfigs_spec (parsed : Option CJson) (h : Keeps ledger [.state]) :
    Configured (initializeKernelConfigs system outOfRange smctrl parsed ledger).1
      (initializeKernelConfigs system outOfRange smctrl parsed ledger).2 := by
  have hstate : ∀ k b, Resource.buffer k b ∉ ledger.freed := by simp [h.freed]
  cases parsed with
  | none => exact .of_state h.holds hstate
  | some parsed =>
      have hparsed : Keeps (ledger.alloc .parsed) [.state, .parsed] := h.alloc (by decide)
      have hfree : Configured none ((ledger.alloc .parsed).free .parsed) := by
        refine .of_state (hparsed.holds.of_perm (List.Perm.swap _ _ _)).free fun k b hfreed => ?_
        rw [Ledger.free, hparsed.freed, List.mem_singleton] at hfreed
        cases hfreed
      rw [initializeKernelConfigs]
      dsimp only
      cases asList parsed with
      | none => exact hfree
      | some items =>
          dsimp only
          by_cases hallocates : system.allocates .kernelConfigs = true
          · rw [if_pos hallocates]
            have hlist : Keeps ((ledger.alloc .parsed).alloc .kernelConfigs)
                (listHeld ++ namesOf 0 ++ buffersOf 0) := hparsed.alloc (by decide)
            cases hread : readKernels system outOfRange smctrl 0 items
                ⟨[], 0, (ledger.alloc .parsed).alloc .kernelConfigs⟩ with
            | mk read c =>
                have hspec := readKernels_spec hread rfl rfl hlist
                obtain ⟨buffers, hstart, hkeeps, hall⟩ := hspec
                cases read with
                | false => exact .of_list hstart hkeeps
                | true =>
                    dsimp only at hkeeps hall ⊢
                    split_ifs with hsizes
                    · obtain ⟨rfl, hlength⟩ := hall rfl
                      refine ⟨fun hnone => absurd hnone (by simp), fun kernels hkernels => ?_⟩
                      cases hkernels
                      refine ⟨?_, by rw [Ledger.free, hkeeps.freed]⟩
                      have hholds : c.ledger.Holds (.parsed :: stateHeld c.kernels) := by
                        refine hkeeps.holds.of_perm (List.perm_iff_count.mpr fun a => ?_)
                        rw [stateHeld, hlength]
                        simp only [listHeld, List.count_append, List.count_cons, List.count_nil]
                        omega
                      exact hholds.free
                    · exact .of_list hstart hkeeps
          · rw [if_neg hallocates]
            exact hfree

theorem holds_cleanup {kernels : List SingleKernelData} {kernelTimes streamCreated : Bool}
    (h : ledger.Holds (stateHeld kernels ++ (if kernelTimes then [.kernelTimes] else []) ++
      if streamCreated then [.stream] else [])) :
    (cleanup ⟨kernels, true, kernelTimes, streamCreated⟩ ledger).Holds [] := by
  have hall : (ledger.freeAll ((List.range kernels.length).flatMap kernelResources)).Holds
      ((if streamCreated then [.stream] else []) ++
        (.kernelConfigs :: ((if kernelTimes then [.kernelTimes] else []) ++ [.state]))) := by
    refine Ledger.Holds.freeAll (h.of_perm (List.Perm.trans ?_
      ((perm_kernelResources kernels.length).append_right _)))
    refine List.perm_iff_count.mpr fun a => ?_
    simp only [stateHeld, List.count_append, List.count_cons, List.count_nil]
    omega
  exact hall.freeIf.free.freeIf.free

theorem notMem_allocated {kernels : List SingleKernelData} {r : Resource}
    (h : ledger.Holds (stateHeld kernels)) (hfreed : ledger.freed = [.parsed])
    (hr : r ∉ stateHeld kernels) (hparsed : r ≠ .parsed) : r ∉ ledger.allocated := by
  intro hmem
  have hcases := h.perm.mem_iff.mpr hmem
  rw [hfreed, List.singleton_append, List.mem_cons] at hcases
  exact hcases.elim hparsed hr

end Held

/-! ## Results -/

/-- `InitializeKernelConfigs` is called, and fails. -/
def ConfigsFail (system : System) (outOfRange : Double → ℤ) (smctrl : Bool)
    (parsed : Option CJson) : Prop :=
  system.allocates .state = true ∧ system.setDevice = true ∧
    (initializeKernelConfigs system outOfRange smctrl parsed
      (Ledger.alloc ⟨[], []⟩ .state)).1 = none

/-- What is left in the end, also if the state is cleaned up later. -/
def Settles (system : System) (outOfRange : Double → ℤ) (smctrl : Bool)
    (parsed : Option CJson) : Option BenchmarkState × Ledger Resource → Prop
  | (some state, ledger) => (cleanup state ledger).Holds []
  | (none, ledger) =>
      (ConfigsFail system outOfRange smctrl parsed → ∃ n buffers, buffers <+: buffersOf n ∧
        ledger.Holds buffers ∧ ∀ k b, Resource.buffer k b ∉ ledger.freed) ∧
      (¬ ConfigsFail system outOfRange smctrl parsed → ledger.Holds [])

section Settles

variable {system : System} {outOfRange : Double → ℤ} {smctrl : Bool} {parsed : Option CJson}
  {ledger : Ledger Resource}

theorem settles_of_holds (hfine : ¬ ConfigsFail system outOfRange smctrl parsed)
    (h : ledger.Holds []) : Settles system outOfRange smctrl parsed (none, ledger) :=
  ⟨fun hfail => absurd hfail hfine, fun _ => h⟩

theorem settles_initializeBenchmark : Settles system outOfRange smctrl parsed
    (initializeBenchmark system outOfRange smctrl parsed ⟨[], []⟩) := by
  have hstate : Keeps (Ledger.alloc ⟨[], []⟩ Resource.state) [.state] :=
    Keeps.alloc ⟨rfl, .empty⟩ List.not_mem_nil
  rw [initializeBenchmark]
  by_cases hallocates : system.allocates .state = true
  · rw [if_pos hallocates]
    dsimp only
    by_cases hdevice : system.setDevice = true
    · rw [if_pos hdevice]
      have hfail : ConfigsFail system outOfRange smctrl parsed ↔
          (initializeKernelConfigs system outOfRange smctrl parsed
            (Ledger.alloc ⟨[], []⟩ .state)).1 = none :=
        ⟨fun h => h.2.2, fun h => ⟨hallocates, hdevice, h⟩⟩
      have hspec : Configured
          (initializeKernelConfigs system outOfRange smctrl parsed
            (Ledger.alloc ⟨[], []⟩ .state)).1
          (initializeKernelConfigs system outOfRange smctrl parsed
            (Ledger.alloc ⟨[], []⟩ .state)).2 := initializeKernelConfigs_spec parsed hstate
      cases hresult : initializeKernelConfigs system outOfRange smctrl parsed
          (Ledger.alloc ⟨[], []⟩ .state) with
      | mk result ledger =>
          rw [hresult] at hfail hspec
          cases result with
          | none =>
              obtain ⟨n, buffers, hstart, hholds, hfreed⟩ := hspec.failed rfl
              refine ⟨fun _ => ⟨n, buffers, hstart, hholds.free, fun k b hmem => ?_⟩,
                fun hnot => absurd (hfail.mpr rfl) hnot⟩
              rcases List.mem_cons.mp hmem with hself | hbefore
              · cases hself
              · exact hfreed k b hbefore
          | some kernels =>
              obtain ⟨hholds, hfreed⟩ := hspec.succeeded kernels rfl
              have hfine : ¬ ConfigsFail system outOfRange smctrl parsed := fun h => by
                cases hfail.mp h
              have htimes : (ledger.alloc .kernelTimes).Holds
                  (stateHeld kernels ++ [.kernelTimes]) :=
                (hholds.alloc (notMem_allocated hholds hfreed (kernelTimes_notMem kernels)
                  (by decide))).of_perm (List.perm_append_singleton _ _).symm
              dsimp only
              by_cases htimesAllocates : system.allocates .kernelTimes = true
              · rw [if_pos htimesAllocates]
                by_cases hstream : system.allocates .stream = true
                · rw [if_pos hstream]
                  refine holds_cleanup ((htimes.alloc fun hmem => ?_).of_perm
                    (List.perm_append_singleton _ _).symm)
                  rcases List.mem_cons.mp hmem with hself | hbefore
                  · cases hself
                  · exact notMem_allocated hholds hfreed (stream_notMem kernels) (by decide) hbefore
                · rw [if_neg hstream]
                  exact settles_of_holds hfine (holds_cleanup (htimes.of_perm (by simp)))
              · rw [if_neg htimesAllocates]
                exact settles_of_holds hfine (holds_cleanup (hholds.of_perm (by simp)))
    · rw [if_neg hdevice]
      exact settles_of_holds (fun hfail => hdevice hfail.2.1) hstate.holds.free
  · rw [if_neg hallocates]
    exact settles_of_holds (fun hfail => hallocates hfail.1) .empty

end Settles

/-- Whatever the kernels and whichever calls fail, `Cleanup` frees all that a successful
`Initialize` has allocated, each once.  If it fails, it leaves nothing behind, except for an
error in `InitializeKernelConfigs`: there, all buffers that have been allocated up to the error
are left, and none is freed. -/
theorem multikernel_releases (system : System) (outOfRange : Double → ℤ) (smctrl : Bool)
    (parsed : Option CJson) :
    (∀ state ledger, initializeBenchmark system outOfRange smctrl parsed ⟨[], []⟩ =
      (some state, ledger) → (cleanup state ledger).Holds []) ∧
    ∀ ledger, initializeBenchmark system outOfRange smctrl parsed ⟨[], []⟩ = (none, ledger) →
      (ConfigsFail system outOfRange smctrl parsed → ∃ n buffers, buffers <+: buffersOf n ∧
        ledger.Holds buffers ∧ ∀ k b, Resource.buffer k b ∉ ledger.freed) ∧
      (¬ ConfigsFail system outOfRange smctrl parsed → ledger.Holds []) := by
  have hsettles : Settles system outOfRange smctrl parsed
      (initializeBenchmark system outOfRange smctrl parsed ⟨[], []⟩) := settles_initializeBenchmark
  constructor
  · intro state ledger hstarted
    rwa [hstarted] at hsettles
  · intro ledger hnull
    rwa [hnull] at hsettles

/-- A list of one kernel. -/
def oneKernel : CJson :=
  .array [.object [("kernel_label".toList, .string "k".toList),
    ("duration".toList, .number (.ofInt 1)), ("block_count".toList, .number (.ofInt 2)),
    ("thread_count".toList, .number (.ofInt 32))]]

/-- All calls succeed but the second for a buffer. -/
def failsAtSmids : System where
  setDevice := true
  allocates _ := true
  allocatesBuffer _ buffer _ := buffer ≠ .hostSmids

/-- The first buffer is left. -/
theorem multikernel_releases_one :
    ∃ ledger, initializeBenchmark failsAtSmids (fun _ => 0) false (some oneKernel) ⟨[], []⟩ =
        (none, ledger) ∧
      .buffer 0 .hostBlockTimes ∈ ledger.allocated ∧
      ∃ n buffers, buffers <+: buffersOf n ∧ ledger.Holds buffers ∧
        .buffer 0 .hostBlockTimes ∉ ledger.freed := by
  obtain ⟨ledger, hresult, hallocated⟩ : ∃ ledger,
      initializeBenchmark failsAtSmids (fun _ => 0) false (some oneKernel) ⟨[], []⟩ =
        (none, ledger) ∧ .buffer 0 .hostBlockTimes ∈ ledger.allocated :=
    ⟨_, rfl, by decide⟩
  obtain ⟨n, buffers, hstart, hholds, hfreed⟩ :=
    ((multikernel_releases failsAtSmids (fun _ => 0) false (some oneKernel)).2 ledger
      hresult).1 ⟨rfl, rfl, rfl⟩
  exact ⟨ledger, hresult, hallocated, n, buffers, hstart, hholds, hfreed 0 .hostBlockTimes⟩

end A100Partitioning.Multikernel
