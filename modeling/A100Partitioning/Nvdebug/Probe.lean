import A100Partitioning.Nvdebug.Init

/-!
# Finding the GPUs

`probe_and_cache_devices` looks at the platform bus, and then at the PCI bus.
This module says when it finds all GPUs that it looks at, and what it has mapped
by then.
-/

namespace A100Partitioning.Nvdebug

/-- The GPUs on the PCI bus that are looked at. -/
def InitEnv.considered (env : InitEnv) : List PciGpu :=
  env.pci.take (8 - env.platform.toList.length)

/-- The GPUs, in the order of their numbers. -/
def InitEnv.devices (env : InitEnv) : List Machine :=
  (env.platform.toList.map fun gpu => probed gpu.core) ++
    env.considered.map fun gpu => probed gpu.core

/-- The GPU can be mapped, and read. -/
def PlatformGpu.Found (gpu : PlatformGpu) : Prop :=
  (gpu.resource = true ∧ gpu.ioremap = true) ∧
    gpu.core.readlValue 0 ≠ BitVec.allOnes 32

/-- The GPU can be mapped, and read. -/
def PciGpu.Found (gpu : PciGpu) : Prop :=
  gpu.bar0 = true ∧ gpu.core.readlValue 0 ≠ BitVec.allOnes 32

/-- There are GPUs, and all of them can be mapped and read. -/
structure AllFound (env : InitEnv) : Prop where
  platform : ∀ gpu ∈ env.platform.toList, gpu.Found
  pci : ∀ gpu ∈ env.considered, gpu.Found
  any : env.devices ≠ []

/-- The GPU that is looked at first cannot be mapped, or there is none. -/
structure NothingMapped (env : InitEnv) : Prop where
  platform : ∀ gpu ∈ env.platform.toList, ¬ (gpu.resource = true ∧ gpu.ioremap = true)
  pci : env.platform = none → ∀ gpu ∈ env.pci.head?, gpu.bar0 = false

section Probe

variable {gpus : List PciGpu} {got : Acquired}

/-- The loop over the PCI bus ends with all GPUs, or with an error. -/
theorem probePci_cases (hgot : got.devices.length ≤ 8) :
    ((∀ gpu ∈ gpus.take (8 - got.devices.length), gpu.Found) ∧
      (probePci gpus got).1 = .ok () ∧
      (probePci gpus got).2.devices = got.devices ++
        (gpus.take (8 - got.devices.length)).map fun gpu => probed gpu.core) ∨
    (¬ (∀ gpu ∈ gpus.take (8 - got.devices.length), gpu.Found) ∧
      (probePci gpus got).1 = .error (-eaddrnotavail)) := by
  induction gpus generalizing got with
  | nil => simp [probePci]
  | cons gpu gpus ih =>
      by_cases hfull : 8 ≤ got.devices.length
      · have hzero : 8 - got.devices.length = 0 := by
          omega
        rw [probePci, if_pos hfull, hzero]
        simp
      · have htake : (gpu :: gpus).take (8 - got.devices.length) =
            gpu :: gpus.take (8 - (got.devices.length + 1)) := by
          obtain ⟨n, hn⟩ := Nat.exists_eq_succ_of_ne_zero
            (Nat.sub_ne_zero_of_lt (not_le.mp hfull))
          rw [hn, List.take_succ_cons]
          congr 2
          omega
        rw [probePci, if_neg hfull, htake, List.forall_mem_cons, List.map_cons]
        by_cases hbar0 : gpu.bar0 = true
        · simp only [hbar0, Bool.not_true, Bool.false_eq_true, if_false]
          by_cases hread : gpu.core.readlValue 0 = BitVec.allOnes 32
          · rw [if_pos hread]
            refine .inr ⟨?_, rfl⟩
            rintro ⟨hfound, -⟩
            exact hfound.2 hread
          · rw [if_neg hread]
            have hlen : (got.devices ++ [probed gpu.core]).length =
                got.devices.length + 1 := by
              simp
            have hfound : gpu.Found := ⟨hbar0, hread⟩
            have hrest := fun bars irqs =>
              @ih ⟨got.devices ++ [probed gpu.core], bars, irqs⟩ (by
                rw [hlen]
                omega)
            simp only [hlen] at hrest
            by_cases hall : ∀ gpu ∈ gpus.take (8 - (got.devices.length + 1)), gpu.Found
            · have hok := fun bars irqs =>
                (hrest bars irqs).resolve_right fun h => h.1 hall
              refine .inl ⟨⟨hfound, hall⟩, (hok _ _).2.1, ?_⟩
              rw [(hok _ _).2.2, List.append_assoc]
              rfl
            · have herr := fun bars irqs =>
                (hrest bars irqs).resolve_left fun h => hall h.1
              exact .inr ⟨fun h => hall h.2, (herr _ _).2⟩
        · rw [if_pos (by simpa using hbar0)]
          refine .inr ⟨?_, rfl⟩
          rintro ⟨hfound, -⟩
          exact hbar0 hfound.1

theorem probePci_bars (h : got.bars ≠ []) : (probePci gpus got).2.bars ≠ [] := by
  induction gpus generalizing got with
  | nil => exact h
  | cons gpu gpus ih =>
      rw [probePci]
      split_ifs
      all_goals first
        | exact h
        | exact List.cons_ne_nil _ _
        | exact ih (List.cons_ne_nil _ _)

theorem probePci_cons_bars {gpu : PciGpu} (hroom : got.devices.length < 8)
    (hbar0 : gpu.bar0 = true) : (probePci (gpu :: gpus) got).2.bars ≠ [] := by
  rw [probePci, if_neg (not_le.mpr hroom), hbar0]
  split_ifs
  all_goals first
    | contradiction
    | exact List.cons_ne_nil _ _
    | exact probePci_bars (List.cons_ne_nil _ _)

variable {env : InitEnv}

/-- Finding the GPUs succeeds if and only if all of them are found. -/
theorem probeAndCacheDevices_cases (env : InitEnv) :
    (AllFound env ∧ (probeAndCacheDevices env.platform env.pci).1 = .ok () ∧
      (probeAndCacheDevices env.platform env.pci).2.devices = env.devices) ∨
    (¬ AllFound env ∧
      ∃ err < 0, (probeAndCacheDevices env.platform env.pci).1 = .error err) := by
  have hneg : -eaddrnotavail < 0 ∧ -enodev < 0 := by decide
  -- What comes first on the platform bus.
  have hplatform : (∃ gpu ∈ env.platform.toList, ¬ gpu.Found ∧
        (probePlatform gpu).1 = .error (-eaddrnotavail)) ∨
      ((∀ gpu ∈ env.platform.toList, gpu.Found) ∧
        ((env.platform.map probePlatform).getD (.ok (), ⟨[], [], []⟩)).1 = .ok () ∧
        ((env.platform.map probePlatform).getD (.ok (), ⟨[], [], []⟩)).2.devices =
          env.platform.toList.map fun gpu => probed gpu.core) := by
    cases hgpu : env.platform with
    | none => exact .inr ⟨by simp, rfl, rfl⟩
    | some gpu =>
        simp only [Option.toList_some, List.mem_singleton, exists_eq_left,
          forall_eq, Option.map_some, Option.getD_some, PlatformGpu.Found]
        by_cases hmap : gpu.resource = true ∧ gpu.ioremap = true
        · rw [probePlatform, if_neg (by simp [hmap.1, hmap.2])]
          by_cases hread : gpu.core.readlValue 0 = BitVec.allOnes 32
          · rw [if_pos hread]
            exact .inl ⟨fun h => h.2 hread, rfl⟩
          · rw [if_neg hread]
            exact .inr ⟨⟨hmap, hread⟩, rfl, rfl⟩
        · refine .inl ⟨fun h => hmap h.1, ?_⟩
          rw [probePlatform, if_pos]
          by_contra hnot
          apply hmap
          simpa using hnot
  rcases hplatform with ⟨gpu, hmem, hnot, herr⟩ | ⟨hfound, hok, hdevices⟩
  · refine .inr ⟨fun h => hnot (h.platform gpu hmem), -eaddrnotavail, hneg.1, ?_⟩
    rw [Option.mem_toList] at hmem
    rw [probeAndCacheDevices, hmem]
    simp only [Option.map_some, Option.getD_some, herr]
  · have hlen : ((env.platform.map probePlatform).getD
        (.ok (), ⟨[], [], []⟩)).2.devices.length = env.platform.toList.length := by
      rw [hdevices, List.length_map]
    have hone : env.platform.toList.length ≤ 8 := by
      cases env.platform <;> simp
    have hpci := @probePci_cases env.pci _ (le_of_eq_of_le hlen hone)
    rw [hlen, hdevices] at hpci
    rw [probeAndCacheDevices]
    simp only [hok]
    rcases hpci with ⟨hall, hok', hdevices'⟩ | ⟨hnot, herr⟩
    · have hdevices' := hdevices'.trans (show _ = env.devices from rfl)
      simp only [hok', hdevices']
      by_cases hany : env.devices = []
      · rw [if_pos hany]
        exact .inr ⟨fun h => h.any hany, -enodev, hneg.2, rfl⟩
      · rw [if_neg hany]
        exact .inl ⟨⟨hfound, hall, hany⟩, rfl, hdevices'⟩
    · simp only [herr]
      exact .inr ⟨fun h => hnot h.pci, -eaddrnotavail, hneg.1, rfl⟩

end Probe

section Cases

variable {platform : Option PlatformGpu} {pci : List PciGpu} {err : ℤ}

theorem probeAndCacheDevices_of_error
    (h : ((platform.map probePlatform).getD (.ok (), ⟨[], [], []⟩)).1 = .error err) :
    (probeAndCacheDevices platform pci).2 =
      ((platform.map probePlatform).getD (.ok (), ⟨[], [], []⟩)).2 := by
  simp only [probeAndCacheDevices, h]

theorem probeAndCacheDevices_of_ok
    (h : ((platform.map probePlatform).getD (.ok (), ⟨[], [], []⟩)).1 = .ok ()) :
    (probeAndCacheDevices platform pci).2 =
      (probePci pci ((platform.map probePlatform).getD (.ok (), ⟨[], [], []⟩)).2).2 := by
  simp only [probeAndCacheDevices, h]
  split
  · rfl
  · split_ifs <;> rfl

end Cases

end A100Partitioning.Nvdebug
