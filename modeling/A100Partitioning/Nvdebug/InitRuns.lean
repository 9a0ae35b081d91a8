import A100Partitioning.Nvdebug.InitErrors
import A100Partitioning.Nvdebug.Probe

/-!
# When loading is clean

This module follows `nvdebug_init` over all devices, and says exactly when it
does what its cleanup is for.
-/

namespace A100Partitioning.Nvdebug

open Support

/-! ## The loop over devices -/

/-- The entries of the first devices, in the order of the loop. -/
def allEntries (devices : List Machine) : ℕ → List ProcEntry
  | 0 => []
  | res + 1 =>
      ((devices[res]?.map fun s => deviceEntries s res).getD []) ++
        allEntries devices res

section Devices

variable {env : InitEnv} {devices : List Machine}

theorem allEntries_succ {res : ℕ} {s : Machine} (hs : devices[res]? = some s) :
    allEntries devices (res + 1) = deviceEntries s res ++ allEntries devices res := by
  rw [allEntries, hs]
  rfl

theorem mem_allEntries {n : ℕ} {e : ProcEntry} (h : e ∈ allEntries devices n) :
    ∃ d s, d < n ∧ devices[d]? = some s ∧ e ∈ deviceEntries s d := by
  induction n with
  | zero => cases h
  | succ res ih =>
      cases hs : devices[res]? with
      | none =>
          rw [allEntries, hs] at h
          obtain ⟨d, s, hd, hds, he⟩ := ih h
          exact ⟨d, s, Nat.lt_succ_of_lt hd, hds, he⟩
      | some s =>
          rw [allEntries_succ hs, List.mem_append] at h
          rcases h with h | h
          · exact ⟨res, s, Nat.lt_succ_self res, hs, h⟩
          · obtain ⟨d, s, hd, hds, he⟩ := ih h
            exact ⟨d, s, Nat.lt_succ_of_lt hd, hds, he⟩

theorem mem_allEntries_of_mem {n d : ℕ} {s : Machine} {e : ProcEntry} (hd : d < n)
    (hs : devices[d]? = some s) (he : e ∈ deviceEntries s d) :
    e ∈ allEntries devices n := by
  induction n with
  | zero => cases hd
  | succ res ih =>
      rcases Nat.lt_succ_iff_lt_or_eq.mp hd with hd | rfl
      · rw [allEntries]
        exact List.mem_append_right _ (ih hd)
      · rw [allEntries_succ hs]
        exact List.mem_append_left _ he

theorem nodup_allEntries {n : ℕ}
    (hlast : ∀ s ∈ devices, lastRunlist s < 10 ^ 4) :
    ((allEntries devices n).map ProcEntry.path).Nodup := by
  induction n with
  | zero => exact List.nodup_nil
  | succ res ih =>
      cases hs : devices[res]? with
      | none =>
          rw [allEntries, hs]
          exact ih
      | some s =>
          rw [allEntries_succ hs, List.map_append, List.nodup_append]
          refine ⟨nodup_deviceEntries res (hlast s (List.mem_of_getElem? hs)), ih, ?_⟩
          intro p hp p' hp' heq
          obtain ⟨e, he, rfl⟩ := List.mem_map.mp hp
          obtain ⟨e', he', rfl⟩ := List.mem_map.mp hp'
          obtain ⟨d, s', hd, -, he'⟩ := mem_allEntries he'
          have hof : e'.IsOf res := by
            rw [ProcEntry.IsOf, ← heq]
            exact isOf_of_mem_deviceEntries he
          exact hd.ne ((isOf_of_mem_deviceEntries he').unique hof)

/-- The masks of the first devices can be read. -/
def AllReadable (devices : List Machine) (n : ℕ) : Prop :=
  ∀ d s, d < n → devices[d]? = some s → MasksReadable s

/-- The loop over devices creates all their entries, or removes what it has
created. -/
theorem initDevices_cases {n : ℕ} (hn : n ≤ devices.length) {entries : List ProcEntry}
    (hof : ∀ e ∈ entries, ∃ d, n ≤ d ∧ d < devices.length ∧ e.IsOf d) :
    (AllReadable devices n ∧
      (Registry.register ProcEntry.path env.nomem (allEntries devices n)
        entries).1 = true ∧
      initDevices env devices n entries =
        (0, (allEntries devices n).reverse ++ entries)) ∨
    (¬ (AllReadable devices n ∧
      (Registry.register ProcEntry.path env.nomem (allEntries devices n)
        entries).1 = true) ∧
      ∃ err < 0, initDevices env devices n entries = (err, [])) := by
  induction n generalizing entries with
  | zero => exact .inl ⟨fun _ _ h => absurd h (Nat.not_lt_zero _), rfl, rfl⟩
  | succ res ih =>
      have hs : devices[res]? = some devices[res] := List.getElem?_eq_getElem hn
      rw [initDevices, hs, allEntries_succ hs, Registry.register_append]
      cases hdone : (initDevice env devices[res] res entries).1 with
      | ok u =>
          obtain ⟨hmasks, hok⟩ := initDevice_ok_iff.mp ⟨u, hdone⟩
          have hentries := initDevice_snd_of_ok hdone
          have hreadable : AllReadable devices (res + 1) ↔ AllReadable devices res := by
            constructor
            · intro h d s hd hds
              exact h d s (Nat.lt_succ_of_lt hd) hds
            · intro h d s hd hds
              rcases Nat.lt_succ_iff_lt_or_eq.mp hd with hd | rfl
              · exact h d s hd hds
              · rw [hs] at hds
                cases hds
                exact hmasks
          have hof' : ∀ e ∈ (initDevice env devices[res] res entries).2,
              ∃ d, res ≤ d ∧ d < devices.length ∧ e.IsOf d := by
            intro e he
            rcases mem_initDevice he with he | he
            · exact ⟨res, le_rfl, hn, isOf_of_mem_deviceEntries he⟩
            · obtain ⟨d, hd, hlen, he⟩ := hof e he
              exact ⟨d, Nat.le_of_succ_le hd, hlen, he⟩
          rw [hreadable, if_pos hok, Registry.register_ok hok, ← hentries]
          simp only [hdone]
          rcases ih (Nat.le_of_succ_le hn) hof' with ⟨hall, hrest, heq⟩ | hbad
          · refine .inl ⟨hall, hrest, ?_⟩
            rw [heq, hentries, List.reverse_append, List.append_assoc]
          · exact .inr hbad
      | error err =>
          refine .inr ⟨?_, err, initDevice_error hdone, ?_⟩
          · rintro ⟨hreadable, hok⟩
            have hfirst : (Registry.register ProcEntry.path env.nomem
                (deviceEntries devices[res] res) entries).1 = true := by
              by_contra hnot
              rw [if_neg hnot] at hok
              exact hnot hok
            obtain ⟨u, hu⟩ := initDevice_ok_iff.mpr
              ⟨hreadable res _ (Nat.lt_succ_self res) hs, hfirst⟩
            rw [hdone] at hu
            cases hu
          · simp only [hdone]
            have hnil : removeFrom res devices.length
                (initDevice env devices[res] res entries).2 = [] := by
              rw [List.eq_nil_iff_forall_not_mem]
              intro e he
              obtain ⟨he, hnone⟩ := mem_removeFrom.mp he
              rcases mem_initDevice he with he | he
              · exact hnone res le_rfl hn (isOf_of_mem_deviceEntries he)
              · obtain ⟨d, hd, hlen, he⟩ := hof e he
                exact hnone d (Nat.le_of_succ_le hd) hlen he
            rw [hnil]

end Devices

/-! ## The number of runlists -/

theorem countRunlistsFrom_le {rows : List PtopDeviceInfoGa100} {runlistCount : ℤ}
    (hcount : 0 ≤ runlistCount) (subrow : ℕ) :
    countRunlistsFrom runlistCount subrow rows ≤ runlistCount + rows.length := by
  induction rows generalizing runlistCount subrow with
  | nil =>
      rw [countRunlistsFrom, List.length_nil]
      omega
  | cons row rows ih =>
      have heio : -eio ≤ 0 := by decide
      rw [countRunlistsFrom, List.length_cons, Nat.cast_add_one]
      split_ifs
      · omega
      · have := ih hcount subrow
        omega
      · have := ih (show 0 ≤ runlistCount + 1 by omega) (nextSubrow subrow row)
        omega
      · have := ih hcount (nextSubrow subrow row)
        omega

theorem maxRunlistFrom_le {rows : List PtopDeviceInfoGk104} {maxRlId : ℕ}
    (hmax : maxRlId < 16) : maxRunlistFrom maxRlId rows < 16 := by
  induction rows generalizing maxRlId with
  | nil =>
      rw [maxRunlistFrom]
      omega
  | cons info rows ih =>
      have heio : -eio ≤ 0 := by decide
      have henum : info.runlistEnum < 16 := Bitfield.get_lt 21 4 info.raw
      rw [maxRunlistFrom]
      split_ifs
      · omega
      · exact ih hmax
      · exact ih (max_lt hmax henum)

theorem getLastRunlistId_lt (s : Machine) : getLastRunlistId s < 10 ^ 4 := by
  rw [getLastRunlistId]
  split
  · have hle := @countRunlistsFrom_le s.ptopRowsGa100 0 (le_refl 0) 0
    have hsize : s.ptopSizeGa100 < 4096 := by
      rw [Machine.ptopSizeGa100, Nat.shiftRight_eq_div_pow]
      have := (s.readlValue 0x000224fc).isLt
      omega
    rw [length_ptopRowsGa100] at hle
    rw [getLastRunlistIdGa100]
    omega
  · have hlt : getLastRunlistIdGk104 s < 16 := maxRunlistFrom_le (by decide)
    omega

theorem lastRunlist_of_nonneg {s : Machine} (h : 0 ≤ getLastRunlistId s) :
    (lastRunlist s : ℤ) = getLastRunlistId s ∧ lastRunlist s < 10 ^ 4 := by
  have hlt := getLastRunlistId_lt s
  have hmod : getLastRunlistId s % 2 ^ 64 = getLastRunlistId s :=
    Int.emod_eq_of_lt h (by omega)
  rw [lastRunlist, hmod]
  omega

theorem countRunlistsFrom_ge {rows : List PtopDeviceInfoGa100} {runlistCount : ℤ}
    (hcount : 0 ≤ runlistCount) (subrow : ℕ) :
    -10 ≤ countRunlistsFrom runlistCount subrow rows := by
  induction rows generalizing runlistCount subrow with
  | nil =>
      rw [countRunlistsFrom]
      omega
  | cons row rows ih =>
      have heio : -10 ≤ -eio := by decide
      rw [countRunlistsFrom]
      split_ifs
      · exact heio
      · exact ih hcount subrow
      · exact ih (by omega) (nextSubrow subrow row)
      · exact ih hcount (nextSubrow subrow row)

theorem maxRunlistFrom_ge (rows : List PtopDeviceInfoGk104) (maxRlId : ℕ) :
    -10 ≤ maxRunlistFrom maxRlId rows := by
  induction rows generalizing maxRlId with
  | nil =>
      rw [maxRunlistFrom]
      omega
  | cons info rows ih =>
      have heio : -10 ≤ -eio := by decide
      rw [maxRunlistFrom]
      split_ifs
      · exact heio
      · exact ih maxRlId
      · exact ih _

theorem getLastRunlistId_ge (s : Machine) : -10 ≤ getLastRunlistId s := by
  rw [getLastRunlistId]
  split
  · exact countRunlistsFrom_ge (le_refl 0) 0
  · exact maxRunlistFrom_ge _ 0

/-- Numbers of 20 digits that differ in the last ones are printed alike. -/
theorem runlistName_of_wrapped {k : ℕ} (hlow : 2 ^ 64 - 11 ≤ k) (hhigh : k < 2 ^ 64) :
    runlistName k = ⟨"runlist", some 1844⟩ := by
  have hlog : Nat.log 10 k = 19 := by
    apply Nat.log_eq_of_pow_le_of_lt_pow
    · omega
    · omega
  have hdiv : k / 10 ^ 16 = 1844 := by
    omega
  rw [runlistName, hlog, hdiv]

/-- Where the number of runlists cannot be found, the loop over runlists starts
from a number that is too large, and fails when a name is taken. -/
theorem not_nodup_deviceEntries {s : Machine} (d : ℕ) (h : getLastRunlistId s < 0) :
    ¬ ((deviceEntries s d).map ProcEntry.path).Nodup := by
  have hge := getLastRunlistId_ge s
  have hmod : getLastRunlistId s % 2 ^ 64 = getLastRunlistId s + 2 ^ 64 := by
    omega
  obtain ⟨k, hk⟩ : ∃ k, lastRunlist s = k + 1 := by
    apply Nat.exists_eq_succ_of_ne_zero
    rw [lastRunlist, hmod]
    omega
  have hlow : 2 ^ 64 - 10 ≤ lastRunlist s := by
    rw [lastRunlist, hmod]
    omega
  have hhigh : lastRunlist s < 2 ^ 64 := by
    rw [lastRunlist, hmod]
    omega
  intro hnodup
  rw [deviceEntries_eq, List.map_cons, List.nodup_cons, List.map_append] at hnodup
  have hrunlists := (List.nodup_append.mp hnodup.2).1
  rw [hk] at hrunlists
  apply not_nodup_runlistsEntries _ hrunlists
  rw [runlistName_of_wrapped (by omega) (by omega),
    runlistName_of_wrapped (by omega) (by omega)]

/-! ## Directories -/

section Directory

variable {e : ProcEntry} {d : ℕ}

theorem ops_of_mem_chramFiles {chipId k : ℕ} {chramScope rlDir : List ProcName}
    (h : e ∈ chramFiles chipId k chramScope rlDir) : e.ops ≠ .directory := by
  rw [chramFiles, List.mem_append] at h
  rcases h with h | h
  · simp only [List.mem_cons, List.not_mem_nil, or_false] at h
    rcases h with rfl | rfl | rfl | rfl | rfl <;> exact ProcOps.noConfusion
  · split at h
    · simp only [List.mem_cons, List.not_mem_nil, or_false] at h
      rcases h with rfl | rfl | rfl <;> exact ProcOps.noConfusion
    · cases h

theorem directory_of_mem_runlistEntries {chipId k : ℕ}
    (h : e ∈ runlistEntries chipId d k) (hdir : e.ops = .directory) :
    e.path = runlistDir d k := by
  rw [runlistEntries, List.mem_append, List.mem_cons] at h
  rcases h with (rfl | h) | h
  · rfl
  · split at h
    · exact absurd hdir (ops_of_mem_chramFiles h)
    · cases h
  · simp only [List.mem_cons, List.not_mem_nil, or_false] at h
    rcases h with rfl | rfl | rfl <;> cases hdir

theorem mem_runlistsEntries_iff {chipId k : ℕ} :
    e ∈ runlistsEntries chipId d k ↔ ∃ j ≤ k, e ∈ runlistEntries chipId d j := by
  induction k with
  | zero =>
      constructor
      · intro h
        exact ⟨0, le_rfl, h⟩
      · rintro ⟨j, hj, h⟩
        rw [Nat.le_zero.mp hj] at h
        exact h
  | succ k ih =>
      rw [runlistsEntries, List.mem_append, ih]
      constructor
      · rintro (h | ⟨j, hj, h⟩)
        · exact ⟨k + 1, le_rfl, h⟩
        · exact ⟨j, Nat.le_succ_of_le hj, h⟩
      · rintro ⟨j, hj, h⟩
        rcases Nat.le_succ_iff.mp hj with hj | rfl
        · exact .inr ⟨j, hj, h⟩
        · exact .inl h

theorem directory_of_mem_runlistsEntries {chipId k : ℕ}
    (h : e ∈ runlistsEntries chipId d k) (hdir : e.ops = .directory) :
    ∃ j ≤ k, e.path = runlistDir d j := by
  obtain ⟨j, hj, h⟩ := mem_runlistsEntries_iff.mp h
  exact ⟨j, hj, directory_of_mem_runlistEntries h hdir⟩

theorem runlistDir_mem_runlistEntries (chipId j : ℕ) :
    ⟨runlistDir d j, .directory, d⟩ ∈ runlistEntries chipId d j :=
  List.mem_append_left _ List.mem_cons_self

theorem ops_of_mem_generationFiles {chipId : ℕ}
    (h : e ∈ generationFiles chipId d) : e.ops ≠ .directory := by
  have hcwd : ∀ {n smId gpcTpcId}, e ∈ cwdFiles d n smId gpcTpcId →
      e.ops ≠ .directory := by
    intro n smId gpcTpcId h
    obtain ⟨i, -, h⟩ := List.mem_flatMap.mp h
    simp only [List.mem_cons, List.not_mem_nil, or_false] at h
    rcases h with rfl | rfl <;> exact ProcOps.noConfusion
  rw [generationFiles] at h
  simp only [List.mem_append, or_assoc] at h
  rcases h with h | h | h | h
  · split_ifs at h
    all_goals simp only [List.mem_cons, List.not_mem_nil, or_false] at h
    all_goals
      rw [h]
      exact ProcOps.noConfusion
  · split_ifs at h
    · exact hcwd h
    · rcases List.mem_append.mp h with h | h
      · exact hcwd h
      · simp only [List.mem_cons, List.not_mem_nil, or_false] at h
        rcases h with rfl | rfl <;> exact ProcOps.noConfusion
    · cases h
  · split_ifs at h
    · simp only [List.mem_cons, List.not_mem_nil, or_false] at h
      rcases h with rfl | rfl | rfl <;> exact ProcOps.noConfusion
    · cases h
  · split_ifs at h
    · simp only [List.mem_append, List.mem_cons, List.not_mem_nil, or_false,
        List.mem_map] at h
      rcases h with ((rfl | rfl) | ⟨i, -, rfl⟩) | rfl | rfl <;>
        exact ProcOps.noConfusion
    · cases h

theorem directory_of_mem_deviceEntries {s : Machine} (h : e ∈ deviceEntries s d)
    (hdir : e.ops = .directory) :
    e.path = gpuDir d ∨ ∃ k ≤ lastRunlist s, e.path = runlistDir d k := by
  rw [deviceEntries_eq, gpuLevelFiles, lateEntries] at h
  simp only [List.mem_cons, List.mem_append] at h
  rcases h with rfl | h | h | h | h
  · exact .inl rfl
  · exact .inr (directory_of_mem_runlistsEntries h hdir)
  · simp only [gpuFiles, List.mem_cons, List.not_mem_nil, or_false] at h
    rcases h with rfl | rfl | rfl | rfl | rfl | rfl <;> cases hdir
  · split at h
    · obtain ⟨i, -, rfl⟩ := List.mem_map.mp h
      cases hdir
    · cases h
  · exact absurd hdir (ops_of_mem_generationFiles h)

end Directory

/-! ## Errors -/

/-- Nothing on the way through `nvdebug_init` fails. -/
structure NothingFails (env : InitEnv) : Prop where
  found : AllFound env
  runlists : ∀ s ∈ env.devices, 0 ≤ getLastRunlistId s
  masks : ∀ s ∈ env.devices, MasksReadable s
  memory : ∀ e ∈ allEntries env.devices env.devices.length, env.nomem e.path = false

section Loaded

variable {env : InitEnv}

/-- The entries can all be created if and only if there is memory for them, and
the runlists of every device can be counted. -/
theorem register_allEntries_iff {devices : List Machine} :
    (Registry.register ProcEntry.path env.nomem (allEntries devices devices.length)
      []).1 = true ↔
      (∀ s ∈ devices, 0 ≤ getLastRunlistId s) ∧
        ∀ e ∈ allEntries devices devices.length, env.nomem e.path = false := by
  rw [Registry.register_ok_iff]
  constructor
  · rintro ⟨hmemory, hnodup, -⟩
    refine ⟨?_, hmemory⟩
    intro s hs
    by_contra hneg
    obtain ⟨d, hd, rfl⟩ := List.mem_iff_getElem.mp hs
    apply not_nodup_deviceEntries d (not_le.mp hneg)
    have hsublist : ∀ n, d < n →
        (deviceEntries devices[d] d).Sublist (allEntries devices n) := by
      intro n hn
      induction n with
      | zero => cases hn
      | succ res ih =>
          rw [allEntries]
          rcases Nat.lt_succ_iff_lt_or_eq.mp hn with hlt | rfl
          · exact (ih hlt).trans (List.sublist_append_right _ _)
          · rw [List.getElem?_eq_getElem hd]
            exact List.sublist_append_left _ _
    exact ((hsublist _ hd).map ProcEntry.path).nodup hnodup
  · rintro ⟨hrunlists, hmemory⟩
    refine ⟨hmemory, nodup_allEntries ?_, ?_⟩
    · intro s hs
      exact (lastRunlist_of_nonneg (hrunlists s hs)).2
    · intro e _ hmem
      cases hmem

theorem allReadable_length {devices : List Machine} :
    AllReadable devices devices.length ↔ ∀ s ∈ devices, MasksReadable s := by
  constructor
  · intro h s hs
    obtain ⟨d, hd, rfl⟩ := List.mem_iff_getElem.mp hs
    exact h d _ hd (List.getElem?_eq_getElem hd)
  · intro h d s _ hs
    exact h s (List.mem_of_getElem? hs)

/-- Loading succeeds with all entries if nothing fails, and otherwise reports an
error and leaves no entry. -/
theorem nvdebugInit_cases (env : InitEnv) :
    (NothingFails env ∧ (nvdebugInit env).err = 0 ∧
      (nvdebugInit env).entries = (allEntries env.devices env.devices.length).reverse) ∨
    (¬ NothingFails env ∧ (nvdebugInit env).err < 0 ∧
      (nvdebugInit env).entries = []) := by
  rw [nvdebugInit]
  rcases probeAndCacheDevices_cases env with ⟨hfound, hok, hdevices⟩ | ⟨hnot, err, hneg, herr⟩
  · simp only [hok, hdevices]
    have hnone : ∀ e ∈ ([] : List ProcEntry), ∃ d, env.devices.length ≤ d ∧
        d < env.devices.length ∧ e.IsOf d := by
      intro e he
      cases he
    rcases initDevices_cases (le_refl env.devices.length) hnone with
      ⟨hmasks, hregister, heq⟩ | ⟨hnot, err, hneg, heq⟩
    · obtain ⟨hrunlists, hmemory⟩ := register_allEntries_iff.mp hregister
      refine .inl ⟨⟨hfound, hrunlists, allReadable_length.mp hmasks, hmemory⟩, ?_, ?_⟩
      · rw [heq]
      · rw [heq, List.append_nil]
    · refine .inr ⟨?_, ?_, ?_⟩
      · intro h
        exact hnot ⟨allReadable_length.mpr h.masks,
          register_allEntries_iff.mpr ⟨h.runlists, h.memory⟩⟩
      · rw [heq]
        exact hneg
      · rw [heq]
  · simp only [herr]
    exact .inr ⟨fun h => hnot h.found, hneg, trivial⟩

theorem acquired_nvdebugInit (env : InitEnv) :
    (nvdebugInit env).acquired = (probeAndCacheDevices env.platform env.pci).2 := by
  rw [nvdebugInit]
  split <;> rfl

theorem acquired_of_nothingMapped (h : NothingMapped env) :
    (nvdebugInit env).acquired = ⟨[], [], []⟩ := by
  rw [acquired_nvdebugInit, probeAndCacheDevices]
  cases hgpu : env.platform with
  | some gpu =>
      have hmap := h.platform gpu (by rw [hgpu]; exact List.mem_singleton_self gpu)
      have hfails : (!gpu.resource || !gpu.ioremap) = true := by
        by_contra hnot
        apply hmap
        simpa using hnot
      simp only [Option.map_some, Option.getD_some, probePlatform, if_pos hfails]
  | none =>
      simp only [Option.map_none, Option.getD_none]
      cases hpci : env.pci with
      | nil => rfl
      | cons gpu gpus =>
          have hbar0 := h.pci hgpu gpu (by rw [hpci]; rfl)
          simp [probePci, hbar0]

theorem bars_of_not_nothingMapped (h : ¬ NothingMapped env) :
    (nvdebugInit env).acquired.bars ≠ [] := by
  rw [acquired_nvdebugInit]
  cases hgpu : env.platform with
  | some gpu =>
      have hmap : gpu.resource = true ∧ gpu.ioremap = true := by
        by_contra hnot
        apply h
        constructor
        · intro gpu' hmem
          rw [hgpu, Option.toList_some, List.mem_singleton] at hmem
          rw [hmem]
          exact hnot
        · intro hnone
          rw [hgpu] at hnone
          cases hnone
      have honPlatform : ((some gpu).map probePlatform).getD
          (.ok (), ⟨[], [], []⟩) =
            if gpu.core.readlValue 0 = BitVec.allOnes 32 then
              (.error (-eaddrnotavail), ⟨[], [(0, 0)], []⟩)
            else (.ok (), ⟨[probed gpu.core], [(0, 0)], []⟩) := by
        simp only [Option.map_some, Option.getD_some, probePlatform, hmap.1, hmap.2,
          Bool.not_true, Bool.or_self, Bool.false_eq_true, if_false]
      by_cases hread : gpu.core.readlValue 0 = BitVec.allOnes 32
      · rw [if_pos hread] at honPlatform
        rw [probeAndCacheDevices_of_error (congrArg Prod.fst honPlatform), honPlatform]
        exact List.cons_ne_nil _ _
      · rw [if_neg hread] at honPlatform
        rw [probeAndCacheDevices_of_ok (congrArg Prod.fst honPlatform), honPlatform]
        exact probePci_bars (List.cons_ne_nil _ _)
  | none =>
      have hnone : (∀ gpu ∈ env.pci.head?, gpu.bar0 = false) → NothingMapped env := by
        intro hpci
        constructor
        · intro gpu hmem
          rw [hgpu] at hmem
          cases hmem
        · intro _
          exact hpci
      rw [probeAndCacheDevices_of_ok rfl]
      cases hpci : env.pci with
      | nil =>
          exfalso
          apply h (hnone _)
          intro gpu hmem
          rw [hpci] at hmem
          cases hmem
      | cons gpu gpus =>
          apply probePci_cons_bars (by decide)
          by_contra hnot
          apply h (hnone _)
          intro gpu' hmem
          rw [hpci] at hmem
          cases hmem
          exact eq_false_of_ne_true hnot

/-! ## Clean loading -/

theorem devices_of_nothingFails (h : NothingFails env) :
    (nvdebugInit env).acquired.devices = env.devices := by
  rw [acquired_nvdebugInit]
  rcases probeAndCacheDevices_cases env with ⟨-, -, hdevices⟩ | ⟨hnot, -⟩
  · exact hdevices
  · exact absurd h.found hnot

/-- An error is reported and leaves nothing behind, and without one there is one
directory for each runlist of each device. -/
structure LoadsCleanly (env : InitEnv) : Prop where
  reported : ¬ NothingFails env → (nvdebugInit env).err < 0
  released : (nvdebugInit env).err < 0 →
    (nvdebugInit env).entries = [] ∧ (nvdebugInit env).acquired.irqs = [] ∧
      (nvdebugInit env).acquired.bars = []
  once : ¬ (nvdebugInit env).err < 0 →
    ((nvdebugInit env).entries.map ProcEntry.path).Nodup
  runlists : ¬ (nvdebugInit env).err < 0 →
    ∀ d s, (nvdebugInit env).acquired.devices[d]? = some s →
      ∀ name, (∃ e ∈ (nvdebugInit env).entries, e.path = [gpuName d, name] ∧
          e.ops = .directory) ↔
        ∃ k : ℕ, (k : ℤ) ≤ getLastRunlistId s ∧ name = ⟨"runlist", some k⟩

theorem runlists_of_nothingFails (h : NothingFails env) {d : ℕ} {s : Machine}
    (hs : env.devices[d]? = some s) (name : ProcName) :
    (∃ e ∈ allEntries env.devices env.devices.length,
        e.path = [gpuName d, name] ∧ e.ops = .directory) ↔
      ∃ k : ℕ, (k : ℤ) ≤ getLastRunlistId s ∧ name = ⟨"runlist", some k⟩ := by
  obtain ⟨hlast, hlt⟩ := lastRunlist_of_nonneg
    (h.runlists s (List.mem_of_getElem? hs))
  constructor
  · rintro ⟨e, he, hpath, hdir⟩
    obtain ⟨d', s', -, hs', he⟩ := mem_allEntries he
    have hof : e.IsOf d := by
      rw [ProcEntry.IsOf, hpath]
      rfl
    rw [(isOf_of_mem_deviceEntries he).unique hof, hs] at hs'
    rw [(isOf_of_mem_deviceEntries he).unique hof] at he
    cases hs'
    rcases directory_of_mem_deviceEntries he hdir with hgpu | ⟨k, hk, hrunlist⟩
    · rw [hgpu] at hpath
      cases hpath
    · rw [hrunlist, runlistDir, runlistName_of_lt (by omega)] at hpath
      injection hpath with _ hpath
      injection hpath with hname
      exact ⟨k, by omega, hname.symm⟩
  · rintro ⟨k, hk, rfl⟩
    refine ⟨⟨runlistDir d k, .directory, d⟩, ?_, ?_, rfl⟩
    · apply mem_allEntries_of_mem (List.getElem?_eq_some_iff.mp hs).1 hs
      rw [deviceEntries_eq]
      apply List.mem_cons_of_mem
      exact List.mem_append_left _ (mem_runlistsEntries_iff.mpr
        ⟨k, by omega, runlistDir_mem_runlistEntries _ k⟩)
    · rw [runlistDir, runlistName_of_lt (by omega)]

/-- Loading is clean if nothing fails, and otherwise only if not even the first
GPU has been mapped. -/
theorem loadsCleanly_iff (env : InitEnv) :
    LoadsCleanly env ↔ NothingFails env ∨ NothingMapped env := by
  rcases nvdebugInit_cases env with ⟨hall, herr, hentries⟩ | ⟨hfails, herr, hentries⟩
  · have hok : ¬ (nvdebugInit env).err < 0 := by
      rw [herr]
      decide
    constructor
    · intro _
      exact .inl hall
    · intro _
      constructor
      · intro hnot
        exact absurd hall hnot
      · intro hneg
        exact absurd hneg hok
      · intro _
        rw [hentries, List.map_reverse, List.nodup_reverse]
        apply nodup_allEntries
        intro s hs
        exact (lastRunlist_of_nonneg (hall.runlists s hs)).2
      · intro _ d s hs name
        rw [devices_of_nothingFails hall] at hs
        simp only [hentries, List.mem_reverse]
        exact runlists_of_nothingFails hall hs name
  · constructor
    · intro hclean
      right
      by_contra hmapped
      exact bars_of_not_nothingMapped hmapped (hclean.released herr).2.2
    · intro h
      have hmapped := h.resolve_left hfails
      constructor
      · intro _
        exact herr
      · intro _
        rw [acquired_of_nothingMapped hmapped]
        exact ⟨hentries, rfl, rfl⟩
      · intro hok
        exact absurd herr hok
      · intro hok
        exact absurd herr hok

/-- Two A100 GPUs, of which the second cannot be mapped. -/
def secondUnmapped : InitEnv where
  platform := none
  pci :=
    let core := { twoRunlists with
      regs := fun r => if r = 0 then 0x170000a1 else twoRunlists.regs r }
    [⟨true, true, true, true, true, core⟩, ⟨false, true, true, true, true, core⟩]
  nomem := fun _ => false

theorem secondUnmapped_not_loadsCleanly : ¬ LoadsCleanly secondUnmapped := by
  intro hclean
  have herr : (nvdebugInit secondUnmapped).err < 0 := by
    decide
  have hbars : (nvdebugInit secondUnmapped).acquired.bars = [(0, 3), (0, 0)] := by
    decide
  rw [(hclean.released herr).2.2] at hbars
  cases hbars

end Loaded

end A100Partitioning.Nvdebug
