import A100Partitioning.Nvdebug.InitRuns
import A100Partitioning.Nvdebug.ProcFiles
import A100Partitioning.Nvdebug.Resubmit
import A100Partitioning.Nvdebug.SwitchToTsg

/-!
# The files of a runlist serve this runlist

This module follows the data words from `nvdebug_init` to the handlers, and says
for which files they name the right GPU and the right runlist.
-/

namespace A100Partitioning.Nvdebug

variable (env : HandlerEnv)

/-! ## Data words -/

section Data

variable {e : ProcEntry} {d : ℕ}

/-- The file `resubmit_runlist` is given the number of the GPU instead of that of the
runlist. -/
theorem data_of_mem_runlistEntries {chipId k : ℕ} (h : e ∈ runlistEntries chipId d k) :
    e = ⟨runlistDir d k, .directory, d⟩ ∨
      (handlerOf env e.ops).isSome ∧ (operationOf env e.ops).isSome ∧
        e.data = if e.ops = .resubmitRunlist then d else k := by
  have hchram : ∀ {scope dir}, e ∈ chramFiles chipId k scope dir →
      (handlerOf env e.ops).isSome ∧ (operationOf env e.ops).isSome ∧
        e.data = if e.ops = .resubmitRunlist then d else k := by
    intro scope dir h
    rw [chramFiles, List.mem_append] at h
    rcases h with h | h
    · simp only [List.mem_cons, List.not_mem_nil, or_false] at h
      rcases h with rfl | rfl | rfl | rfl | rfl <;> exact ⟨rfl, rfl, rfl⟩
    · split at h
      · simp only [List.mem_cons, List.not_mem_nil, or_false] at h
        rcases h with rfl | rfl | rfl <;> exact ⟨rfl, rfl, rfl⟩
      · cases h
  rw [runlistEntries, List.mem_append, List.mem_cons] at h
  rcases h with (h | h) | h
  · exact .inl h
  · split at h
    · exact .inr (hchram h)
    · cases h
  · right
    simp only [List.mem_cons, List.not_mem_nil, or_false] at h
    rcases h with rfl | rfl | rfl <;> exact ⟨rfl, rfl, rfl⟩

theorem data_of_path {chipId k r : ℕ} (h : e ∈ runlistEntries chipId d k)
    (hpath : e.path = [gpuName d, ⟨"runlist", some r⟩]) : e.data = d := by
  have hdeep : ∀ {n}, e.path ≠ runlistDir d k ++ [n] := by
    intro n hpath'
    rw [hpath] at hpath'
    have hlength := congrArg List.length hpath'
    cases hlength
  rw [runlistEntries, List.mem_append, List.mem_cons] at h
  rcases h with (rfl | h) | h
  · rfl
  · split at h
    · rcases path_of_mem_chramFiles h with ⟨n, hn, hpath'⟩ | ⟨n, hpath'⟩
      · split at hpath'
        · exact absurd hpath' hdeep
        · rw [hpath] at hpath'
          injection hpath' with _ hpath'
          injection hpath' with hname
          exact absurd (congrArg some hname.symm) (chramNames_ne hn r "runlist")
      · exact absurd hpath' hdeep
    · cases h
  · simp only [List.mem_cons, List.not_mem_nil, or_false] at h
    rcases h with h | h | h
    · exact absurd (congrArg ProcEntry.path h) hdeep
    · exact absurd (congrArg ProcEntry.path h) hdeep
    · exact absurd (congrArg ProcEntry.path h) hdeep

/-- What stands in the directory of a runlist was created for this runlist. -/
theorem mem_runlistEntries_of_name {s : Machine} {r : ℕ} (hlast : lastRunlist s < 10 ^ 4)
    (h : e ∈ deviceEntries s d) (hname : e.name = some ⟨"runlist", some r⟩) :
    r ≤ lastRunlist s ∧ e ∈ runlistEntries s.chipId d r := by
  rw [deviceEntries_eq, List.mem_cons, List.mem_append] at h
  rcases h with rfl | h | h
  · cases hname
  · obtain ⟨k, hk, h⟩ := mem_runlistsEntries_iff.mp h
    rcases name_of_mem_runlistEntries h with hk' | ⟨-, hchram⟩
    · rw [hname, runlistName_of_lt (by omega)] at hk'
      injection hk' with hk'
      injection hk' with _ hk'
      injection hk' with hk'
      subst hk'
      exact ⟨hk, h⟩
    · exact absurd hname (chramNames_ne hchram _ _)
  · rcases name_of_mem_gpuLevelFiles h with hlevel | ⟨i, hmask⟩
    · exact absurd hname ((gpuLevelNames_ne hlevel).2 r).1
    · rw [hname] at hmask
      injection hmask with hmask
      injection hmask with hstem
      exact absurd hstem (by decide)

end Data

/-! ## Which files serve their runlist -/

section Serving

variable {env : HandlerEnv} {f : ProcFile} {d r chip : ℕ}

theorem fileWrite_apply (operation : ℕ → Kernel ℤ) (v : BitVec 32) (count : ℕ)
    (s : Machine) :
    fileWrite operation (.ok v) count s = (operation v.toNat s).map fun p =>
      (if p.1 ≠ 0 then .error p.1 else .ok count, p.2) := by
  simp only [fileWrite, Kernel.bind_apply]
  cases operation v.toNat s with
  | none => rfl
  | some p =>
      by_cases herr : p.1 = 0
      · simp [herr]
      · simp [herr]

/-- The reply to a write whose operation returns `err`. -/
def writtenReply (count : ℕ) (err : ℤ) : ProcReply :=
  .written (if err ≠ 0 then .error err else .ok count)

theorem writtenReply_injective (count : ℕ) : Function.Injective (writtenReply count) := by
  intro err err' heq
  injection heq with heq
  by_cases herr : err = 0
  · by_cases herr' : err' = 0
    · rw [herr, herr']
    · simp [herr, herr'] at heq
  · by_cases herr' : err' = 0
    · simp [herr, herr'] at heq
    · simpa [herr, herr'] using heq

theorem fst_writeOnly (operation : ℕ → Kernel ℤ) (v : BitVec 32) (count : ℕ) (s : Machine) :
    (writeOnly operation (.write (.ok v) count) s).map Prod.fst =
      ((operation v.toNat s).map Prod.fst).map (writtenReply count) := by
  rw [writeOnly, Kernel.map_apply, fileWrite_apply, Option.map_map, Option.map_map,
    Option.map_map]
  rfl

theorem writeOnly_congr {x y : ℕ → Kernel ℤ} {s : Machine} (h : ∀ n, x n s = y n s)
    (call : ProcCall) : writeOnly x call s = writeOnly y call s := by
  cases call with
  | seq call rlIter => rfl
  | write parsed count =>
      cases parsed with
      | error e => rfl
      | ok v =>
          simp only [writeOnly, Kernel.map_apply]
          rw [fileWrite_apply, fileWrite_apply, h]

theorem preemptTsg_of_lt {rlId rlId' tsgId : ℕ} {s : Machine} (h : s.chipId < 0x170) :
    preemptTsg rlId tsgId s = preemptTsg rlId' tsgId s := by
  simp only [preemptTsg, Kernel.bind_apply, Kernel.get_apply, Option.bind_some, if_pos h]

theorem preemptTsgFileOps_eq (f : ProcFile) (call : ProcCall) (sys : System) :
    preemptTsgFileOps f call sys =
      onGpu f.file2parentgpuidx (writeOnly (preemptTsgChecked f.file2gpuidx) call) sys := by
  apply onGpu_congr
  apply writeOnly_congr
  intro tsgId
  rw [Kernel.bind_apply, Kernel.get_apply, Option.bind_some]
  by_cases hampere : 0x170 ≤ (sys f.file2parentgpuidx).chipId
  · simp only [if_pos hampere]
  · simp only [if_neg hampere, preemptTsgChecked]
    split
    · rfl
    · exact preemptTsg_of_lt (not_le.mp hampere)

/-- A file does what it is for if its numbers are those of its GPU and its runlist. -/
theorem serves_of_data (hhandler : (handlerOf env f.entry.ops).isSome)
    (hparent : f.parent.data = d) (hdata : f.entry.data = r)
    (hops : f.entry.ops ≠ .resubmitRunlist ∨ r = d) : Serves env f d r chip := by
  obtain ⟨⟨path, ops, data⟩, parent⟩ := f
  subst hparent
  subst hdata
  have hserves : ∀ handler operation, handlerOf env ops = some handler →
      operationOf env ops = some operation →
      (∀ call sys, handler ⟨⟨path, ops, data⟩, parent⟩ call sys =
        onGpu parent.data (operation data call) sys) →
      Serves env ⟨⟨path, ops, data⟩, parent⟩ parent.data data chip :=
    fun handler operation h h' heq => ⟨handler, operation, h, h', fun call sys _ => heq call sys⟩
  cases ops with
  | resubmitRunlist =>
      have heq : data = parent.data := hops.resolve_left fun h => h rfl
      subst heq
      exact hserves _ _ rfl rfl fun _ _ => rfl
  | preemptTsg =>
      apply hserves _ _ rfl rfl
      intro call sys
      exact preemptTsgFileOps_eq _ call sys
  | disableChannel => exact hserves _ _ rfl rfl fun _ _ => rfl
  | enableChannel => exact hserves _ _ rfl rfl fun _ _ => rfl
  | wfiPreemptChannel => exact hserves _ _ rfl rfl fun _ _ => rfl
  | ctaPreemptChannel => exact hserves _ _ rfl rfl fun _ _ => rfl
  | cilPreemptChannel => exact hserves _ _ rfl rfl fun _ _ => rfl
  | mapMemChid => exact hserves _ _ rfl rfl fun _ _ => rfl
  | mapMemCtxid => exact hserves _ _ rfl rfl fun _ _ => rfl
  | runlist => exact hserves _ _ rfl rfl fun _ _ => rfl
  | switchToTsg => exact hserves _ _ rfl rfl fun _ _ => rfl
  | _ => cases hhandler

theorem serves_resubmit_of_lt (hops : f.entry.ops = .resubmitRunlist)
    (hdata : f.entry.data = d) (hchip : chip < 0xC0) : Serves env f d r chip := by
  refine ⟨resubmitRunlistFileOps env,
    fun rlId => writeOnly (resubmitRunlist env.stack rlId), ?_, ?_, ?_⟩
  · rw [hops]
    rfl
  · rw [hops]
    rfl
  · intro call sys hsys
    rw [resubmitRunlistFileOps, ProcFile.file2gpuidx, hdata]
    apply onGpu_congr
    apply writeOnly_congr
    intro off
    have hearly : (sys d).chipId < 0xC0 := hsys.trans_lt hchip
    simp only [resubmitRunlist, Kernel.bind_apply, Kernel.get_apply, Option.bind_some,
      if_pos hearly]

/-- From Fermi on, a file made for the runlist with the number of the GPU does not serve
any other runlist. -/
theorem not_serves_resubmit (hops : f.entry.ops = .resubmitRunlist)
    (hdata : f.entry.data = d) (hd : d < 8) (hfermi : 0xC0 ≤ chip) (hne : r ≠ d) :
    ¬ Serves env f d r chip := by
  rintro ⟨handler, operation, hhandler, hoperation, hserves⟩
  rw [hops] at hhandler hoperation
  cases hhandler
  cases hoperation
  obtain ⟨s, hs, hdiffers⟩ := resubmitRunlist_differs env.stack 0 hfermi hd hne
  apply hdiffers
  have hreply := congrArg (Option.map Prod.fst)
    (hserves (.write (.ok 0) 0) (fun _ => s) hs)
  rw [resubmitRunlistFileOps, ProcFile.file2gpuidx, hdata, Function.comp_apply, fst_onGpu,
    fst_onGpu, fst_writeOnly, fst_writeOnly] at hreply
  exact Option.map_injective (writtenReply_injective 0) hreply

theorem length_devices_le (init : InitEnv) : init.devices.length ≤ 8 := by
  have hone : init.platform.toList.length ≤ 1 := by
    cases init.platform <;> simp
  have hpci : init.considered.length ≤ 8 - init.platform.toList.length := by
    rw [InitEnv.considered, List.length_take]
    exact Nat.min_le_left _ _
  rw [InitEnv.devices, List.length_append, List.length_map, List.length_map]
  omega

/-- Every file in the directory of a runlist serves this runlist, but for the file
`resubmit_runlist`: that one stands for the runlist with the number of the GPU. -/
theorem serves_iff (env : HandlerEnv) {init : InitEnv} {d r : ℕ} {s : Machine}
    {dir e : ProcEntry} {name : ProcName}
    (hs : (nvdebugInit init).acquired.devices[d]? = some s)
    (hdir : dir ∈ (nvdebugInit init).entries)
    (hpath : dir.path = [gpuName d, ⟨"runlist", some r⟩])
    (he : e ∈ (nvdebugInit init).entries) (hfile : e.path = dir.path ++ [name]) :
    Serves env ⟨e, dir⟩ d r s.chipId ↔
      e.ops ≠ .resubmitRunlist ∨ r = d ∨ s.chipId < 0xC0 := by
  rcases nvdebugInit_cases init with ⟨hall, -, hentries⟩ | ⟨-, -, hentries⟩
  · rw [devices_of_nothingFails hall] at hs
    rw [hentries, List.mem_reverse] at hdir he
    have hlast := (lastRunlist_of_nonneg
      (hall.runlists s (List.mem_of_getElem? hs))).2
    -- Both entries were created for this runlist.
    have hcreated : ∀ e' ∈ allEntries init.devices init.devices.length,
        e'.path[0]? = some (gpuName d) → e'.name = some ⟨"runlist", some r⟩ →
          e' ∈ runlistEntries s.chipId d r := by
      intro e' he' hgpu hname
      obtain ⟨d', s', -, hs', he'⟩ := mem_allEntries he'
      have hof : e'.IsOf d := by
        rw [ProcEntry.IsOf, List.head?_eq_getElem?, hgpu]
      have heq := (isOf_of_mem_deviceEntries he').unique hof
      subst heq
      rw [hs] at hs'
      cases hs'
      exact (mem_runlistEntries_of_name hlast he' hname).2
    have hdirEntry := hcreated dir hdir (by rw [hpath]; rfl) (by
      rw [ProcEntry.name, hpath]
      rfl)
    have hentry := hcreated e he (by rw [hfile, hpath]; rfl) (by
      rw [ProcEntry.name, hfile, hpath]
      rfl)
    have hparent : dir.data = d := data_of_path hdirEntry hpath
    have hd : d < 8 :=
      lt_of_lt_of_le (List.getElem?_eq_some_iff.mp hs).1 (length_devices_le init)
    rcases data_of_mem_runlistEntries env hentry with rfl | ⟨hhandler, -, hdata⟩
    · rw [hpath] at hfile
      have hlength := congrArg List.length hfile
      cases hlength
    · by_cases hops : e.ops = .resubmitRunlist
      · rw [if_pos hops] at hdata
        constructor
        · intro hserves
          right
          by_contra hnot
          obtain ⟨hne, hfermi⟩ := not_or.mp hnot
          exact not_serves_resubmit hops hdata hd (not_lt.mp hfermi) hne hserves
        · rintro (hne | rfl | hearly)
          · exact absurd hops hne
          · exact serves_of_data hhandler hparent hdata (.inr rfl)
          · exact serves_resubmit_of_lt hops hdata hearly
      · rw [if_neg hops] at hdata
        constructor
        · intro _
          exact .inl hops
        · intro _
          exact serves_of_data hhandler hparent hdata (.inl hops)
  · rw [hentries] at hdir
    cases hdir

end Serving

/-- An A100 GPU with two runlists. -/
def oneA100 : InitEnv where
  platform := none
  pci :=
    [⟨true, true, true, true, true, { twoRunlists with
      regs := fun r => if r = 0 then 0x170000a1 else twoRunlists.regs r }⟩]
  nomem := fun _ => false

/-- Nothing on the stack, and no I/O MMU. -/
def plainHandlerEnv : HandlerEnv where
  hw := plainChannelHw
  stack := 0
  api := ⟨.none, fun _ _ => none, fun _ _ => 0, fun _ _ => .exhausted⟩

theorem nothingFails_oneA100 : NothingFails oneA100 := by
  constructor
  · constructor
    · intro gpu hgpu
      cases hgpu
    · intro gpu hgpu
      rw [List.mem_singleton.mp hgpu]
      exact ⟨rfl, by decide⟩
    · exact List.cons_ne_nil _ _
  · intro s hs
    rw [List.mem_singleton.mp hs]
    decide
  · intro s hs
    rw [List.mem_singleton.mp hs]
    decide
  · intro e _
    rfl

theorem mem_entries_oneA100 {e : ProcEntry} (h : e ∈ runlistEntries 0x170 0 1) :
    e ∈ (nvdebugInit oneA100).entries := by
  rcases nvdebugInit_cases oneA100 with ⟨-, -, hentries⟩ | ⟨hnot, -⟩
  · rw [hentries, List.mem_reverse]
    apply mem_allEntries_of_mem (d := 0) (by decide) rfl
    rw [deviceEntries_eq]
    apply List.mem_cons_of_mem
    apply List.mem_append_left
    exact mem_runlistsEntries_iff.mpr ⟨1, by decide, h⟩
  · exact absurd nothingFails_oneA100 hnot

theorem serves_iff_one :
    Serves plainHandlerEnv ⟨procFile (runlistDir 0 1) "switch_to_tsg" .switchToTsg 1,
      ⟨runlistDir 0 1, .directory, 0⟩⟩ 0 1 0x170 := by
  have hs : (nvdebugInit oneA100).acquired.devices[0]? =
      some (probed { twoRunlists with
        regs := fun r => if r = 0 then 0x170000a1 else twoRunlists.regs r }) := by
    rw [devices_of_nothingFails nothingFails_oneA100]
    rfl
  apply (serves_iff plainHandlerEnv hs (mem_entries_oneA100 (by decide)) rfl
    (mem_entries_oneA100 (by decide)) rfl).mpr
  left
  decide

/-- On the only GPU, the file `resubmit_runlist` of runlist 1 resubmits runlist 0. -/
theorem resubmit_not_serves :
    ∃ dir ∈ (nvdebugInit oneA100).entries, ∃ e ∈ (nvdebugInit oneA100).entries,
      dir.path = [gpuName 0, ⟨"runlist", some 1⟩] ∧
        e.path = dir.path ++ [⟨"resubmit_runlist", none⟩] ∧
        ¬ Serves plainHandlerEnv ⟨e, dir⟩ 0 1 0x170 := by
  refine ⟨⟨runlistDir 0 1, .directory, 0⟩, mem_entries_oneA100 (by decide),
    procFile (runlistDir 0 1) "resubmit_runlist" .resubmitRunlist 0,
    mem_entries_oneA100 (by decide), rfl, rfl, ?_⟩
  exact not_serves_resubmit rfl rfl (by decide) (by decide) (by decide)

end A100Partitioning.Nvdebug
