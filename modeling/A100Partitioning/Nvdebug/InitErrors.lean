import A100Partitioning.Nvdebug.Init
import Mathlib.Data.List.Basic
import Mathlib.Tactic.Common

/-!
# What loading leaves behind

If nothing fails, loading creates the entries of every device, and there is one
directory for each runlist.  If something fails, it removes the entries that it
has created, but not the mappings of the BARs or the interrupt taps.
-/

namespace A100Partitioning.Nvdebug

open Support

/-! ## Lists of entries -/

/-- The entries of the runlists up to one, in the order of the loop. -/
def runlistsEntries (chipId d : ℕ) : ℕ → List ProcEntry
  | 0 => runlistEntries chipId d 0
  | k + 1 => runlistEntries chipId d (k + 1) ++ runlistsEntries chipId d k

/-- The entries of a device up to those of its TPC masks. -/
def earlyEntries (s : Machine) (d : ℕ) : List ProcEntry :=
  [⟨gpuDir d, .directory, d⟩] ++ (runlistsEntries s.chipId d (lastRunlist s) ++
    gpuFiles d)

/-- The other entries of a device. -/
def lateEntries (s : Machine) (d : ℕ) : List ProcEntry :=
  (if 0x120 ≤ s.chipId then tpcMaskFiles s d else []) ++ generationFiles s.chipId d

/-- All entries of a device. -/
def deviceEntries (s : Machine) (d : ℕ) : List ProcEntry :=
  earlyEntries s d ++ lateEntries s d

/-- The reads of `create_tpc_mask_files` do not fail, or are not made. -/
def MasksReadable (s : Machine) : Prop :=
  0x120 ≤ s.chipId → (tpcMaskReads s).1 ≠ BitVec.allOnes 32 ∧
    (tpcMaskReads s).2 ≠ BitVec.allOnes 32

instance (s : Machine) : Decidable (MasksReadable s) :=
  inferInstanceAs (Decidable (_ → _))

section Create

variable {env : InitEnv} {s : Machine} {d : ℕ} {entries : List ProcEntry}

theorem Init.bind_apply {α β : Type} (x : Init α) (f : α → Init β)
    (entries : List ProcEntry) :
    (x >>= f : Init β) entries =
      match x entries with
      | (.ok a, entries) => f a entries
      | (.error e, entries) => (.error e, entries) := by
  cases h : x entries with
  | mk r es =>
      cases r with
      | ok a => simp [bind, ExceptT.bind, ExceptT.mk, StateT.bind, h, ExceptT.bindCont]
      | error e =>
          simp only [bind, ExceptT.bind, ExceptT.mk, StateT.bind, h, ExceptT.bindCont]
          rfl

theorem procCreate_append (files files' : List ProcEntry) :
    (do procCreate env files; procCreate env files' : Init Unit) =
      procCreate env (files ++ files') := by
  funext entries
  rw [Init.bind_apply]
  simp only [procCreate, Registry.register_append]
  cases hcreated : Registry.register ProcEntry.path env.nomem files entries with
  | mk ok es => cases ok <;> rfl

theorem createRunlists_eq (env : InitEnv) (chipId d k : ℕ) :
    createRunlists env chipId d k =
      procCreate env (runlistsEntries chipId d k) := by
  induction k with
  | zero => rfl
  | succ k ih => rw [createRunlists, ih, procCreate_append, runlistsEntries]

theorem procCreate_append_bind {α : Type} (files files' : List ProcEntry)
    (f : Init α) :
    (do procCreate env files; procCreate env files'; f : Init α) =
      (do procCreate env (files ++ files'); f) := by
  rw [← procCreate_append, bind_assoc]

/-- The entries of a device are created one after another, up to a failed read of
the masks. -/
theorem initDevice_eq (env : InitEnv) (s : Machine) (d : ℕ) :
    initDevice env s d =
      if MasksReadable s then procCreate env (deviceEntries s d)
      else (do procCreate env (earlyEntries s d); throw (-eio) : Init Unit) := by
  rw [initDevice, createRunlists_eq, procCreate_append_bind,
    procCreate_append_bind, List.append_assoc, ← earlyEntries]
  by_cases hmaxwell : 0x120 ≤ s.chipId
  · rw [if_pos hmaxwell, createTpcMaskFiles]
    by_cases hmasks : MasksReadable s
    · obtain ⟨hgpcs, hmask⟩ := hmasks hmaxwell
      rw [if_pos hmasks, if_neg (not_or.mpr ⟨hgpcs, hmask⟩)]
      dsimp only
      rw [procCreate_append_bind, procCreate_append, deviceEntries, lateEntries,
        if_pos hmaxwell, List.append_assoc]
    · have hbad : (tpcMaskReads s).1 = BitVec.allOnes 32 ∨
          (tpcMaskReads s).2 = BitVec.allOnes 32 := by
        by_contra hnot
        exact hmasks fun _ => not_or.mp hnot
      rw [if_neg hmasks, if_pos hbad]
      rfl
  · have hmasks : MasksReadable s := fun h => absurd h hmaxwell
    rw [if_pos hmasks, if_neg hmaxwell]
    dsimp only
    rw [procCreate_append, deviceEntries, lateEntries, if_neg hmaxwell,
      List.nil_append]

theorem mem_initDevice {e : ProcEntry} (h : e ∈ (initDevice env s d entries).2) :
    e ∈ deviceEntries s d ∨ e ∈ entries := by
  rw [initDevice_eq] at h
  split at h
  · exact Registry.mem_of_mem_register h
  · rw [Init.bind_apply] at h
    have hearly : e ∈ (procCreate env (earlyEntries s d) entries).2 := by
      cases hcreate : procCreate env (earlyEntries s d) entries with
      | mk r es =>
          rw [hcreate] at h
          cases r <;> exact h
    exact (Registry.mem_of_mem_register hearly).imp_left
      (List.mem_append_left _)

/-- Creating the entries of a device fails if and only if a read of the masks
fails or one of the entries cannot be created. -/
theorem initDevice_ok_iff :
    (∃ u, (initDevice env s d entries).1 = .ok u) ↔ MasksReadable s ∧
      (Registry.register ProcEntry.path env.nomem (deviceEntries s d) entries).1 =
        true := by
  rw [initDevice_eq]
  by_cases hmasks : MasksReadable s
  · rw [if_pos hmasks]
    simp only [procCreate, hmasks, true_and]
    cases (Registry.register ProcEntry.path env.nomem (deviceEntries s d) entries).1
    · simp
    · simp
  · rw [if_neg hmasks, Init.bind_apply]
    simp only [hmasks, false_and, iff_false, not_exists]
    intro u
    cases procCreate env (earlyEntries s d) entries with
    | mk r es =>
        cases r with
        | ok a =>
            intro h
            cases h
        | error e =>
            intro h
            cases h

theorem initDevice_error {err : ℤ} (h : (initDevice env s d entries).1 = .error err) :
    err < 0 := by
  have hneg : -enomem < 0 ∧ -eio < 0 := by decide
  have hcreate : ∀ {files err}, (procCreate env files entries).1 = .error err →
      err < 0 := by
    intro files err h
    simp only [procCreate] at h
    split at h
    · cases h
    · cases h
      exact hneg.1
  rw [initDevice_eq] at h
  split at h
  · exact hcreate h
  · rw [Init.bind_apply] at h
    cases hearly : procCreate env (earlyEntries s d) entries with
    | mk r es =>
        rw [hearly] at h
        cases r with
        | ok a =>
            cases h
            exact hneg.2
        | error e =>
            cases h
            exact hcreate (congrArg Prod.fst hearly)

theorem initDevice_snd_of_ok {u : Unit} (h : (initDevice env s d entries).1 = .ok u) :
    (initDevice env s d entries).2 = (deviceEntries s d).reverse ++ entries := by
  obtain ⟨hmasks, hok⟩ := initDevice_ok_iff.mp ⟨u, h⟩
  rw [initDevice_eq, if_pos hmasks]
  exact Registry.register_ok hok

end Create

/-! ## Names -/

/-- The name of an entry below the directory of its GPU. -/
def ProcEntry.name (e : ProcEntry) : Option ProcName := e.path[1]?

/-- The names of the files `CWD_SM_ID#` and `CWD_GPC_TPC_ID#`. -/
def cwdNames (n : ℕ) : List (Option ProcName) :=
  (List.range n).flatMap fun i =>
    [some ⟨"CWD_SM_ID", some i⟩, some ⟨"CWD_GPC_TPC_ID", some i⟩]

/-- Names without a number. -/
def plainNames (stems : List String) : List (Option ProcName) :=
  stems.map fun stem => some ⟨stem, none⟩

/-- The names in the directory of a GPU, of all generations together, but for the
TPC masks. -/
def gpuLevelNames : List (Option ProcName) :=
  plainNames ["preempt_runlist", "ack_bad_tsg", "device_info", "num_gpcs",
    "num_tpc_per_gpc", "num_ces"] ++
  (plainNames ["gpc_mask"] ++
    (cwdNames 24 ++ plainNames ["CWD_FS_NUM_GPCS", "CWD_FS_NUM_TPCS"]) ++
    plainNames ["local_memory", "copy_topology", "pce_map"] ++
    (plainNames ["partition_ctl", "partition_data"] ++
      (List.range 64).map (fun i => some ⟨"partition_data", some i⟩) ++
      plainNames ["CWD_CG0", "CWD_CG1"]))

theorem nodup_cwdNames (n : ℕ) : (cwdNames n).Nodup := by
  rw [cwdNames, List.nodup_flatMap]
  refine ⟨fun i _ => by simp, List.nodup_range.imp fun {i j} hne => ?_⟩
  simp [Function.onFun, Ne.symm hne]

/-- The numbered names are those of the CWD entries and of the partitions. -/
theorem filter_gpuLevelNames :
    gpuLevelNames.filter (fun n => n.any fun p => p.number.isSome) =
      cwdNames 24 ++ (List.range 64).map fun i => some ⟨"partition_data", some i⟩ := by
  rfl

theorem nodup_gpuLevelNames : gpuLevelNames.Nodup := by
  let numbered : Option ProcName → Bool := fun n => n.any fun p => p.number.isSome
  have hplain : (gpuLevelNames.filter fun n => !numbered n).Nodup := by
    decide
  have hnumbered : (gpuLevelNames.filter numbered).Nodup := by
    rw [filter_gpuLevelNames]
    refine List.Nodup.append (nodup_cwdNames 24) (List.nodup_range.map ?_) ?_
    · intro i j h
      simpa using h
    · intro n hn hn'
      obtain ⟨i, -, rfl⟩ := List.mem_map.mp hn'
      simp [cwdNames] at hn
  refine (List.filter_append_perm numbered _).nodup_iff.mp (hnumbered.append hplain ?_)
  intro n hn hn'
  rw [List.mem_filter] at hn hn'
  rw [hn.2] at hn'
  cases hn'.2

theorem map_name_cwdFiles (d n smId gpcTpcId : ℕ) :
    (cwdFiles d n smId gpcTpcId).map ProcEntry.name = cwdNames n := by
  rw [cwdFiles, cwdNames, List.map_flatMap]
  rfl

theorem cwdNames_sublist : (cwdNames 16).Sublist (cwdNames 24) := by
  decide

/-- Whatever the generation, the names are some of these, in this order. -/
theorem map_name_gpuFiles_sublist (chipId d : ℕ) :
    ((gpuFiles d ++ generationFiles chipId d).map ProcEntry.name).Sublist
      gpuLevelNames := by
  rw [generationFiles]
  simp only [List.map_append]
  refine .append (.refl _) (.append (.append (.append ?_ ?_) ?_) ?_)
  · split
    · exact .refl _
    · split
      · exact .refl _
      · exact List.nil_sublist _
  · split
    · rw [map_name_cwdFiles]
      exact List.sublist_append_left _ _
    · split
      · rw [List.map_append, map_name_cwdFiles]
        exact .append cwdNames_sublist (.refl _)
      · exact List.nil_sublist _
  · split
    · exact .refl _
    · exact List.nil_sublist _
  · split
    · simp only [List.map_append, List.map_map]
      exact .refl _
    · exact List.nil_sublist _

/-- The names of the files of `chramFiles`. -/
def chramNames : List (Option ProcName) :=
  plainNames ["preempt_tsg", "disable_channel", "enable_channel",
    "wfi_preempt_channel", "cta_preempt_channel", "cil_preempt_channel",
    "map_mem_chid"]

set_option maxRecDepth 30000 in
/-- The names in the directory of a GPU do not occur among the others. -/
theorem gpuLevelNames_ne {n : Option ProcName} (h : n ∈ gpuLevelNames) :
    n ∉ chramNames ∧ ∀ i, n ≠ some ⟨"runlist", some i⟩ ∧
      n ≠ some ⟨"gpc#_tpc_mask", some i⟩ := by
  have hchram : ∀ n ∈ gpuLevelNames, n ∉ chramNames := by
    decide
  have hstem : ∀ n ∈ gpuLevelNames, ∀ p ∈ n,
      p.stem ≠ "runlist" ∧ p.stem ≠ "gpc#_tpc_mask" := by
    decide
  refine ⟨hchram n h, ?_⟩
  intro i
  constructor
  · rintro rfl
    exact (hstem _ h _ rfl).1 rfl
  · rintro rfl
    exact (hstem _ h _ rfl).2 rfl

theorem chramNames_ne {n : Option ProcName} (h : n ∈ chramNames) (i : ℕ) (stem : String) :
    n ≠ some ⟨stem, some i⟩ := by
  have hnumber : ∀ n ∈ chramNames, ∀ p ∈ n, p.number = none := by
    decide
  rintro rfl
  cases hnumber _ h _ rfl

theorem path_of_mem_chramFiles {chipId k : ℕ} {chramScope rlDir : List ProcName}
    {e : ProcEntry} (h : e ∈ chramFiles chipId k chramScope rlDir) :
    (∃ n, some n ∈ chramNames ∧ e.path = chramScope ++ [n]) ∨
      ∃ n, e.path = rlDir ++ [n] := by
  have hfile : ∀ {stem ops}, some ⟨stem, none⟩ ∈ chramNames →
      e = procFile chramScope stem ops k →
      (∃ n, some n ∈ chramNames ∧ e.path = chramScope ++ [n]) ∨
        ∃ n, e.path = rlDir ++ [n] := by
    rintro stem ops hmem rfl
    exact .inl ⟨_, hmem, rfl⟩
  rw [chramFiles, List.mem_append] at h
  rcases h with h | h
  · simp only [List.mem_cons, List.not_mem_nil, or_false] at h
    rcases h with h | h | h | h | h <;> exact hfile (by decide) h
  · split at h
    · simp only [List.mem_cons, List.not_mem_nil, or_false] at h
      rcases h with h | h | h
      · exact hfile (by decide) h
      · exact hfile (by decide) h
      · subst h
        exact .inr ⟨_, rfl⟩
    · cases h

/-- The entries of a runlist stand in its directory, or in that of the GPU. -/
theorem name_of_mem_runlistEntries {chipId d k : ℕ} {e : ProcEntry}
    (h : e ∈ runlistEntries chipId d k) :
    e.name = some (runlistName k) ∨ k = 0 ∧ e.name ∈ chramNames := by
  have hrl : ∀ {n}, e.path = runlistDir d k ++ [n] →
      e.name = some (runlistName k) := by
    intro n hpath
    rw [ProcEntry.name, hpath]
    rfl
  rw [runlistEntries, List.mem_append, List.mem_cons] at h
  rcases h with (rfl | h) | h
  · exact .inl rfl
  · split at h
    · rename_i hscope
      rcases path_of_mem_chramFiles h with ⟨n, hn, hpath⟩ | ⟨n, hpath⟩
      · by_cases hampere : 0x170 ≤ chipId
        · rw [if_pos hampere] at hpath
          exact .inl (hrl hpath)
        · rw [if_neg hampere] at hpath
          refine .inr ⟨hscope.resolve_left hampere, ?_⟩
          rw [ProcEntry.name, hpath]
          exact hn
      · exact .inl (hrl hpath)
    · cases h
  · simp only [List.mem_cons, List.not_mem_nil, or_false] at h
    rcases h with rfl | rfl | rfl <;> exact .inl rfl

theorem runlistName_of_lt {k : ℕ} (hk : k < 10 ^ 4) :
    runlistName k = ⟨"runlist", some k⟩ := by
  have hlog : Nat.log 10 k - 3 = 0 := by
    by_cases hzero : k = 0
    · rw [hzero, Nat.log_zero_right]
    · have hlt := Nat.log_lt_of_lt_pow hzero hk
      omega
  rw [runlistName, hlog, pow_zero, Nat.div_one]

/-- How deep an entry is, and the fixed part of its own name. -/
def shapeOf (path : List ProcName) : ℕ × Option String :=
  (path.length, path.getLast?.map ProcName.stem)

theorem nodup_runlistEntries (chipId d k : ℕ) :
    ((runlistEntries chipId d k).map ProcEntry.path).Nodup := by
  -- The shapes depend only on the branches taken.
  have hampere : ((runlistEntries 0x170 0 0).map fun e => shapeOf e.path).Nodup := by
    decide
  have hpascal : ((runlistEntries 0x130 0 0).map fun e => shapeOf e.path).Nodup := by
    decide
  have hfirst : ((runlistEntries 0 0 0).map fun e => shapeOf e.path).Nodup := by
    decide
  have hlater : ((runlistEntries 0 0 1).map fun e => shapeOf e.path).Nodup := by
    decide
  apply List.Nodup.of_map shapeOf
  rw [runlistEntries, chramFiles]
  by_cases hc : 0x170 ≤ chipId
  · have hc' : 0x130 ≤ chipId := by omega
    simp only [if_pos hc, if_pos hc', if_pos (Or.inl hc)]
    exact hampere
  · by_cases hk : k = 0
    · by_cases hc' : 0x130 ≤ chipId
      · simp only [if_neg hc, if_pos hc', if_pos (Or.inr hk)]
        exact hpascal
      · simp only [if_neg hc, if_neg hc', if_pos (Or.inr hk)]
        exact hfirst
    · simp only [if_neg (not_or.mpr ⟨hc, hk⟩)]
      exact hlater

theorem name_of_mem_runlistsEntries {chipId d k : ℕ} {e : ProcEntry}
    (h : e ∈ runlistsEntries chipId d k) :
    (∃ j ≤ k, e.name = some (runlistName j)) ∨ e.name ∈ chramNames := by
  induction k with
  | zero =>
      rcases name_of_mem_runlistEntries h with h | ⟨-, h⟩
      · exact .inl ⟨0, le_rfl, h⟩
      · exact .inr h
  | succ k ih =>
      rcases List.mem_append.mp h with h | h
      · rcases name_of_mem_runlistEntries h with h | ⟨-, h⟩
        · exact .inl ⟨k + 1, le_rfl, h⟩
        · exact .inr h
      · rcases ih h with ⟨j, hj, h⟩ | h
        · exact .inl ⟨j, Nat.le_succ_of_le hj, h⟩
        · exact .inr h

/-- The directories of different runlists have different names. -/
theorem nodup_runlistsEntries {chipId d k : ℕ} (hk : k < 10 ^ 4) :
    ((runlistsEntries chipId d k).map ProcEntry.path).Nodup := by
  induction k with
  | zero => exact nodup_runlistEntries chipId d 0
  | succ k ih =>
      rw [runlistsEntries, List.map_append, List.nodup_append]
      refine ⟨nodup_runlistEntries chipId d (k + 1), ih (by omega), ?_⟩
      intro p hp p' hp' heq
      obtain ⟨e, he, rfl⟩ := List.mem_map.mp hp
      obtain ⟨e', he', rfl⟩ := List.mem_map.mp hp'
      have hname : e.name = e'.name := by
        rw [ProcEntry.name, ProcEntry.name, heq]
      rcases name_of_mem_runlistEntries he with h | ⟨h, -⟩
      · rw [h, runlistName_of_lt hk] at hname
        rcases name_of_mem_runlistsEntries he' with ⟨j, hj, h'⟩ | h'
        · rw [h', runlistName_of_lt (by omega)] at hname
          injection hname with hname
          injection hname with _ hnumber
          injection hnumber with hnumber
          omega
        · exact chramNames_ne h' _ _ hname.symm
      · cases h

/-- If more runlists are counted than there are names, two of them get the same
name. -/
theorem not_nodup_runlistsEntries {chipId d k : ℕ}
    (hname : runlistName (k + 1) = runlistName k) :
    ¬ ((runlistsEntries chipId d (k + 1)).map ProcEntry.path).Nodup := by
  rw [runlistsEntries, List.map_append, List.nodup_append]
  rintro ⟨-, -, hdisjoint⟩
  have hdir : ∀ j, (⟨runlistDir d j, .directory, d⟩ : ProcEntry) ∈
      runlistEntries chipId d j :=
    fun j => List.mem_append_left _ List.mem_cons_self
  have hdir' : (⟨runlistDir d k, .directory, d⟩ : ProcEntry) ∈
      runlistsEntries chipId d k := by
    cases k with
    | zero => exact hdir 0
    | succ k => exact List.mem_append_left _ (hdir (k + 1))
  refine hdisjoint _ (List.mem_map_of_mem (hdir (k + 1))) _
    (List.mem_map_of_mem hdir') ?_
  simp only [runlistDir, hname]

/-- The files in the directory of a GPU. -/
def gpuLevelFiles (s : Machine) (d : ℕ) : List ProcEntry :=
  gpuFiles d ++ lateEntries s d

theorem deviceEntries_eq (s : Machine) (d : ℕ) :
    deviceEntries s d =
      ⟨gpuDir d, .directory, d⟩ ::
        (runlistsEntries s.chipId d (lastRunlist s) ++ gpuLevelFiles s d) := by
  rw [deviceEntries, earlyEntries, gpuLevelFiles]
  simp only [List.append_assoc, List.cons_append, List.nil_append]

theorem name_of_mem_tpcMaskFiles {s : Machine} {d : ℕ} {e : ProcEntry}
    (h : e ∈ tpcMaskFiles s d) : ∃ i, e.name = some ⟨"gpc#_tpc_mask", some i⟩ := by
  obtain ⟨i, -, rfl⟩ := List.mem_map.mp h
  exact ⟨i, rfl⟩

theorem nodup_map_name_tpcMaskFiles (s : Machine) (d : ℕ) :
    ((tpcMaskFiles s d).map ProcEntry.name).Nodup := by
  rw [tpcMaskFiles, List.map_map]
  apply List.Nodup.map
  · intro i j hij
    injection hij with hij
    injection hij with _ hij
    exact Option.some.inj hij
  · exact List.nodup_range.filter _

theorem name_of_mem_gpuLevelFiles {s : Machine} {d : ℕ} {e : ProcEntry}
    (h : e ∈ gpuLevelFiles s d) :
    e.name ∈ gpuLevelNames ∨ ∃ i, e.name = some ⟨"gpc#_tpc_mask", some i⟩ := by
  have hsub := (map_name_gpuFiles_sublist s.chipId d).subset
  rw [gpuLevelFiles, lateEntries, List.mem_append, List.mem_append] at h
  rcases h with h | h | h
  · exact .inl (hsub (List.mem_map_of_mem (List.mem_append_left _ h)))
  · split at h
    · exact .inr (name_of_mem_tpcMaskFiles h)
    · cases h
  · exact .inl (hsub (List.mem_map_of_mem (List.mem_append_right _ h)))

theorem nodup_gpuLevelFiles (s : Machine) (d : ℕ) :
    ((gpuLevelFiles s d).map ProcEntry.name).Nodup := by
  have hnodup := nodup_gpuLevelNames.sublist
    (map_name_gpuFiles_sublist s.chipId d)
  have hmem : ∀ e ∈ gpuFiles d ++ generationFiles s.chipId d,
      e.name ∈ gpuLevelNames := fun e he =>
    (map_name_gpuFiles_sublist s.chipId d).subset (List.mem_map_of_mem he)
  rw [gpuLevelFiles, lateEntries]
  split
  · -- The TPC masks stand between the others.
    have hperm : (gpuFiles d ++ (tpcMaskFiles s d ++ generationFiles s.chipId d)).Perm
        (tpcMaskFiles s d ++ (gpuFiles d ++ generationFiles s.chipId d)) := by
      rw [← List.append_assoc, ← List.append_assoc]
      exact List.perm_append_comm.append_right _
    rw [(hperm.map ProcEntry.name).nodup_iff, List.map_append, List.nodup_append]
    refine ⟨nodup_map_name_tpcMaskFiles s d, hnodup, ?_⟩
    intro n hn n' hn' heq
    obtain ⟨e, he, rfl⟩ := List.mem_map.mp hn
    obtain ⟨e', he', rfl⟩ := List.mem_map.mp hn'
    obtain ⟨i, hi⟩ := name_of_mem_tpcMaskFiles he
    exact ((gpuLevelNames_ne (hmem e' he')).2 i).2 (heq ▸ hi)
  · exact hnodup

/-- The entries of a device have different names, if no name of a runlist is cut
off. -/
theorem nodup_deviceEntries {s : Machine} (d : ℕ) (hlast : lastRunlist s < 10 ^ 4) :
    ((deviceEntries s d).map ProcEntry.path).Nodup := by
  have hfiles : ((gpuLevelFiles s d).map ProcEntry.path).Nodup := by
    apply List.Nodup.of_map (fun p : List ProcName => p[1]?)
    rw [List.map_map]
    exact nodup_gpuLevelFiles s d
  have hname : ∀ {e e' : ProcEntry}, e.path = e'.path → e.name = e'.name := by
    intro e e' heq
    rw [ProcEntry.name, ProcEntry.name, heq]
  rw [deviceEntries_eq, List.map_cons, List.nodup_cons, List.map_append,
    List.nodup_append]
  refine ⟨?_, nodup_runlistsEntries hlast, hfiles, ?_⟩
  · rw [← List.map_append]
    intro hmem
    obtain ⟨e, he, hpath⟩ := List.mem_map.mp hmem
    have hnone : e.name = none := by
      rw [ProcEntry.name, hpath]
      rfl
    rcases List.mem_append.mp he with he | he
    · rcases name_of_mem_runlistsEntries he with ⟨j, -, h⟩ | h
      · rw [hnone] at h
        cases h
      · rw [hnone] at h
        revert h
        decide
    · rcases name_of_mem_gpuLevelFiles he with h | ⟨i, h⟩
      · rw [hnone] at h
        revert h
        decide
      · rw [hnone] at h
        cases h
  · intro p hp p' hp' heq
    obtain ⟨e, he, rfl⟩ := List.mem_map.mp hp
    obtain ⟨e', he', rfl⟩ := List.mem_map.mp hp'
    have heq := hname heq
    rcases name_of_mem_runlistsEntries he with ⟨j, hj, h⟩ | h
    · rw [h, runlistName_of_lt (by omega)] at heq
      rcases name_of_mem_gpuLevelFiles he' with h' | ⟨i, h'⟩
      · exact ((gpuLevelNames_ne h').2 j).1 heq.symm
      · rw [h'] at heq
        revert heq
        simp
    · rcases name_of_mem_gpuLevelFiles he' with h' | ⟨i, h'⟩
      · exact (gpuLevelNames_ne h').1 (heq ▸ h)
      · exact chramNames_ne h i _ (heq.trans h')

/-! ## Directories -/

/-- The entry stands in the directory of this GPU, or is that directory. -/
def ProcEntry.IsOf (e : ProcEntry) (d : ℕ) : Prop :=
  e.path.head? = some (gpuName d)

instance (e : ProcEntry) (d : ℕ) : Decidable (e.IsOf d) :=
  inferInstanceAs (Decidable (_ = _))

theorem ProcEntry.IsOf.unique {e : ProcEntry} {d d' : ℕ} (h : e.IsOf d)
    (h' : e.IsOf d') : d = d' := by
  have heq := Option.some.inj (h.symm.trans h')
  injection heq with _ heq
  exact Option.some.inj heq

section IsOf

variable {e : ProcEntry} {d : ℕ}

theorem isOf_of_mem_chramFiles {chipId k : ℕ} {chramScope rlDir : List ProcName}
    (hscope : chramScope.head? = some (gpuName d))
    (hrlDir : rlDir.head? = some (gpuName d))
    (h : e ∈ chramFiles chipId k chramScope rlDir) : e.IsOf d := by
  have hhead : ∀ {dir : List ProcName} {n}, dir.head? = some (gpuName d) →
      (dir ++ [n]).head? = some (gpuName d) := by
    intro dir n h
    rw [List.head?_append, h]
    rfl
  rcases path_of_mem_chramFiles h with ⟨n, -, hpath⟩ | ⟨n, hpath⟩
  · rw [ProcEntry.IsOf, hpath]
    exact hhead hscope
  · rw [ProcEntry.IsOf, hpath]
    exact hhead hrlDir

theorem isOf_of_mem_runlistEntries {chipId k : ℕ}
    (h : e ∈ runlistEntries chipId d k) : e.IsOf d := by
  rw [runlistEntries, List.mem_append, List.mem_cons] at h
  rcases h with (rfl | h) | h
  · rfl
  · split at h
    · refine isOf_of_mem_chramFiles ?_ rfl h
      split <;> rfl
    · cases h
  · simp only [List.mem_cons, List.not_mem_nil, or_false] at h
    rcases h with rfl | rfl | rfl <;> rfl

theorem isOf_of_mem_runlistsEntries {chipId k : ℕ}
    (h : e ∈ runlistsEntries chipId d k) : e.IsOf d := by
  induction k with
  | zero => exact isOf_of_mem_runlistEntries h
  | succ k ih =>
      rcases List.mem_append.mp h with h | h
      · exact isOf_of_mem_runlistEntries h
      · exact ih h

theorem isOf_of_mem_generationFiles {chipId : ℕ}
    (h : e ∈ generationFiles chipId d) : e.IsOf d := by
  have hcwd : ∀ {n smId gpcTpcId}, e ∈ cwdFiles d n smId gpcTpcId → e.IsOf d := by
    intro n smId gpcTpcId h
    obtain ⟨i, -, h⟩ := List.mem_flatMap.mp h
    simp only [List.mem_cons, List.not_mem_nil, or_false] at h
    rcases h with rfl | rfl <;> rfl
  have hnil : e ∉ ([] : List ProcEntry) := List.not_mem_nil
  rw [generationFiles] at h
  simp only [List.mem_append, or_assoc] at h
  rcases h with h | h | h | h
  · split_ifs at h
    all_goals simp only [List.mem_cons, List.not_mem_nil, or_false] at h
    all_goals
      rw [h]
      rfl
  · split_ifs at h
    · exact hcwd h
    · rcases List.mem_append.mp h with h | h
      · exact hcwd h
      · simp only [List.mem_cons, List.not_mem_nil, or_false] at h
        rcases h with rfl | rfl <;> rfl
    · exact absurd h hnil
  · split_ifs at h
    · simp only [List.mem_cons, List.not_mem_nil, or_false] at h
      rcases h with rfl | rfl | rfl <;> rfl
    · exact absurd h hnil
  · split_ifs at h
    · simp only [List.mem_append, List.mem_cons, List.not_mem_nil, or_false,
        List.mem_map] at h
      rcases h with ((rfl | rfl) | ⟨i, -, rfl⟩) | rfl | rfl <;> rfl
    · exact absurd h hnil

theorem isOf_of_mem_deviceEntries {s : Machine} (h : e ∈ deviceEntries s d) :
    e.IsOf d := by
  rw [deviceEntries_eq, gpuLevelFiles, lateEntries] at h
  simp only [List.mem_cons, List.mem_append] at h
  rcases h with rfl | h | h | h | h
  · rfl
  · exact isOf_of_mem_runlistsEntries h
  · simp only [gpuFiles, List.mem_cons, List.not_mem_nil, or_false] at h
    rcases h with rfl | rfl | rfl | rfl | rfl | rfl <;> rfl
  · split at h
    · obtain ⟨i, -, rfl⟩ := List.mem_map.mp h
      rfl
    · cases h
  · exact isOf_of_mem_generationFiles h

end IsOf

theorem mem_removeFrom {res n : ℕ} {e : ProcEntry} {entries : List ProcEntry} :
    e ∈ removeFrom res n entries ↔
      e ∈ entries ∧ ∀ d, res ≤ d → d < n → ¬ e.IsOf d := by
  have hfold : ∀ (ds : List ℕ) (entries : List ProcEntry),
      e ∈ ds.foldl (fun es d => removeProcSubtree d es) entries ↔
        e ∈ entries ∧ ∀ d ∈ ds, ¬ e.IsOf d := by
    intro ds
    induction ds with
    | nil => simp
    | cons d ds ih =>
        intro entries
        rw [List.foldl_cons, ih, removeProcSubtree, List.mem_filter,
          List.forall_mem_cons, and_assoc, decide_eq_true_iff]
        rfl
  rw [removeFrom, hfold]
  apply and_congr_right
  intro _
  constructor
  · intro h d hres hn
    exact h d (List.mem_range'_1.mpr ⟨hres, by omega⟩)
  · intro h d hd
    obtain ⟨hres, hn⟩ := List.mem_range'_1.mp hd
    exact h d hres (by omega)

end A100Partitioning.Nvdebug
