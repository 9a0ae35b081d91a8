import A100Partitioning.Nvdebug.DeviceInfo
import A100Partitioning.Support.Registry

/-!
# Loading the module (`nvdebug_init`)

Loading finds the GPUs and maps their BARs, and then creates the entries under
`/proc`.  All reads are of registers that do not change on the way.  An error
after the first step leads to the label `out_err`, which removes the entries
again, and nothing else.
-/

namespace A100Partitioning.Nvdebug

open Support

/-! ## The GPUs -/

/-- A GPU on the platform bus: whether its resource and its mapping are there. -/
structure PlatformGpu where
  resource : Bool
  ioremap : Bool
  core : Machine

/-- A GPU on the PCI bus: which BARs can be mapped, and whether its IRQ line can
be requested. -/
structure PciGpu where
  bar0 : Bool
  bar3 : Bool
  bar3Half : Bool
  bar4 : Bool
  requestIrq : Bool
  core : Machine

/-- `ids.chip_id`. -/
def chipIdOf (core : Machine) : ℕ := Bitfield.get 20 9 (core.readlValue 0)

/-- What `g_nvdebug_state` says of a GPU. -/
def probed (core : Machine) : Machine := { core with chipId := chipIdOf core }

/-- What `probe_and_cache_devices` has acquired. -/
structure Acquired where
  devices : List Machine
  bars : List (ℕ × ℕ)
  irqs : List ℕ

/-- The part of `probe_and_cache_devices` for the platform bus. -/
def probePlatform (gpu : PlatformGpu) : Except ℤ Unit × Acquired :=
  if !gpu.resource || !gpu.ioremap then (.error (-eaddrnotavail), ⟨[], [], []⟩)
  else if gpu.core.readlValue 0 = BitVec.allOnes 32 then
    (.error (-eaddrnotavail), ⟨[], [(0, 0)], []⟩)
  else (.ok (), ⟨[probed gpu.core], [(0, 0)], []⟩)

/-- The loop of `probe_and_cache_devices` over the PCI bus. -/
def probePci : List PciGpu → Acquired → Except ℤ Unit × Acquired
  | [], got => (.ok (), got)
  | gpu :: gpus, got =>
      let i := got.devices.length
      if 8 ≤ i then (.ok (), got)
      else if !gpu.bar0 then (.error (-eaddrnotavail), got)
      else
        let bars := (i, 0) :: got.bars
        let bars :=
          if gpu.bar3 || gpu.bar3Half then (i, 3) :: bars
          else if gpu.bar4 then (i, 4) :: bars else bars
        if gpu.core.readlValue 0 = BitVec.allOnes 32 then
          (.error (-eaddrnotavail), { got with bars := bars })
        else
          -- A failed `request_irq` is only reported.
          probePci gpus ⟨got.devices ++ [probed gpu.core], bars,
            if gpu.requestIrq then i :: got.irqs else got.irqs⟩

/-- `probe_and_cache_devices`. -/
def probeAndCacheDevices (platform : Option PlatformGpu) (pci : List PciGpu) :
    Except ℤ Unit × Acquired :=
  let onPlatform := (platform.map probePlatform).getD (.ok (), ⟨[], [], []⟩)
  match onPlatform.1 with
  | .error e => (.error e, onPlatform.2)
  | .ok _ =>
      let found := probePci pci onPlatform.2
      match found.1 with
      | .error e => (.error e, found.2)
      | .ok _ =>
          if found.2.devices = [] then (.error (-enodev), found.2) else (.ok (), found.2)

/-! ## The number of runlists -/

/-- The loop of `get_last_runlist_id_gk104`. -/
def maxRunlistFrom (maxRlId : ℕ) : List PtopDeviceInfoGk104 → ℤ
  | [] => maxRlId
  | info :: rows =>
      if info.raw = BitVec.allOnes 32 then -eio
      else if info.infoType ≠ 2 ∨ info.runlistIsValid = false then
        maxRunlistFrom maxRlId rows
      else maxRunlistFrom (max maxRlId info.runlistEnum) rows

/-- `get_last_runlist_id_gk104`. -/
def getLastRunlistIdGk104 (s : Machine) : ℤ :=
  maxRunlistFrom 0 ((List.range 64).map fun i => ⟨s.readlValue (0x00022700 + i * 4)⟩)

/-- `get_last_runlist_id`. -/
def getLastRunlistId (s : Machine) : ℤ :=
  if 0x170 ≤ s.chipId then getLastRunlistIdGa100 s else getLastRunlistIdGk104 s

/-- The variable `last_runlist`, which is unsigned. -/
def lastRunlist (s : Machine) : ℕ := (getLastRunlistId s % 2 ^ 64).toNat

/-! ## Entries of `/proc` -/

/-- A name as `snprintf` prints it: a fixed part, and a number in it. -/
structure ProcName where
  stem : String
  number : Option ℕ
  deriving DecidableEq, Repr

/-- `gpu%ld`. -/
def gpuName (d : ℕ) : ProcName := ⟨"gpu", some d⟩

/-- `runlist%lu`, of which four digits fit. -/
def runlistName (k : ℕ) : ProcName := ⟨"runlist", some (k / 10 ^ (Nat.log 10 k - 3))⟩

/-- The operations of the files. -/
inductive ProcOps where
  | directory
  | preemptTsg
  | disableChannel
  | enableChannel
  | wfiPreemptChannel
  | ctaPreemptChannel
  | cilPreemptChannel
  | mapMemChid
  | mapMemCtxid
  | runlist
  | switchToTsg
  | resubmitRunlist
  | preemptRunlist
  | ackBadTsg
  | deviceInfo
  | copyTopology
  | localMemory
  | nvdebugReadReg32
  | nvdebugReadRegRange
  | nvdebugReadPart
  deriving DecidableEq, Repr

/-- A `proc_dir_entry`. -/
structure ProcEntry where
  path : List ProcName
  ops : ProcOps
  data : ℕ
  deriving DecidableEq, Repr

/-- A file with a fixed name. -/
def procFile (dir : List ProcName) (name : String) (ops : ProcOps) (data : ℕ) :
    ProcEntry :=
  ⟨dir ++ [⟨name, none⟩], ops, data⟩

/-- A file with a number in its name. -/
def procFileNumbered (dir : List ProcName) (name : String) (i : ℕ) (ops : ProcOps)
    (data : ℕ) : ProcEntry :=
  ⟨dir ++ [⟨name, some i⟩], ops, data⟩

/-- `/proc/gpu#`. -/
def gpuDir (d : ℕ) : List ProcName := [gpuName d]

/-- `/proc/gpu#/runlist#`. -/
def runlistDir (d k : ℕ) : List ProcName := [gpuName d, runlistName k]

/-- The files of one runlist whose directory is `chram_scope`. -/
def chramFiles (chipId k : ℕ) (chramScope rlDir : List ProcName) : List ProcEntry :=
  [procFile chramScope "preempt_tsg" .preemptTsg k,
    procFile chramScope "disable_channel" .disableChannel k,
    procFile chramScope "enable_channel" .enableChannel k,
    procFile chramScope "wfi_preempt_channel" .wfiPreemptChannel k,
    procFile chramScope "cta_preempt_channel" .ctaPreemptChannel k] ++
  if 0x130 ≤ chipId then
    [procFile chramScope "cil_preempt_channel" .cilPreemptChannel k,
      procFile chramScope "map_mem_chid" .mapMemChid k,
      procFile rlDir "map_mem_ctxid" .mapMemCtxid k]
  else []

/-- What the loop over runlists creates for one of them. -/
def runlistEntries (chipId d k : ℕ) : List ProcEntry :=
  let rlDir := runlistDir d k
  ⟨rlDir, .directory, d⟩ ::
    (if 0x170 ≤ chipId ∨ k = 0 then
      chramFiles chipId k (if 0x170 ≤ chipId then rlDir else gpuDir d) rlDir
    else []) ++
    [procFile rlDir "runlist" .runlist k,
      procFile rlDir "switch_to_tsg" .switchToTsg k,
      procFile rlDir "resubmit_runlist" .resubmitRunlist d]

/-- The first files of a GPU. -/
def gpuFiles (d : ℕ) : List ProcEntry :=
  [procFile (gpuDir d) "preempt_runlist" .preemptRunlist d,
    procFile (gpuDir d) "ack_bad_tsg" .ackBadTsg d,
    procFile (gpuDir d) "device_info" .deviceInfo d,
    procFile (gpuDir d) "num_gpcs" .nvdebugReadReg32 0x00022430,
    procFile (gpuDir d) "num_tpc_per_gpc" .nvdebugReadReg32 0x00022434,
    procFile (gpuDir d) "num_ces" .nvdebugReadReg32 0x00022444]

/-- The two reads of `create_tpc_mask_files`: the number of GPCs, and the mask of
disabled ones. -/
def tpcMaskReads (s : Machine) : BitVec 32 × BitVec 32 :=
  (s.readlValue 0x00022430,
    s.readlValue (if s.chipId < 0x170 then 0x00021c1c else 0x00820c1c))

/-- The files of `create_tpc_mask_files`. -/
def tpcMaskFiles (s : Machine) (d : ℕ) : List ProcEntry :=
  ((List.range (tpcMaskReads s).1.toNat).filter fun i =>
      !(tpcMaskReads s).2.getLsbD (i % 32)).map fun i =>
    procFileNumbered (gpuDir d) "gpc#_tpc_mask" i .nvdebugReadReg32
      ((if s.chipId < 0x170 then 0x00021c38 else 0x00820c38) + i * 4)

/-- The files `CWD_SM_ID#` and `CWD_GPC_TPC_ID#`. -/
def cwdFiles (d n smId gpcTpcId : ℕ) : List ProcEntry :=
  (List.range n).flatMap fun i =>
    [procFileNumbered (gpuDir d) "CWD_SM_ID" i .nvdebugReadReg32 (smId + 4 * i),
      procFileNumbered (gpuDir d) "CWD_GPC_TPC_ID" i .nvdebugReadReg32
        (gpcTpcId + 4 * i)]

/-- A `union reg_range`. -/
def regRange (offset startBit stopBit : ℕ) : ℕ :=
  offset + startBit * 2 ^ 32 + stopBit * 2 ^ 40

/-- The files that depend on the generation of the GPU. -/
def generationFiles (chipId d : ℕ) : List ProcEntry :=
  (if 0x170 ≤ chipId then
    [procFile (gpuDir d) "gpc_mask" .nvdebugReadReg32 0x00820c1c]
  else if 0x120 ≤ chipId then
    [procFile (gpuDir d) "gpc_mask" .nvdebugReadReg32 0x00021c1c] else []) ++
  (if 0x180 ≤ chipId then cwdFiles d 24 0x00405100 0x00405000
  else if 0x120 ≤ chipId then
    cwdFiles d 16 0x00405ba0 0x00405b60 ++
      [procFile (gpuDir d) "CWD_FS_NUM_GPCS" .nvdebugReadRegRange
          (regRange 0x00405b00 0 8),
        procFile (gpuDir d) "CWD_FS_NUM_TPCS" .nvdebugReadRegRange
          (regRange 0x00405b00 8 16)]
  else []) ++
  (if 0x130 ≤ chipId then
    [procFile (gpuDir d) "local_memory" .localMemory 0x00100ce0,
      procFile (gpuDir d) "copy_topology" .copyTopology 0,
      procFile (gpuDir d) "pce_map" .nvdebugReadReg32 0x00104028] else []) ++
  if 0x140 ≤ chipId then
    [procFile (gpuDir d) "partition_ctl" .nvdebugReadReg32 0x00405b2c,
      procFile (gpuDir d) "partition_data" .nvdebugReadReg32 0x00405b30] ++
    (List.range 64).map (fun i =>
      procFileNumbered (gpuDir d) "partition_data" i .nvdebugReadPart i) ++
    [procFile (gpuDir d) "CWD_CG0" .nvdebugReadReg32 0x00405bf0,
      procFile (gpuDir d) "CWD_CG1" .nvdebugReadReg32 0x00405bf4]
  else []

/-! ## Creating them -/

/-- Code that creates entries, and can fail. -/
abbrev Init := ExceptT ℤ (StateM (List ProcEntry))

/-- What `nvdebug_init` finds: the GPUs, and for which entries there is no
memory. -/
structure InitEnv where
  platform : Option PlatformGpu
  pci : List PciGpu
  nomem : List ProcName → Bool

/-- `proc_mkdir_data` and `proc_create_data`, one entry after another.  They fail
if there is no memory, and if the name is taken. -/
def procCreate (env : InitEnv) (files : List ProcEntry) : Init Unit :=
  fun entries =>
    let created := Registry.register ProcEntry.path env.nomem files entries
    (if created.1 then .ok () else .error (-enomem), created.2)

/-- The loop over runlists, from the last one down to 0. -/
def createRunlists (env : InitEnv) (chipId d : ℕ) : ℕ → Init Unit
  | 0 => procCreate env (runlistEntries chipId d 0)
  | k + 1 => do
      procCreate env (runlistEntries chipId d (k + 1))
      createRunlists env chipId d k

/-- `create_tpc_mask_files`. -/
def createTpcMaskFiles (env : InitEnv) (s : Machine) (d : ℕ) : Init Unit := do
  if (tpcMaskReads s).1 = BitVec.allOnes 32 ∨
      (tpcMaskReads s).2 = BitVec.allOnes 32 then throw (-eio)
  procCreate env (tpcMaskFiles s d)

/-- The body of the loop over devices.  `last_runlist < 0` is never true, as the
variable is unsigned. -/
def initDevice (env : InitEnv) (s : Machine) (d : ℕ) : Init Unit := do
  procCreate env [⟨gpuDir d, .directory, d⟩]
  createRunlists env s.chipId d (lastRunlist s)
  procCreate env (gpuFiles d)
  if 0x120 ≤ s.chipId then createTpcMaskFiles env s d
  procCreate env (generationFiles s.chipId d)

/-- `remove_proc_subtree`, of `/proc/gpu#`. -/
def removeProcSubtree (d : ℕ) (entries : List ProcEntry) : List ProcEntry :=
  entries.filter fun e => e.path.head? ≠ some (gpuName d)

/-- The loop at `out_err`, from the device that failed on. -/
def removeFrom (res n : ℕ) (entries : List ProcEntry) : List ProcEntry :=
  (List.range' res (n - res)).foldl (fun es d => removeProcSubtree d es) entries

/-- The loop over devices, which counts down. -/
def initDevices (env : InitEnv) (devices : List Machine) :
    ℕ → List ProcEntry → ℤ × List ProcEntry
  | 0, entries => (0, entries)
  | res + 1, entries =>
      match devices[res]? with
      | none => (0, entries)
      | some s =>
          let done := initDevice env s res entries
          match done.1 with
          | .ok _ => initDevices env devices res done.2
          | .error err => (err, removeFrom res devices.length done.2)

/-- What is there after `nvdebug_init`. -/
structure Loaded where
  err : ℤ
  acquired : Acquired
  entries : List ProcEntry

/-- `nvdebug_init`. -/
def nvdebugInit (env : InitEnv) : Loaded :=
  let found := probeAndCacheDevices env.platform env.pci
  match found.1 with
  | .error err => ⟨err, found.2, []⟩
  | .ok _ =>
      let done := initDevices env found.2.devices found.2.devices.length []
      ⟨done.1, found.2, done.2⟩

end A100Partitioning.Nvdebug
