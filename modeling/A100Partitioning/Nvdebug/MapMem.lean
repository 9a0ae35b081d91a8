import A100Partitioning.Nvdebug.Map
import A100Partitioning.Nvdebug.RunlistOps

/-!
# Mapping GPU memory and registers (`map_mem_for_instance`)

All of video memory, and some pages of BAR0, are mapped into the address space of
a channel at fixed offsets.  How BAR0 is reached from the GPU depends on the I/O
MMU of the system, whose interface in the kernel is a parameter.
-/

namespace A100Partitioning.Nvdebug

open Support

/-- `BAR0_USER_ADDR`. -/
def bar0UserAddr : ℕ := 0x0000700000000000

/-- `MEM_USER_ADDR`. -/
def memUserAddr : ℕ := 0x0000600000000000

/-- `memory_range_to_bytes`. -/
def memoryRangeToBytes (range : BitVec 32) : ℕ :=
  let bytes := Bitfield.get 4 6 range <<< Bitfield.get 0 4 range * 2 ^ 20
  if range.getLsbD 30 then bytes / 16 * 15 else bytes

/-! ## The kernel's interface to the I/O MMU -/

/-- `iommu_get_domain_for_dev`: there may be no domain, or an identity one. -/
inductive DomainType where
  | none
  | identity
  | other
  deriving DecidableEq, Repr

/-- What the kernel does for the GPU: the type of its domain; the bus address that
`dma_map_resource` returns, if it succeeds; the result of `iommu_map`; and the
pages for page directories. -/
structure DmaApi where
  domain : DomainType
  dmaMapResource : ℕ → ℕ → Option ℕ
  iommuMap : ℕ → ℕ → ℤ
  alloc : ℕ → ℕ → PageAlloc

/-- A mapping that was created for the GPU. -/
structure DeviceMapping where
  bus : ℕ
  phys : ℕ
  len : ℕ
  deriving DecidableEq, Repr

/-- Bus addresses of the four regions of BAR0. -/
structure BusAddrs where
  mcBootRam : ℕ
  ptopRam : ℕ
  fifoRam : ℕ
  chanCtrlRam : ℕ
  deriving DecidableEq, Repr

/-- Where the registers of runlist 0 and its channels are. -/
structure Runlist0 where
  runlistRamOff : ℕ
  channelRamOff : ℕ
  channelRamSize : ℕ
  deriving DecidableEq, Repr

/-- The start of `map_mem_for_instance`. -/
def locateRunlist0 : Kernel (Except ℤ Runlist0) := do
  let s ← get
  if s.chipId < 0x170 then return .ok ⟨0x00002000, 0x00800000, 4096⟩
  match getRunlistRam s 0 with
  | .error e => return .error e
  | .ok (_, runlistRamOff) =>
      if runlistRamOff % 4096 ≠ 0 then return .error (-eafnosupport)
      let channelConfig ← nvdebugReadl (runlistRamOff + 0x004)
      if channelConfig = BitVec.allOnes 32 then return .error (-eio)
      let channelRamOff := chramBase channelConfig
      if channelRamOff % 4096 ≠ 0 then return .error (-eafnosupport)
      return .ok ⟨runlistRamOff, channelRamOff,
        2 ^ Bitfield.get 0 4 channelConfig * 4⟩

/-- A loop over page offsets; the body returns a code to leave with. -/
def forPages (body : ℕ → Kernel (Option ℤ)) (step n : ℕ) : Kernel (Option ℤ) :=
  forReturn (fun i => body (step * i)) (List.range n)

/-- The loop over video memory; a page that is there already ends the function. -/
def mapVram (api : DmaApi) (pdConfig : PageDirConfig) (ramSize : ℕ) :
    Kernel (Option ℤ) :=
  forPages (fun off => do
    let vaddr := memUserAddr + off
    let ret ← mapPageDirectory (api.alloc vaddr) pdConfig vaddr off .vidMem true
    if ret < 0 then return some ret
    if ret = 1 then return some 0
    return none) (2 ^ 21) (ramSize / 2 ^ 21)

/-- `bar0_base`, which has 32 bits. -/
def Core.bar0Base (c : Core) : Option ℕ :=
  (c.pcid.orElse fun _ => c.platd).map (· % 2 ^ 32)

/-- The physical addresses of the four regions; the sums have 32 bits. -/
def physAddrs (bar0Base : ℕ) (rl : Runlist0) : BusAddrs where
  mcBootRam := bar0Base
  ptopRam := (0x00022000 + bar0Base) % 2 ^ 32
  fifoRam := (rl.runlistRamOff + bar0Base) % 2 ^ 32
  chanCtrlRam := (rl.channelRamOff + bar0Base) % 2 ^ 32

/-- The four calls of `dma_map_resource`. -/
def mapResources (api : DmaApi) (phys : BusAddrs) : Option (BusAddrs × List DeviceMapping) := do
  let mcBootRam ← api.dmaMapResource phys.mcBootRam (4096 * 2)
  let ptopRam ← api.dmaMapResource phys.ptopRam 4096
  let fifoRam ← api.dmaMapResource phys.fifoRam (4096 * 8)
  let chanCtrlRam ← api.dmaMapResource phys.chanCtrlRam (2 * 4096)
  return (⟨mcBootRam, ptopRam, fifoRam, chanCtrlRam⟩,
    [⟨mcBootRam, phys.mcBootRam, 4096 * 2⟩, ⟨ptopRam, phys.ptopRam, 4096⟩,
      ⟨fifoRam, phys.fifoRam, 4096 * 8⟩, ⟨chanCtrlRam, phys.chanCtrlRam, 2 * 4096⟩])

/-- The four calls of `iommu_map`, up to one that fails. -/
def iommuMaps (api : DmaApi) : List (ℕ × ℕ) → Except ℤ (List DeviceMapping)
  | [] => .ok []
  | (phys, len) :: regions =>
      let ret := api.iommuMap phys len
      if ret < 0 then .error ret
      else (iommuMaps api regions).map fun mappings => ⟨phys, phys, len⟩ :: mappings

/-- How the bus addresses of the regions are obtained, with the mappings that were
created for them. -/
def busAddrs (api : DmaApi) (rl : Runlist0) (phys : BusAddrs) :
    Except ℤ (BusAddrs × List DeviceMapping) :=
  match api.domain with
  | .none => .ok (phys, [])
  | .identity => .ok (phys, [])
  | .other =>
      match mapResources api phys with
      | some mapped => .ok mapped
      | none =>
          (iommuMaps api [(phys.mcBootRam, 4096 * 2), (phys.ptopRam, 4096),
            (phys.fifoRam, 4096 * 8), (phys.chanCtrlRam, rl.channelRamSize)]).map
            fun mappings => (phys, mappings)

/-- The pages of BAR0 that are mapped, with their bus addresses. -/
def bar0Pages (rl : Runlist0) (bus : BusAddrs) : List (ℕ × ℕ) :=
  [(0, bus.mcBootRam), (4096, bus.mcBootRam + 4096), (0x00022000, bus.ptopRam)] ++
  (List.range 8).map (fun i => (rl.runlistRamOff + 4096 * i, bus.fifoRam + 4096 * i)) ++
  (List.range ((rl.channelRamSize + 4095) / 4096)).map fun i =>
    (rl.channelRamOff + 4096 * i, bus.chanCtrlRam + 4096 * i)

/-- Map the pages of BAR0, up to one that fails. -/
def mapBar0Pages (api : DmaApi) (pdConfig : PageDirConfig) :
    List (ℕ × ℕ) → Kernel ℤ
  | [] => return 0
  | (off, bus) :: pages => do
      let vaddr := bar0UserAddr + off
      let ret ← mapPageDirectory (api.alloc vaddr) pdConfig vaddr bus
        .sysMemNoncoherent false
      if ret < 0 then return ret
      mapBar0Pages api pdConfig pages

/-- `map_mem_for_instance`. -/
def mapMemForInstance (api : DmaApi) (inst : Kva) : Kernel ℤ := do
  match ← locateRunlist0 with
  | .error e => return e
  | .ok rl =>
      let chanPdConfig ← instPdb inst
      if !chanPdConfig.isVer2 then return -eopnotsupp
      let memRange ← nvdebugReadl 0x00100ce0
      if memRange = BitVec.allOnes 32 then return -eio
      let ramSize := memoryRangeToBytes memRange
      if ramSize % 2 ^ 21 ≠ 0 then return -eafnosupport
      match ← mapVram api chanPdConfig ramSize with
      | some ret => return ret
      | none =>
          match (← get).bar0Base with
          | none => return -enotrecoverable
          | some bar0Base =>
              match busAddrs api rl (physAddrs bar0Base rl) with
              | .error e => return e
              | .ok (bus, _) => mapBar0Pages api chanPdConfig (bar0Pages rl bus)

/-! ## Mapping by context ID -/

/-- The instance block and the timeout register for a channel entry of
`map_mem_ctxid_file_write`. -/
def ctxidInstance (rlIter : RunlistIter) (entry : RunlistEntry) :
    Kernel (Except ℤ (ℕ × InstTarget × ℕ)) := do
  if 0x170 ≤ (← get).chipId then
    return .ok (entry.instancePtr, entry.instTarget, rlIter.runlistPriBase + 0x220)
  let chan ← nvdebugReadq (nvPccsrChannelInst entry.chid)
  if chan = BitVec.allOnes 64 then return .error (-eio)
  return .ok (Bitfield.get 0 28 chan * 4096, .ofBits (Bitfield.get 28 2 chan),
    0x00002A0C)

/-- The context-switch block of an instance block, if both are accessible. -/
def ctxidCtxsw (instancePtr : ℕ) (instanceTarget : InstTarget) :
    Kernel (Except ℤ (Option (Kva × Kva))) := do
  if instancePtr = 0 ∨ instanceTarget = .invalid then return .ok none
  let inst ← instanceDeref instancePtr instanceTarget
  if inst.isErr then return .error inst.ptrErr
  if inst.isErrOrNull then return .ok none
  let ctxBlock ← getCtxsw inst
  if ctxBlock.isErr then return .error ctxBlock.ptrErr
  if ctxBlock.isErrOrNull then return .ok none
  return .ok (some (inst, ctxBlock))

/-- What is done once the context is found. -/
def mapMemCtxidFound (api : DmaApi) (inst ctxBlock : Kva) (ctxswTimeoutPriBase : ℕ) :
    Kernel ℤ := do
  let timeoutConfig ← nvdebugReadl ctxswTimeoutPriBase
  if timeoutConfig = BitVec.allOnes 32 then return -eio
  nvdebugWritel ctxswTimeoutPriBase (Bitfield.set 31 1 timeoutConfig 0)
  writel (ctxBlock.add 132) ComputePreemptType.cta.toBits
  let err ← mapMemForInstance api inst
  if err < 0 then return err
  return 0

/-- The loop of `map_mem_ctxid_file_write` over the entries of a runlist. -/
def mapMemCtxidFrom (api : DmaApi) (rlIter : RunlistIter) (targetContext : ℕ) :
    ℕ → Kva → Kernel ℤ
  | 0, _ => return -esrch
  | left + 1, currEntry => do
      let next := currEntry.add (← get).rlEntrySize
      let entry ← readEntry currEntry
      if entry.isTsg then mapMemCtxidFrom api rlIter targetContext left next
      else
        match ← ctxidInstance rlIter entry with
        | .error e => return e
        | .ok (instancePtr, instanceTarget, ctxswTimeoutPriBase) =>
            match ← ctxidCtxsw instancePtr instanceTarget with
            | .error e => return e
            | .ok none => mapMemCtxidFrom api rlIter targetContext left next
            | .ok (some (inst, ctxBlock)) =>
                let contextId ← readl (ctxBlock.add 240)
                if contextId.toNat ≠ targetContext then
                  mapMemCtxidFrom api rlIter targetContext left next
                else mapMemCtxidFound api inst ctxBlock ctxswTimeoutPriBase

/-- `map_mem_ctxid_file_write`, once the ID is parsed. -/
def mapMemCtxid (api : DmaApi) (targetRunlist targetContext : ℕ) : Kernel ℤ := do
  let (err, rlIter) ← getRunlistIter targetRunlist
  if err ≠ 0 then return err
  mapMemCtxidFrom api rlIter targetContext rlIter.len rlIter.currEntry

end A100Partitioning.Nvdebug
