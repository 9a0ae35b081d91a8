import A100Partitioning.Nvdebug.Channels
import A100Partitioning.Nvdebug.Ctxsw

/-!
# Operations on a runlist (`runlist.c`)

Preempting a TSG or a runlist, resubmitting a runlist, and changing the preemption
mode of a channel's context.
-/

namespace A100Partitioning.Nvdebug

open Support

/-- `nvdebug_writeq`. -/
def nvdebugWriteq (r : ℕ) (v : BitVec 64) : Kernel Unit := do
  nvdebugWritel r (v.extractLsb' 0 32)
  nvdebugWritel (r + 4) (v.extractLsb' 32 32)

/-- `writel`: one half of the aligned word. -/
def writel (k : Kva) (v : BitVec 32) : Kernel Unit := fun s =>
  match s.reach k with
  | none => none
  | some (.word l) =>
      let aligned : Loc := { l with addr := l.addr - l.addr % 8 }
      some ((), { s.logAccess k with
        toCore := s.toCore.write aligned
          (Bitfield.set (8 * (l.addr % 8)) 32 (s.mem aligned) v.toNat) })
  | some (.bar0 r) => nvdebugWritel r v (s.logAccess k)

/-! ## Preemption -/

/-- A `pfifo_preempt_t` for a TSG. -/
def pfifoPreemptTsg (tsgId : ℕ) : BitVec 32 :=
  Bitfield.set 24 2 (Bitfield.set 0 12 0 tsgId) 1

/-- `preempt_tsg`. -/
def preemptTsg (rlId tsgId : ℕ) : Kernel ℤ := do
  let s ← get
  if s.chipId < 0xE0 then return -eopnotsupp
  if s.chipId < 0x170 then
    nvdebugWritel 0x00002634 (pfifoPreemptTsg tsgId)
    return 0
  match getRunlistRam s rlId with
  | .error e => return e
  | .ok (_, runlistRegBase) =>
      nvdebugWritel (runlistRegBase + 0x098) (pfifoPreemptTsg tsgId)
      return 0

/-- `preempt_runlist`.  From Ampere on, the fields of `pfifo_preempt_t` that are not
assigned hold what was on the stack. -/
def preemptRunlist (stack : BitVec 32) (rlId : ℕ) : Kernel ℤ := do
  let s ← get
  if s.chipId < 0x120 then return -eopnotsupp
  if s.chipId < 0x170 then
    -- `BIT(rl_id)`, of a 64-bit `unsigned long`.
    nvdebugWritel 0x00002638 ((1#64 <<< (rlId % 64)).setWidth 32)
    return 0
  match getRunlistRam s rlId with
  | .error e => return e
  | .ok (_, runlistRegsBase) =>
      nvdebugWritel (runlistRegsBase + 0x098)
        (Bitfield.set 24 2 (Bitfield.set 0 12 stack rlId) 0)
      return 0

/-- The end of `resubmit_runlist`, from Turing on: the submit register is written
back, with the offset if one is given. -/
def resubmitTu102 (stack : BitVec 32) (rlId off submitReg : ℕ) : Kernel ℤ := do
  let submit ← nvdebugReadq submitReg
  if submit = BitVec.allOnes 64 then return -eio
  let _ ← preemptRunlist stack rlId
  nvdebugWriteq submitReg
    (if off ≠ 2 ^ 32 - 1 then Bitfield.set 16 16 submit off else submit)
  return 0

/-- `resubmit_runlist`. -/
def resubmitRunlist (stack : BitVec 32) (rlId off : ℕ) : Kernel ℤ := do
  let s ← get
  if s.chipId < 0xC0 then return -eopnotsupp
  if s.chipId < 0x160 then
    if 34 < rlId then return -einval
    let rl ← nvdebugReadq (0x00002280 + rlId * 8)
    if rl = BitVec.allOnes 64 then return -eio
    nvdebugWriteq 0x00002270 (Bitfield.set 52 4 rl rlId)
    return 0
  if s.chipId < 0x170 then
    if 80 < rlId then return -einval
    resubmitTu102 stack rlId off (0x00002B08 + rlId * 16)
  else
    match getRunlistRam s rlId with
    | .error e => return e
    | .ok (_, runlistPriBase) =>
        resubmitTu102 stack rlId off (runlistPriBase + 0x088)

/-! ## Preemption modes -/

/-- `enum COMPUTE_PREEMPT_TYPE`. -/
inductive ComputePreemptType where
  | wfi
  | cta
  | cilp
  deriving DecidableEq, Repr

/-- The value of the enumeration. -/
def ComputePreemptType.toBits : ComputePreemptType → BitVec 32
  | .wfi => 0
  | .cta => 1
  | .cilp => 2

/-- `instance_deref`. -/
def instanceDeref (instanceAddr : ℕ) (instanceTarget : InstTarget) : Kernel Kva := do
  if instanceAddr = 0 ∨ instanceTarget = .invalid then return .err (-einval)
  let s ← get
  if instanceTarget = .vidMem then
    if !s.bar2 then return .null
    match ← getBar2Pdb with
    | .error e => return .err e
    | .ok pdConfig =>
        let vaddr ←
          if pdConfig.isVer2 then
            searchPageDirectory pdConfig instanceAddr instanceTarget
          else searchV1PageDirectory pdConfig instanceAddr instanceTarget
        if vaddr = 0 then return .null
        return .bar2 vaddr
  else
    match s.iommu with
    | none => return .phys instanceAddr
    | some dom =>
        let phys := iommuIovaToPhys dom instanceAddr
        if phys = 0 then return .err (-eaddrnotavail)
        return .phys phys

/-- The instance pointer in a runlist entry from Volta on. -/
def RunlistEntry.instancePtr (entry : RunlistEntry) : ℕ :=
  entry.instPtrHi * 2 ^ 32 ||| entry.instPtrLo * 4096

/-- The loop of `set_channel_preemption_mode` over the TSGs of a runlist, until an
instance pointer is found. -/
def findChannel (chanId len : ℕ) : ℕ → ℕ → Kva → Kernel (ℕ × InstTarget)
  | 0, _, _ => return (0, .vidMem)
  | rounds + 1, pos, tsg => do
      if len ≤ pos then return (0, .vidMem)
      let found ← forChanInTsg (fun chan => do
        let entry ← readEntry chan
        if entry.chid = chanId then return some (entry.instancePtr, entry.instTarget)
        return none) tsg 256 1
      let tsgLength := (← readEntry tsg).tsgLength
      let next ← nextTsg tsg
      match found with
      | some (instancePtr, instanceTarget) =>
          if instancePtr ≠ 0 then return (instancePtr, instanceTarget)
          findChannel chanId len rounds (pos + (1 + tsgLength)) next
      | none => findChannel chanId len rounds (pos + (1 + tsgLength)) next

/-- Where the instance block of a channel is, and its timeout register. -/
def findInstance (chanId rlId : ℕ) : Kernel (Except ℤ (ℕ × InstTarget × ℕ)) := do
  if (← get).chipId < 0x170 then
    if 511 < chanId then return .error (-erange)
    let chan ← nvdebugReadq (nvPccsrChannelInst chanId)
    if chan = BitVec.allOnes 64 then return .error (-eio)
    return .ok (Bitfield.get 0 28 chan * 4096, .ofBits (Bitfield.get 28 2 chan), 0x00002A0C)
  else
    let (err, rlIter) ← getRunlistIter rlId
    if err ≠ 0 then return .error err
    let (instancePtr, instanceTarget) ←
      findChannel chanId rlIter.len rlIter.len 0 rlIter.currEntry
    return .ok (instancePtr, instanceTarget, rlIter.runlistPriBase + 0x220)

/-- `set_channel_preemption_mode`. -/
def setChannelPreemptionMode (mode : ComputePreemptType) (rlId chanId : ℕ) :
    Kernel ℤ := do
  match ← findInstance chanId rlId with
  | .error e => return e
  | .ok (instancePtr, instanceTarget, ctxswTimeoutPriBase) =>
      if instancePtr = 0 then return -enoent
      let inst ← instanceDeref instancePtr instanceTarget
      if inst.isErrOrNull then return inst.ptrErr
      let ctxsw ← getCtxsw inst
      if ctxsw.isErrOrNull then return ctxsw.ptrErr
      writel (ctxsw.add 132) mode.toBits
      if (← get).chipId < 0x140 then return 0
      let timeoutConfig ← nvdebugReadl ctxswTimeoutPriBase
      if timeoutConfig = BitVec.allOnes 32 then return -eio
      nvdebugWritel ctxswTimeoutPriBase
        (Bitfield.set 31 1 timeoutConfig (mode = .cilp : Bool).toNat)
      return 0

end A100Partitioning.Nvdebug
