import A100Partitioning.Nvdebug.Runlist

/-!
# Enabling and disabling channels (`runlist_procfs.c`)

Up to Turing, one PCCSR entry of 64 bits controls a channel; from Ampere on, each
runlist has a channel RAM with one word for each of its channels.  Neither is
plain memory: a write sets or clears bits, and some fields always read as zero.
-/

namespace A100Partitioning.Nvdebug

open Support

/-! ## Control registers -/

/-- What control registers make of a write, given what they held before: the two
words of a `channel_ctrl_gf100_t`, and a `channel_ctrl_ga100_t`. -/
structure ChannelHw where
  word1 : BitVec 32 → BitVec 32 → BitVec 32
  word2 : BitVec 32 → BitVec 32 → BitVec 32
  chram : BitVec 32 → BitVec 32 → BitVec 32
  /-- `ENABLE_SET` enables the channel. -/
  enableSet : ∀ old v, v.getLsbD 10 = true → v.getLsbD 11 = false →
    (word2 old v).getLsbD 0 = true
  /-- `ENABLE_CLEAR` disables the channel. -/
  enableClear : ∀ old v, v.getLsbD 11 = true → v.getLsbD 10 = false →
    (word2 old v).getLsbD 0 = false
  /-- A one written to `ENABLE` sets it, or clears it where the first bit is set. -/
  chramEnable : ∀ old v, v.getLsbD 1 = true →
    (chram old v).getLsbD 1 = !v.getLsbD 0

/-- `nvdebug_writel` of a control register. -/
def writeControl (react : BitVec 32 → BitVec 32 → BitVec 32) (r : ℕ)
    (v : BitVec 32) : Kernel Unit := do
  let s ← get
  nvdebugWritel r (react (s.register r) v)

/-- `NV_PCCSR_CHANNEL_INST(i)`. -/
def nvPccsrChannelInst (i : ℕ) : ℕ := 0x00800000 + i * 8

/-- `nvdebug_writeq` of a PCCSR entry. -/
def writePccsr (hw : ChannelHw) (chid : ℕ) (raw : BitVec 64) : Kernel Unit := do
  writeControl hw.word1 (nvPccsrChannelInst chid) (raw.extractLsb' 0 32)
  writeControl hw.word2 (nvPccsrChannelInst chid + 4) (raw.extractLsb' 32 32)

/-- The register of a channel in the channel RAM at `chramBase`. -/
def chramRegister (chramBase chid : ℕ) : ℕ := (chramBase + 4 * chid) % 2 ^ 32

/-- `chan.enable_set = true`, or `chan.enable_clear = true`. -/
def withEnable (raw : BitVec 64) (enable : Bool) : BitVec 64 :=
  if enable then Bitfield.set 42 1 raw 1 else Bitfield.set 43 1 raw 1

/-- A `channel_ctrl_ga100_t` that only enables or disables. -/
def chramEnable (enable : Bool) : BitVec 32 :=
  if enable then 2 else 3

/-- Read, update and write a PCCSR entry. -/
def updatePccsr (hw : ChannelHw) (enable : Bool) (chid : ℕ) : Kernel ℤ := do
  let raw ← nvdebugReadq (nvPccsrChannelInst chid)
  if raw = BitVec.allOnes 64 then return -eio
  writePccsr hw chid (withEnable raw enable)
  return 0

/-- Write the word of a channel in channel RAM. -/
def updateChram (hw : ChannelHw) (enable : Bool) (chramBase chid : ℕ) :
    Kernel Unit :=
  writeControl hw.chram (chramRegister chramBase chid) (chramEnable enable)

/-- The configuration of the channel RAM of a runlist. -/
def readChannelConfig (rlId : ℕ) : Kernel (Except ℤ (BitVec 32)) := do
  match getRunlistRam (← get) rlId with
  | .error e => return .error e
  | .ok (_, runlistRegBase) =>
      let channelConfig ← nvdebugReadl (runlistRegBase + 0x004)
      if channelConfig = BitVec.allOnes 32 then return .error (-eio)
      return .ok channelConfig

/-- `(uint32_t)channel_config.bar0_offset << 4`. -/
def chramBase (channelConfig : BitVec 32) : ℕ :=
  Bitfield.get 4 28 channelConfig * 16

/-- The common code of `enable_channel_file_write` and
`disable_channel_file_write`. -/
def setChannelEnable (hw : ChannelHw) (enable : Bool) (rlId targetChannel : ℕ) :
    Kernel ℤ := do
  if (← get).chipId < 0x170 then
    if 511 < targetChannel then return -erange
    updatePccsr hw enable targetChannel
  else
    match ← readChannelConfig rlId with
    | .error e => return e
    | .ok channelConfig =>
        if 2 ^ Bitfield.get 0 4 channelConfig ≤ targetChannel then return -erange
        updateChram hw enable (chramBase channelConfig) targetChannel
        return 0

/-- `disable_channel_file_write`. -/
def disableChannel (hw : ChannelHw) (rlId targetChannel : ℕ) : Kernel ℤ :=
  setChannelEnable hw false rlId targetChannel

/-- `enable_channel_file_write`. -/
def enableChannel (hw : ChannelHw) (rlId targetChannel : ℕ) : Kernel ℤ :=
  setChannelEnable hw true rlId targetChannel

/-! ## Walking a runlist by TSGs -/

/-- `for_chan_in_tsg`, from the `i`th entry behind the TSG on; the body can leave
the loop.  As a length has eight bits, 256 rounds are enough. -/
def forChanInTsg {α : Type} (body : Kva → Kernel (Option α)) (tsg : Kva) :
    ℕ → ℕ → Kernel (Option α)
  | 0, _ => return none
  | rounds + 1, i => do
      if (← readEntry tsg).tsgLength < i then return none
      match ← body (tsg.add ((← get).rlEntrySize * i : ℕ)) with
      | some res => return some res
      | none => forChanInTsg body tsg rounds (i + 1)

/-- `next_tsg`. -/
def nextTsg (tsg : Kva) : Kernel Kva := do
  let entry ← readEntry tsg
  return tsg.add ((← get).rlEntrySize * (entry.tsgLength + 1) : ℕ)

/-- The body of the inner loop of `switch_to_tsg_file_write`. -/
def switchChannel (hw : ChannelHw) (channelRegsBase : ℕ) (enable : Bool) (chan : Kva) :
    Kernel (Option ℤ) := do
  let entry ← readEntry chan
  if (← get).chipId < 0x170 then
    let err ← updatePccsr hw enable entry.chid
    if err ≠ 0 then return some err
    return none
  updateChram hw enable channelRegsBase entry.chid
  return none

/-- The outer loop of `switch_to_tsg_file_write`; each round advances. -/
def switchTsgs (hw : ChannelHw) (channelRegsBase targetTsgid len : ℕ) :
    ℕ → ℕ → Kva → Kernel ℤ
  | 0, _, _ => return 0
  | rounds + 1, pos, tsg => do
      if len ≤ pos then return 0
      let entry ← readEntry tsg
      let enable := decide (entry.tsgid = targetTsgid)
      match ← forChanInTsg (switchChannel hw channelRegsBase enable) tsg 256 1 with
      | some err => return err
      | none =>
          let tsgLength := (← readEntry tsg).tsgLength
          let next ← nextTsg tsg
          switchTsgs hw channelRegsBase targetTsgid len rounds
            (pos + (1 + tsgLength)) next

/-- The base of the registers of the channels; there is one for each runlist only
from Ampere on. -/
def readChannelRegsBase (rlId : ℕ) : Kernel (Except ℤ ℕ) := do
  if (← get).chipId < 0x170 then return .ok 0
  return (← readChannelConfig rlId).map chramBase

/-- `switch_to_tsg_file_write`, once the ID is parsed.  What follows the first
`return count` is unreachable. -/
def switchToTsg (hw : ChannelHw) (targetRunlist targetTsgid : ℕ) : Kernel ℤ := do
  if 2 ^ 12 < targetTsgid then return -erange
  let (err, rlIter) ← getRunlistIter targetRunlist
  if err ≠ 0 then return err
  match ← readChannelRegsBase targetRunlist with
  | .error e => return e
  | .ok channelRegsBase =>
      switchTsgs hw channelRegsBase targetTsgid rlIter.len rlIter.len 0 rlIter.currEntry

/-- A `write` callback of a file that takes one number; `parsed` is what
`kstrtou32_from_user` makes of the buffer. -/
def fileWrite (operation : ℕ → Kernel ℤ) (parsed : Except ℤ (BitVec 32)) (count : ℕ) :
    Kernel (Except ℤ ℕ) := do
  match parsed with
  | .error e => return .error e
  | .ok v =>
      let err ← operation v.toNat
      if err ≠ 0 then return .error err
      return .ok count

end A100Partitioning.Nvdebug
