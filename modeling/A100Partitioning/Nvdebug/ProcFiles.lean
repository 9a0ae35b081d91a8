import A100Partitioning.Nvdebug.Init
import A100Partitioning.Nvdebug.MapMem
import A100Partitioning.Nvdebug.SeqReaders

/-!
# The files of a runlist

An open file tells a handler two numbers: the data word of its own entry, and that
of the directory it is in.  This module connects how `nvdebug_init` sets them with
how the handlers of the files in `/proc/gpu#/runlist#` read them.
-/

namespace A100Partitioning.Nvdebug

open Support

/-! ## Several GPUs -/

/-- `g_nvdebug_state`. -/
abbrev System := ℕ → Machine

/-- Code that works on one GPU. -/
def onGpu {α : Type} (d : ℕ) (x : Kernel α) : StateT System Option α := fun sys =>
  (x (sys d)).map fun p => (p.1, Function.update sys d p.2)

theorem onGpu_congr {α : Type} {d : ℕ} {x y : Kernel α} {sys : System}
    (h : x (sys d) = y (sys d)) : onGpu d x sys = onGpu d y sys := by
  rw [onGpu, onGpu, h]

theorem fst_onGpu {α : Type} (d : ℕ) (x : Kernel α) (sys : System) :
    (onGpu d x sys).map Prod.fst = (x (sys d)).map Prod.fst := by
  rw [onGpu, Option.map_map]
  rfl

theorem onGpu_frame {α : Type} {d d' : ℕ} {x : Kernel α} {sys sys' : System} {a : α}
    (run : onGpu d x sys = some (a, sys')) (hne : d' ≠ d) : sys' d' = sys d' := by
  rw [onGpu] at run
  obtain ⟨p, -, hp⟩ := Option.map_eq_some_iff.mp run
  rw [← (Prod.mk.inj hp).2, Function.update_of_ne hne]

/-! ## Mapping by channel ID -/

/-- `NV_PCCSR_CHANNEL_INST(i)` for an `i` that may be negative; the argument of
`nvdebug_readq` has 32 bits. -/
def nvPccsrChannelInstOfInt (i : ℤ) : ℕ := ((0x00800000 + i * 8) % 2 ^ 32).toNat

/-- Where `map_mem_chid_file_write` finds an instance block. -/
def chidInstance (instancePtr : ℕ) (instanceTarget : InstTarget) :
    Kernel (Except ℤ Kva) := do
  match ← getBar2Pdb with
  | .error e => return .error e
  | .ok bar2PdConfig =>
      if !bar2PdConfig.isVer2 then return .error (-enosys)
      let instPtrOff ← searchPageDirectory bar2PdConfig instancePtr instanceTarget
      if instPtrOff ≠ 0 then return .ok (.bar2 instPtrOff)
      let off ← addrToPraminMut instancePtr instanceTarget
      if off < 0 then return .error (-eopnotsupp)
      return .ok (.pramin off instancePtr instanceTarget)

/-- The body of the loop of `map_mem_chid_file_write`. -/
def mapMemChannel (api : DmaApi) (targetChannel : ℤ) : Kernel (Option ℤ) := do
  let chan ← nvdebugReadq (nvPccsrChannelInstOfInt targetChannel)
  if chan = BitVec.allOnes 64 then return some (-eio)
  if Bitfield.get 0 28 chan = 0 ∨ InstTarget.ofBits (Bitfield.get 28 2 chan) = .invalid then
    return none
  match ← chidInstance (Bitfield.get 0 28 chan * 4096)
      (.ofBits (Bitfield.get 28 2 chan)) with
  | .error e => return some e
  | .ok inst =>
      let ret ← mapMemForInstance api inst
      if ret ≠ 0 then return some ret
      return none

/-- `map_mem_chid_file_write`, once the ID is parsed; -1 is for all channels. -/
def mapMemChid (api : DmaApi) (target : BitVec 32) : Kernel ℤ := do
  let s ← get
  if 0x170 ≤ s.chipId then return -enosys
  if s.chipId < 0x130 then return -eopnotsupp
  if 511 < target.toInt then return -erange
  let failed ←
    if target = BitVec.allOnes 32 then
      forReturn (fun i : ℕ => mapMemChannel api i) (List.range 512)
    else mapMemChannel api target.toInt
  return failed.getD 0

/-! ## Files and calls -/

/-- An open file: its entry, and that of its directory. -/
structure ProcFile where
  entry : ProcEntry
  parent : ProcEntry

/-- `file2gpuidx` and `seq2gpuidx`. -/
def ProcFile.file2gpuidx (f : ProcFile) : ℕ := f.entry.data

/-- `file2parentgpuidx`. -/
def ProcFile.file2parentgpuidx (f : ProcFile) : ℕ := f.parent.data

/-- A call for a file: a write, with what `kstrtou32_from_user` makes of the
buffer, or a callback of `seq_read`, with the iterator as it is. -/
inductive ProcCall where
  | write (parsed : Except ℤ (BitVec 32)) (count : ℕ)
  | seq (call : SeqCall) (rlIter : RunlistIter)

/-- What a call returns, and the iterator it leaves. -/
inductive ProcReply where
  | written (result : Except ℤ ℕ)
  | seq (output : SeqOutput) (rlIter : RunlistIter)
  deriving DecidableEq

/-- What handlers depend on besides the GPU: how control registers react, what is
on the stack, and the kernel's interface to the I/O MMU. -/
structure HandlerEnv where
  hw : ChannelHw
  stack : BitVec 32
  api : DmaApi

/-- A file that can only be written. -/
def writeOnly (operation : ℕ → Kernel ℤ) : ProcCall → Kernel ProcReply
  | .write parsed count => ProcReply.written <$> fileWrite operation parsed count
  | .seq _ _ => return .written (.error (-eio))

/-- The callbacks of the file `runlist`. -/
def runlistSeq (rlId : ℕ) (rlIter : RunlistIter) : SeqCall → Kernel ProcReply
  | .start pos => do
      let (found, rlIter) ← runlistFileSeqStart rlId pos rlIter
      return .seq (.found found) rlIter
  | .next pos => do
      let (more, rlIter) := runlistFileSeqNext (← get).rlEntrySize pos rlIter
      return .seq (.more more) rlIter
  | .showRecord => do
      let (text, rlIter) ← runlistFileSeqShow rlIter
      return .seq (.runlist text) rlIter
  | _ => return .seq .done rlIter

/-- A file that can only be read, by `seq_read`. -/
def readOnly (rlId : ℕ) : ProcCall → Kernel ProcReply
  | .write _ _ => return .written (.error (-eio))
  | .seq call rlIter => runlistSeq rlId rlIter call

/-! ## The handlers -/

/-- `preempt_tsg_file_write`, once the ID is parsed. -/
def preemptTsgChecked (targetRunlistRam targetTsgid : ℕ) : Kernel ℤ := do
  if 2 ^ 12 < targetTsgid then return -erange
  preemptTsg targetRunlistRam targetTsgid

variable (env : HandlerEnv)

/-- The type of the handlers. -/
abbrev ProcHandler := ProcFile → ProcCall → StateT System Option ProcReply

/-- `preempt_tsg_file_ops`. -/
def preemptTsgFileOps : ProcHandler := fun f =>
  onGpu f.file2parentgpuidx ∘ writeOnly fun targetTsgid => do
    let targetRunlistRam := if 0x170 ≤ (← get).chipId then f.file2gpuidx else 0
    preemptTsgChecked targetRunlistRam targetTsgid

/-- `resubmit_runlist_file_ops`. -/
def resubmitRunlistFileOps : ProcHandler := fun f =>
  onGpu f.file2gpuidx ∘ writeOnly (resubmitRunlist env.stack f.file2gpuidx)

/-- `disable_channel_file_ops`. -/
def disableChannelFileOps : ProcHandler := fun f =>
  onGpu f.file2parentgpuidx ∘ writeOnly (disableChannel env.hw f.file2gpuidx)

/-- `enable_channel_file_ops`. -/
def enableChannelFileOps : ProcHandler := fun f =>
  onGpu f.file2parentgpuidx ∘ writeOnly (enableChannel env.hw f.file2gpuidx)

/-- `comm_preempt_channel_file_write`. -/
def commPreemptChannel (mode : ComputePreemptType) : ProcHandler := fun f =>
  onGpu f.file2parentgpuidx ∘ writeOnly (setChannelPreemptionMode mode f.file2gpuidx)

/-- `wfi_preempt_channel_file_ops`. -/
def wfiPreemptChannelFileOps : ProcHandler := commPreemptChannel .wfi

/-- `cta_preempt_channel_file_ops`. -/
def ctaPreemptChannelFileOps : ProcHandler := commPreemptChannel .cta

/-- `cil_preempt_channel_file_ops`. -/
def cilPreemptChannelFileOps : ProcHandler := commPreemptChannel .cilp

/-- `switch_to_tsg_file_ops`. -/
def switchToTsgFileOps : ProcHandler := fun f =>
  onGpu f.file2parentgpuidx ∘ writeOnly (switchToTsg env.hw f.file2gpuidx)

/-- `map_mem_ctxid_file_ops`. -/
def mapMemCtxidFileOps : ProcHandler := fun f =>
  onGpu f.file2parentgpuidx ∘ writeOnly (mapMemCtxid env.api f.file2gpuidx)

/-- `map_mem_chid_file_ops`. -/
def mapMemChidFileOps : ProcHandler := fun f =>
  onGpu f.file2parentgpuidx ∘ writeOnly fun target => mapMemChid env.api (.ofNat 32 target)

/-- `runlist_file_ops`. -/
def runlistFileOps : ProcHandler := fun f =>
  onGpu f.file2parentgpuidx ∘ readOnly f.file2gpuidx

/-- The handlers of the files of a runlist. -/
def handlerOf : ProcOps → Option ProcHandler
  | .preemptTsg => some preemptTsgFileOps
  | .disableChannel => some (disableChannelFileOps env)
  | .enableChannel => some (enableChannelFileOps env)
  | .wfiPreemptChannel => some wfiPreemptChannelFileOps
  | .ctaPreemptChannel => some ctaPreemptChannelFileOps
  | .cilPreemptChannel => some cilPreemptChannelFileOps
  | .mapMemChid => some (mapMemChidFileOps env)
  | .mapMemCtxid => some (mapMemCtxidFileOps env)
  | .runlist => some runlistFileOps
  | .switchToTsg => some (switchToTsgFileOps env)
  | .resubmitRunlist => some (resubmitRunlistFileOps env)
  | _ => none

/-! ## What the files are for -/

/-- What the file with these operations is for, on the runlist it stands for. -/
def operationOf : ProcOps → Option (ℕ → ProcCall → Kernel ProcReply)
  | .preemptTsg => some fun rlId => writeOnly (preemptTsgChecked rlId)
  | .disableChannel => some fun rlId => writeOnly (disableChannel env.hw rlId)
  | .enableChannel => some fun rlId => writeOnly (enableChannel env.hw rlId)
  | .wfiPreemptChannel => some fun rlId => writeOnly (setChannelPreemptionMode .wfi rlId)
  | .ctaPreemptChannel => some fun rlId => writeOnly (setChannelPreemptionMode .cta rlId)
  | .cilPreemptChannel => some fun rlId => writeOnly (setChannelPreemptionMode .cilp rlId)
  | .mapMemChid => some fun _ => writeOnly fun target => mapMemChid env.api (.ofNat 32 target)
  | .mapMemCtxid => some fun rlId => writeOnly (mapMemCtxid env.api rlId)
  | .runlist => some readOnly
  | .switchToTsg => some fun rlId => writeOnly (switchToTsg env.hw rlId)
  | .resubmitRunlist => some fun rlId => writeOnly (resubmitRunlist env.stack rlId)
  | _ => none

/-- Any call for the file does what the file is for on runlist `r` of GPU `d`, which
is a `chip`, and touches no other GPU. -/
def Serves (f : ProcFile) (d r chip : ℕ) : Prop :=
  ∃ handler operation, handlerOf env f.entry.ops = some handler ∧
    operationOf env f.entry.ops = some operation ∧
    ∀ call sys, (sys d).chipId = chip → handler f call sys = onGpu d (operation r call) sys

end A100Partitioning.Nvdebug
