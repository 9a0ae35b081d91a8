import A100Partitioning.Nvdebug.Runlist
import A100Partitioning.Nvdebug.Ctxsw

/-!
# The `runlist` file (`runlist_procfs.c`)

The file lists the entries of a runlist.  How many channels are still expected
under the last TSG is kept in the iterator, and `show` both reads and sets it.
-/

namespace A100Partitioning.Nvdebug

open Support

/-! ## The code -/

/-- What the file prints: one constructor for each group of lines.  The lines of
a channel are indented under a TSG. -/
inductive RunlistText where
  | missingChannel
  | tsg (tsgid scale timeout length : ℕ)
  | channel (indent : Bool) (chid : ℕ) (runqueueSelector : Option Bool)
      (instancePtr : ℕ) (instTarget : InstTarget)
  | channelInfo (indent enable next pbdmaFaulted engFaulted : Bool) (status : ℕ)
      (busy : Bool) (instancePtr : ℕ) (instTarget : InstTarget) (instBind : Bool)
  | channelInfoGa100 (indent enable next busy pbdmaFaulted engFaulted onPbdma onEng
      pending ctxReload pbdmaBusy engBusy acquireFail : Bool)
  | instanceBlock (indent : Bool) (fcTarget : ℕ) (isPriv : Bool) (veid wfiPtr : ℕ)
      (wfiTarget : InstTarget) (wfiIsVirtual : Bool) (wfiVeid pageDir : ℕ)
      (pdbTarget : InstTarget) (isVolatile : Bool) (numSubcontexts : ℕ)
  | subcontext (indent : Bool) (i pasid pageDir : ℕ) (target : InstTarget)
      (isVolatile : Bool)
  | contextId (indent : Bool) (id : ℕ)
  | contextState (indent : Bool) (graphicsPreemption computePreemption wfiSaves
      ctaSaves gfxpSaves cilpSaves : ℕ)
  | channelEnd (indent : Bool)
  deriving DecidableEq, Repr

/-- `hweight64`. -/
def hweight64 (w : BitVec 64) : ℕ :=
  (List.range 64).countP w.getLsbD

/-- The lines of one enabled subcontext. -/
def showSubcontext (indent : Bool) (inst : Kva) (i : ℕ) : Kernel RunlistText := do
  let pdb ← readq (inst.add (672 + 16 * i : ℕ))
  let pasid ← readl (inst.add (680 + 16 * i : ℕ))
  return .subcontext indent i (Bitfield.get 0 20 pasid)
    (Bitfield.get 12 52 pdb * 4096) (.ofBits (Bitfield.get 0 2 pdb))
    (pdb.getLsbD 2)

/-- The lines of the instance block in `runlist_detail_seq_show_inst`. -/
def showInstanceBlock (indent : Bool) (inst : Kva) : Kernel (List RunlistText) := do
  let fcTarget ← readl (inst.add 172)
  let fcConfig ← readl (inst.add 244)
  let fcChanInfo ← readl (inst.add 252)
  let wfi ← instEngineWfi inst
  let wfiVeid ← readl (inst.add 536)
  let pdb ← instPdb inst
  let valid ← instSubcontextPdbValid inst
  let subcontexts ←
    ((List.range 64).filter valid.getLsbD).mapM (showSubcontext indent inst)
  return .instanceBlock indent (Bitfield.get 0 5 fcTarget) (fcConfig.getLsbD 8)
    (Bitfield.get 8 6 fcChanInfo) (wfi.ptr * 4096) wfi.target wfi.isVirtual
    (Bitfield.get 0 6 wfiVeid) (pdb.pageDir * 4096) pdb.target
    (pdb.raw.getLsbD 2) (hweight64 valid) :: subcontexts

/-- The lines of the context-switch block, from Pascal on. -/
def showContextState (indent : Bool) (ctxsw : Kva) : Kernel RunlistText := do
  let graphicsPreemption ← readl (ctxsw.add 128)
  let computePreemption ← readl (ctxsw.add 132)
  let wfiSaves ← readl (ctxsw.add 208)
  let ctaSaves ← readl (ctxsw.add 212)
  let gfxpSaves ← readl (ctxsw.add 216)
  let cilpSaves ← readl (ctxsw.add 220)
  return .contextState indent graphicsPreemption.toNat computePreemption.toNat
    wfiSaves.toNat ctaSaves.toNat gfxpSaves.toNat cilpSaves.toNat

/-- `runlist_detail_seq_show_inst`; no caller uses its result. -/
def runlistDetailSeqShowInst (indent : Bool) (instancePtr : ℕ)
    (instanceTarget : InstTarget) : Kernel (List RunlistText) := do
  let s ← get
  let win ← nvdebugReadl s.windowReg
  let off ← addrToPraminMut instancePtr instanceTarget
  let inst := Kva.pramin off instancePtr instanceTarget
  let block ← showInstanceBlock indent inst
  if s.chipId < 0x120 then return block
  let ctxsw ← getCtxsw inst
  if ctxsw.isErrOrNull then
    nvdebugWritel s.windowReg win
    return block
  let contextId ← readl (ctxsw.add 240)
  let block := block ++ [.contextId indent contextId.toNat]
  -- Here the window is left where it is.
  if s.chipId < 0x130 then return block
  let state ← showContextState indent ctxsw
  nvdebugWritel s.windowReg win
  return block ++ [state]

/-- `runlist_detail_seq_show_chan`. -/
def runlistDetailSeqShowChan (indent : Bool) (chid : ℕ) :
    Kernel (List RunlistText) := do
  let chan ← nvdebugReadq (0x00800000 + chid * 8)
  if chan = BitVec.allOnes 64 then return []
  let instancePtr := Bitfield.get 0 28 chan * 4096
  let instTarget := InstTarget.ofBits (Bitfield.get 28 2 chan)
  let details ← runlistDetailSeqShowInst indent instancePtr instTarget
  return .channelInfo indent (chan.getLsbD 32) (chan.getLsbD 33)
    (chan.getLsbD 54) (chan.getLsbD 55) (Bitfield.get 56 4 chan)
    (chan.getLsbD 60) instancePtr instTarget (chan.getLsbD 31) :: details

/-- `runlist_detail_seq_show_chan_ga100`. -/
def runlistDetailSeqShowChanGa100 (indent : Bool) (chid runlistPriBase : ℕ)
    (instancePtr : ℕ) (instanceTarget : InstTarget) : Kernel (List RunlistText) := do
  let channelConfig ← nvdebugReadl (runlistPriBase + 0x004)
  if channelConfig = BitVec.allOnes 32 then return []
  let chan ← nvdebugReadl
    (Bitfield.get 4 28 channelConfig * 16 + chid * 4)
  if chan = BitVec.allOnes 32 then return []
  let details ← runlistDetailSeqShowInst indent instancePtr instanceTarget
  return .channelInfoGa100 indent (chan.getLsbD 1) (chan.getLsbD 2)
    (chan.getLsbD 3) (chan.getLsbD 4) (chan.getLsbD 5) (chan.getLsbD 6)
    (chan.getLsbD 7) (chan.getLsbD 8) (chan.getLsbD 9) (chan.getLsbD 10)
    (chan.getLsbD 11) (chan.getLsbD 12) :: details

/-- `runlist_file_seq_start`.  `none` is `NULL`. -/
def runlistFileSeqStart (rlId pos : ℕ) (rlIter : RunlistIter) :
    Kernel (Except ℤ Bool × RunlistIter) := do
  if pos = 0 then
    let (err, rlIter) ← getRunlistIter rlId
    if err ≠ 0 then return (.error err, rlIter)
    return (.ok (decide (0 < rlIter.len)), rlIter)
  return (.ok (decide (pos < rlIter.len)), rlIter)

/-- `runlist_file_seq_next`, at the position before it is advanced. -/
def runlistFileSeqNext (entrySize pos : ℕ) (rlIter : RunlistIter) :
    Bool × RunlistIter :=
  (decide (pos + 1 < rlIter.len),
    { rlIter with
      currEntry := rlIter.currEntry.add entrySize
      entriesLeftInTsg := rlIter.entriesLeftInTsg - 1 })

/-- The lines of a TSG entry. -/
def showTsg (entry : RunlistEntry) (rlIter : RunlistIter) :
    List RunlistText × RunlistIter :=
  (List.replicate rlIter.entriesLeftInTsg .missingChannel ++
    [.tsg entry.tsgid entry.timesliceScale entry.timesliceTimeout
      entry.tsgLength],
    { rlIter with entriesLeftInTsg := entry.tsgLength + 1 })

/-- The lines of a channel entry. -/
def showChannel (entry : RunlistEntry) (rlIter : RunlistIter) :
    Kernel (List RunlistText) := do
  let s ← get
  let indent := decide (rlIter.entriesLeftInTsg ≠ 0)
  let isVolta := decide (0x140 ≤ s.chipId)
  let instancePtr :=
    (if isVolta then entry.instPtrHi * 2 ^ 32 else 0) ||| entry.instPtrLo * 4096
  let details ←
    if s.chipId < 0x170 then runlistDetailSeqShowChan indent entry.chid
    else
      runlistDetailSeqShowChanGa100 indent entry.chid rlIter.runlistPriBase
        instancePtr entry.instTarget
  return .channel indent entry.chid
    (if isVolta then some entry.runqueueSelector else none) instancePtr
    entry.instTarget :: details ++ [.channelEnd indent]

/-- `runlist_file_seq_show`. -/
def runlistFileSeqShow (rlIter : RunlistIter) :
    Kernel (List RunlistText × RunlistIter) := do
  let entry ← readEntry rlIter.currEntry
  if entry.isTsg then return showTsg entry rlIter
  let text ← showChannel entry rlIter
  return (text, rlIter)

/-- A GPU at a callback: its registers and memories, and the window where the driver left
it. -/
def Core.withWindow (c : Core) (window : BitVec 32) : Machine :=
  { toCore := c, window := window, accesses := [] }

/-! ## One record -/

section Show

variable {s s' : Machine} {rlIter : RunlistIter} {entry : RunlistEntry}

theorem runlistFileSeqShow_of_tsg
    (hread : readEntry rlIter.currEntry s = some (entry, s'))
    (htsg : entry.isTsg = true) :
    runlistFileSeqShow rlIter s = some (showTsg entry rlIter, s') := by
  rw [runlistFileSeqShow, Kernel.bind_eq_of_eq hread, if_pos htsg]
  rfl

theorem runlistFileSeqShow_of_channel
    (hread : readEntry rlIter.currEntry s = some (entry, s'))
    (htsg : entry.isTsg = false) :
    runlistFileSeqShow rlIter s =
      (showChannel entry rlIter s').map fun p => ((p.1, rlIter), p.2) := by
  rw [runlistFileSeqShow, Kernel.bind_eq_of_eq hread,
    if_neg (by rw [htsg]; exact Bool.false_ne_true), Kernel.bind_apply]
  cases showChannel entry rlIter s' <;> rfl

end Show

end A100Partitioning.Nvdebug
