import A100Partitioning.Nvdebug.Ptop
import A100Partitioning.Nvdebug.PageTableV1

/-!
# Runlists (`runlist.c`)

A runlist is an array of entries in memory.  A TSG entry says how many channel
entries belong to it, and those follow it.  The entries became twice as long
with Volta, and their fields moved; the accessors hide both.
-/

namespace A100Partitioning.Nvdebug

open Support

/-! ## Entries -/

/-- A runlist entry of a chip; `hi` is zero where entries have eight bytes. -/
structure RunlistEntry where
  chipId : ℕ
  lo : BitVec 64
  hi : BitVec 64
  deriving DecidableEq, Repr

namespace RunlistEntry

/-- `VERSIONED_RL_ACCESSOR`. -/
def versioned {α : Type} (e : RunlistEntry) (gv100 gk110 fermi : α) : α :=
  if 0x140 ≤ e.chipId then gv100 else if 0xE0 ≤ e.chipId then gk110 else fermi

variable (e : RunlistEntry)

def chid : ℕ :=
  e.versioned (Bitfield.get 0 12 e.hi) (Bitfield.get 0 12 e.lo) 0

def instPtrLo : ℕ :=
  e.versioned (Bitfield.get 12 20 e.hi) (Bitfield.get 32 20 e.lo) 0

def instTarget : InstTarget :=
  .ofBits (e.versioned (Bitfield.get 4 2 e.lo) (Bitfield.get 52 2 e.lo) 0)

def tsgid : ℕ :=
  e.versioned (Bitfield.get 0 12 e.hi) (Bitfield.get 0 12 e.lo) 0

/-- `entry_type`, whether it is `ENTRY_TYPE_TSG`. -/
def isTsg : Bool :=
  e.versioned (e.lo.getLsbD 0) (e.lo.getLsbD 13) false

def timesliceScale : ℕ :=
  e.versioned (Bitfield.get 16 4 e.lo) (Bitfield.get 14 4 e.lo) 0

def timesliceTimeout : ℕ :=
  e.versioned (Bitfield.get 24 8 e.lo) (Bitfield.get 18 8 e.lo) 0

def tsgLength : ℕ :=
  e.versioned (Bitfield.get 32 8 e.lo) (Bitfield.get 26 6 e.lo) 0

/-- `((struct gv100_runlist_chan*)entry)->inst_ptr_hi`. -/
def instPtrHi : ℕ := Bitfield.get 32 32 e.hi

/-- `((struct gv100_runlist_chan*)entry)->runqueue_selector`. -/
def runqueueSelector : Bool := e.lo.getLsbD 1

end RunlistEntry

/-- `NV_RL_ENTRY_SIZE(g)`. -/
def Core.rlEntrySize (c : Core) : ℕ :=
  if 0x140 ≤ c.chipId then 16 else 8

/-- Read the entry behind a pointer. -/
def readEntry (entry : Kva) : Kernel RunlistEntry := do
  let chipId := (← get).chipId
  let lo ← readq entry
  if 0x140 ≤ chipId then
    let hi ← readq (entry.add 8)
    return ⟨chipId, lo, hi⟩
  return ⟨chipId, lo, 0⟩

/-! ## Locating a runlist -/

/-- `struct runlist_iter`. -/
structure RunlistIter where
  currEntry : Kva
  entriesLeftInTsg : ℕ
  len : ℕ
  runlistPriBase : ℕ
  deriving DecidableEq, Repr

/-- `(struct runlist_iter){0}`. -/
def RunlistIter.empty : RunlistIter := ⟨.null, 0, 0, 0⟩

/-- Where a runlist is, as the registers say. -/
structure RunlistConfig where
  iova : ℕ
  target : InstTarget
  len : ℕ
  priBase : ℕ
  deriving DecidableEq, Repr

/-- Both registers of `runlist_base_tu102_t` and `runlist_submit_tu102_t`. -/
def readRunlistConfigTu102 (base submit priBase : ℕ) :
    Kernel (Except ℤ RunlistConfig) := do
  let base ← nvdebugReadq base
  if base = BitVec.allOnes 64 then return .error (-eio)
  let submit ← nvdebugReadq submit
  if submit = BitVec.allOnes 64 then return .error (-eio)
  return .ok ⟨Bitfield.get 12 28 base * 4096, .ofBits (Bitfield.get 0 2 base),
    Bitfield.get 0 16 submit, priBase⟩

/-- The part of `get_runlist_iter` that reads registers. -/
def readRunlistConfig (rlId : ℕ) : Kernel (Except ℤ RunlistConfig) := do
  let s ← get
  if s.chipId < 0x160 then
    let rl ← nvdebugReadq (0x00002280 + rlId * 8)
    if rl = BitVec.allOnes 64 then return .error (-eio)
    return .ok ⟨Bitfield.get 0 28 rl * 4096, .ofBits (Bitfield.get 28 2 rl),
      Bitfield.get 32 16 rl, 0⟩
  else if s.chipId < 0x170 then
    readRunlistConfigTu102 (0x00002B00 + rlId * 16) (0x00002B08 + rlId * 16) 0
  else
    match getRunlistRam s rlId with
    | .error e => return .error e
    | .ok (_, priBase) =>
        readRunlistConfigTu102 (priBase + 0x080) (priBase + 0x088) priBase

/-- `nvdebug_readq` of a register that lies in the PRAMIN window. -/
def praminReadq (k : Kva) : Kernel (BitVec 64) := do
  if (← get).registersOff then return BitVec.allOnes 64
  let word ← readq k
  if isBadRead (word.extractLsb' 0 32) then return BitVec.allOnes 64
  return word

/-- The second half of `get_bar2_pdb`: the instance block is located. -/
def bar2PdbOfInst (bar2Ptr : ℕ) (bar2Target : InstTarget) :
    Kernel (Except ℤ PageDirConfig) := do
  let off ← addrToPraminMut bar2Ptr bar2Target
  if off < 0 then return .error off
  let raw ← praminReadq ((Kva.pramin off bar2Ptr bar2Target).add 0x200)
  if raw = BitVec.allOnes 64 then return .error (-eopnotsupp)
  return .ok ⟨raw⟩

/-- `get_bar2_pdb`. -/
def getBar2Pdb : Kernel (Except ℤ PageDirConfig) := do
  let s ← get
  if !s.bar2 then return .error (-enxio)
  if s.isHopperLike then
    let bar2Block ← nvdebugReadq 0x00B80F70
    if bar2Block = BitVec.allOnes 64 then return .error (-eopnotsupp)
    bar2PdbOfInst (Bitfield.get 12 40 bar2Block * 4096)
      (.ofBits (Bitfield.get 10 2 bar2Block))
  else
    let bar2Block ← nvdebugReadl 0x00001714
    if bar2Block = BitVec.allOnes 32 then return .error (-eopnotsupp)
    bar2PdbOfInst (Bitfield.get 0 28 bar2Block * 4096)
      (.ofBits (Bitfield.get 28 2 bar2Block))

/-- Search the BAR2/3 page tables for the runlist; `none` goes to
`attempt_pramin_access`. -/
def searchBar2 (rl : RunlistConfig) : Kernel (Option ℕ) := do
  match ← getBar2Pdb with
  | .error _ => return none
  | .ok pdConfig =>
      let s ← get
      if 0x180 ≤ s.chipId ∧ s.chipId < 0x190 then return none
      let vaddr ←
        if pdConfig.isVer2 then searchPageDirectory pdConfig rl.iova .vidMem
        else searchV1PageDirectory pdConfig rl.iova .vidMem
      if vaddr = 0 then return none
      return some vaddr

/-- `get_runlist_iter`: the error or 0, and the iterator.  A failed
`addr_to_pramin_mut` is only noticed if it returns -1. -/
def getRunlistIter (rlId : ℕ) : Kernel (ℤ × RunlistIter) := do
  match ← readRunlistConfig rlId with
  | .error e => return (e, .empty)
  | .ok rl =>
      let rlIter := { RunlistIter.empty with runlistPriBase := rl.priBase }
      if rl.len = 0 then return (0, rlIter)
      if rl.target ≠ .vidMem then
        return (0, { rlIter with currEntry := .phys rl.iova, len := rl.len })
      match ← searchBar2 rl with
      | some vaddr =>
          if !(← get).bar2 then return (-enodev, rlIter)
          return (0, { rlIter with currEntry := .bar2 vaddr, len := rl.len })
      | none =>
          let off ← addrToPraminMut rl.iova rl.target
          if off = -1 then return (off, rlIter)
          return (0, { rlIter with
            currEntry := .pramin off rl.iova rl.target, len := rl.len })

end A100Partitioning.Nvdebug
