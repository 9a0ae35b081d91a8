import A100Partitioning.Nvdebug.PageTableV1

/-!
# The context-switch block (`get_ctxsw`)

A channel's instance block points to a WFI block, and with subcontexts that
block points on to the context-switch block.  Both pointers can be virtual, and
both blocks are accessed through the PRAMIN window.
-/

namespace A100Partitioning.Nvdebug

open Support

/-- The part of `instance_ctrl_t` with the `engine_wfi` fields. -/
structure EngineWfi where
  raw : BitVec 64
  deriving DecidableEq, Repr

namespace EngineWfi

def target (w : EngineWfi) : InstTarget := .ofBits (Bitfield.get 0 2 w.raw)

def isVirtual (w : EngineWfi) : Bool := Bitfield.get 2 1 w.raw == 1

def ptr (w : EngineWfi) : ℕ := Bitfield.get 12 52 w.raw

end EngineWfi

/-- `inst->pdb`. -/
def instPdb (inst : Kva) : Kernel PageDirConfig :=
  PageDirConfig.mk <$> readq (inst.add 512)

/-- `inst->engine_wfi_*`. -/
def instEngineWfi (inst : Kva) : Kernel EngineWfi :=
  EngineWfi.mk <$> readq (inst.add 528)

/-- `inst->subcontext_pdb_valid`. -/
def instSubcontextPdbValid (inst : Kva) : Kernel (BitVec 64) :=
  readq (inst.add 664)

/-- What `get_ctxsw` continues with after a translation, if it does. -/
def Translation.accepted (t : Translation) : Option (ℕ × InstTarget) :=
  if t.ret ≠ 0 then none else some (t.foundAddr, t.foundAperture)

/-- Translate a virtual pointer of an instance block. -/
def lookupVirt (pdb : PageDirConfig) (virt : ℕ) :
    Kernel (Option (ℕ × InstTarget)) :=
  Translation.accepted <$>
    if pdb.isVer2 then translatePageDirectory pdb virt
    else translateV1PageDirectory pdb virt

/-- The second half of `get_ctxsw`, once the WFI block is located.  Only the
result -1 of `addr_to_pramin_mut` counts as an error. -/
def ctxswOfWfi (inst : Kva) (wfiPhys : ℕ) (wfiPhysAperture : InstTarget) :
    Kernel Kva := do
  let wfiOff ← addrToPraminMut wfiPhys wfiPhysAperture
  if wfiOff = -1 then return .null
  let wfi := Kva.pramin wfiOff wfiPhys wfiPhysAperture
  if (← instSubcontextPdbValid inst) = 0 then return wfi
  if !(← instPdb inst).isVer2 then return .err (-enotrecoverable)
  let contextBufferPtrHi ← readl (wfi.add 120)
  let contextBufferPtrLo ← readl (wfi.add 124)
  let ctxswVirt := (contextBufferPtrHi ++ contextBufferPtrLo).toNat
  if ctxswVirt = 0 then return .null
  let t ← translatePageDirectory (← instPdb inst) ctxswVirt
  match t.accepted with
  | none => return .err (-enotrecoverable)
  | some (ctxswPhys, ctxswPhysAperture) =>
      let ctxswOff ← addrToPraminMut ctxswPhys ctxswPhysAperture
      if ctxswOff = -1 then return .null
      return .pramin ctxswOff ctxswPhys ctxswPhysAperture

/-- `get_ctxsw`. -/
def getCtxsw (inst : Kva) : Kernel Kva := do
  let wfiVirt := (← instEngineWfi inst).ptr * 4096
  if wfiVirt = 0 then return .null
  if (← instEngineWfi inst).isVirtual then
    match ← lookupVirt (← instPdb inst) wfiVirt with
    | none => return .err (-enotrecoverable)
    | some (wfiPhys, wfiPhysAperture) =>
        ctxswOfWfi inst wfiPhys wfiPhysAperture
  else
    let wfi ← instEngineWfi inst
    ctxswOfWfi inst (wfi.ptr * 4096) wfi.target

end A100Partitioning.Nvdebug
