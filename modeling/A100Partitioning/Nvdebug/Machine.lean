import A100Partitioning.Support.Bitfield

/-!
# The machine the nvdebug driver runs on

This module fixes the state that `nvdebug` reads and writes: the BAR0 registers,
the memories of the GPU and of the CPU as 64-bit words, the I/O MMU, and the
driver's own `struct nvdebug_state`.  The PRAMIN window register is kept apart
from the other registers, because dereferencing a page-table pointer moves it.

Every access of the page-table code is aligned to eight bytes, so a word of
memory is a cell of its own, addressed by its first byte.  A C function that
may touch an invalid pointer is a state transformer that can fail: `none` is a
kernel oops.
-/

namespace A100Partitioning.Nvdebug

open Support

/-! ## Enumerations -/

/-- `enum INST_TARGET`; `TARGET_PEER` is the same value as `TARGET_INVALID`. -/
inductive InstTarget where
  | vidMem
  | invalid
  | sysMemCoherent
  | sysMemNoncoherent
  deriving DecidableEq, Repr

namespace InstTarget

/-- The two-bit encoding. -/
def toBits : InstTarget → ℕ
  | .vidMem => 0
  | .invalid => 1
  | .sysMemCoherent => 2
  | .sysMemNoncoherent => 3

/-- Decode a two-bit field. -/
def ofBits : ℕ → InstTarget
  | 0 => .vidMem
  | 1 => .invalid
  | 2 => .sysMemCoherent
  | _ => .sysMemNoncoherent

@[simp] theorem ofBits_toBits (t : InstTarget) : ofBits t.toBits = t := by
  cases t <;> rfl

theorem toBits_lt (t : InstTarget) : t.toBits < 4 := by
  cases t <;> decide

theorem toBits_ofBits {n : ℕ} (hn : n < 4) : (ofBits n).toBits = n := by
  interval_cases n <;> rfl

/-- `IS_SYS_MEM`: one of the two system-memory apertures. -/
def isSysMem : InstTarget → Bool
  | .sysMemCoherent => true
  | .sysMemNoncoherent => true
  | _ => false

end InstTarget

/-- `enum PD_TARGET`, the three low bits of a V2 entry. -/
inductive PdTarget where
  | pdInvalid
  | pteVidMem
  | pdVidMem
  | ptePeer
  | pdSysMemCoherent
  | pteSysMemCoherent
  | pdSysMemNoncoherent
  | pteSysMemNoncoherent
  deriving DecidableEq, Repr

namespace PdTarget

/-- The three-bit encoding. -/
def toBits : PdTarget → ℕ
  | .pdInvalid => 0
  | .pteVidMem => 1
  | .pdVidMem => 2
  | .ptePeer => 3
  | .pdSysMemCoherent => 4
  | .pteSysMemCoherent => 5
  | .pdSysMemNoncoherent => 6
  | .pteSysMemNoncoherent => 7

/-- Decode a three-bit field. -/
def ofBits : ℕ → PdTarget
  | 0 => .pdInvalid
  | 1 => .pteVidMem
  | 2 => .pdVidMem
  | 3 => .ptePeer
  | 4 => .pdSysMemCoherent
  | 5 => .pteSysMemCoherent
  | 6 => .pdSysMemNoncoherent
  | _ => .pteSysMemNoncoherent

theorem toBits_ofBits {n : ℕ} (hn : n < 8) : (ofBits n).toBits = n := by
  interval_cases n <;> rfl

/-- `IS_PD_TARGET`: the low bit is unset on page-directory targets. -/
def isPdTarget (t : PdTarget) : Bool :=
  t.toBits % 2 == 0

/-- `INST2PD_TARGET`. -/
def ofInst (t : InstTarget) : PdTarget :=
  if t.toBits / 2 % 2 = 1 then ofBits (t.toBits * 2)
  else ofBits (if t.toBits = 0 then 2 else 0)

/-- `V12PD_TARGET`, on the two-bit encoding of `enum V1_PD_TARGET`. -/
def ofV1 (t : ℕ) : PdTarget :=
  ofBits (t * 2)

end PdTarget

/-! ## Error numbers -/

def enoent : ℤ := 2
def esrch : ℤ := 3
def eio : ℤ := 5
def enxio : ℤ := 6
def enomem : ℤ := 12
def enodev : ℤ := 19
def einval : ℤ := 22
def erange : ℤ := 34
def enosys : ℤ := 38
def eopnotsupp : ℤ := 95
def eafnosupport : ℤ := 97
def eaddrinuse : ℤ := 98
def eaddrnotavail : ℤ := 99
def enotrecoverable : ℤ := 131

/-! ## Memory and pointers -/

/-- The address spaces a word of memory can lie in. -/
inductive Space where
  | vram
  | sysmem
  | peer
  | bar2
  deriving DecidableEq, Repr

/-- The location of one 64-bit word. -/
structure Loc where
  space : Space
  addr : ℕ
  deriving DecidableEq, Repr

/-- The word `n` bytes further on. -/
def Loc.add (l : Loc) (n : ℕ) : Loc :=
  { l with addr := l.addr + n }

/-- A kernel virtual address.  A pointer into the PRAMIN window remembers the
address and target that it was computed for; the hardware does not. -/
inductive Kva where
  | null
  | err (errno : ℤ)
  | pramin (off : ℤ) (addr : ℕ) (target : InstTarget)
  | bar2 (off : ℕ)
  | phys (addr : ℕ)
  deriving DecidableEq, Repr

namespace Kva

/-- Pointer arithmetic. -/
def add (k : Kva) (n : ℤ) : Kva :=
  match k with
  | .null => .null
  | .err e => .err e
  | .pramin off addr target => .pramin (off + n) (addr + n).toNat target
  | .bar2 off => .bar2 (off + n).toNat
  | .phys addr => .phys (addr + n).toNat

/-- `IS_ERR`. -/
def isErr : Kva → Bool
  | .err _ => true
  | _ => false

/-- `IS_ERR_OR_NULL`. -/
def isErrOrNull : Kva → Bool
  | .null => true
  | .err _ => true
  | _ => false

/-- `PTR_ERR`; zero for `NULL`. -/
def ptrErr : Kva → ℤ
  | .err e => e
  | _ => 0

end Kva

/-- `struct nvdebug_pd_page`, the driver's record in the `struct page` of a
page directory or table it allocated; `frame` is the page itself. -/
structure NvdebugPdPage where
  frame : ℕ
  parentAddr : ℕ
  parentAperture : PdTarget
  dmaAddr : ℕ
  deriving DecidableEq, Repr

/-- One access through a pointer into the PRAMIN window: what the pointer was
computed for, and the window register at the time of the access. -/
structure PraminAccess where
  off : ℤ
  addr : ℕ
  target : InstTarget
  window : BitVec 32
  deriving DecidableEq, Repr

/-! ## State -/

/-- The machine apart from the PRAMIN window.

`iommu` maps I/O page frames to physical page frames, with 0 for no mapping;
`none` means that the device has no I/O MMU domain.  `pcid` and `platd` hold the
start of the BAR0 resource of the PCIe or platform device.  A suspended platform
GPU answers no register access. -/
structure Core where
  chipId : ℕ
  pcid : Option ℕ
  platd : Option ℕ
  suspended : Bool
  bar2 : Bool
  regs : ℕ → BitVec 32
  mem : Loc → BitVec 64
  iommu : Option (ℕ → ℕ)
  pdAllocs : List NvdebugPdPage

/-- The whole machine; `accesses` records every access through a pointer into
the PRAMIN window, newest first. -/
structure Machine extends Core where
  window : BitVec 32
  accesses : List PraminAccess

/-- Kernel code: a state transformer that fails on an invalid access. -/
abbrev Kernel := StateT Machine Option

/-- An access the kernel does not survive. -/
def oops {α : Type} : Kernel α :=
  fun _ => none

namespace Kernel

variable {α β : Type}

@[simp] theorem bind_apply (x : Kernel α) (f : α → Kernel β) (s : Machine) :
    (x >>= f) s = (x s).bind fun p => f p.1 p.2 := rfl

@[simp] theorem pure_apply (a : α) (s : Machine) :
    (pure a : Kernel α) s = some (a, s) := rfl

@[simp] theorem map_apply (f : α → β) (x : Kernel α) (s : Machine) :
    (f <$> x) s = (x s).map fun p => (f p.1, p.2) := by
  rw [← bind_pure_comp]
  cases h : x s with
  | none => simp [h]
  | some p => simp [h]

@[simp] theorem get_apply (s : Machine) :
    (get : Kernel Machine) s = some (s, s) := rfl

@[simp] theorem modify_apply (f : Machine → Machine) (s : Machine) :
    (modify f : Kernel Unit) s = some ((), f s) := rfl

@[simp] theorem oops_apply (s : Machine) : (oops : Kernel α) s = none := rfl

/-- A run of two steps is a run of the first and then of the second. -/
theorem bind_eq_of_eq {x : Kernel α} {f : α → Kernel β} {s s' : Machine}
    {a : α} (h : x s = some (a, s')) : (x >>= f) s = f a s' := by
  rw [bind_apply, h, Option.bind_some]

/-- A successful run of two steps decomposes into runs of both. -/
theorem bind_eq_some {x : Kernel α} {f : α → Kernel β} {s s' : Machine}
    {b : β} (h : (x >>= f) s = some (b, s')) :
    ∃ a s₁, x s = some (a, s₁) ∧ f a s₁ = some (b, s') := by
  rw [bind_apply, Option.bind_eq_some_iff] at h
  obtain ⟨⟨a, s₁⟩, hx, hf⟩ := h
  exact ⟨a, s₁, hx, hf⟩

end Kernel

/-! ## Registers -/

/-- The chips whose window register moved (Hopper and Blackwell+). -/
def Core.isHopperLike (c : Core) : Bool :=
  (0x180 ≤ c.chipId && c.chipId < 0x190) || 0x1A0 ≤ c.chipId

/-- Offset of the PRAMIN window register on this chip. -/
def Core.windowReg (c : Core) : ℕ :=
  if c.isHopperLike then 0x0010fd40 else 0x00001700

/-- Registers of a platform GPU that could not be resumed are unavailable. -/
def Core.registersOff (c : Core) : Bool :=
  c.platd.isSome && c.suspended

/-- `bar0_window_t.base`. -/
def windowBase (raw : BitVec 32) : ℕ :=
  Bitfield.get 0 24 raw

/-- `bar0_window_t.target`. -/
def windowTarget (raw : BitVec 32) : InstTarget :=
  .ofBits (Bitfield.get 24 2 raw)

/-- `readl(s->regs + r)`. -/
def Machine.register (s : Machine) (r : ℕ) : BitVec 32 :=
  if r = s.windowReg then s.window else s.regs r

/-- The error pattern that `nvdebug_readl` filters out. -/
def isBadRead (raw : BitVec 32) : Bool :=
  Bitfield.get 20 12 raw == 0xbad

/-- The value `nvdebug_readl` returns. -/
def Machine.readlValue (s : Machine) (r : ℕ) : BitVec 32 :=
  if s.registersOff then BitVec.allOnes 32
  else if isBadRead (s.register r) then BitVec.allOnes 32
  else s.register r

/-- `nvdebug_readl`. -/
def nvdebugReadl (r : ℕ) : Kernel (BitVec 32) := do
  return (← get).readlValue r

/-- `nvdebug_readq`. -/
def nvdebugReadq (r : ℕ) : Kernel (BitVec 64) := do
  let s ← get
  if s.registersOff then return BitVec.allOnes 64
  let ret : BitVec 64 := s.register (r + 4) ++ s.register r
  if isBadRead (s.register r) then return BitVec.allOnes 64
  return ret

/-- `nvdebug_writel`. -/
def nvdebugWritel (r : ℕ) (v : BitVec 32) : Kernel Unit :=
  modify fun s =>
    if s.registersOff then s
    else if r = s.windowReg then { s with window := v }
    else { s with regs := Function.update s.regs r v }

/-! ## Accesses through pointers -/

/-- `iommu_iova_to_phys`: zero when the I/O MMU has no mapping. -/
def iommuIovaToPhys (dom : ℕ → ℕ) (addr : ℕ) : ℕ :=
  if dom (addr / 4096) = 0 then 0
  else dom (addr / 4096) * 4096 + addr % 4096

/-- Where a bus address of the GPU leads in system memory. -/
def Core.busLoc (c : Core) (addr : ℕ) : Loc :=
  match c.iommu with
  | some dom => ⟨.sysmem, iommuIovaToPhys dom addr⟩
  | none => ⟨.sysmem, addr⟩

/-- The word that the window shows for an address in its target. -/
def Core.windowLoc (c : Core) (target : InstTarget) (addr : ℕ) : Loc :=
  match target with
  | .vidMem => ⟨.vram, addr⟩
  | .invalid => ⟨.peer, addr⟩
  | _ => c.busLoc addr

/-- What an access touches: a memory word, or registers outside the window. -/
inductive Reached where
  | word (l : Loc)
  | bar0 (r : ℕ)
  deriving DecidableEq, Repr

/-- `NV_PRAMIN`. -/
def nvPramin : ℕ := 0x00700000

/-- `NV_PRAMIN_LEN`. -/
def nvPraminLen : ℕ := 0x00100000

/-- What a pointer reaches in the current state. -/
def Machine.reach (s : Machine) : Kva → Option Reached
  | .null => none
  | .err _ => none
  | .pramin off _ _ =>
      if 0 ≤ off ∧ off < nvPraminLen then
        some (.word (s.windowLoc (windowTarget s.window)
          (windowBase s.window * 0x10000 + off.toNat)))
      else some (.bar0 (nvPramin + off).toNat)
  | .bar2 off => some (.word ⟨.bar2, off⟩)
  | .phys addr => some (.word ⟨.sysmem, addr⟩)

/-- Record an access if it goes through the window. -/
def Machine.logAccess (s : Machine) : Kva → Machine
  | .pramin off addr target =>
      { s with accesses := ⟨off, addr, target, s.window⟩ :: s.accesses }
  | _ => s

/-- `readq`. -/
def readq (k : Kva) : Kernel (BitVec 64) := fun s =>
  match s.reach k with
  | none => none
  | some (.word l) => some (s.mem l, s.logAccess k)
  | some (.bar0 r) => some (s.register (r + 4) ++ s.register r, s.logAccess k)

/-- `readl`: one half of the aligned word. -/
def readl (k : Kva) : Kernel (BitVec 32) := fun s =>
  match s.reach k with
  | none => none
  | some (.word l) =>
      some ((s.mem { l with addr := l.addr - l.addr % 8 }).extractLsb'
        (8 * (l.addr % 8)) 32, s.logAccess k)
  | some (.bar0 r) => some (s.register r, s.logAccess k)

/-- Replace one word of memory. -/
def Core.write (c : Core) (l : Loc) (v : BitVec 64) : Core :=
  { c with mem := Function.update c.mem l v }

/-- `writeq`. -/
def writeq (k : Kva) (v : BitVec 64) : Kernel Unit := fun s =>
  match s.reach k with
  | none => none
  | some (.word l) =>
      some ((), { s.logAccess k with toCore := s.toCore.write l v })
  | some (.bar0 r) =>
      (do nvdebugWritel r (v.extractLsb' 0 32)
          nvdebugWritel (r + 4) (v.extractLsb' 32 32)) (s.logAccess k)

/-! ## Concrete machines -/

/-- An Ampere PCIe GPU, without an I/O MMU, whose memory holds the given words
and is zero elsewhere; the window shows the start of video memory. -/
def Machine.ofWords (words : List (Loc × BitVec 64)) : Machine where
  chipId := 0x172
  pcid := some 0
  platd := none
  suspended := false
  bar2 := true
  regs _ := 0
  mem l := (words.lookup l).getD 0
  iommu := none
  pdAllocs := []
  window := 0
  accesses := []

/-- Every word of such a machine is zero or one of the given words. -/
theorem Machine.mem_ofWords (words : List (Loc × BitVec 64)) (l : Loc) :
    (Machine.ofWords words).mem l = 0 ∨
      (Machine.ofWords words).mem l ∈ words.map Prod.snd := by
  simp only [Machine.ofWords]
  induction words with
  | nil => exact .inl rfl
  | cons w words ih =>
      rw [List.lookup_cons]
      cases l == w.1 with
      | true => exact .inr (by simp)
      | false => exact ih.imp_right fun h => List.mem_cons_of_mem _ h

theorem Machine.mem_ofWords_of_notMem {words : List (Loc × BitVec 64)} {l : Loc}
    (h : l ∉ words.map Prod.fst) : (Machine.ofWords words).mem l = 0 := by
  have hnone : words.lookup l = none := by
    rw [List.lookup_eq_none_iff]
    intro w hw
    rw [bne_iff_ne]
    rintro rfl
    exact h (List.mem_map_of_mem hw)
  simp only [Machine.ofWords, hnone, Option.getD_none]

theorem Kernel.exists_of_map_fst {α : Type} {x : Kernel α} {s : Machine} {a : α}
    (h : (x s).map Prod.fst = some a) : ∃ s', x s = some (a, s') := by
  rw [Option.map_eq_some_iff] at h
  obtain ⟨⟨_, s'⟩, hx, rfl⟩ := h
  exact ⟨s', hx⟩

end A100Partitioning.Nvdebug
