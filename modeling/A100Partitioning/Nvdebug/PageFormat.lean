import A100Partitioning.Nvdebug.Machine

/-!
# Page-table formats (`nvdebug.h`)

The V2 entry is a union of overlapping layouts: the three bits of the PDE
`target` are the PTE's `is_pte` and `aperture`, and the 24 bits of `addr` are
the low bits of the 46-bit `addr_w`.  The lemmas at the end of the V2 section
state what an entry looks like after `map_page_directory` filled it in.
-/

namespace A100Partitioning.Nvdebug

open Support

/-! ## Page directory configuration -/

/-- `page_dir_config_t`. -/
structure PageDirConfig where
  raw : BitVec 64
  deriving DecidableEq, Repr

namespace PageDirConfig

def target (c : PageDirConfig) : InstTarget := .ofBits (Bitfield.get 0 2 c.raw)

def isVer2 (c : PageDirConfig) : Bool := Bitfield.get 10 1 c.raw == 1

def is64kBigPage (c : PageDirConfig) : Bool := Bitfield.get 11 1 c.raw == 1

def pageDir (c : PageDirConfig) : ℕ := Bitfield.get 12 52 c.raw

end PageDirConfig

/-! ## Version 2 -/

/-- `NV_MMU_PT_V2_SZ`: entries per table at each level. -/
def nvMmuPtV2Sz : List ℕ := [4, 512, 512, 256, 512]

/-- `NV_MMU_PT_V2_ENTRY_SZ`: bytes per entry at each level. -/
def nvMmuPtV2EntrySz : List ℕ := [8, 8, 8, 16, 8]

/-- `NV_MMU_PT_V2_LSB`: the lowest virtual-address bit of each level's index. -/
def nvMmuPtV2Lsb : List ℕ := [47, 38, 29, 21, 12]

/-- `NV_MMU_PT_V2_SZ[level]`, for a level in range. -/
def ptSz (level : ℕ) : ℕ := nvMmuPtV2Sz.getD level 1

/-- `NV_MMU_PT_V2_ENTRY_SZ[level]`, for a level in range. -/
def ptEntrySz (level : ℕ) : ℕ := nvMmuPtV2EntrySz.getD level 8

/-- `NV_MMU_PT_V2_LSB[level]`, for a level in range. -/
def ptLsb (level : ℕ) : ℕ := nvMmuPtV2Lsb.getD level 12

/-- The index of `vaddr` into the table at `level`. -/
def ptIndex (level vaddr : ℕ) : ℕ :=
  vaddr / 2 ^ ptLsb level % ptSz level

/-- The hack for the double-size level-3 entries: their second half is used. -/
def ptHalf (level : ℕ) : ℕ :=
  if ptEntrySz level = 16 then 8 else 0

/-- `page_dir_entry_t`: a V2 directory entry or table entry. -/
structure PageDirEntry where
  rawW : BitVec 64
  deriving DecidableEq, Repr

namespace PageDirEntry

def target (e : PageDirEntry) : PdTarget := .ofBits (Bitfield.get 0 3 e.rawW)

def isPte (e : PageDirEntry) : Bool := Bitfield.get 0 1 e.rawW == 1

def aperture (e : PageDirEntry) : InstTarget := .ofBits (Bitfield.get 1 2 e.rawW)

def isEncrypted (e : PageDirEntry) : Bool := Bitfield.get 4 1 e.rawW == 1

def isPrivileged (e : PageDirEntry) : Bool := Bitfield.get 5 1 e.rawW == 1

def isReadonly (e : PageDirEntry) : Bool := Bitfield.get 6 1 e.rawW == 1

def atomicsDisabled (e : PageDirEntry) : Bool := Bitfield.get 7 1 e.rawW == 1

def addr (e : PageDirEntry) : ℕ := Bitfield.get 8 24 e.rawW

def addrW (e : PageDirEntry) : ℕ := Bitfield.get 8 46 e.rawW

/-- An entry is unpopulated when its valid and target bits are all zero. -/
def isInvalid (e : PageDirEntry) : Bool := e.target == .pdInvalid

/-- Set `is_pte`, `aperture`, the address and `is_volatile`, as
`map_page_directory` does for the final entry; all other bits are kept. -/
def toPte (e : PageDirEntry) (paddr : ℕ) (target : InstTarget) : PageDirEntry :=
  let raw := Bitfield.set 0 1 e.rawW 1
  let raw := Bitfield.set 1 2 raw target.toBits
  let raw :=
    if target = .vidMem then Bitfield.set 8 24 raw (paddr / 4096)
    else Bitfield.set 8 46 raw (paddr / 4096)
  ⟨Bitfield.set 3 1 raw 1⟩

/-- Set `target`, `addr_w`, `is_volatile` and `no_ats`, as
`map_page_directory` does when it links in a new directory or table. -/
def toPde (e : PageDirEntry) (dmaAddr : ℕ) : PageDirEntry :=
  let raw := Bitfield.set 0 3 e.rawW PdTarget.pdSysMemCoherent.toBits
  let raw := Bitfield.set 8 46 raw (dmaAddr / 4096)
  let raw := Bitfield.set 3 1 raw 1
  ⟨Bitfield.set 5 1 raw 1⟩

/-! ### Overlapping layouts -/

theorem addr_lt (e : PageDirEntry) : e.addr < 2 ^ 24 :=
  Bitfield.get_lt _ _ _

theorem addr_eq_addrW_mod (e : PageDirEntry) : e.addr = e.addrW % 2 ^ 24 :=
  (Bitfield.get_mod_two_pow e.rawW (by decide)).symm

theorem target_toBits (e : PageDirEntry) :
    e.target.toBits = Bitfield.get 0 3 e.rawW :=
  PdTarget.toBits_ofBits (Bitfield.get_lt _ _ _)

theorem aperture_toBits (e : PageDirEntry) :
    e.aperture.toBits = Bitfield.get 1 2 e.rawW :=
  InstTarget.toBits_ofBits (Bitfield.get_lt _ _ _)

theorem target_eq_aperture_isPte (e : PageDirEntry) :
    e.target.toBits = 2 * e.aperture.toBits + e.isPte.toNat := by
  have hsplit := Bitfield.get_add 0 1 2 e.rawW
  have hlt := Bitfield.get_lt 0 1 e.rawW
  rw [target_toBits, aperture_toBits, isPte]
  norm_num at hsplit hlt ⊢
  by_cases h : Bitfield.get 0 1 e.rawW = 1
  · simp [hsplit, h]
  · have hzero : Bitfield.get 0 1 e.rawW = 0 := by omega
    simp [hsplit, hzero]

theorem isInvalid_of_isPte {e : PageDirEntry} (hpte : e.isPte = true) :
    e.isInvalid = false := by
  have h := e.target_eq_aperture_isPte
  rw [hpte] at h
  rw [isInvalid, beq_eq_false_iff_ne]
  intro hinvalid
  rw [hinvalid] at h
  simp [PdTarget.toBits] at h

/-- On a directory entry the aperture bits never read as `TARGET_VID_MEM`. -/
theorem aperture_ne_vidMem_of_pde {e : PageDirEntry}
    (hvalid : e.isInvalid = false) (hpte : e.isPte = false) :
    e.aperture ≠ .vidMem := by
  intro hap
  have h := e.target_eq_aperture_isPte
  rw [hap, hpte] at h
  rw [isInvalid, beq_eq_false_iff_ne] at hvalid
  apply hvalid
  cases ht : e.target <;> rw [ht] at h <;> simp [PdTarget.toBits, InstTarget.toBits] at h ⊢

@[simp] theorem isInvalid_zero : isInvalid ⟨0⟩ = true := by decide

/-- Unencrypted, unprivileged, read/write, with atomics enabled. -/
def isPlain (e : PageDirEntry) : Bool :=
  !e.isEncrypted && !e.isPrivileged && !e.isReadonly && !e.atomicsDisabled

theorem isPlain_iff (e : PageDirEntry) :
    e.isPlain = true ↔ Bitfield.get 4 4 e.rawW = 0 := by
  have h4 := Bitfield.get_add 4 1 3 e.rawW
  have h5 := Bitfield.get_add 5 1 2 e.rawW
  have h6 := Bitfield.get_add 6 1 1 e.rawW
  have l4 := Bitfield.get_lt 4 1 e.rawW
  have l5 := Bitfield.get_lt 5 1 e.rawW
  have l6 := Bitfield.get_lt 6 1 e.rawW
  have l7 := Bitfield.get_lt 7 1 e.rawW
  simp only [isPlain, isEncrypted, isPrivileged, isReadonly, atomicsDisabled,
    Bool.and_eq_true, Bool.not_eq_true', beq_eq_false_iff_ne]
  norm_num at h4 h5 h6 l4 l5 l6 l7
  omega

/-! ### Filled-in entries -/

section ToPte

variable (e : PageDirEntry) (paddr : ℕ) (t : InstTarget)

@[simp] theorem toPte_isPte : (e.toPte paddr t).isPte = true := by
  rw [isPte, toPte]
  split <;>
    simp [Bitfield.get_set_of_disjoint]

@[simp] theorem toPte_aperture : (e.toPte paddr t).aperture = t := by
  have hlt := t.toBits_lt
  rw [aperture, toPte]
  split <;>
    simp [Bitfield.get_set_of_disjoint, Nat.mod_eq_of_lt hlt]

@[simp] theorem toPte_isInvalid : (e.toPte paddr t).isInvalid = false :=
  isInvalid_of_isPte (toPte_isPte e paddr t)

/-- The access bits are not touched: whatever the unpopulated entry held in
bits 4 to 7 is now part of the mapping. -/
theorem toPte_flags :
    Bitfield.get 4 4 (e.toPte paddr t).rawW = Bitfield.get 4 4 e.rawW := by
  rw [toPte]
  split <;>
    simp [Bitfield.get_set_of_disjoint]

theorem toPte_addr : (e.toPte paddr t).addr = paddr / 4096 % 2 ^ 24 := by
  rw [toPte]
  split
  · simp [addr, Bitfield.get_set_of_disjoint]
  · rw [addr_eq_addrW_mod]
    simp only [addrW]
    rw [Bitfield.get_set_of_disjoint _ _ (by decide),
      Bitfield.get_set_self _ _ (by decide)]
    exact Nat.mod_mod_of_dvd _ (by decide)

theorem toPte_addrW (ht : t ≠ .vidMem) :
    (e.toPte paddr t).addrW = paddr / 4096 % 2 ^ 46 := by
  rw [toPte, if_neg ht]
  simp [addrW, Bitfield.get_set_of_disjoint]

end ToPte

section ToPde

variable (e : PageDirEntry) (dmaAddr : ℕ)

@[simp] theorem toPde_target :
    (e.toPde dmaAddr).target = .pdSysMemCoherent := by
  rw [target, toPde]
  simp [Bitfield.get_set_of_disjoint, PdTarget.toBits, PdTarget.ofBits]

@[simp] theorem toPde_isInvalid : (e.toPde dmaAddr).isInvalid = false := by
  simp [isInvalid]

@[simp] theorem toPde_isPte : (e.toPde dmaAddr).isPte = false := by
  have h := (e.toPde dmaAddr).target_eq_aperture_isPte
  rw [toPde_target] at h
  cases hpte : (e.toPde dmaAddr).isPte
  · rfl
  · rw [hpte] at h
    simp [PdTarget.toBits] at h
    omega

theorem toPde_addrW : (e.toPde dmaAddr).addrW = dmaAddr / 4096 % 2 ^ 46 := by
  simp [addrW, toPde, Bitfield.get_set_of_disjoint]

end ToPde

end PageDirEntry

/-! ## Version 1 -/

/-- `NV_MMU_PT_V1_SZ`. -/
def nvMmuPtV1Sz : List ℕ := [4096, 16384]

/-- `NV_MMU_PT_V1_LSB`. -/
def nvMmuPtV1Lsb : List ℕ := [27, 12]

/-- `page_dir_entry_v1_t`: the large-page and the small-page half. -/
structure PageDirEntryV1 where
  raw : BitVec 64
  deriving DecidableEq, Repr

namespace PageDirEntryV1

def target (e : PageDirEntryV1) : ℕ := Bitfield.get 0 2 e.raw

def altTarget (e : PageDirEntryV1) : ℕ := Bitfield.get 32 2 e.raw

def altAddr (e : PageDirEntryV1) : ℕ := Bitfield.get 36 28 e.raw

end PageDirEntryV1

/-- `page_tbl_entry_v1_t`. -/
structure PageTblEntryV1 where
  raw : BitVec 64
  deriving DecidableEq, Repr

namespace PageTblEntryV1

def isPresent (e : PageTblEntryV1) : Bool := Bitfield.get 0 1 e.raw == 1

def addr (e : PageTblEntryV1) : ℕ := Bitfield.get 4 28 e.raw

def target (e : PageTblEntryV1) : InstTarget := .ofBits (Bitfield.get 33 2 e.raw)

end PageTblEntryV1

end A100Partitioning.Nvdebug
