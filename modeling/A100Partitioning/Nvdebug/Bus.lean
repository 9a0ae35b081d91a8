import A100Partitioning.Nvdebug.Machine

/-!
# The PRAMIN window (`bus.c`)

`addr_to_pramin_mut` makes one address accessible through the 1 MiB window into
GPU memory, moving the window if it does not show that address already.  The
main fact about it is that a nonnegative result is an offset at which the window
now shows exactly the requested address.
-/

namespace A100Partitioning.Nvdebug

open Support

/-- The `relocate` exit of `addr_to_pramin_mut`: move the window to the
64-KiB-aligned chunk of `addr`. -/
def relocateWindow (windowReg : ℕ) (raw : BitVec 32)
    (addr : ℕ) (target : InstTarget) : Kernel ℤ := do
  let raw := Bitfield.set 0 24 raw (addr / 0x10000)
  let raw := Bitfield.set 24 2 raw target.toBits
  nvdebugWritel windowReg raw
  let _ ← nvdebugReadl windowReg
  return (addr % 0x10000 : ℕ)

/-- `addr_to_pramin_mut`. -/
def addrToPraminMut (addr : ℕ) (target : InstTarget) : Kernel ℤ := do
  if 2 ^ 40 ≤ addr then return -einval
  let s ← get
  let raw ← nvdebugReadl s.windowReg
  if raw = BitVec.allOnes 32 then return -eopnotsupp
  if windowTarget raw ≠ target then
    -- On Hopper and Blackwell+ the window always points at VID_MEM.
    if s.isHopperLike then return -eopnotsupp
    else relocateWindow s.windowReg raw addr target
  else
    let praminBase := windowBase raw * 0x10000
    if addr < praminBase ∨ praminBase + nvPraminLen ≤ addr then
      relocateWindow s.windowReg raw addr target
    else return ((addr - praminBase : ℕ) : ℤ)

/-! ## The window register -/

/-- Whether the window can be made to show video memory. -/
def Machine.vidOk (s : Machine) : Bool :=
  s.readlValue s.windowReg != BitVec.allOnes 32 &&
    (!s.isHopperLike ||
      windowTarget (s.readlValue s.windowReg) == .vidMem)

/-- The register value after the window moved. -/
def movedWindow (raw : BitVec 32) (addr : ℕ) (target : InstTarget) :
    BitVec 32 :=
  Bitfield.set 24 2 (Bitfield.set 0 24 raw (addr / 0x10000)) target.toBits

@[simp] theorem windowTarget_movedWindow (raw : BitVec 32) (addr : ℕ)
    (target : InstTarget) :
    windowTarget (movedWindow raw addr target) = target := by
  rw [windowTarget, movedWindow, Bitfield.get_set_self _ _ (by decide),
    show (2 : ℕ) ^ 2 = 4 from rfl, Nat.mod_eq_of_lt target.toBits_lt,
    InstTarget.ofBits_toBits]

theorem windowBase_movedWindow (raw : BitVec 32) {addr : ℕ}
    (target : InstTarget) (haddr : addr < 2 ^ 40) :
    windowBase (movedWindow raw addr target) = addr / 0x10000 := by
  rw [windowBase, movedWindow, Bitfield.get_set_of_disjoint _ _ (by decide),
    Bitfield.get_set_self _ _ (by decide)]
  omega

/-- A window into video memory never reads as a failed access. -/
theorem readable_of_windowTarget_vidMem {raw : BitVec 32}
    (h : windowTarget raw = .vidMem) :
    raw ≠ BitVec.allOnes 32 ∧ isBadRead raw = false := by
  have hlt := Bitfield.get_lt 24 2 raw
  have hzero : Bitfield.get 24 2 raw = 0 := by
    rw [windowTarget] at h
    have hbits := InstTarget.toBits_ofBits hlt
    rw [h] at hbits
    exact hbits.symm
  constructor
  · rintro rfl
    revert hzero
    decide
  · have hsplit := Bitfield.get_add 20 4 8 raw
    have hlow := @Bitfield.get_mod_two_pow _ 24 2 8 raw (by decide)
    have hnibble := Bitfield.get_lt 20 4 raw
    rw [isBadRead, beq_eq_false_iff_ne]
    norm_num at hsplit hlow hnibble
    omega

/-! ## What the window access does -/

/-- The value `nvdebug_readq` returns. -/
def Machine.readqValue (s : Machine) (r : ℕ) : BitVec 64 :=
  if s.registersOff then BitVec.allOnes 64
  else if isBadRead (s.register r) then BitVec.allOnes 64
  else s.register (r + 4) ++ s.register r

theorem nvdebugReadq_eq (s : Machine) (r : ℕ) :
    nvdebugReadq r s = some (s.readqValue r, s) := by
  simp only [nvdebugReadq, Machine.readqValue, Kernel.bind_apply, Kernel.get_apply,
    Option.bind_some]
  split_ifs <;> rfl

theorem windowReg_of_lt {c : Core} (h : c.chipId < 0x170) : c.windowReg = 0x00001700 := by
  have hhopper : c.isHopperLike = false := by
    simp [Core.isHopperLike]
    omega
  rw [Core.windowReg, if_neg (ne_true_of_eq_false hhopper)]

theorem windowReg_cases (c : Core) : c.windowReg = 0x00001700 ∨ c.windowReg = 0x0010fd40 := by
  rw [Core.windowReg]
  split
  · exact .inr rfl
  · exact .inl rfl

theorem readlValue_windowReg (s : Machine) :
    s.readlValue s.windowReg =
      if s.registersOff then BitVec.allOnes 32
      else if isBadRead s.window then BitVec.allOnes 32 else s.window := by
  simp [Machine.readlValue, Machine.register]

theorem window_of_readlValue_ne {s : Machine}
    (h : s.readlValue s.windowReg ≠ BitVec.allOnes 32) :
    s.registersOff = false ∧ s.readlValue s.windowReg = s.window := by
  rw [readlValue_windowReg] at h ⊢
  split at h
  · exact absurd rfl h
  · rename_i hoff
    split at h
    · exact absurd rfl h
    · rename_i hbad
      simp [hoff, hbad]

theorem relocateWindow_eq {s : Machine} (raw : BitVec 32) (addr : ℕ)
    (target : InstTarget) (hoff : s.registersOff = false) :
    relocateWindow s.windowReg raw addr target s =
      some (((addr % 0x10000 : ℕ) : ℤ),
        { s with window := movedWindow raw addr target }) := by
  simp [relocateWindow, nvdebugWritel, nvdebugReadl, movedWindow, hoff]

/-- The three ways `addr_to_pramin_mut` can end: the address or the register is
unusable, the window shows the address already, or it is moved there. -/
theorem addrToPraminMut_cases (s : Machine) (addr : ℕ) (target : InstTarget) :
    (∃ e < 0, addrToPraminMut addr target s = some (e, s) ∧
      (2 ^ 40 ≤ addr ∧ e = -einval ∨
        addr < 2 ^ 40 ∧ e = -eopnotsupp ∧
          (s.readlValue s.windowReg = BitVec.allOnes 32 ∨
            s.isHopperLike = true ∧ windowTarget s.window ≠ target))) ∨
    (addr < 2 ^ 40 ∧ s.readlValue s.windowReg = s.window ∧
      s.window ≠ BitVec.allOnes 32 ∧
      ((windowTarget s.window = target ∧
        ∃ n : ℕ, n < nvPraminLen ∧ windowBase s.window * 0x10000 + n = addr ∧
          addrToPraminMut addr target s = some ((n : ℤ), s)) ∨
      ((s.isHopperLike = true → windowTarget s.window = target) ∧
        addrToPraminMut addr target s =
          some (((addr % 0x10000 : ℕ) : ℤ),
            { s with window := movedWindow s.window addr target })))) := by
  have hneg : -einval < 0 ∧ -eopnotsupp < 0 := by decide
  by_cases haddr : 2 ^ 40 ≤ addr
  · refine .inl ⟨-einval, hneg.1, ?_, .inl ⟨haddr, rfl⟩⟩
    simp only [addrToPraminMut, if_pos haddr, Kernel.pure_apply]
  have hlt : addr < 2 ^ 40 := Nat.lt_of_not_le haddr
  by_cases hraw : s.readlValue s.windowReg = BitVec.allOnes 32
  · refine .inl ⟨-eopnotsupp, hneg.2, ?_, .inr ⟨hlt, rfl, .inl hraw⟩⟩
    simp only [addrToPraminMut, if_neg haddr, nvdebugReadl,
      Kernel.bind_apply, Kernel.get_apply, Option.bind_some,
      Kernel.pure_apply, hraw, if_true]
  obtain ⟨hoff, hread⟩ := window_of_readlValue_ne hraw
  have hne : s.window ≠ BitVec.allOnes 32 := hread ▸ hraw
  have hrun : addrToPraminMut addr target s =
      (if windowTarget s.window ≠ target then
        if s.isHopperLike then pure (-eopnotsupp)
        else relocateWindow s.windowReg s.window addr target
      else
        if addr < windowBase s.window * 0x10000 ∨
            windowBase s.window * 0x10000 + nvPraminLen ≤ addr then
          relocateWindow s.windowReg s.window addr target
        else pure ((addr - windowBase s.window * 0x10000 : ℕ) : ℤ) :
        Kernel ℤ) s := by
    simp only [addrToPraminMut, if_neg haddr, nvdebugReadl,
      Kernel.bind_apply, Kernel.get_apply, Option.bind_some,
      Kernel.pure_apply, hread, if_neg hne]
  rw [hrun]
  by_cases htarget : windowTarget s.window = target
  · rw [if_neg (not_not.mpr htarget)]
    refine .inr ⟨hlt, hread, hne, ?_⟩
    by_cases hin : addr < windowBase s.window * 0x10000 ∨
        windowBase s.window * 0x10000 + nvPraminLen ≤ addr
    · rw [if_pos hin]
      exact .inr ⟨fun _ => htarget, relocateWindow_eq _ _ _ hoff⟩
    · rw [if_neg hin]
      exact .inl ⟨htarget, addr - windowBase s.window * 0x10000,
        by omega, by omega, rfl⟩
  · rw [if_pos htarget]
    by_cases hhopper : s.isHopperLike = true
    · rw [if_pos hhopper]
      exact .inl ⟨-eopnotsupp, hneg.2, rfl, .inr ⟨hlt, rfl, .inr ⟨hhopper, htarget⟩⟩⟩
    · rw [if_neg hhopper]
      exact .inr ⟨hlt, hread, hne,
        .inr ⟨fun h => absurd h hhopper, relocateWindow_eq _ _ _ hoff⟩⟩

/-- The whole 64-KiB-aligned chunk of the address is inside the window. -/
def ShowsChunk (window : BitVec 32) (addr : ℕ) : Prop :=
  windowBase window * 0x10000 ≤ addr / 0x10000 * 0x10000 ∧
    addr / 0x10000 * 0x10000 + 0x10000 ≤ windowBase window * 0x10000 + nvPraminLen

/-- The window ends at a multiple of 64 KiB, as it begins at one. -/
theorem showsChunk_of_lt {window : BitVec 32} {addr n : ℕ} (hn : n < nvPraminLen)
    (haddr : windowBase window * 0x10000 + n = addr) : ShowsChunk window addr := by
  have hlen : nvPraminLen = 16 * 0x10000 := rfl
  rw [hlen] at hn
  rw [ShowsChunk, hlen]
  omega

/-- A nonnegative result is an offset at which the window now shows the address, with the
chunk around it; otherwise, and for every address of more than 40 bits, the window is left
alone. -/
theorem addrToPraminMut_spec (s : Machine) (addr : ℕ) (target : InstTarget) :
    ∃ ret s', addrToPraminMut addr target s = some (ret, s') ∧
      (0 ≤ ret → windowTarget s'.window = target ∧
        (windowBase s'.window : ℤ) * 2 ^ 16 + ret = addr ∧ ShowsChunk s'.window addr) ∧
      (ret < 0 → s'.window = s.window) ∧ (2 ^ 40 ≤ addr → ret < 0) := by
  rcases addrToPraminMut_cases s addr target with
    ⟨e, he, hrun, -⟩ | ⟨hlt, -, -, ⟨htarget, n, hn, haddr, hrun⟩ | ⟨-, hrun⟩⟩
  · refine ⟨e, s, hrun, ?_, fun _ => rfl, fun _ => he⟩
    intro hnonneg
    exact absurd he (Int.not_lt.mpr hnonneg)
  · refine ⟨n, s, hrun, ?_, fun _ => rfl, ?_⟩
    · intro _
      refine ⟨htarget, ?_, showsChunk_of_lt hn haddr⟩
      rw [← haddr]
      norm_num
    · intro hbig
      exact absurd hlt (Nat.not_lt.mpr hbig)
  · refine ⟨_, _, hrun, ?_, ?_, ?_⟩
    · intro _
      have hbase : windowBase (movedWindow s.window addr target) = addr / 0x10000 :=
        windowBase_movedWindow _ _ hlt
      have hmod : addr % 0x10000 < nvPraminLen :=
        (Nat.mod_lt _ (by decide)).trans (by decide)
      have haddr : windowBase (movedWindow s.window addr target) * 0x10000 +
          addr % 0x10000 = addr := by
        rw [hbase]
        exact Nat.div_add_mod' addr 0x10000
      refine ⟨windowTarget_movedWindow _ _ _, ?_, showsChunk_of_lt hmod haddr⟩
      dsimp only
      omega
    · intro hneg
      exact absurd hneg (Int.not_lt.mpr (Int.natCast_nonneg _))
    · intro hbig
      exact absurd hlt (Nat.not_lt.mpr hbig)

end A100Partitioning.Nvdebug
