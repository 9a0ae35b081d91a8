import A100Partitioning.Nvdebug.RunlistShow
import A100Partitioning.Nvdebug.WindowMoves

/-!
# The window after a channel is shown (`runlist_procfs.c`)

`runlist_detail_seq_show_inst` remembers the window register and moves the window to the
instance block, to page tables and to the context-switch block.  Some of its returns put
the window back, and some do not.
-/

namespace A100Partitioning.Nvdebug

open Support Keeping

/-! ## What finding a context-switch block leaves alone -/

/-- A property that reading memory does not change. -/
def IgnoresReads (I : Machine → Prop) : Prop := ∀ s k, I s → I (s.logAccess k)

namespace IgnoresReads

variable {I : Machine → Prop} (hI : IgnoresReads I)

include hI

theorem readq (k : Kva) : Stays I (readq k) := by
  intro s a s' hs h
  rw [Nvdebug.readq] at h
  split at h
  · cases h
  all_goals
    cases h
    exact hI s k hs

theorem readl (k : Kva) : Stays I (readl k) := by
  intro s a s' hs h
  rw [Nvdebug.readl] at h
  split at h
  · cases h
  all_goals
    cases h
    exact hI s k hs

theorem instPdb (inst : Kva) : Stays I (instPdb inst) := (hI.readq _).map _

theorem instEngineWfi (inst : Kva) : Stays I (instEngineWfi inst) := (hI.readq _).map _

theorem showInstanceBlock (indent : Bool) (inst : Kva) :
    Stays I (showInstanceBlock indent inst) := by
  apply (hI.readl _).bind
  intro fcTarget
  apply (hI.readl _).bind
  intro fcConfig
  apply (hI.readl _).bind
  intro fcChanInfo
  apply (hI.instEngineWfi inst).bind
  intro wfi
  apply (hI.readl _).bind
  intro wfiVeid
  apply (hI.instPdb inst).bind
  intro pdb
  apply (hI.readq _).bind
  intro valid
  apply Stays.bind
  · apply Stays.mapM
    intro i
    apply (hI.readq _).bind
    intro pdb
    apply (hI.readl _).bind
    intro pasid
    exact .pure _
  · intro subcontexts
    exact .pure _

theorem showContextState (indent : Bool) (ctxsw : Kva) :
    Stays I (showContextState indent ctxsw) := by
  apply (hI.readl _).bind
  intro graphicsPreemption
  apply (hI.readl _).bind
  intro computePreemption
  apply (hI.readl _).bind
  intro wfiSaves
  apply (hI.readl _).bind
  intro ctaSaves
  apply (hI.readl _).bind
  intro gfxpSaves
  apply (hI.readl _).bind
  intro cilpSaves
  exact .pure _

end IgnoresReads

/-- A property that neither reading memory nor moving the window changes. -/
structure Steady (I : Machine → Prop) : Prop where
  ignoresReads : IgnoresReads I
  move : ∀ addr target, Stays I (addrToPraminMut addr target)

namespace Steady

variable {I : Machine → Prop} (hI : Steady I)

include hI

theorem pdDeref (addr : ℕ) (pdAp : PdTarget) : Stays I (pdDeref addr pdAp) := by
  apply Stays.ite
  · intro _
    exact .pure _
  intro _
  apply Stays.ite
  · intro _
    apply (hI.move addr .vidMem).bind
    intro off
    exact .ite (fun _ => .pure _) fun _ => .pure _
  · intro _
    refine Stays.bind .get ?_
    intro s
    dsimp only
    split
    · exact .pure _
    · exact .pure _

theorem translateLevels (addrToFind : ℕ) (levels : List ℕ) (next : ℕ)
    (nextTarget : PdTarget) : Stays I (translateLevels addrToFind levels next nextTarget) := by
  induction levels generalizing next nextTarget with
  | nil => exact .pure _
  | cons level levels ih =>
      apply (hI.pdDeref _ _).bind
      intro nextKva
      apply Stays.ite
      · intro _
        exact .pure _
      intro _
      apply (hI.ignoresReads.readq _).bind
      intro word
      apply Stays.ite
      · intro _
        exact .pure _
      intro _
      exact .ite (fun _ => .pure _) fun _ => ih _ _

theorem translatePageDirectory (pdConfig : PageDirConfig) (addrToFind : ℕ) :
    Stays I (translatePageDirectory pdConfig addrToFind) :=
  .ite (fun _ => .pure _) fun _ => hI.translateLevels _ _ _ _

theorem translateV1PageDirectory (pdConfig : PageDirConfig) (addrToFind : ℕ) :
    Stays I (translateV1PageDirectory pdConfig addrToFind) := by
  apply Stays.ite
  · intro _
    exact .pure _
  intro _
  apply Stays.ite
  · intro _
    exact .pure _
  intro _
  apply Stays.ite
  · intro _
    exact .pure _
  intro _
  apply (hI.pdDeref _ _).bind
  intro pdeKva
  apply Stays.ite
  · intro _
    exact .pure _
  intro _
  apply (hI.ignoresReads.readq _).bind
  intro word
  apply Stays.ite
  · intro _
    exact .pure _
  intro _
  apply (hI.pdDeref _ _).bind
  intro pteKva
  apply Stays.ite
  · intro _
    exact .pure _
  intro _
  apply (hI.ignoresReads.readq _).bind
  intro word
  exact .ite (fun _ => .pure _) fun _ => .pure _

theorem lookupVirt (pdb : PageDirConfig) (virt : ℕ) : Stays I (lookupVirt pdb virt) := by
  apply Stays.map
  exact .ite (fun _ => hI.translatePageDirectory _ _) fun _ => hI.translateV1PageDirectory _ _

theorem ctxswOfWfi (inst : Kva) (wfiPhys : ℕ) (wfiPhysAperture : InstTarget) :
    Stays I (ctxswOfWfi inst wfiPhys wfiPhysAperture) := by
  apply (hI.move _ _).bind
  intro wfiOff
  apply Stays.ite
  · intro _
    exact .pure _
  intro _
  apply (hI.ignoresReads.readq _).bind
  intro valid
  apply Stays.ite
  · intro _
    exact .pure _
  intro _
  apply (hI.ignoresReads.instPdb inst).bind
  intro pdb
  apply Stays.ite
  · intro _
    exact .pure _
  intro _
  apply (hI.ignoresReads.readl _).bind
  intro hi
  apply (hI.ignoresReads.readl _).bind
  intro lo
  apply Stays.ite
  · intro _
    exact .pure _
  intro _
  apply (hI.ignoresReads.instPdb inst).bind
  intro pdb
  apply (hI.translatePageDirectory _ _).bind
  intro t
  cases t.accepted with
  | none => exact .pure _
  | some found =>
      apply (hI.move _ _).bind
      intro ctxswOff
      exact .ite (fun _ => .pure _) fun _ => .pure _

theorem getCtxsw (inst : Kva) : Stays I (getCtxsw inst) := by
  apply (hI.ignoresReads.instEngineWfi inst).bind
  intro wfi
  apply Stays.ite
  · intro _
    exact .pure _
  intro _
  apply (hI.ignoresReads.instEngineWfi inst).bind
  intro wfi
  apply Stays.ite
  · intro _
    apply (hI.ignoresReads.instPdb inst).bind
    intro pdb
    apply (hI.lookupVirt _ _).bind
    intro found
    cases found with
    | none => exact .pure _
    | some found => exact hI.ctxswOfWfi inst _ _
  · intro _
    apply (hI.ignoresReads.instEngineWfi inst).bind
    intro wfi
    exact hI.ctxswOfWfi inst _ _

end Steady

theorem steady_core (c : Core) : Steady fun s => s.toCore = c where
  ignoresReads s k hs := by
    cases k <;> exact hs
  move addr target := by
    intro s off s' hs h
    exact (keepsCore_addrToPraminMut addr target s off s' h).trans hs

/-- A window register that cannot be read stays as it is. -/
theorem steady_stuck {s₀ : Machine} (h₀ : s₀.readlValue s₀.windowReg = BitVec.allOnes 32) :
    Steady fun s => s.toCore = s₀.toCore ∧ s.window = s₀.window where
  ignoresReads s k hs := by
    cases k <;> exact hs
  move addr target := by
    intro s off s' hs h
    have hread : s.readlValue s.windowReg = BitVec.allOnes 32 := by
      rw [readlValue_windowReg] at h₀ ⊢
      rw [hs.1, hs.2]
      exact h₀
    rcases addrToPraminMut_cases s addr target with ⟨e, -, hrun, -⟩ | ⟨-, hread', hne, -⟩
    · rw [hrun] at h
      cases h
      exact hs
    · exact absurd (hread'.symm.trans hread) hne

/-! ## Runs -/

section Runs

variable {s s' : Machine} {indent : Bool} {instancePtr : ℕ} {instanceTarget : InstTarget}
  {text : List RunlistText}

/-- Some returns write the window register back, at the others nothing follows. -/
theorem runlistDetailSeqShowInst_cases {I : Machine → Prop} (hI : Steady I) (hs : I s)
    (hrun : runlistDetailSeqShowInst indent instancePtr instanceTarget s =
      some (text, s')) :
    (s.chipId < 0x130 ∧ I s') ∨
      0x120 ≤ s.chipId ∧ ∃ s₁, I s₁ ∧
        nvdebugWritel s.windowReg (s.readlValue s.windowReg) s₁ = some ((), s') := by
  rw [runlistDetailSeqShowInst, Kernel.bind_apply, Kernel.get_apply, Option.bind_some] at hrun
  obtain ⟨win, s₀, hwin, hrun⟩ := Kernel.bind_eq_some hrun
  cases hwin
  obtain ⟨off, s₁, hoff, hrun⟩ := Kernel.bind_eq_some hrun
  have hs₁ := hI.move _ _ _ _ _ hs hoff
  obtain ⟨block, s₂, hblock, hrun⟩ := Kernel.bind_eq_some hrun
  have hs₂ := hI.ignoresReads.showInstanceBlock _ _ _ _ _ hs₁ hblock
  by_cases hkepler : s.chipId < 0x120
  · rw [if_pos hkepler] at hrun
    cases hrun
    exact .inl ⟨hkepler.trans (by decide), hs₂⟩
  rw [if_neg hkepler] at hrun
  have hmaxwell := Nat.le_of_not_lt hkepler
  obtain ⟨ctxsw, s₃, hctxsw, hrun⟩ := Kernel.bind_eq_some hrun
  have hs₃ := hI.getCtxsw _ _ _ _ hs₂ hctxsw
  by_cases hnull : ctxsw.isErrOrNull = true
  · rw [if_pos hnull] at hrun
    obtain ⟨_, s₄, hwrite, hrun⟩ := Kernel.bind_eq_some hrun
    cases hrun
    exact .inr ⟨hmaxwell, s₃, hs₃, hwrite⟩
  rw [if_neg hnull] at hrun
  obtain ⟨contextId, s₄, hid, hrun⟩ := Kernel.bind_eq_some hrun
  have hs₄ := hI.ignoresReads.readl _ _ _ _ hs₃ hid
  by_cases hpascal : s.chipId < 0x130
  · rw [if_pos hpascal] at hrun
    cases hrun
    exact .inl ⟨hpascal, hs₄⟩
  rw [if_neg hpascal] at hrun
  obtain ⟨state, s₅, hstate, hrun⟩ := Kernel.bind_eq_some hrun
  have hs₅ := hI.ignoresReads.showContextState _ _ _ _ _ hs₄ hstate
  obtain ⟨_, s₆, hwrite, hrun⟩ := Kernel.bind_eq_some hrun
  cases hrun
  exact .inr ⟨hmaxwell, s₅, hs₅, hwrite⟩

section Steps

variable {s₁ s₂ s₃ s₄ : Machine} {off : ℤ} {block : List RunlistText} {ctxsw : Kva}
  {contextId : BitVec 32}
  (hoff : addrToPraminMut instancePtr instanceTarget s = some (off, s₁))
  (hblock : showInstanceBlock indent (.pramin off instancePtr instanceTarget) s₁ =
    some (block, s₂))

include hoff hblock

theorem show_of_kepler (hkepler : s.chipId < 0x120) :
    runlistDetailSeqShowInst indent instancePtr instanceTarget s = some (block, s₂) := by
  have hwin : nvdebugReadl s.windowReg s = some (s.readlValue s.windowReg, s) := rfl
  rw [runlistDetailSeqShowInst, Kernel.bind_apply, Kernel.get_apply, Option.bind_some,
    Kernel.bind_eq_of_eq hwin, Kernel.bind_eq_of_eq hoff, Kernel.bind_eq_of_eq hblock,
    if_pos hkepler]
  rfl

variable (hmaxwell : ¬ s.chipId < 0x120)
  (hctxsw : getCtxsw (.pramin off instancePtr instanceTarget) s₂ = some (ctxsw, s₃))

include hmaxwell hctxsw

theorem show_of_null (hnull : ctxsw.isErrOrNull = true) :
    runlistDetailSeqShowInst indent instancePtr instanceTarget s =
      (nvdebugWritel s.windowReg (s.readlValue s.windowReg) s₃).map fun p => (block, p.2) := by
  have hwin : nvdebugReadl s.windowReg s = some (s.readlValue s.windowReg, s) := rfl
  rw [runlistDetailSeqShowInst, Kernel.bind_apply, Kernel.get_apply, Option.bind_some,
    Kernel.bind_eq_of_eq hwin, Kernel.bind_eq_of_eq hoff, Kernel.bind_eq_of_eq hblock,
    if_neg hmaxwell, Kernel.bind_eq_of_eq hctxsw, if_pos hnull]
  rfl

theorem show_of_maxwell (hfound : ¬ ctxsw.isErrOrNull = true)
    (hid : readl (ctxsw.add 240) s₃ = some (contextId, s₄)) (hpascal : s.chipId < 0x130) :
    runlistDetailSeqShowInst indent instancePtr instanceTarget s =
      some (block ++ [.contextId indent contextId.toNat], s₄) := by
  have hwin : nvdebugReadl s.windowReg s = some (s.readlValue s.windowReg, s) := rfl
  rw [runlistDetailSeqShowInst, Kernel.bind_apply, Kernel.get_apply, Option.bind_some,
    Kernel.bind_eq_of_eq hwin, Kernel.bind_eq_of_eq hoff, Kernel.bind_eq_of_eq hblock,
    if_neg hmaxwell, Kernel.bind_eq_of_eq hctxsw, if_neg hfound, Kernel.bind_eq_of_eq hid,
    if_pos hpascal]
  rfl

end Steps

/-- What is written back is what was read, if registers can be read at all. -/
theorem window_of_writeBack {s₁ : Machine} (hcore : s₁.toCore = s.toCore) {win : BitVec 32}
    (h : nvdebugWritel s.windowReg win s₁ = some ((), s')) :
    s'.window = if s.registersOff then s₁.window else win := by
  rw [nvdebugWritel, Kernel.modify_apply, hcore] at h
  by_cases hoff : s.registersOff = true
  · rw [if_pos hoff] at h ⊢
    cases h
    rfl
  · rw [if_neg hoff, if_pos rfl] at h
    rw [if_neg hoff]
    cases h
    rfl

/-- The window is back where it was, whatever memory holds, after every return. -/
def RestoresWindow (s : Machine) : Prop :=
  ∀ (mem : Loc → BitVec 64) (indent : Bool) (instancePtr : ℕ) (instanceTarget : InstTarget)
    (text : List RunlistText) (s' : Machine),
    runlistDetailSeqShowInst indent instancePtr instanceTarget { s with mem := mem } =
      some (text, s') → s'.window = s.window

/-- The window can be read, and the chip is one on which every return writes it back; or it
cannot be read, so that it is not moved, and nothing is written back either. -/
def Machine.KeepsWindow (s : Machine) : Prop :=
  s.registersOff = true ∨ s.window = BitVec.allOnes 32 ∨
    isBadRead s.window = false ∧ 0x130 ≤ s.chipId ∨
    isBadRead s.window = true ∧ s.chipId < 0x120

theorem restoresWindow_of_keepsWindow (h : s.KeepsWindow) : RestoresWindow s := by
  intro mem indent instancePtr instanceTarget text s' hrun
  have hread : ({ s with mem := mem } : Machine).readlValue s.windowReg =
      s.readlValue s.windowReg := rfl
  by_cases hstuck : s.readlValue s.windowReg = BitVec.allOnes 32
  · rcases runlistDetailSeqShowInst_cases (steady_stuck (hread.trans hstuck)) ⟨rfl, rfl⟩ hrun
      with ⟨-, hkept⟩ | ⟨hmaxwell, s₁, hs₁, hwrite⟩
    · exact hkept.2
    · have hwindow : s'.window = if s.registersOff then s.window else BitVec.allOnes 32 := by
        rw [window_of_writeBack hs₁.1 hwrite, hs₁.2]
        exact congrArg (ite _ _) (hread.trans hstuck)
      by_cases hoff : s.registersOff = true
      · rw [hwindow, if_pos hoff]
      rw [hwindow, if_neg hoff]
      rw [readlValue_windowReg, if_neg hoff] at hstuck
      rcases h with hoff' | hones | ⟨hgood, -⟩ | ⟨-, hkepler⟩
      · exact absurd hoff' hoff
      · exact hones.symm
      · rw [hgood, if_neg Bool.false_ne_true] at hstuck
        exact hstuck.symm
      · exact absurd hmaxwell (Nat.not_le.mpr hkepler)
  · obtain ⟨hoff, hwindow⟩ := window_of_readlValue_ne hstuck
    have hpascal : 0x130 ≤ s.chipId := by
      rcases h with h | h | ⟨-, h⟩ | ⟨h, -⟩
      · rw [hoff] at h
        cases h
      · exact absurd (hwindow.trans h) hstuck
      · exact h
      · rw [readlValue_windowReg, h] at hstuck
        simp at hstuck
    rcases runlistDetailSeqShowInst_cases (steady_core _) rfl hrun with
      ⟨hchip, -⟩ | ⟨-, s₁, hs₁, hwrite⟩
    · exact absurd hpascal (Nat.not_le.mpr hchip)
    · have hon : ¬ ({ s with mem := mem } : Machine).registersOff = true :=
        ne_true_of_eq_false hoff
      rw [window_of_writeBack hs₁ hwrite, if_neg hon]
      exact hread.trans hwindow

end Runs

/-! ## Where the window stays moved -/

/-- The registers and memories, and what the window shows. -/
def WindowAt (c : Core) (target : InstTarget) (base : ℕ) (s : Machine) : Prop :=
  s.toCore = c ∧ windowTarget s.window = target ∧ windowBase s.window = base

section WindowAt

variable {c : Core} {target : InstTarget} {base : ℕ} {s : Machine} {off : ℤ} {addr n : ℕ}
  {aperture : InstTarget}

theorem WindowAt.logAccess (hs : WindowAt c target base s) (k : Kva) :
    WindowAt c target base (s.logAccess k) := by
  cases k <;> exact hs

theorem WindowAt.reach (hs : WindowAt c target base s)
    (hoff : 0 ≤ off + n ∧ off + n < nvPraminLen) :
    s.reach ((Kva.pramin off addr aperture).add (n : ℕ)) =
      some (.word (c.windowLoc target (base * 0x10000 + (off + n).toNat))) := by
  obtain ⟨rfl, rfl, rfl⟩ := hs
  exact if_pos hoff

theorem WindowAt.readq_eq (hs : WindowAt c target base s)
    (hoff : 0 ≤ off + n ∧ off + n < nvPraminLen) :
    readq ((Kva.pramin off addr aperture).add (n : ℕ)) s =
      some (c.mem (c.windowLoc target (base * 0x10000 + (off + n).toNat)),
        s.logAccess ((Kva.pramin off addr aperture).add (n : ℕ))) := by
  rw [readq, hs.reach hoff, hs.1]

theorem runs_readq (hoff : 0 ≤ off + n ∧ off + n < nvPraminLen) :
    Runs (WindowAt c target base) (readq ((Kva.pramin off addr aperture).add (n : ℕ))) :=
  fun _ hs => ⟨_, _, hs.readq_eq hoff, hs.logAccess _⟩

theorem runs_readl (hoff : 0 ≤ off + n ∧ off + n < nvPraminLen) :
    Runs (WindowAt c target base) (readl ((Kva.pramin off addr aperture).add (n : ℕ))) := by
  intro s hs
  have hread : ∃ v, readl ((Kva.pramin off addr aperture).add (n : ℕ)) s =
      some (v, s.logAccess ((Kva.pramin off addr aperture).add (n : ℕ))) := by
    rw [readl, hs.reach hoff]
    exact ⟨_, rfl⟩
  obtain ⟨v, hread⟩ := hread
  exact ⟨v, _, hread, hs.logAccess _⟩

theorem runs_showInstanceBlock (indent : Bool) (hlow : -172 ≤ off)
    (hhigh : off + 2048 < nvPraminLen) :
    Runs (WindowAt c target base)
      (showInstanceBlock indent (.pramin off addr aperture)) := by
  have hin : ∀ n : ℕ, 172 ≤ n → n < 2048 → 0 ≤ off + n ∧ off + n < nvPraminLen := by
    intro n hn hn'
    omega
  apply (runs_readl (hin 172 (by decide) (by decide))).bind
  intro fcTarget
  apply (runs_readl (hin 244 (by decide) (by decide))).bind
  intro fcConfig
  apply (runs_readl (hin 252 (by decide) (by decide))).bind
  intro fcChanInfo
  apply ((runs_readq (hin 528 (by decide) (by decide))).map _).bind
  intro wfi
  apply (runs_readl (hin 536 (by decide) (by decide))).bind
  intro wfiVeid
  apply ((runs_readq (hin 512 (by decide) (by decide))).map _).bind
  intro pdb
  apply (runs_readq (hin 664 (by decide) (by decide))).bind
  intro valid
  apply Runs.bind
  · apply Runs.mapM
    intro i hi
    have hlt := List.mem_range.mp (List.mem_filter.mp hi).1
    apply (runs_readq (hin (672 + 16 * i) (by omega) (by omega))).bind
    intro pdb
    apply (runs_readl (hin (680 + 16 * i) (by omega) (by omega))).bind
    intro pasid
    exact .pure _
  · intro subcontexts
    exact .pure _

/-- An instance block without a WFI block. -/
theorem getCtxsw_null (hs : WindowAt c target base s) (hmem : ∀ l, c.mem l = 0)
    (hoff : 0 ≤ off + 528 ∧ off + 528 < nvPraminLen) :
    ∃ s', getCtxsw (.pramin off addr aperture) s = some (.null, s') ∧
      WindowAt c target base s' := by
  have hread := @WindowAt.readq_eq c target base s off addr 528 aperture hs hoff
  rw [hmem] at hread
  refine ⟨_, ?_, hs.logAccess ((Kva.pramin off addr aperture).add (528 : ℕ))⟩
  have hwfi : instEngineWfi (.pramin off addr aperture) s =
      some (⟨0⟩, s.logAccess ((Kva.pramin off addr aperture).add (528 : ℕ))) := by
    rw [instEngineWfi, Kernel.map_apply]
    exact congrArg (Option.map _) hread
  have hptr : (EngineWfi.mk 0).ptr * 4096 = 0 := by
    rw [EngineWfi.ptr, Bitfield.get_zero, zero_mul]
  rw [getCtxsw, Kernel.bind_eq_of_eq hwfi, if_pos hptr]
  rfl

/-- The window is moved to a chunk of video memory that it does not show yet. -/
theorem addrToPraminMut_chunk {chunk : ℕ} (hchunk : chunk < 2 ^ 24)
    (hread : s.readlValue s.windowReg ≠ BitVec.allOnes 32) (hhopper : s.isHopperLike = false)
    (hout : windowBase s.window = chunk ∨ chunk < windowBase s.window ∨
      windowBase s.window + 16 ≤ chunk) :
    ∃ s', addrToPraminMut (chunk * 0x10000) .vidMem s = some (0, s') ∧
      WindowAt s.toCore .vidMem chunk s' := by
  have haddr : ¬ 2 ^ 40 ≤ chunk * 0x10000 := by omega
  rcases addrToPraminMut_cases s (chunk * 0x10000) .vidMem with
    ⟨e, -, -, hbad⟩ | ⟨hlt, -, -, ⟨htarget, n, hn, hsum, hrun⟩ | ⟨-, hrun⟩⟩
  · rcases hbad with ⟨hbig, -⟩ | ⟨-, -, hraw | ⟨hhop, -⟩⟩
    · exact absurd hbig haddr
    · exact absurd hraw hread
    · rw [hhopper] at hhop
      cases hhop
  · have hlen : nvPraminLen = 16 * 0x10000 := rfl
    have hbase : windowBase s.window = chunk := by omega
    have hzero : n = 0 := by omega
    rw [hzero] at hrun
    exact ⟨s, hrun, rfl, htarget, hbase⟩
  · rw [Nat.mul_mod_left] at hrun
    refine ⟨_, hrun, rfl, windowTarget_movedWindow _ _ _, ?_⟩
    exact (windowBase_movedWindow _ _ hlt).trans (Nat.mul_div_cancel _ (by decide))

theorem readable_of_windowAt (hs : WindowAt c .vidMem base s) (hon : c.registersOff = false) :
    s.readlValue s.windowReg ≠ BitVec.allOnes 32 := by
  obtain ⟨hne, hgood⟩ := readable_of_windowTarget_vidMem hs.2.1
  rw [readlValue_windowReg, hs.1, hon, hgood]
  exact hne

/-- Memory that is zero, but for an instance block whose own address is that of its WFI
block. -/
def ownWfi (chunk : ℕ) (l : Loc) : BitVec 64 :=
  if l = ⟨.vram, chunk * 0x10000 + 528⟩ then .ofNat 64 (chunk * 0x10000) else 0

theorem ownWfi_fields {chunk : ℕ} (hchunk : chunk < 2 ^ 24) :
    (EngineWfi.mk (.ofNat 64 (chunk * 0x10000))).ptr * 4096 = chunk * 0x10000 ∧
      (EngineWfi.mk (.ofNat 64 (chunk * 0x10000))).isVirtual = false ∧
      (EngineWfi.mk (.ofNat 64 (chunk * 0x10000))).target = .vidMem := by
  have hget : ∀ lsb width, Bitfield.get lsb width (BitVec.ofNat 64 (chunk * 0x10000)) =
      chunk * 0x10000 / 2 ^ lsb % 2 ^ width := by
    intro lsb width
    rw [Bitfield.get, BitVec.extractLsb'_toNat, BitVec.toNat_ofNat, Nat.shiftRight_eq_div_pow,
      Nat.mod_eq_of_lt (show chunk * 0x10000 < 2 ^ 64 by omega)]
  refine ⟨?_, ?_, ?_⟩
  · rw [EngineWfi.ptr, hget]
    omega
  · rw [EngineWfi.isVirtual, hget, beq_eq_false_iff_ne]
    omega
  · have hzero : chunk * 0x10000 / 2 ^ 0 % 2 ^ 2 = 0 := by omega
    rw [EngineWfi.target, hget, hzero]
    rfl

/-- Without subcontexts, this WFI block is the context-switch block. -/
theorem getCtxsw_ownWfi {chunk : ℕ} (hzero : 0 < chunk) (hchunk : chunk < 2 ^ 24)
    (hon : c.registersOff = false) (hhopper : c.isHopperLike = false)
    (hmem : c.mem = ownWfi chunk) (hs : WindowAt c .vidMem chunk s) :
    ∃ s', getCtxsw (.pramin 0 addr aperture) s =
        some (.pramin 0 (chunk * 0x10000) .vidMem, s') ∧ WindowAt c .vidMem chunk s' := by
  obtain ⟨hptr, hvirtual, htarget⟩ := ownWfi_fields hchunk
  have hwfi : ∀ s, WindowAt c .vidMem chunk s → ∃ s',
      instEngineWfi (.pramin 0 addr aperture) s =
        some (⟨.ofNat 64 (chunk * 0x10000)⟩, s') ∧ WindowAt c .vidMem chunk s' := by
    intro s hs
    have hread := @WindowAt.readq_eq c .vidMem chunk s 0 addr 528 aperture hs (by decide)
    have hword : c.mem (c.windowLoc .vidMem (chunk * 0x10000 + ((0 : ℤ) + (528 : ℕ)).toNat)) =
        .ofNat 64 (chunk * 0x10000) := by
      rw [hmem]
      exact if_pos rfl
    rw [hword] at hread
    refine ⟨_, ?_, hs.logAccess ((Kva.pramin 0 addr aperture).add (528 : ℕ))⟩
    rw [instEngineWfi, Kernel.map_apply]
    exact congrArg (Option.map _) hread
  obtain ⟨s₁, hwfi₁, hs₁⟩ := hwfi s hs
  obtain ⟨s₂, hwfi₂, hs₂⟩ := hwfi s₁ hs₁
  obtain ⟨s₃, hwfi₃, hs₃⟩ := hwfi s₂ hs₂
  have hread₃ := readable_of_windowAt hs₃ hon
  obtain ⟨s₄, hmove, hs₄⟩ := addrToPraminMut_chunk hchunk hread₃
    (by rw [hs₃.1]; exact hhopper) (.inl hs₃.2.2)
  rw [hs₃.1] at hs₄
  have hvalid := @WindowAt.readq_eq c .vidMem chunk s₄ 0 addr 664 aperture hs₄ (by decide)
  have hnone : c.mem (c.windowLoc .vidMem (chunk * 0x10000 + ((0 : ℤ) + (664 : ℕ)).toNat)) =
      0 := by
    rw [hmem]
    apply if_neg
    intro heq
    have haddr := congrArg Loc.addr heq
    have haddr' : chunk * 0x10000 + 664 = chunk * 0x10000 + 528 := haddr
    omega
  rw [hnone] at hvalid
  refine ⟨_, ?_, hs₄.logAccess ((Kva.pramin 0 addr aperture).add (664 : ℕ))⟩
  rw [getCtxsw, Kernel.bind_eq_of_eq hwfi₁, if_neg (by rw [hptr]; omega),
    Kernel.bind_eq_of_eq hwfi₂, hvirtual, if_neg Bool.false_ne_true,
    Kernel.bind_eq_of_eq hwfi₃, hptr, htarget, ctxswOfWfi, Kernel.bind_eq_of_eq hmove,
    if_neg (by decide), instSubcontextPdbValid]
  exact Kernel.bind_eq_of_eq hvalid

end WindowAt

section Moved

variable {s : Machine}

/-- An address that the window does not show. -/
def farChunk (base : ℕ) : ℕ := if base < 2 ^ 23 then base + 16 else 1

theorem farChunk_spec {base : ℕ} (hbase : base < 2 ^ 24) :
    0 < farChunk base ∧ farChunk base < 2 ^ 24 ∧
      (farChunk base < base ∨ base + 16 ≤ farChunk base) := by
  rw [farChunk]
  split <;> omega

/-- Before Pascal, the window is left at an instance block or a context-switch block. -/
theorem not_restoresWindow_of_readable (hread : s.readlValue s.windowReg ≠ BitVec.allOnes 32)
    (hpascal : s.chipId < 0x130) : ¬ RestoresWindow s := by
  intro hrestores
  obtain ⟨hoff, -⟩ := window_of_readlValue_ne hread
  have hhopper : s.isHopperLike = false := by
    simp [Core.isHopperLike]
    omega
  have hbase : windowBase s.window < 2 ^ 24 := Bitfield.get_lt 0 24 s.window
  generalize hfar : farChunk (windowBase s.window) = far
  obtain ⟨hzero, hchunk, hout⟩ := farChunk_spec hbase
  rw [hfar] at hzero hchunk hout
  -- The WFI block of this instance block is the instance block itself.
  obtain ⟨s₁, hmove, hs₁⟩ := @addrToPraminMut_chunk { s with mem := ownWfi far } _ hchunk hread
    hhopper (.inr hout)
  obtain ⟨block, s₂, hblock, hs₂⟩ := @runs_showInstanceBlock _ .vidMem far 0
    (far * 0x10000) .vidMem false (by decide) (by decide) s₁ hs₁
  have hmoved : ∀ s', WindowAt { s.toCore with mem := ownWfi far } .vidMem far s' →
      s'.window ≠ s.window := by
    intro s' hs' heq
    have hshown := hs'.2.2
    rw [heq] at hshown
    omega
  by_cases hkepler : s.chipId < 0x120
  · exact hmoved s₂ hs₂ (hrestores _ _ _ _ _ _ (show_of_kepler hmove hblock hkepler))
  · obtain ⟨s₃, hctxsw, hs₃⟩ := getCtxsw_ownWfi
      (c := { s.toCore with mem := ownWfi far }) hzero hchunk hoff hhopper rfl hs₂
    obtain ⟨id, s₄, hid, hs₄⟩ := @runs_readl _ .vidMem far 0 (far * 0x10000) 240 .vidMem
      (by decide) s₃ hs₃
    exact hmoved s₄ hs₄ (hrestores _ _ _ _ _ _
      (show_of_maxwell hmove hblock hkepler hctxsw Bool.false_ne_true hid hpascal))

theorem not_restoresWindow_of_bad (hon : s.registersOff = false)
    (hbad : isBadRead s.window = true) (hmaxwell : ¬ s.chipId < 0x120) :
    ¬ RestoresWindow s := by
  intro hrestores
  have hread : s.readlValue s.windowReg = BitVec.allOnes 32 := by
    rw [readlValue_windowReg, hon, hbad]
    rfl
  let blank : Machine := { s with mem := fun _ => 0 }
  have hmove : addrToPraminMut 0 .vidMem blank = some (-eopnotsupp, blank) := by
    rcases addrToPraminMut_cases blank 0 .vidMem with ⟨e, -, hrun, he⟩ | ⟨-, hread', hne, -⟩
    · rcases he with ⟨hbig, -⟩ | ⟨-, he, -⟩
      · exact absurd hbig (by decide)
      · rw [hrun, he]
    · exact absurd (hread'.symm.trans hread) hne
  have hstart : WindowAt blank.toCore (windowTarget s.window) (windowBase s.window) blank :=
    ⟨rfl, rfl, rfl⟩
  obtain ⟨block, s₁, hblock, hs₁⟩ := @runs_showInstanceBlock _ _ _ (-eopnotsupp) 0 .vidMem
    false (by decide) (by decide) blank hstart
  obtain ⟨s₂, hctxsw, hs₂⟩ := @getCtxsw_null _ _ _ s₁ (-eopnotsupp) 0 .vidMem hs₁
    (fun _ => rfl) (by decide)
  have hshow := show_of_null hmove hblock hmaxwell hctxsw rfl
  have hwrite : nvdebugWritel blank.windowReg (blank.readlValue blank.windowReg) s₂ =
      some ((), { s₂ with window := BitVec.allOnes 32 }) := by
    have hvalue : blank.readlValue blank.windowReg = BitVec.allOnes 32 := hread
    rw [hvalue, nvdebugWritel, Kernel.modify_apply, hs₂.1,
      if_neg (ne_true_of_eq_false (show blank.registersOff = false from hon)), if_pos rfl]
  rw [hwrite] at hshow
  have hones := hrestores _ _ _ _ _ _ hshow
  rw [← hones] at hbad
  exact absurd (show isBadRead (BitVec.allOnes 32) = true from hbad) (by decide)

/-- The window is restored on every return, whatever memory holds, if and only if every
return of this chip writes the window back, or none does. -/
theorem runlistDetailSeqShowInst_restores_iff (s : Machine) :
    RestoresWindow s ↔ s.KeepsWindow := by
  constructor
  · intro hrestores
    by_contra hnot
    simp only [Machine.KeepsWindow, not_or, not_and, Nat.not_lt, Nat.not_le,
      Bool.not_eq_true] at hnot
    obtain ⟨hon, hones, hgood, hbad⟩ := hnot
    cases hread : isBadRead s.window with
    | true => exact not_restoresWindow_of_bad hon hread (Nat.not_lt.mpr (hbad hread)) hrestores
    | false =>
        apply not_restoresWindow_of_readable ?_ (hgood hread) hrestores
        rw [readlValue_windowReg, hon, hread]
        exact hones
  · exact restoresWindow_of_keepsWindow

end Moved

/-- A Maxwell GPU with an instance block at the end of the first megabyte. -/
def oneInstance : Machine :=
  { Machine.ofWords [(⟨.vram, 0x100210⟩, 0x100000)] with chipId := 0x124 }

/-- The window, which showed the start of video memory, is left at the instance block. -/
theorem oneInstance_moves_window :
    ¬ ∀ text s', runlistDetailSeqShowInst false 0x100000 .vidMem oneInstance =
      some (text, s') → s'.window = oneInstance.window := by
  intro h
  have hrun : (runlistDetailSeqShowInst false 0x100000 .vidMem oneInstance).map
      (fun p => p.2.window) = some 0x10 := by
    decide
  obtain ⟨⟨text, s'⟩, hshow, hwindow⟩ := Option.map_eq_some_iff.mp hrun
  have hzero : s'.window = 0 := h text s' hshow
  rw [hzero] at hwindow
  cases hwindow

end A100Partitioning.Nvdebug
