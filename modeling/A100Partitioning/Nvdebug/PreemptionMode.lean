import A100Partitioning.Nvdebug.ChannelWrites
import A100Partitioning.Nvdebug.CtxswBlock
import A100Partitioning.Nvdebug.RunlistOps

/-!
# Changing the preemption mode of a channel (`set_channel_preemption_mode`)

The mode is stored in the context-switch block of a channel, which is found through the
runlist or the PCCSR register of the channel, its instance block and its WFI block.  Each
lookup can yield an error pointer or `NULL`.  This module says when success means that the
mode was stored, and an error that nothing was.
-/

namespace A100Partitioning.Nvdebug

open Support Keeping

/-! ## What memory and registers say -/

/-- The channel's PCCSR register names this instance block. -/
def Machine.PccsrChannel (s : Machine) (chanId : ℕ) (p : ℕ × InstTarget) : Prop :=
  ∃ chan, nvdebugReadq (nvPccsrChannelInst chanId) s = some (chan, s) ∧
    p = (Bitfield.get 0 28 chan * 4096, .ofBits (Bitfield.get 28 2 chan))

/-- One of the entries of the runlist is the channel's, and names this instance block. -/
def Machine.RunlistChannel (s : Machine) (rlId chanId : ℕ) (p : ℕ × InstTarget) : Prop :=
  ∃ rlIter s₁ i entry s₂, getRunlistIter rlId s = some ((0, rlIter), s₁) ∧
    i < rlIter.len ∧
    readEntry (rlIter.currEntry.add (s.rlEntrySize * i : ℕ)) s₁ = some (entry, s₂) ∧
    entry.isTsg = false ∧ entry.chid = chanId ∧ p = (entry.instancePtr, entry.instTarget)

/-- The channel has its instance block at `p`. -/
def Machine.ChannelInstance (s : Machine) (rlId chanId : ℕ) (p : ℕ × InstTarget) : Prop :=
  if s.chipId < 0x170 then s.PccsrChannel chanId p else s.RunlistChannel rlId chanId p

/-- The page tables of BAR2 map an offset to `p`. -/
def Machine.Bar2Maps (s : Machine) (off : ℕ) (p : ℕ × InstTarget) : Prop :=
  ∃ pdConfig s', getBar2Pdb s = some (.ok pdConfig, s') ∧ s.Maps pdConfig off p

/-- The pointer leads to the instance block at `p`. -/
def Machine.InstanceAt (s : Machine) (p : ℕ × InstTarget) : Kva → Prop
  | .bar2 off => s.Bar2Maps off p
  | .phys addr => addr = (s.busLoc p.1).addr
  | _ => False

/-- The register with the context-switch timeout of a runlist. -/
def Machine.TimeoutRegister (s : Machine) (rlId reg : ℕ) : Prop :=
  if s.chipId < 0x170 then reg = 0x00002A0C
  else ∃ row priBase, getRunlistRam s rlId = .ok (row, priBase) ∧ reg = priBase + 0x220

/-! ## What the lookups leave alone -/

theorem keepsCore_forChanInTsg {α : Type} {body : Kva → Kernel (Option α)}
    (hbody : ∀ chan, KeepsCore (body chan)) (tsg : Kva) (rounds i : ℕ) :
    KeepsCore (forChanInTsg body tsg rounds i) := by
  induction rounds generalizing i with
  | zero => exact .pure none
  | succ rounds ih =>
      apply (keepsCore_readEntry tsg).bind
      intro entry
      apply Keeps.ite
      · intro _
        exact .pure none
      · intro _
        apply Keeps.get.bind
        intro s
        apply (hbody _).bind
        intro found
        cases found with
        | some res => exact .pure _
        | none => exact ih (i + 1)

theorem keepsCore_findChannel (chanId len rounds pos : ℕ) (tsg : Kva) :
    KeepsCore (findChannel chanId len rounds pos tsg) := by
  induction rounds generalizing pos tsg with
  | zero => exact .pure _
  | succ rounds ih =>
      apply Keeps.ite
      · intro _
        exact .pure _
      intro _
      refine Keeps.bind (keepsCore_forChanInTsg ?_ tsg 256 1) ?_
      · intro chan
        apply (keepsCore_readEntry chan).bind
        intro entry
        exact .ite (fun _ => .pure _) fun _ => .pure _
      intro found
      apply (keepsCore_readEntry tsg).bind
      intro entry
      apply (keepsCore_nextTsg tsg).bind
      intro next
      cases found with
      | none => exact ih _ next
      | some p => exact .ite (fun _ => .pure _) fun _ => ih _ next

theorem keepsCore_findInstance (chanId rlId : ℕ) : KeepsCore (findInstance chanId rlId) := by
  apply Keeps.get.bind
  intro s
  apply Keeps.ite
  · intro _
    apply Keeps.ite
    · intro _
      exact .pure _
    intro _
    apply (keepsCore_nvdebugReadq _).bind
    intro chan
    exact .ite (fun _ => .pure _) fun _ => .pure _
  · intro _
    apply (keepsCore_getRunlistIter rlId).bind
    intro found
    apply Keeps.ite
    · intro _
      exact .pure _
    · intro _
      exact (keepsCore_findChannel _ _ _ _ _).bind fun p => .pure _

theorem keepsCore_instanceDeref (instanceAddr : ℕ) (instanceTarget : InstTarget) :
    KeepsCore (instanceDeref instanceAddr instanceTarget) := by
  apply Keeps.ite
  · intro _
    exact .pure _
  intro _
  apply Keeps.get.bind
  intro s
  apply Keeps.ite
  · intro _
    apply Keeps.ite
    · intro _
      exact .pure _
    intro _
    apply keepsCore_getBar2Pdb.bind
    intro pdb
    cases pdb with
    | error e => exact .pure _
    | ok pdConfig =>
        have hfound : ∀ vaddr, KeepsCore
            (if vaddr = 0 then pure .null else pure (.bar2 vaddr) : Kernel Kva) :=
          fun vaddr => .ite (fun _ => .pure _) fun _ => .pure _
        apply Keeps.ite
        · intro _
          exact (keepsCore_searchPageDirectory _ _ _).bind hfound
        · intro _
          exact (keepsCore_searchV1PageDirectory _ _ _).bind hfound
  · intro _
    dsimp only
    split
    · exact .pure _
    · exact .ite (fun _ => .pure _) fun _ => .pure _

theorem keepsCore_getCtxsw (inst : Kva) : KeepsCore (getCtxsw inst) :=
  .of_stays fun c => (steady_core c).getCtxsw inst

/-! ## What the lookups return -/

theorem neg_of_getRunlistRamFrom {rows : List PtopDeviceInfoGa100} {rlId currRlId e : ℤ}
    {i subrow : ℕ} (h : getRunlistRamFrom rlId i currRlId subrow rows = .error e) : e < 0 := by
  induction rows generalizing i currRlId subrow with
  | nil =>
      cases h
      decide
  | cons row rows ih =>
      rw [getRunlistRamFrom] at h
      split_ifs at h
      · cases h
        decide
      · exact ih h
      · exact ih h
      · exact ih h

/-- An error is a negative number. -/
def NegError {α : Type} (r : Except ℤ α) : Prop := ∀ e, r = .error e → e < 0

theorem negError_ok {α : Type} (a : α) : NegError (.ok a : Except ℤ α) := by
  intro e h
  cases h

theorem negError_of_neg {α : Type} {e : ℤ} (he : e < 0) : NegError (.error e : Except ℤ α) := by
  intro e' h
  cases h
  exact he

theorem returns_readRunlistConfigTu102 (base submit priBase : ℕ) :
    Returns NegError (readRunlistConfigTu102 base submit priBase) := by
  apply Returns.after
  intro raw
  apply Returns.ite
  · intro _
    exact .pure (negError_of_neg (by decide))
  intro _
  apply Returns.after
  intro raw
  exact .ite (fun _ => .pure (negError_of_neg (by decide))) fun _ => .pure (negError_ok _)

theorem returns_readRunlistConfig (rlId : ℕ) :
    Returns NegError (readRunlistConfig rlId) := by
  apply Returns.after
  intro s
  apply Returns.ite
  · intro _
    apply Returns.after
    intro rl
    exact .ite (fun _ => .pure (negError_of_neg (by decide))) fun _ => .pure (negError_ok _)
  intro _
  apply Returns.ite
  · intro _
    exact returns_readRunlistConfigTu102 _ _ _
  intro _
  cases hram : getRunlistRam s rlId with
  | error e => exact .pure (negError_of_neg (neg_of_getRunlistRamFrom hram))
  | ok found => exact returns_readRunlistConfigTu102 _ _ _

theorem returns_getRunlistIter (rlId : ℕ) :
    Returns (fun r => r.1 = 0 ∨ r.1 < 0) (getRunlistIter rlId) := by
  refine Returns.bind (returns_readRunlistConfig rlId) ?_
  intro config hconfig
  cases config with
  | error e => exact .pure (.inr (hconfig e rfl))
  | ok rl =>
      apply Returns.ite
      · intro _
        exact .pure (.inl rfl)
      intro _
      apply Returns.ite
      · intro _
        exact .pure (.inl rfl)
      intro _
      apply Returns.after
      intro found
      cases found with
      | some vaddr =>
          apply Returns.after
          intro s
          apply Returns.ite
          · intro _
            exact .pure (.inr (show -enodev < 0 by decide))
          · intro _
            exact .pure (.inl rfl)
      | none =>
          apply Returns.after
          intro off
          apply Returns.ite
          · intro hoff
            exact .pure (.inr (show off < 0 by omega))
          · intro _
            exact .pure (.inl rfl)

theorem returns_findInstance (chanId rlId : ℕ) :
    Returns NegError (findInstance chanId rlId) := by
  apply Returns.after
  intro s
  apply Returns.ite
  · intro _
    apply Returns.ite
    · intro _
      exact .pure (negError_of_neg (by decide))
    intro _
    apply Returns.after
    intro chan
    exact .ite (fun _ => .pure (negError_of_neg (by decide))) fun _ => .pure (negError_ok _)
  · intro _
    refine Returns.bind (returns_getRunlistIter rlId) ?_
    intro found hfound
    apply Returns.ite
    · intro hne
      exact .pure (negError_of_neg (hfound.resolve_left hne))
    · intro _
      apply Returns.after
      intro p
      exact .pure (negError_ok _)

theorem returns_bar2PdbOfInst (bar2Ptr : ℕ) (bar2Target : InstTarget) :
    Returns NegError (bar2PdbOfInst bar2Ptr bar2Target) := by
  apply Returns.after
  intro off
  apply Returns.ite
  · intro hoff
    exact .pure (negError_of_neg hoff)
  intro _
  apply Returns.after
  intro raw
  exact .ite (fun _ => .pure (negError_of_neg (by decide))) fun _ => .pure (negError_ok _)

theorem returns_getBar2Pdb : Returns NegError getBar2Pdb := by
  apply Returns.after
  intro s
  apply Returns.ite
  · intro _
    exact .pure (negError_of_neg (by decide))
  intro _
  apply Returns.ite
  · intro _
    apply Returns.after
    intro bar2Block
    exact .ite (fun _ => .pure (negError_of_neg (by decide)))
      fun _ => returns_bar2PdbOfInst _ _
  · intro _
    apply Returns.after
    intro bar2Block
    exact .ite (fun _ => .pure (negError_of_neg (by decide)))
      fun _ => returns_bar2PdbOfInst _ _

/-- What `instance_deref` returns: `NULL`, an error, or a pointer that needs no window. -/
theorem returns_instanceDeref (instanceAddr : ℕ) (instanceTarget : InstTarget) :
    Returns (fun k => k = .null ∨ (∃ e < 0, k = .err e) ∨ k.IsDirect)
      (instanceDeref instanceAddr instanceTarget) := by
  apply Returns.ite
  · intro _
    exact .pure (.inr (.inl ⟨-einval, by decide, rfl⟩))
  intro _
  apply Returns.after
  intro s
  apply Returns.ite
  · intro _
    apply Returns.ite
    · intro _
      exact .pure (.inl rfl)
    intro _
    refine Returns.bind returns_getBar2Pdb ?_
    intro pdb hpdb
    cases pdb with
    | error e => exact .pure (.inr (.inl ⟨e, hpdb e rfl, rfl⟩))
    | ok pdConfig =>
        apply Returns.ite
        all_goals
          intro _
          apply Returns.after
          intro vaddr
          exact .ite (fun _ => .pure (.inl rfl)) fun _ => .pure (.inr (.inr trivial))
  · intro _
    cases s.iommu with
    | none => exact .pure (.inr (.inr trivial))
    | some dom =>
        apply Returns.ite
        · intro _
          exact .pure (.inr (.inl ⟨-eaddrnotavail, by decide, rfl⟩))
        · intro _
          exact .pure (.inr (.inr trivial))

/-- What `get_ctxsw` returns: `NULL`, an error, or a pointer into the window. -/
def Kva.IsCtxsw (k : Kva) : Prop :=
  k = .null ∨ (∃ e < 0, k = .err e) ∨ ∃ off addr target, k = .pramin off addr target

theorem isCtxsw_notRecoverable : (Kva.err (-enotrecoverable)).IsCtxsw :=
  .inr (.inl ⟨-enotrecoverable, by decide, rfl⟩)

theorem returns_ctxswOfWfi (inst : Kva) (wfiPhys : ℕ) (wfiPhysAperture : InstTarget) :
    Returns Kva.IsCtxsw (ctxswOfWfi inst wfiPhys wfiPhysAperture) := by
  apply Returns.after
  intro wfiOff
  apply Returns.ite
  · intro _
    exact .pure (.inl rfl)
  intro _
  apply Returns.after
  intro valid
  apply Returns.ite
  · intro _
    exact .pure (.inr (.inr ⟨_, _, _, rfl⟩))
  intro _
  apply Returns.after
  intro pdb
  apply Returns.ite
  · intro _
    exact .pure isCtxsw_notRecoverable
  intro _
  apply Returns.after
  intro hi
  apply Returns.after
  intro lo
  apply Returns.ite
  · intro _
    exact .pure (.inl rfl)
  intro _
  apply Returns.after
  intro pdb
  apply Returns.after
  intro t
  cases t.accepted with
  | none => exact .pure isCtxsw_notRecoverable
  | some found =>
      apply Returns.after
      intro ctxswOff
      apply Returns.ite
      · intro _
        exact .pure (.inl rfl)
      · intro _
        exact .pure (.inr (.inr ⟨_, _, _, rfl⟩))

theorem returns_getCtxsw (inst : Kva) : Returns Kva.IsCtxsw (getCtxsw inst) := by
  apply Returns.after
  intro wfi
  apply Returns.ite
  · intro _
    exact .pure (.inl rfl)
  intro _
  apply Returns.after
  intro wfi
  apply Returns.ite
  · intro _
    apply Returns.after
    intro pdb
    apply Returns.after
    intro found
    cases found with
    | none => exact .pure isCtxsw_notRecoverable
    | some found => exact returns_ctxswOfWfi inst _ _
  · intro _
    apply Returns.after
    intro wfi
    exact returns_ctxswOfWfi inst _ _

/-! ## One call -/

/-- The lookups of a call that lead to a pointer to a context-switch block. -/
structure Located (rlId chanId : ℕ) (s : Machine) where
  instancePtr : ℕ
  instanceTarget : InstTarget
  timeoutReg : ℕ
  found : Machine
  inst : Kva
  derefed : Machine
  ctxsw : Kva
  last : Machine
  findInstance_eq : findInstance chanId rlId s =
    some (.ok (instancePtr, instanceTarget, timeoutReg), found)
  instancePtr_ne : instancePtr ≠ 0
  instanceDeref_eq : instanceDeref instancePtr instanceTarget found = some (inst, derefed)
  inst_ok : inst.isErrOrNull = false
  getCtxsw_eq : getCtxsw inst derefed = some (ctxsw, last)
  ctxsw_ok : ctxsw.isErrOrNull = false

/-- No lookup goes through a bad pointer, and none yields `NULL`. -/
def Machine.NeverNull (s : Machine) (rlId chanId : ℕ) : Prop :=
  ∃ r s₁, findInstance chanId rlId s = some (r, s₁) ∧ ∀ p, r = .ok p → p.1 ≠ 0 →
    ∃ inst s₂, instanceDeref p.1 p.2.1 s₁ = some (inst, s₂) ∧ inst ≠ .null ∧
      (inst.isErr = false → ∃ ctxsw s₃, getCtxsw inst s₂ = some (ctxsw, s₃) ∧ ctxsw ≠ .null)

/-- `set_channel_preemption_mode` behind its lookups. -/
def storeMode (mode : ComputePreemptType) (ctxsw : Kva) (ctxswTimeoutPriBase : ℕ) :
    Kernel ℤ := do
  writel (ctxsw.add 132) mode.toBits
  if (← get).chipId < 0x140 then return 0
  let timeoutConfig ← nvdebugReadl ctxswTimeoutPriBase
  if timeoutConfig = BitVec.allOnes 32 then return -eio
  nvdebugWritel ctxswTimeoutPriBase
    (Bitfield.set 31 1 timeoutConfig (mode = .cilp : Bool).toNat)
  return 0

/-- The mode is stored at `l`, and from Volta on the timeout is switched on or off. -/
structure ModeStored (mode : ComputePreemptType) (reg : ℕ) (l : Loc) (s s' : Machine) :
    Prop where
  mem_eq : s'.mem = (s.store l mode.toBits).mem
  register_eq : ∀ r, s'.register r =
    if 0x140 ≤ s.chipId ∧ r = reg then
      Bitfield.set 31 1 (s.register reg) (mode = .cilp : Bool).toNat
    else s.register r

namespace Located

variable {rlId chanId : ℕ} {s : Machine}

/-- The lookups led where memory says, to the context-switch block at `q`. -/
structure Reaches (L : Located rlId chanId s) (q : ℕ × InstTarget) : Prop where
  channel : s.ChannelInstance rlId chanId (L.instancePtr, L.instanceTarget)
  timeout : s.TimeoutRegister rlId L.timeoutReg
  inst : L.found.InstanceAt (L.instancePtr, L.instanceTarget) L.inst
  block : s.CtxswBlock L.inst q
  points : L.last.PointsTo L.ctxsw q
  fresh : L.derefed.FreshSince L.last

/-- Each lookup, as far as it depends on more than its result, is right: the entry found in
a runlist is the channel's, the page tables map the instance block, the lookups of
`get_ctxsw` neither end silently nor go wrong, and the window can show the blocks. -/
structure LooksUp (L : Located rlId chanId s) : Prop where
  entry : 0x170 ≤ s.chipId →
    s.RunlistChannel rlId chanId (L.instancePtr, L.instanceTarget)
  bar2 : ∀ off, L.inst = .bar2 off →
    L.found.Bar2Maps off (L.instancePtr, L.instanceTarget)
  lookups : ∀ v virt, CtxswLookup L.inst L.derefed v virt →
    v.LooksUp (L.derefed.pdb L.inst) virt
  calls : ∀ c, CtxswCall L.inst L.derefed c → c.Accessible

/-- If the timeout register cannot be read, then the mode was there before; otherwise the
lookups are right. -/
def Settles (L : Located rlId chanId s) (mode : ComputePreemptType) : Prop :=
  ∀ t, writel (L.ctxsw.add 132) mode.toBits L.last = some ((), t) →
    if 0x140 ≤ s.chipId ∧ t.readlValue L.timeoutReg = BitVec.allOnes 32 then
      t.toCore = s.toCore
    else L.LooksUp

theorem unique (L L' : Located rlId chanId s) : L = L' := by
  obtain ⟨ptr, target, reg, s₁, inst, s₂, ctxsw, s₃, hfind, hne, hderef, hinst, hget, hctxsw⟩ := L
  obtain ⟨ptr', target', reg', s₁', inst', s₂', ctxsw', s₃', hfind', hne', hderef', hinst',
    hget', hctxsw'⟩ := L'
  have hfound := hfind.symm.trans hfind'
  simp only [Option.some.injEq, Prod.mk.injEq, Except.ok.injEq] at hfound
  obtain ⟨⟨rfl, rfl, rfl⟩, rfl⟩ := hfound
  obtain ⟨rfl, rfl⟩ := Prod.mk.inj (Option.some.inj (hderef.symm.trans hderef'))
  obtain ⟨rfl, rfl⟩ := Prod.mk.inj (Option.some.inj (hget.symm.trans hget'))
  rfl

theorem deref_unique (L : Located rlId chanId s) {p : ℕ × InstTarget × ℕ} {inst : Kva}
    {s₁ s₂ : Machine} (hfind : findInstance chanId rlId s = some (.ok p, s₁))
    (hderef : instanceDeref p.1 p.2.1 s₁ = some (inst, s₂)) :
    L.inst = inst ∧ L.derefed = s₂ := by
  have hfound := L.findInstance_eq.symm.trans hfind
  simp only [Option.some.injEq, Prod.mk.injEq, Except.ok.injEq] at hfound
  obtain ⟨rfl, rfl⟩ := hfound
  exact Prod.mk.inj (Option.some.inj (L.instanceDeref_eq.symm.trans hderef))

theorem toCore_found (L : Located rlId chanId s) : L.found.toCore = s.toCore :=
  keepsCore_findInstance chanId rlId _ _ _ L.findInstance_eq

theorem toCore_derefed (L : Located rlId chanId s) : L.derefed.toCore = s.toCore :=
  (keepsCore_instanceDeref _ _ _ _ _ L.instanceDeref_eq).trans L.toCore_found

theorem toCore_last (L : Located rlId chanId s) : L.last.toCore = s.toCore :=
  (keepsCore_getCtxsw _ _ _ _ L.getCtxsw_eq).trans L.toCore_derefed

theorem isDirect_inst (L : Located rlId chanId s) : L.inst.IsDirect := by
  rcases returns_instanceDeref _ _ _ _ _ L.instanceDeref_eq with hnull | ⟨e, -, herr⟩ | hdirect
  · have hok := L.inst_ok
    rw [hnull] at hok
    cases hok
  · have hok := L.inst_ok
    rw [herr] at hok
    cases hok
  · exact hdirect

theorem ctxsw_eq (L : Located rlId chanId s) :
    ∃ off addr target, L.ctxsw = .pramin off addr target := by
  rcases returns_getCtxsw _ _ _ _ L.getCtxsw_eq with hnull | ⟨e, -, herr⟩ | hpramin
  · have hok := L.ctxsw_ok
    rw [hnull] at hok
    cases hok
  · have hok := L.ctxsw_ok
    rw [herr] at hok
    cases hok
  · exact hpramin

theorem run_eq (L : Located rlId chanId s) (mode : ComputePreemptType) :
    setChannelPreemptionMode mode rlId chanId s =
      storeMode mode L.ctxsw L.timeoutReg L.last := by
  rw [setChannelPreemptionMode, Kernel.bind_eq_of_eq L.findInstance_eq]
  dsimp only
  rw [if_neg L.instancePtr_ne, Kernel.bind_eq_of_eq L.instanceDeref_eq, L.inst_ok,
    if_neg Bool.false_ne_true, Kernel.bind_eq_of_eq L.getCtxsw_eq, L.ctxsw_ok,
    if_neg Bool.false_ne_true]
  rfl

end Located

/-! ## Right lookups -/

section Lookups

variable {rlId chanId reg instancePtr addr : ℕ} {instanceTarget : InstTarget}
  {s s' : Machine}

/-- Up to Turing, the instance block that is found is the one in the PCCSR register. -/
theorem pccsrChannel_of_findInstance (hchip : s.chipId < 0x170)
    (hrun : findInstance chanId rlId s = some (.ok (instancePtr, instanceTarget, reg), s')) :
    s.PccsrChannel chanId (instancePtr, instanceTarget) ∧ reg = 0x00002A0C := by
  rw [findInstance, Kernel.bind_apply, Kernel.get_apply, Option.bind_some, if_pos hchip] at hrun
  by_cases hbig : 511 < chanId
  · rw [if_pos hbig] at hrun
    cases hrun
  rw [if_neg hbig] at hrun
  obtain ⟨chan, s₁, hread, hrun⟩ := Kernel.bind_eq_some hrun
  have hs₁ : s₁ = s := by
    rw [nvdebugReadq, Kernel.bind_apply, Kernel.get_apply, Option.bind_some] at hread
    dsimp only at hread
    split_ifs at hread <;> cases hread <;> rfl
  by_cases hoff : chan = BitVec.allOnes 64
  · rw [if_pos hoff] at hrun
    cases hrun
  · rw [if_neg hoff] at hrun
    cases hrun
    rw [hs₁] at hread
    exact ⟨⟨chan, hread, rfl⟩, rfl⟩

theorem returns_priBase (base submit priBase : ℕ) :
    Returns (fun r => ∀ rl, r = .ok rl → rl.priBase = priBase)
      (readRunlistConfigTu102 base submit priBase) := by
  apply Returns.after
  intro raw
  apply Returns.ite
  · intro _
    apply Returns.pure
    intro rl h
    cases h
  intro _
  apply Returns.after
  intro raw
  apply Returns.ite
  · intro _
    apply Returns.pure
    intro rl h
    cases h
  · intro _
    apply Returns.pure
    intro rl h
    cases h
    rfl

/-- From Ampere on, a runlist has its registers where its row in PTOP says. -/
theorem priBase_of_getRunlistIter (hchip : ¬ s.chipId < 0x170) {rlIter : RunlistIter}
    (hrun : getRunlistIter rlId s = some ((0, rlIter), s')) :
    ∃ row, getRunlistRam s rlId = .ok (row, rlIter.runlistPriBase) := by
  obtain ⟨config, s₁, hread, hrun⟩ := Kernel.bind_eq_some hrun
  cases config with
  | error e =>
      have hneg := returns_readRunlistConfig rlId _ _ _ hread e rfl
      cases hrun
      exact absurd hneg (lt_irrefl 0)
  | ok rl =>
      have hpri : rlIter.runlistPriBase = rl.priBase := by
        refine (?_ : Returns (fun r : ℤ × RunlistIter => r.2.runlistPriBase = rl.priBase) _)
          _ _ _ hrun
        apply Returns.ite
        · intro _
          exact .pure rfl
        intro _
        apply Returns.ite
        · intro _
          exact .pure rfl
        intro _
        apply Returns.after
        intro found
        cases found with
        | some vaddr =>
            apply Returns.after
            intro s
            exact .ite (fun _ => .pure rfl) fun _ => .pure rfl
        | none =>
            apply Returns.after
            intro off
            exact .ite (fun _ => .pure rfl) fun _ => .pure rfl
      have htu102 : ¬ s.chipId < 0x160 := fun h => hchip (h.trans (by decide))
      rw [readRunlistConfig, Kernel.bind_apply, Kernel.get_apply, Option.bind_some,
        if_neg htu102, if_neg hchip] at hread
      cases hram : getRunlistRam s rlId with
      | error e =>
          rw [hram] at hread
          cases hread
      | ok found =>
          rw [hram] at hread
          refine ⟨found.1, ?_⟩
          rw [hpri, returns_priBase _ _ _ _ _ _ hread rl rfl]

/-- The timeout register that is used is the one of the runlist. -/
theorem timeoutRegister_of_findInstance
    (hrun : findInstance chanId rlId s = some (.ok (instancePtr, instanceTarget, reg), s')) :
    s.TimeoutRegister rlId reg := by
  by_cases hchip : s.chipId < 0x170
  · rw [Machine.TimeoutRegister, if_pos hchip]
    exact (pccsrChannel_of_findInstance hchip hrun).2
  · rw [Machine.TimeoutRegister, if_neg hchip]
    rw [findInstance, Kernel.bind_apply, Kernel.get_apply, Option.bind_some,
      if_neg hchip] at hrun
    obtain ⟨⟨err, rlIter⟩, s₁, hiter, hrun⟩ := Kernel.bind_eq_some hrun
    by_cases herr : err = 0
    · rw [herr] at hiter
      obtain ⟨row, hram⟩ := priBase_of_getRunlistIter hchip hiter
      simp only [if_neg (not_not.mpr herr)] at hrun
      obtain ⟨p, s₂, -, hrun⟩ := Kernel.bind_eq_some hrun
      cases hrun
      exact ⟨row, _, hram, rfl⟩
    · simp only [if_pos herr] at hrun
      cases hrun

/-- In system memory, the instance block is dereferenced through the I/O MMU. -/
theorem addr_of_instanceDeref
    (hrun : instanceDeref instancePtr instanceTarget s = some (.phys addr, s')) :
    addr = (s.busLoc instancePtr).addr := by
  rw [instanceDeref] at hrun
  by_cases hbad : instancePtr = 0 ∨ instanceTarget = .invalid
  · rw [if_pos hbad] at hrun
    cases hrun
  rw [if_neg hbad, Kernel.bind_apply, Kernel.get_apply, Option.bind_some] at hrun
  dsimp only at hrun
  by_cases hvid : instanceTarget = .vidMem
  · rw [if_pos hvid] at hrun
    refine absurd rfl ((?_ : Returns (fun k => k ≠ .phys addr) _) _ _ _ hrun)
    apply Returns.ite
    · intro _
      apply Returns.pure
      intro h
      cases h
    intro _
    apply Returns.after
    intro pdb
    cases pdb with
    | error e =>
        apply Returns.pure
        intro h
        cases h
    | ok pdConfig =>
        apply Returns.ite
        all_goals
          intro _
          apply Returns.after
          intro vaddr
          refine .ite (fun _ => .pure ?_) fun _ => .pure ?_
          all_goals
            intro h
            cases h
  · rw [if_neg hvid] at hrun
    cases hdom : s.iommu with
    | none =>
        rw [hdom] at hrun
        cases hrun
        rw [Core.busLoc, hdom]
    | some dom =>
        rw [hdom] at hrun
        dsimp only at hrun
        by_cases hunmapped : iommuIovaToPhys dom instancePtr = 0
        · rw [if_pos hunmapped] at hrun
          cases hrun
        · rw [if_neg hunmapped] at hrun
          cases hrun
          rw [Core.busLoc, hdom]

end Lookups

/-! ## Storing the mode -/

section Store

variable {mode : ComputePreemptType} {k : Kva} {l : Loc} {reg : ℕ} {s s' t : Machine}

theorem Shows.writel_eq (h : Shows s k l) (w : BitVec 32) :
    writel k w s = some ((), { s.logAccess k with toCore := s.toCore.store l w }) := by
  simp only [writel, h.reach_eq]
  rfl

/-- A write through a pointer to the window ends, wherever it goes. -/
theorem writel_pramin (off : ℤ) (addr : ℕ) (target : InstTarget) (w : BitVec 32)
    (s : Machine) :
    ∃ t, writel (.pramin off addr target) w s = some ((), t) ∧ t.chipId = s.chipId := by
  rw [writel, Machine.reach]
  by_cases hin : 0 ≤ off ∧ off < nvPraminLen
  · rw [if_pos hin]
    exact ⟨_, rfl, rfl⟩
  · rw [if_neg hin]
    refine ⟨_, rfl, ?_⟩
    dsimp only
    split_ifs <;> rfl

theorem nvdebugWritel_of_readlValue_ne (hread : s.readlValue reg ≠ BitVec.allOnes 32)
    (w : BitVec 32) :
    ∃ t, nvdebugWritel reg w s = some ((), t) ∧ t.mem = s.mem ∧
      ∀ r, t.register r = if r = reg then w else s.register r := by
  have hoff : s.registersOff = false := by
    rw [Machine.readlValue] at hread
    cases hoff : s.registersOff with
    | true =>
        rw [hoff] at hread
        exact absurd rfl hread
    | false => rfl
  rw [nvdebugWritel, Kernel.modify_apply, hoff, if_neg Bool.false_ne_true]
  by_cases hwindow : reg = s.windowReg
  · rw [if_pos hwindow]
    refine ⟨_, rfl, rfl, ?_⟩
    intro r
    rw [hwindow]
    by_cases hr : r = s.windowReg
    · rw [if_pos hr, hr]
      exact if_pos rfl
    · rw [if_neg hr]
      exact (if_neg hr).trans (if_neg hr).symm
  · rw [if_neg hwindow]
    refine ⟨_, rfl, rfl, ?_⟩
    intro r
    by_cases hr : r = reg
    · rw [if_pos hr, hr, Machine.register]
      exact (if_neg hwindow).trans (Function.update_self _ _ _)
    · rw [if_neg hr, Machine.register, Machine.register]
      congr 1
      exact Function.update_of_ne hr _ _

theorem readlValue_of_ne (hread : s.readlValue reg ≠ BitVec.allOnes 32) :
    s.readlValue reg = s.register reg := by
  rw [Machine.readlValue] at hread ⊢
  split_ifs at hread ⊢
  · exact absurd rfl hread
  · exact absurd rfl hread
  · rfl

/-- Without a readable timeout register, the call fails behind the store. -/
theorem storeMode_of_unreadable (hwrite : writel (k.add 132) mode.toBits s = some ((), t))
    (hvolta : 0x140 ≤ t.chipId) (hread : t.readlValue reg = BitVec.allOnes 32) :
    storeMode mode k reg s = some (-eio, t) := by
  have hreadl : nvdebugReadl reg t = some (BitVec.allOnes 32, t) := by
    rw [← hread]
    rfl
  rw [storeMode, Kernel.bind_eq_of_eq hwrite, Kernel.bind_apply, Kernel.get_apply,
    Option.bind_some, if_neg (Nat.not_lt.mpr hvolta), Kernel.bind_eq_of_eq hreadl, if_pos rfl]
  rfl

/-- Otherwise it succeeds, and has switched the timeout on or off. -/
theorem storeMode_of_readable (hwrite : writel (k.add 132) mode.toBits s = some ((), t))
    (hread : ¬ (0x140 ≤ t.chipId ∧ t.readlValue reg = BitVec.allOnes 32)) :
    ∃ s', storeMode mode k reg s = some (0, s') ∧ s'.mem = t.mem ∧
      ∀ r, s'.register r =
        if 0x140 ≤ t.chipId ∧ r = reg then
          Bitfield.set 31 1 (t.register reg) (mode = .cilp : Bool).toNat
        else t.register r := by
  rw [storeMode, Kernel.bind_eq_of_eq hwrite, Kernel.bind_apply, Kernel.get_apply,
    Option.bind_some]
  by_cases hvolta : 0x140 ≤ t.chipId
  · have hne : t.readlValue reg ≠ BitVec.allOnes 32 := fun h => hread ⟨hvolta, h⟩
    have hreadl : nvdebugReadl reg t = some (t.register reg, t) := by
      rw [← readlValue_of_ne hne]
      rfl
    have hregister : t.register reg ≠ BitVec.allOnes 32 := by
      rw [← readlValue_of_ne hne]
      exact hne
    obtain ⟨s', hwritten, hmem, hregs⟩ := nvdebugWritel_of_readlValue_ne hne
      (Bitfield.set 31 1 (t.register reg) (mode = .cilp : Bool).toNat)
    refine ⟨s', ?_, hmem, ?_⟩
    · rw [if_neg (Nat.not_lt.mpr hvolta), Kernel.bind_eq_of_eq hreadl, if_neg hregister,
        Kernel.bind_eq_of_eq hwritten]
      rfl
    · intro r
      rw [hregs]
      by_cases hr : r = reg
      · rw [if_pos hr, if_pos ⟨hvolta, hr⟩]
      · rw [if_neg hr, if_neg fun h => hr h.2]
  · refine ⟨t, ?_, rfl, ?_⟩
    · rw [if_pos (Nat.lt_of_not_le hvolta)]
      rfl
    · intro r
      rw [if_neg fun h => hvolta h.1]

end Store

/-! ## What success and failure mean -/

theorem Kva.isErrOrNull_eq_false {k : Kva} (hnull : k ≠ .null) (herr : k.isErr = false) :
    k.isErrOrNull = false := by
  cases k with
  | null => exact absurd rfl hnull
  | err e => cases herr
  | pramin off addr target => rfl
  | bar2 off => rfl
  | phys addr => rfl

section SetsMode

variable {rlId chanId : ℕ} {s s' : Machine} {mode : ComputePreemptType} {ret : ℤ}

/-- The lookups of a call reach the context-switch block exactly if they are right. -/
theorem Located.reaches_iff (L : Located rlId chanId s) :
    (∃ q, L.Reaches q) ↔ L.LooksUp := by
  have hsound := getCtxsw_sound_iff L.isDirect_inst L.getCtxsw_eq L.ctxsw_ok
  have hcore := L.toCore_derefed
  constructor
  · rintro ⟨q, hreaches⟩
    have hblock := hreaches.block
    rw [← hcore] at hblock
    obtain ⟨hlookups, hcalls⟩ := hsound.mp ⟨q, hblock, hreaches.points, hreaches.fresh⟩
    refine ⟨?_, ?_, hlookups, hcalls⟩
    · intro hampere
      have hchannel := hreaches.channel
      rw [Machine.ChannelInstance, if_neg (Nat.not_lt.mpr hampere)] at hchannel
      exact hchannel
    · intro off hinst
      have hat := hreaches.inst
      rw [hinst] at hat
      exact hat
  · intro hlooks
    obtain ⟨q, hblock, hpoints, hfresh⟩ := hsound.mpr ⟨hlooks.lookups, hlooks.calls⟩
    rw [hcore] at hblock
    refine ⟨q, ?_, timeoutRegister_of_findInstance L.findInstance_eq, ?_, hblock, hpoints,
      hfresh⟩
    · rw [Machine.ChannelInstance]
      by_cases hchip : s.chipId < 0x170
      · rw [if_pos hchip]
        exact (pccsrChannel_of_findInstance hchip L.findInstance_eq).1
      · rw [if_neg hchip]
        exact hlooks.entry (Nat.le_of_not_lt hchip)
    · have hdirect := L.isDirect_inst
      have hderef := L.instanceDeref_eq
      cases hinst : L.inst with
      | bar2 off => exact hlooks.bar2 off hinst
      | phys addr =>
          rw [hinst] at hderef
          exact addr_of_instanceDeref hderef
      | null =>
          rw [hinst] at hdirect
          exact hdirect.elim
      | err e =>
          rw [hinst] at hdirect
          exact hdirect.elim
      | pramin off addr target =>
          rw [hinst] at hdirect
          exact hdirect.elim

/-- Where no lookup yields `NULL`, all of them yield pointers or the call fails. -/
theorem located_or_fails (h : s.NeverNull rlId chanId) (mode : ComputePreemptType) :
    Nonempty (Located rlId chanId s) ∨
      ∃ e s', setChannelPreemptionMode mode rlId chanId s = some (e, s') ∧ e < 0 ∧
        s'.toCore = s.toCore := by
  obtain ⟨r, s₁, hfind, hnext⟩ := h
  have hcore₁ := keepsCore_findInstance _ _ _ _ _ hfind
  cases r with
  | error e =>
      right
      refine ⟨e, s₁, ?_, returns_findInstance _ _ _ _ _ hfind e rfl, hcore₁⟩
      rw [setChannelPreemptionMode, Kernel.bind_eq_of_eq hfind]
      rfl
  | ok p =>
      obtain ⟨ptr, target, reg⟩ := p
      by_cases hzero : ptr = 0
      · right
        refine ⟨-enoent, s₁, ?_, by decide, hcore₁⟩
        rw [setChannelPreemptionMode, Kernel.bind_eq_of_eq hfind]
        dsimp only
        rw [if_pos hzero]
        rfl
      obtain ⟨inst, s₂, hderef, hnull, hnext⟩ := hnext _ rfl hzero
      have hcore₂ := (keepsCore_instanceDeref _ _ _ _ _ hderef).trans hcore₁
      rcases returns_instanceDeref _ _ _ _ _ hderef with hinst | ⟨e, he, hinst⟩ | hinst
      · exact absurd hinst hnull
      · right
        refine ⟨e, s₂, ?_, he, hcore₂⟩
        rw [setChannelPreemptionMode, Kernel.bind_eq_of_eq hfind]
        dsimp only
        rw [if_neg hzero, Kernel.bind_eq_of_eq hderef, hinst]
        rfl
      have herr : inst.isErr = false := by
        cases inst with
        | err e => exact hinst.elim
        | null => rfl
        | pramin off addr target => rfl
        | bar2 off => rfl
        | phys addr => rfl
      have hok := Kva.isErrOrNull_eq_false hnull herr
      obtain ⟨ctxsw, s₃, hget, hnull⟩ := hnext herr
      rcases returns_getCtxsw _ _ _ _ hget with hctxsw | ⟨e, he, hctxsw⟩ | ⟨off, addr, t, hctxsw⟩
      · exact absurd hctxsw hnull
      · right
        refine ⟨e, s₃, ?_, he, (keepsCore_getCtxsw _ _ _ _ hget).trans hcore₂⟩
        rw [setChannelPreemptionMode, Kernel.bind_eq_of_eq hfind]
        dsimp only
        rw [if_neg hzero, Kernel.bind_eq_of_eq hderef, hok, if_neg Bool.false_ne_true,
          Kernel.bind_eq_of_eq hget, hctxsw]
        rfl
      · left
        exact ⟨⟨ptr, target, reg, s₁, inst, s₂, ctxsw, s₃, hfind, hzero, hderef, hok, hget,
          by rw [hctxsw]; rfl⟩⟩

/-- A call that ends, and does not succeed on a lookup that yields `NULL`. -/
theorem neverNull_of_run (hrun : setChannelPreemptionMode mode rlId chanId s = some (ret, s'))
    (hret : ret = 0 → Nonempty (Located rlId chanId s)) : s.NeverNull rlId chanId := by
  obtain ⟨r, s₁, hfind, hrun⟩ := Kernel.bind_eq_some hrun
  refine ⟨r, s₁, hfind, ?_⟩
  rintro p rfl hne
  dsimp only at hrun
  rw [if_neg hne] at hrun
  obtain ⟨inst, s₂, hderef, hrun⟩ := Kernel.bind_eq_some hrun
  have hnull : inst ≠ .null := by
    rintro rfl
    cases hrun
    obtain ⟨L⟩ := hret rfl
    have hok := L.inst_ok
    rw [(L.deref_unique hfind hderef).1] at hok
    cases hok
  refine ⟨inst, s₂, hderef, hnull, ?_⟩
  intro herr
  rw [Kva.isErrOrNull_eq_false hnull herr, if_neg Bool.false_ne_true] at hrun
  obtain ⟨ctxsw, s₃, hget, hrun⟩ := Kernel.bind_eq_some hrun
  refine ⟨ctxsw, s₃, hget, ?_⟩
  rintro rfl
  cases hrun
  obtain ⟨L⟩ := hret rfl
  have hok := L.ctxsw_ok
  have hget' := L.getCtxsw_eq
  obtain ⟨hinst, hderefed⟩ := L.deref_unique hfind hderef
  rw [hinst, hderefed, hget] at hget'
  rw [← (Prod.mk.inj (Option.some.inj hget')).1] at hok
  cases hok

end SetsMode

/-- The call succeeds exactly if it stores the mode of the channel and, from Volta on,
switches the timeout; otherwise it returns a negative error and changes neither. -/
def Machine.SetsMode (s : Machine) (mode : ComputePreemptType) (rlId chanId : ℕ) : Prop :=
  ∃ ret s', setChannelPreemptionMode mode rlId chanId s = some (ret, s') ∧
    (ret = 0 ∧ (∃ (L : Located rlId chanId s) (q : ℕ × InstTarget), L.Reaches q ∧
        ModeStored mode L.timeoutReg (s.windowLoc q.2 (q.1 + 132)) L.last s') ∨
      ret < 0 ∧ s'.toCore = s.toCore)

theorem Core.Maps.mod {c : Core} {pdb : PageDirConfig} {virt : ℕ} {q : ℕ × InstTarget}
    (h : c.Maps pdb virt q) : q.1 % 4096 = 0 := by
  obtain ⟨vidOk, h⟩ := h
  rw [View.presentFor, View.presentPte, View.presentPteV1] at h
  split_ifs at h
  · split at h <;> cases h
    exact Nat.mul_mod_left _ _
  · split at h <;> cases h
    exact Nat.mul_mod_left _ _

theorem Core.WfiBlock.mod {c : Core} {inst : Kva} {p : ℕ × InstTarget}
    (h : c.WfiBlock inst p) : p.1 % 4096 = 0 := by
  obtain ⟨-, h⟩ := h
  split_ifs at h
  · exact h.mod
  · rw [h]
    exact Nat.mul_mod_left _ _

theorem Core.CtxswBlock.mod {c : Core} {inst : Kva} {q : ℕ × InstTarget}
    (h : c.CtxswBlock inst q) : q.1 % 4096 = 0 := by
  cases h with
  | wfi block single => exact block.mod
  | ctxsw block subcontexts ver2 ne maps => exact maps.mod

theorem Located.writel_ends {rlId chanId : ℕ} {s : Machine} (L : Located rlId chanId s)
    (w : BitVec 32) : ∃ t, writel (L.ctxsw.add 132) w L.last = some ((), t) := by
  obtain ⟨off, addr, target, hctxsw⟩ := L.ctxsw_eq
  obtain ⟨t, hwrite, -⟩ := writel_pramin (off + 132) (addr + 132 : ℤ).toNat target w L.last
  rw [hctxsw]
  exact ⟨t, hwrite⟩

theorem Located.chipId_of_writel {rlId chanId : ℕ} {s t : Machine} {w : BitVec 32}
    (L : Located rlId chanId s) (hwrite : writel (L.ctxsw.add 132) w L.last = some ((), t)) :
    t.chipId = s.chipId := by
  obtain ⟨off, addr, target, hctxsw⟩ := L.ctxsw_eq
  obtain ⟨t', hwrite', hchip⟩ :=
    writel_pramin (off + 132) (addr + 132 : ℤ).toNat target w L.last
  rw [hctxsw, Kva.add, hwrite'] at hwrite
  cases hwrite
  rw [hchip, L.toCore_last]

/-- Where the lookups are right, the store is the one of the mode. -/
theorem Located.modeStored {rlId chanId : ℕ} {s t s' : Machine} {q : ℕ × InstTarget}
    {mode : ComputePreemptType} (L : Located rlId chanId s) (h : L.Reaches q)
    (hwrite : writel (L.ctxsw.add 132) mode.toBits L.last = some ((), t))
    (hmem : s'.mem = t.mem)
    (hregs : ∀ r, s'.register r =
      if 0x140 ≤ t.chipId ∧ r = L.timeoutReg then
        Bitfield.set 31 1 (t.register L.timeoutReg) (mode = .cilp : Bool).toNat
      else t.register r) :
    ModeStored mode L.timeoutReg (s.windowLoc q.2 (q.1 + 132)) L.last s' := by
  have hshows := h.points.shows h.block.mod (n := 132) (by decide)
  have hwritten := hshows.writel_eq mode.toBits
  rw [L.toCore_last] at hwritten
  obtain ⟨-, rfl⟩ := Prod.mk.inj (Option.some.inj (hwritten.symm.trans hwrite))
  constructor
  · rw [hmem, L.toCore_last]
  · intro r
    have hwindow : (L.last.logAccess (L.ctxsw.add (132 : ℕ))).window = L.last.window := by
      cases L.ctxsw.add (132 : ℕ) <;> rfl
    have hregister : ∀ r, Machine.register
        { L.last.logAccess (L.ctxsw.add (132 : ℕ)) with
          toCore := s.store (s.windowLoc q.2 (q.1 + 132)) mode.toBits } r =
        L.last.register r := by
      intro r
      simp only [Machine.register, hwindow, L.toCore_last]
      rfl
    rw [hregs, hregister, hregister, L.toCore_last]
    rfl

/-- The call does what it should exactly if no lookup yields `NULL`, and lookups that end
with a pointer are right. -/
theorem setChannelPreemptionMode_iff (s : Machine) (mode : ComputePreemptType)
    (rlId chanId : ℕ) :
    s.SetsMode mode rlId chanId ↔
      s.NeverNull rlId chanId ∧ ∀ L : Located rlId chanId s, L.Settles mode := by
  constructor
  · rintro ⟨ret, s', hrun, hends⟩
    constructor
    · apply neverNull_of_run hrun
      intro hret
      rcases hends with ⟨-, L, -⟩ | ⟨hneg, -⟩
      · exact ⟨L⟩
      · omega
    · intro L t hwrite
      have hchip := L.chipId_of_writel hwrite
      rw [L.run_eq] at hrun
      by_cases hread : 0x140 ≤ s.chipId ∧ t.readlValue L.timeoutReg = BitVec.allOnes 32
      · rw [if_pos hread]
        rw [← hchip] at hread
        rw [storeMode_of_unreadable hwrite hread.1 hread.2] at hrun
        cases hrun
        rcases hends with ⟨hzero, -⟩ | ⟨-, hcore⟩
        · cases hzero
        · exact hcore
      · rw [if_neg hread]
        rw [← hchip] at hread
        obtain ⟨s'', hstore, -⟩ := storeMode_of_readable hwrite hread
        rw [hstore] at hrun
        cases hrun
        rcases hends with ⟨-, L', q, hreaches, -⟩ | ⟨hneg, -⟩
        · rw [L'.unique L] at hreaches
          exact L.reaches_iff.mp ⟨q, hreaches⟩
        · cases hneg
  · rintro ⟨hnull, hsettles⟩
    rcases located_or_fails hnull mode with ⟨⟨L⟩⟩ | ⟨e, s', hrun, hneg, hcore⟩
    swap
    · exact ⟨e, s', hrun, .inr ⟨hneg, hcore⟩⟩
    obtain ⟨t, hwrite⟩ := L.writel_ends mode.toBits
    have hchip := L.chipId_of_writel hwrite
    have hsettles := hsettles L t hwrite
    by_cases hread : 0x140 ≤ s.chipId ∧ t.readlValue L.timeoutReg = BitVec.allOnes 32
    · rw [if_pos hread] at hsettles
      rw [← hchip] at hread
      refine ⟨-eio, t, ?_, .inr ⟨by decide, hsettles⟩⟩
      rw [L.run_eq]
      exact storeMode_of_unreadable hwrite hread.1 hread.2
    · rw [if_neg hread] at hsettles
      rw [← hchip] at hread
      obtain ⟨s', hstore, hmem, hregs⟩ := storeMode_of_readable hwrite hread
      obtain ⟨q, hreaches⟩ := L.reaches_iff.mpr hsettles
      refine ⟨0, s', ?_, .inl ⟨rfl, L, q, hreaches, ?_⟩⟩
      · rw [L.run_eq]
        exact hstore
      · exact L.modeStored hreaches hwrite hmem hregs

/-- A Volta GPU with one channel, whose instance block in system memory is empty. -/
def emptyInstance : Machine :=
  { Machine.ofWords [] with
    chipId := 0x140
    regs := fun r => if r = 0x00800000 then 0x30000001 else 0 }

/-- The empty instance block has no WFI block, which counts as success. -/
theorem setChannelPreemptionMode_unnoticed : ¬ emptyInstance.SetsMode .cilp 0 0 := by
  have hfind : findInstance 0 0 emptyInstance =
      some (.ok (0x1000, .sysMemNoncoherent, 0x00002A0C), emptyInstance) := rfl
  have hderef : instanceDeref 0x1000 .sysMemNoncoherent emptyInstance =
      some (.phys 0x1000, emptyInstance) := rfl
  have hget : getCtxsw (.phys 0x1000) emptyInstance = some (.null, emptyInstance) := by
    have hdirect : (Kva.phys 0x1000).IsDirect := trivial
    have hzero : (emptyInstance.engineWfi (.phys 0x1000)).ptr * 4096 = 0 := by decide
    rw [getCtxsw, Kernel.bind_eq_of_eq (instEngineWfi_of_isDirect hdirect emptyInstance),
      if_pos hzero]
    rfl
  have hrun : setChannelPreemptionMode .cilp 0 0 emptyInstance = some (0, emptyInstance) := by
    rw [setChannelPreemptionMode, Kernel.bind_eq_of_eq hfind]
    dsimp only
    rw [if_neg (by decide), Kernel.bind_eq_of_eq hderef, if_neg (by decide),
      Kernel.bind_eq_of_eq hget]
    rfl
  rintro ⟨ret, s', hends, hcases⟩
  rw [hrun] at hends
  cases hends
  rcases hcases with ⟨-, L, -⟩ | ⟨hneg, -⟩
  · have hok := L.ctxsw_ok
    have hget' := L.getCtxsw_eq
    obtain ⟨hinst, hderefed⟩ := L.deref_unique hfind hderef
    rw [hinst, hderefed, hget] at hget'
    rw [← (Prod.mk.inj (Option.some.inj hget')).1] at hok
    cases hok
  · cases hneg

end A100Partitioning.Nvdebug
