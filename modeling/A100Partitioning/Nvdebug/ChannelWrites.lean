import A100Partitioning.Nvdebug.SwitchToTsg

/-!
# What a write to a channel does (`nvdebug.h`)

A PCCSR entry mixes fields that are plain memory with fields that a nonzero write
resets or triggers.  The files that enable and disable channels write back what they
read, so the write leaves the other fields alone only if none of those reads as one.
-/

namespace A100Partitioning.Nvdebug

open Support Keeping

/-! ## Writes -/

/-- A write that enables or disables a channel: what its register held, and what is
written.  Up to Turing this is an entry of PCCSR, from Ampere on a word of channel RAM. -/
inductive ChannelWrite where
  | pccsr (chipId chid : ℕ) (enable : Bool) (old written : BitVec 64)
  | chram (reg : ℕ) (enable : Bool) (old written : BitVec 32)

/-- A PCCSR entry: `FORCE_CTX_RELOAD`, and the other two such fields of Turing, are not
triggered. -/
def NoForce (chipId : ℕ) (raw : BitVec 64) : Prop :=
  raw.getLsbD 40 = false ∧
    (0x160 ≤ chipId → raw.getLsbD 52 = false ∧ raw.getLsbD 53 = false)

/-- `ENABLE_SET` or `ENABLE_CLEAR`. -/
def enableField (enable : Bool) : ℕ := if enable then 42 else 43

/-- The write changes nothing but whether the channel is enabled. -/
def ChannelWrite.ChangesOnlyEnable : ChannelWrite → Prop
  | .pccsr chipId _ enable old written =>
      -- `INST_PTR` with `INST_TARGET`, `INST_BIND` and `NEXT`
      (∀ i < 30, written.getLsbD i = old.getLsbD i) ∧
        written.getLsbD 31 = old.getLsbD 31 ∧ written.getLsbD 33 = old.getLsbD 33 ∧
      -- `PBDMA_FAULTED` and `ENG_FAULTED`, which a nonzero write resets
        ¬ (old.getLsbD 54 = true ∧ written.getLsbD 54 = true) ∧
        ¬ (old.getLsbD 55 = true ∧ written.getLsbD 55 = true) ∧
        NoForce chipId written ∧
        written.getLsbD (enableField enable) = true ∧
        written.getLsbD (enableField !enable) = false
  | .chram _ enable _ written =>
      -- A zero in a field changes nothing, and the first bit says what a one does.
      written.getLsbD 0 = !enable ∧ written.getLsbD 1 = true ∧
        ∀ i, 2 ≤ i → written.getLsbD i = false

/-- The channel has not faulted, and the fields that are write-only read as zero. -/
def ChannelWrite.IsQuiet : ChannelWrite → Prop
  | .pccsr chipId _ enable old _ =>
      old.getLsbD 54 = false ∧ old.getLsbD 55 = false ∧ NoForce chipId old ∧
        old.getLsbD (enableField !enable) = false
  | .chram _ _ _ _ => True

/-- The PCCSR entry of a channel. -/
def Core.pccsrEntry (c : Core) (chid : ℕ) : BitVec 64 :=
  c.regs (nvPccsrChannelInst chid + 4) ++ c.regs (nvPccsrChannelInst chid)

/-- These are the writes to channels between two states; apart from them, nothing but the
window changes. -/
inductive WritesChannels (hw : ChannelHw) :
    Machine → List ChannelWrite → Machine → Prop where
  | nil {s s' : Machine} (same : s'.toCore = s.toCore) : WritesChannels hw s [] s'
  | pccsr {s s₁ s₂ s' : Machine} {chid : ℕ} {enable : Bool} {written : BitVec 64}
      {writes : List ChannelWrite} (turing : s.chipId < 0x170)
      (same : s₁.toCore = s.toCore)
      (write : writePccsr hw chid written s₁ = some ((), s₂))
      (rest : WritesChannels hw s₂ writes s') :
      WritesChannels hw s
        (.pccsr s.chipId chid enable (s.pccsrEntry chid) written :: writes) s'
  | chram {s s₁ s₂ s' : Machine} {reg : ℕ} {enable : Bool} {written : BitVec 32}
      {writes : List ChannelWrite} (ampere : 0x170 ≤ s.chipId)
      (same : s₁.toCore = s.toCore)
      (write : writeControl hw.chram reg written s₁ = some ((), s₂))
      (rest : WritesChannels hw s₂ writes s') :
      WritesChannels hw s (.chram reg enable (s₁.register reg) written :: writes) s'

/-- On this chip, every write to a channel changes nothing else exactly if the channel is
quiet. -/
def Controls {α : Type} (hw : ChannelHw) (chipId : ℕ) (x : Kernel α) : Prop :=
  ∀ s a s', s.chipId = chipId → x s = some (a, s') →
    ∃ writes, WritesChannels hw s writes s' ∧
      ∀ w ∈ writes, (w.ChangesOnlyEnable ↔ w.IsQuiet)

/-! ## One write -/

section Fields

variable {raw : BitVec 64} {enable : Bool}

theorem withEnable_bit (raw : BitVec 64) (enable : Bool) (i : ℕ) :
    (withEnable raw enable).getLsbD i =
      if i = enableField enable then true else raw.getLsbD i := by
  have hset : ∀ lsb, lsb < 64 → (Bitfield.set lsb 1 raw 1).getLsbD i =
      if i = lsb then true else raw.getLsbD i := by
    intro lsb hlsb
    rw [Bitfield.getLsbD_set]
    by_cases hi : i = lsb
    · subst hi
      rw [if_pos ⟨Nat.le_refl _, Nat.lt_succ_self _, hlsb⟩, if_pos rfl, Nat.sub_self]
      rfl
    · rw [if_neg hi, if_neg]
      omega
  rw [withEnable, enableField]
  cases enable with
  | true => exact hset 42 (by decide)
  | false => exact hset 43 (by decide)

theorem withEnable_bit_of_ne {i : ℕ} (h42 : i ≠ 42) (h43 : i ≠ 43) :
    (withEnable raw enable).getLsbD i = raw.getLsbD i := by
  rw [withEnable_bit, if_neg]
  cases enable with
  | true => exact h42
  | false => exact h43

theorem noForce_withEnable {chipId : ℕ} :
    NoForce chipId (withEnable raw enable) ↔ NoForce chipId raw := by
  rw [NoForce, NoForce, withEnable_bit_of_ne (by decide) (by decide),
    withEnable_bit_of_ne (by decide) (by decide),
    withEnable_bit_of_ne (by decide) (by decide)]

theorem changesOnlyEnable_withEnable (chipId chid : ℕ) :
    (ChannelWrite.pccsr chipId chid enable raw (withEnable raw enable)).ChangesOnlyEnable ↔
      (ChannelWrite.pccsr chipId chid enable raw (withEnable raw enable)).IsQuiet := by
  have hself : (withEnable raw enable).getLsbD (enableField enable) = true := by
    rw [withEnable_bit, if_pos rfl]
  have hother : (withEnable raw enable).getLsbD (enableField !enable) =
      raw.getLsbD (enableField !enable) := by
    rw [withEnable_bit, if_neg]
    cases enable <;> decide
  rw [ChannelWrite.ChangesOnlyEnable, ChannelWrite.IsQuiet, noForce_withEnable, hself,
    hother, withEnable_bit_of_ne (by decide) (by decide),
    withEnable_bit_of_ne (by decide) (by decide),
    withEnable_bit_of_ne (by decide) (by decide),
    withEnable_bit_of_ne (by decide) (by decide)]
  have hlow : ∀ i < 30, (withEnable raw enable).getLsbD i = raw.getLsbD i := by
    intro i hi
    exact withEnable_bit_of_ne (by omega) (by omega)
  simp only [and_self, true_and, Bool.not_eq_true, and_iff_right hlow]

theorem changesOnlyEnable_chramEnable (reg : ℕ) (old : BitVec 32) :
    (ChannelWrite.chram reg enable old (chramEnable enable)).ChangesOnlyEnable := by
  have hall : ∀ enable, (chramEnable enable).getLsbD 0 = !enable ∧
      (chramEnable enable).getLsbD 1 = true ∧
        ∀ i : Fin 32, 2 ≤ (i : ℕ) → (chramEnable enable).getLsbD i = false := by
    decide
  obtain ⟨hclears, henable, hzero⟩ := hall enable
  refine ⟨hclears, henable, ?_⟩
  intro i hi
  by_cases hlt : i < 32
  · exact hzero ⟨i, hlt⟩ hi
  · exact BitVec.getLsbD_of_ge _ i (Nat.le_of_not_lt hlt)

end Fields

/-! ## Code that writes to channels -/

section Controls

variable {hw : ChannelHw} {chipId : ℕ} {s s' s'' : Machine}

/-- A write to a control register changes this register, or the window. -/
theorem core_of_writeControl {react : BitVec 32 → BitVec 32 → BitVec 32} {r : ℕ}
    {v : BitVec 32} (h : writeControl react r v s = some ((), s')) :
    s'.toCore = { s.toCore with regs := s'.regs } := by
  simp only [writeControl, nvdebugWritel, Kernel.bind_apply, Kernel.get_apply,
    Option.bind_some, Kernel.modify_apply] at h
  split_ifs at h
  · cases h
    rfl
  · cases h
    rfl
  · cases h
    rfl

theorem chipId_of_writeControl {react : BitVec 32 → BitVec 32 → BitVec 32} {r : ℕ}
    {v : BitVec 32} (h : writeControl react r v s = some ((), s')) :
    s'.chipId = s.chipId := by
  rw [core_of_writeControl h]

theorem chipId_of_writePccsr {chid : ℕ} {raw : BitVec 64}
    (h : writePccsr hw chid raw s = some ((), s')) : s'.chipId = s.chipId := by
  obtain ⟨u, s₁, hlow, hhigh⟩ := Kernel.bind_eq_some h
  exact (chipId_of_writeControl hhigh).trans (chipId_of_writeControl hlow)

theorem WritesChannels.chipId_eq {writes : List ChannelWrite}
    (h : WritesChannels hw s writes s') : s'.chipId = s.chipId := by
  induction h with
  | nil same => exact congrArg Core.chipId same
  | pccsr _ same write _ ih =>
      exact ih.trans ((chipId_of_writePccsr write).trans (congrArg Core.chipId same))
  | chram _ same write _ ih =>
      exact ih.trans ((chipId_of_writeControl write).trans (congrArg Core.chipId same))

theorem WritesChannels.before {writes : List ChannelWrite} (hsame : s'.toCore = s.toCore)
    (h : WritesChannels hw s' writes s'') : WritesChannels hw s writes s'' := by
  cases h with
  | nil same => exact .nil (same.trans hsame)
  | pccsr turing same write rest =>
      rw [hsame] at turing ⊢
      exact .pccsr turing (same.trans hsame) write rest
  | chram ampere same write rest =>
      rw [hsame] at ampere
      exact .chram ampere (same.trans hsame) write rest

theorem WritesChannels.append {writes writes' : List ChannelWrite}
    (h : WritesChannels hw s writes s') (h' : WritesChannels hw s' writes' s'') :
    WritesChannels hw s (writes ++ writes') s'' := by
  induction h with
  | nil same => exact h'.before same
  | pccsr turing same write _ ih => exact .pccsr turing same write (ih h')
  | chram ampere same write _ ih => exact .chram ampere same write (ih h')

theorem Controls.of_keepsCore {α : Type} {x : Kernel α} (h : KeepsCore x) :
    Controls hw chipId x := by
  intro s a s' _ hrun
  exact ⟨[], .nil (h s a s' hrun), fun w hw => absurd hw List.not_mem_nil⟩

theorem Controls.pure {α : Type} (a : α) : Controls hw chipId (Pure.pure a : Kernel α) :=
  .of_keepsCore (.pure a)

theorem Controls.bind {α β : Type} {x : Kernel α} {f : α → Kernel β}
    (hx : Controls hw chipId x) (hf : ∀ a, Controls hw chipId (f a)) :
    Controls hw chipId (x >>= f) := by
  intro s b s' hchip hrun
  obtain ⟨a, s₁, hfirst, hsecond⟩ := Kernel.bind_eq_some hrun
  obtain ⟨writes, hwrites, hquiet⟩ := hx s a s₁ hchip hfirst
  have hchip₁ := hwrites.chipId_eq.trans hchip
  obtain ⟨writes', hwrites', hquiet'⟩ := hf a s₁ b s' hchip₁ hsecond
  refine ⟨writes ++ writes', hwrites.append hwrites', ?_⟩
  intro w hmem
  rcases List.mem_append.mp hmem with hleft | hright
  · exact hquiet w hleft
  · exact hquiet' w hright

theorem Controls.get_bind {α : Type} {f : Machine → Kernel α}
    (hf : ∀ s : Machine, s.chipId = chipId → Controls hw chipId (f s)) :
    Controls hw chipId (get >>= f) := by
  intro s a s' hchip hrun
  exact hf s hchip s a s' hchip hrun

theorem Controls.ite {α : Type} {p : Prop} [Decidable p] {x y : Kernel α}
    (hx : p → Controls hw chipId x) (hy : ¬ p → Controls hw chipId y) :
    Controls hw chipId (if p then x else y) := by
  by_cases hp : p
  · rw [if_pos hp]
    exact hx hp
  · rw [if_neg hp]
    exact hy hp

theorem controls_updatePccsr (hturing : chipId < 0x170) (enable : Bool) (chid : ℕ) :
    Controls hw chipId (updatePccsr hw enable chid) := by
  intro s ret s' hchip hrun
  obtain ⟨raw, s₁, hread, hrest⟩ := Kernel.bind_eq_some hrun
  have hcore := keepsCore_nvdebugReadq _ s raw s₁ hread
  by_cases hraw : raw = BitVec.allOnes 64
  · rw [if_pos hraw] at hrest
    cases hrest
    exact ⟨[], .nil hcore, fun w hw => absurd hw List.not_mem_nil⟩
  · rw [if_neg hraw] at hrest
    obtain ⟨u, s₂, hwrite, hend⟩ := Kernel.bind_eq_some hrest
    cases hend
    obtain ⟨-, -, heq⟩ := readPccsr_eq hread hraw
    rw [← hchip] at hturing
    refine ⟨[_], @WritesChannels.pccsr hw s s₁ _ _ chid enable _ [] hturing hcore hwrite
      (.nil rfl), ?_⟩
    intro w hmem
    rw [List.mem_singleton] at hmem
    rw [hmem, Core.pccsrEntry, ← heq]
    exact changesOnlyEnable_withEnable s.chipId chid

theorem controls_updateChram (hampere : 0x170 ≤ chipId) (enable : Bool) (base chid : ℕ) :
    Controls hw chipId (updateChram hw enable base chid) := by
  intro s u s' hchip hrun
  rw [← hchip] at hampere
  refine ⟨[_], @WritesChannels.chram hw s s _ _ _ enable _ [] hampere rfl hrun (.nil rfl), ?_⟩
  intro w hmem
  rw [List.mem_singleton] at hmem
  rw [hmem]
  exact iff_of_true (changesOnlyEnable_chramEnable _ _) trivial

theorem keepsCore_readChannelConfig (rlId : ℕ) : KeepsCore (readChannelConfig rlId) := by
  apply Keeps.get.bind
  intro s
  cases getRunlistRam s rlId with
  | error e => exact .pure _
  | ok ram =>
      apply (keepsCore_nvdebugReadl _).bind
      intro channelConfig
      exact .ite (fun _ => .pure _) fun _ => .pure _

theorem controls_setChannelEnable (enable : Bool) (rlId chid : ℕ) :
    Controls hw chipId (setChannelEnable hw enable rlId chid) := by
  apply Controls.get_bind
  intro s hchip
  apply Controls.ite
  · intro hturing
    rw [hchip] at hturing
    exact .ite (fun _ => .pure _) fun _ => controls_updatePccsr hturing enable chid
  · intro hampere
    rw [hchip] at hampere
    apply (Controls.of_keepsCore (keepsCore_readChannelConfig rlId)).bind
    intro config
    cases config with
    | error e => exact .pure _
    | ok channelConfig =>
        apply Controls.ite
        · intro _
          exact .pure _
        · intro _
          exact (controls_updateChram (Nat.le_of_not_lt hampere) enable _ chid).bind
            fun _ => .pure _

theorem keepsCore_readEntry (entry : Kva) : KeepsCore (readEntry entry) := by
  apply Keeps.get.bind
  intro s
  apply (keepsCore_readq entry).bind
  intro lo
  apply Keeps.ite
  · intro _
    exact (keepsCore_readq _).bind fun hi => .pure _
  · intro _
    exact .pure _

theorem controls_switchChannel (base : ℕ) (enable : Bool) (chan : Kva) :
    Controls hw chipId (switchChannel hw base enable chan) := by
  apply (Controls.of_keepsCore (keepsCore_readEntry chan)).bind
  intro entry
  apply Controls.get_bind
  intro s hchip
  apply Controls.ite
  · intro hturing
    rw [hchip] at hturing
    apply (controls_updatePccsr hturing enable entry.chid).bind
    intro err
    exact .ite (fun _ => .pure _) fun _ => .pure _
  · intro hampere
    rw [hchip] at hampere
    exact (controls_updateChram (Nat.le_of_not_lt hampere) enable base entry.chid).bind
      fun _ => .pure _

theorem controls_forChanInTsg {α : Type} {body : Kva → Kernel (Option α)}
    (hbody : ∀ chan, Controls hw chipId (body chan)) (tsg : Kva) (rounds i : ℕ) :
    Controls hw chipId (forChanInTsg body tsg rounds i) := by
  induction rounds generalizing i with
  | zero => exact .pure none
  | succ rounds ih =>
      apply (Controls.of_keepsCore (keepsCore_readEntry tsg)).bind
      intro entry
      apply Controls.ite
      · intro _
        exact .pure none
      · intro _
        apply Controls.get_bind
        intro s _
        apply (hbody _).bind
        intro found
        cases found with
        | some res => exact .pure _
        | none => exact ih (i + 1)

theorem keepsCore_nextTsg (tsg : Kva) : KeepsCore (nextTsg tsg) :=
  (keepsCore_readEntry tsg).bind fun _ => Keeps.get.bind fun _ => .pure _

theorem controls_switchTsgs (base targetTsgid len rounds pos : ℕ) (tsg : Kva) :
    Controls hw chipId (switchTsgs hw base targetTsgid len rounds pos tsg) := by
  induction rounds generalizing pos tsg with
  | zero => exact .pure _
  | succ rounds ih =>
      apply Controls.ite
      · intro _
        exact .pure _
      intro _
      apply (Controls.of_keepsCore (keepsCore_readEntry tsg)).bind
      intro entry
      apply (controls_forChanInTsg (controls_switchChannel base _) tsg 256 1).bind
      intro err
      cases err with
      | some err => exact .pure _
      | none =>
          apply (Controls.of_keepsCore (keepsCore_readEntry tsg)).bind
          intro entry
          apply (Controls.of_keepsCore (keepsCore_nextTsg tsg)).bind
          intro next
          exact ih _ next

theorem keepsCore_readChannelRegsBase (rlId : ℕ) : KeepsCore (readChannelRegsBase rlId) := by
  apply Keeps.get.bind
  intro s
  apply Keeps.ite
  · intro _
    exact .pure _
  · intro _
    exact (keepsCore_readChannelConfig rlId).bind fun _ => .pure _

theorem controls_switchToTsg (targetRunlist targetTsgid : ℕ) :
    Controls hw chipId (switchToTsg hw targetRunlist targetTsgid) := by
  apply Controls.ite
  · intro _
    exact .pure _
  intro _
  apply (Controls.of_keepsCore (keepsCore_getRunlistIter targetRunlist)).bind
  intro found
  apply Controls.ite
  · intro _
    exact .pure _
  intro _
  apply (Controls.of_keepsCore (keepsCore_readChannelRegsBase targetRunlist)).bind
  intro base
  cases base with
  | error e => exact .pure _
  | ok base => exact controls_switchTsgs _ _ _ _ _ _

end Controls

/-- The files that enable and disable channels. -/
def channelOperations (hw : ChannelHw) (rlId : ℕ) : List (ℕ → Kernel ℤ) :=
  [enableChannel hw rlId, disableChannel hw rlId, switchToTsg hw rlId]

/-- Every write of these files to a channel changes nothing but whether the channel is
enabled, if and only if the channel has not faulted and its write-only fields read as zero.
From Ampere on, this is always so. -/
theorem channelOperations_changeOnlyEnable_iff {hw : ChannelHw} {rlId id : ℕ}
    {operation : ℕ → Kernel ℤ} (hop : operation ∈ channelOperations hw rlId)
    {s s' : Machine} {ret : ℤ} (hrun : operation id s = some (ret, s')) :
    ∃ writes, WritesChannels hw s writes s' ∧
      ∀ w ∈ writes, (w.ChangesOnlyEnable ↔ w.IsQuiet) := by
  have hall : ∀ operation ∈ channelOperations hw rlId,
      Controls hw s.chipId (operation id) := by
    intro operation hmem
    simp only [channelOperations, List.mem_cons, List.not_mem_nil, or_false] at hmem
    rcases hmem with rfl | rfl | rfl
    · exact controls_setChannelEnable true rlId id
    · exact controls_setChannelEnable false rlId id
    · exact controls_switchToTsg rlId id
  exact hall operation hop s ret s' rfl hrun

/-! ## What documented registers keep -/

/-- The registers do what is documented of the fields that are plain memory, and of those
that report a fault. -/
structure ChannelHw.Documented (hw : ChannelHw) (chipId : ℕ) : Prop where
  word1 : ∀ old (raw : BitVec 64) i, i < 30 ∨ i = 31 →
    (hw.word1 old (raw.extractLsb' 0 32)).getLsbD i = raw.getLsbD i
  next : ∀ old raw, NoForce chipId raw →
    (hw.word2 old (raw.extractLsb' 32 32)).getLsbD 1 = raw.getLsbD 33
  faulted : ∀ old raw, NoForce chipId raw → ∀ i, i = 22 ∨ i = 23 →
    (hw.word2 old (raw.extractLsb' 32 32)).getLsbD i =
      (old.getLsbD i && !raw.getLsbD (32 + i))

/-- The fields that enabling or disabling the channel should leave alone. -/
def SameFields (old new : BitVec 64) : Prop :=
  ∀ i, i < 30 ∨ i = 31 ∨ i = 33 ∨ i = 54 ∨ i = 55 → new.getLsbD i = old.getLsbD i

section Documented

variable {hw : ChannelHw} {s s' : Machine}

theorem pccsrEntry_of_writePccsr {chid chid' : ℕ} {raw : BitVec 64}
    (hon : s.registersOff = false) (h : writePccsr hw chid raw s = some ((), s')) :
    s'.pccsrEntry chid' =
      if chid' = chid then
        hw.word2 (s.regs (nvPccsrChannelInst chid + 4)) (raw.extractLsb' 32 32) ++
          hw.word1 (s.regs (nvPccsrChannelInst chid)) (raw.extractLsb' 0 32)
      else s.pccsrEntry chid' := by
  have hne := nvPccsrChannelInst_ne s.toCore chid 0
  rw [Nat.add_zero] at hne
  rw [writePccsr, Kernel.bind_eq_of_eq (writeControl_eq _ hon hne)] at h
  have hword2 : ∀ old v, writeControl hw.word2 (nvPccsrChannelInst chid + 4) v
      (s.setReg (nvPccsrChannelInst chid) old) = some ((), _) :=
    fun old v => writeControl_eq v hon (nvPccsrChannelInst_ne s.toCore chid 4)
  rw [hword2] at h
  cases h
  rw [Core.pccsrEntry, Core.pccsrEntry]
  by_cases hchid : chid' = chid
  · subst hchid
    rw [if_pos rfl]
    simp only [Machine.setReg]
    rw [Function.update_self, Function.update_of_ne (Nat.ne_of_lt (Nat.lt_add_of_pos_right
      (by decide))), Function.update_self, Function.update_of_ne (Nat.ne_of_gt
      (Nat.lt_add_of_pos_right (by decide)))]
  · have hfar : nvPccsrChannelInst chid' ≠ nvPccsrChannelInst chid ∧
        nvPccsrChannelInst chid' ≠ nvPccsrChannelInst chid + 4 ∧
        nvPccsrChannelInst chid' + 4 ≠ nvPccsrChannelInst chid ∧
        nvPccsrChannelInst chid' + 4 ≠ nvPccsrChannelInst chid + 4 := by
      simp only [nvPccsrChannelInst]
      omega
    obtain ⟨hfar00, hfar04, hfar40, hfar44⟩ := hfar
    rw [if_neg hchid]
    simp only [Machine.setReg]
    rw [Function.update_of_ne hfar44, Function.update_of_ne hfar40,
      Function.update_of_ne hfar04, Function.update_of_ne hfar00]

/-- Without access to registers, a write does nothing. -/
theorem core_of_writePccsr_off {chid : ℕ} {raw : BitVec 64}
    (hoff : s.registersOff = true) (h : writePccsr hw chid raw s = some ((), s')) :
    s' = s := by
  simp only [writePccsr, writeControl, nvdebugWritel, Kernel.bind_apply, Kernel.get_apply,
    Option.bind_some, Kernel.modify_apply, hoff, if_true] at h
  cases h
  rfl

theorem sameFields_refl (old : BitVec 64) : SameFields old old := fun _ _ => rfl

/-- A write that changes only whether the channel is enabled, done by such registers. -/
theorem sameFields_of_writePccsr (hdoc : hw.Documented s.chipId) {chid : ℕ} {enable : Bool}
    {raw : BitVec 64}
    (hneutral : (ChannelWrite.pccsr s.chipId chid enable (s.pccsrEntry chid)
      raw).ChangesOnlyEnable)
    (h : writePccsr hw chid raw s = some ((), s')) (chid' : ℕ) :
    SameFields (s.pccsrEntry chid') (s'.pccsrEntry chid') := by
  cases hoff : s.registersOff with
  | true =>
      rw [core_of_writePccsr_off hoff h]
      exact sameFields_refl _
  | false =>
      rw [pccsrEntry_of_writePccsr hoff h]
      by_cases hchid : chid' = chid
      · subst hchid
        rw [if_pos rfl]
        obtain ⟨hlow, hbind, hnext, hpbdma, heng, hforce, -, -⟩ := hneutral
        have hfault : ∀ i, i = 22 ∨ i = 23 →
            (hw.word2 (s.regs (nvPccsrChannelInst chid' + 4))
              (raw.extractLsb' 32 32)).getLsbD i =
                (s.pccsrEntry chid').getLsbD (32 + i) := by
          intro i hi
          have hentry : (s.pccsrEntry chid').getLsbD (32 + i) =
              (s.regs (nvPccsrChannelInst chid' + 4)).getLsbD i := by
            rw [Core.pccsrEntry, BitVec.getLsbD_append, if_neg (by omega),
              Nat.add_sub_cancel_left]
          have hnot : (s.pccsrEntry chid').getLsbD (32 + i) = true →
              raw.getLsbD (32 + i) = false := by
            intro hset
            apply Bool.eq_false_of_not_eq_true
            intro hraw
            rcases hi with rfl | rfl
            · exact hpbdma ⟨hset, hraw⟩
            · exact heng ⟨hset, hraw⟩
          rw [hdoc.faulted _ _ hforce i hi, hentry]
          rw [hentry] at hnot
          cases hset : (s.regs (nvPccsrChannelInst chid' + 4)).getLsbD i with
          | false => rfl
          | true => rw [hnot hset]; rfl
        intro i hi
        rw [BitVec.getLsbD_append]
        rcases hi with hi | rfl | rfl | rfl | rfl
        · rw [if_pos (by omega), hdoc.word1 _ _ _ (.inl hi), hlow i hi]
        · rw [if_pos (by decide), hdoc.word1 _ _ _ (.inr rfl), hbind]
        · rw [if_neg (by decide), hdoc.next _ _ hforce, hnext]
        · rw [if_neg (by decide)]
          exact hfault 22 (.inl rfl)
        · rw [if_neg (by decide)]
          exact hfault 23 (.inr rfl)
      · rw [if_neg hchid]
        exact sameFields_refl _

theorem WritesChannels.sameFields {writes : List ChannelWrite}
    (hturing : s.chipId < 0x170) (hdoc : hw.Documented s.chipId)
    (h : WritesChannels hw s writes s') (hneutral : ∀ w ∈ writes, w.ChangesOnlyEnable)
    (chid : ℕ) : SameFields (s.pccsrEntry chid) (s'.pccsrEntry chid) := by
  induction h with
  | nil same =>
      rw [same]
      exact sameFields_refl _
  | @pccsr s s₁ s₂ s' chid' enable written writes _ same write rest ih =>
      have hchip := congrArg Core.chipId same
      have hchip₂ := (chipId_of_writePccsr write).trans hchip
      have hfirst := hneutral _ List.mem_cons_self
      rw [← same] at hfirst hdoc
      have hstep := sameFields_of_writePccsr hdoc hfirst write chid
      rw [same] at hstep hdoc
      rw [← hchip₂] at hturing hdoc
      have hrest := ih hturing hdoc fun w hw => hneutral w (List.mem_cons_of_mem _ hw)
      intro i hi
      exact (hrest i hi).trans (hstep i hi)
  | chram ampere same write rest ih => exact absurd hturing (Nat.not_lt.mpr ampere)

end Documented

/-! ## A channel that has faulted -/

theorem word2_plainChannelHw (old v : BitVec 32) {i : ℕ} (hi : i ≠ 0) :
    (plainChannelHw.word2 old v).getLsbD i = old.getLsbD i := by
  have hset : ∀ n, (Bitfield.set 0 1 old n).getLsbD i = old.getLsbD i := by
    intro n
    rw [Bitfield.getLsbD_set, if_neg]
    omega
  simp only [plainChannelHw]
  split_ifs
  · exact hset 1
  · exact hset 0
  · rfl

/-- A word with `NEXT` as it is written, and without the faults that are reset. -/
def resetFaults (old v : BitVec 32) : BitVec 32 :=
  Bitfield.set 1 1 (old &&& ~~~(v &&& 0xc00000)) (Bitfield.get 1 1 v)

/-- Control registers in which a nonzero write resets a fault. -/
def resettingHw : ChannelHw :=
  { plainChannelHw with
    word2 := fun old v => plainChannelHw.word2 (resetFaults old v) v
    enableSet := fun old v => plainChannelHw.enableSet (resetFaults old v) v
    enableClear := fun old v => plainChannelHw.enableClear (resetFaults old v) v }

theorem resettingHw_documented (chipId : ℕ) : resettingHw.Documented chipId := by
  constructor
  · intro old raw i hi
    simp only [resettingHw, plainChannelHw]
    rw [BitVec.getLsbD_extractLsb', Nat.zero_add, decide_eq_true (by omega), Bool.true_and]
  · intro old raw _
    simp only [resettingHw]
    rw [word2_plainChannelHw _ _ (by decide), resetFaults, Bitfield.getLsbD_set,
      if_pos (by decide), Bitfield.testBit_get, decide_eq_true (by decide), Bool.true_and,
      BitVec.getLsbD_extractLsb']
    rfl
  · intro old raw _ i hi
    simp only [resettingHw]
    rw [word2_plainChannelHw _ _ (by omega), resetFaults, Bitfield.getLsbD_set,
      if_neg (by omega), BitVec.getLsbD_and, BitVec.getLsbD_not, BitVec.getLsbD_and,
      BitVec.getLsbD_extractLsb']
    rcases hi with rfl | rfl
    · simp
    · simp

/-- A Pascal GPU on which channel 0 has faulted. -/
def faultedChannel : Machine :=
  { Machine.ofWords [] with
    chipId := 0x132
    regs := fun r => if r = 0x00800004 then 0x00400000 else 0 }

/-- Enabling the channel resets the fault. -/
theorem enableChannel_faultedChannel :
    ¬ ∀ ret s', enableChannel resettingHw 0 0 faultedChannel = some (ret, s') →
      ∃ writes, WritesChannels resettingHw faultedChannel writes s' ∧
        ∀ w ∈ writes, w.ChangesOnlyEnable := by
  intro h
  have hrun : (enableChannel resettingHw 0 0 faultedChannel).map
      (fun p => (p.1, (p.2.pccsrEntry 0).getLsbD 54)) = some (0, false) := by
    decide
  obtain ⟨⟨ret, s'⟩, henable, hresult⟩ := Option.map_eq_some_iff.mp hrun
  obtain ⟨writes, hwrites, hneutral⟩ := h ret s' henable
  have hsame := hwrites.sameFields (by decide) (resettingHw_documented _) hneutral 0 54
    (by decide)
  have hcleared : (s'.pccsrEntry 0).getLsbD 54 = false := (Prod.mk.inj hresult).2
  rw [hcleared] at hsame
  revert hsame
  decide

theorem channelOperations_changeOnlyEnable_faultedChannel :
    ∃ s', enableChannel resettingHw 0 0 faultedChannel = some (0, s') ∧
      ∃ writes, WritesChannels resettingHw faultedChannel writes s' ∧
        ∀ w ∈ writes, (w.ChangesOnlyEnable ↔ w.IsQuiet) := by
  have hrun : (enableChannel resettingHw 0 0 faultedChannel).map Prod.fst = some 0 := by
    decide
  obtain ⟨s', henable⟩ := Kernel.exists_of_map_fst hrun
  exact ⟨s', henable,
    channelOperations_changeOnlyEnable_iff (List.mem_cons_self) henable⟩

end A100Partitioning.Nvdebug
