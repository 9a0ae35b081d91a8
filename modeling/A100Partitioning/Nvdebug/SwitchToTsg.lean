import A100Partitioning.Nvdebug.Channels
import A100Partitioning.Nvdebug.WindowMoves

/-!
# Switching to a TSG (`switch_to_tsg_file_write`)

The write walks a runlist TSG by TSG, enables the channels of those with the
wanted ID and disables all others.  This module says what it leaves behind, for a
well-formed runlist of any length.
-/

namespace A100Partitioning.Nvdebug

open Support

/-! ## Well-formed runlists -/

/-- A TSG of a runlist, and the IDs of its channels. -/
structure Tsg where
  tsgid : ℕ
  chids : List ℕ

/-- Memory shows this entry behind a pointer. -/
structure HoldsEntry (s : Machine) (k : Kva) (entry : RunlistEntry) : Prop where
  chipId : entry.chipId = s.chipId
  lo : ∃ l, s.reach k = some (.word l) ∧ s.mem l = entry.lo
  hi : if 0x140 ≤ s.chipId then ∃ l, s.reach (k.add 8) = some (.word l) ∧
    s.mem l = entry.hi else entry.hi = 0

/-- Memory shows channel entries with these IDs behind a pointer. -/
inductive HoldsChannels (s : Machine) : Kva → List ℕ → Prop where
  | nil (k : Kva) : HoldsChannels s k []
  | cons {k : Kva} {entry : RunlistEntry} {chids : List ℕ}
      (head : HoldsEntry s k entry) (channel : entry.isTsg = false)
      (rest : HoldsChannels s (k.add s.rlEntrySize) chids) :
      HoldsChannels s k (entry.chid :: chids)

/-- Memory shows a well-formed runlist behind a pointer: TSG entries, each followed
by as many channel entries as it says. -/
inductive HoldsRunlist (s : Machine) : Kva → List Tsg → Prop where
  | nil (k : Kva) : HoldsRunlist s k []
  | cons {k : Kva} {entry : RunlistEntry} {chids : List ℕ} {tsgs : List Tsg}
      (head : HoldsEntry s k entry) (tsg : entry.isTsg = true)
      (length : entry.tsgLength = chids.length)
      (channels : HoldsChannels s (k.add s.rlEntrySize) chids)
      (rest : HoldsRunlist s (k.add (s.rlEntrySize * (chids.length + 1) : ℕ)) tsgs) :
      HoldsRunlist s k (⟨entry.tsgid, chids⟩ :: tsgs)

/-- The number of entries of a runlist. -/
def runlistLength (tsgs : List Tsg) : ℕ :=
  (tsgs.map fun tsg => 1 + tsg.chids.length).sum

/-- The IDs of all channels of a runlist. -/
def runlistChids (tsgs : List Tsg) : List ℕ :=
  tsgs.flatMap Tsg.chids

/-! ## Channels -/

/-- The registers that control a channel. -/
def Core.channelRegs (c : Core) (channelRegsBase chid : ℕ) : List ℕ :=
  if c.chipId < 0x170 then [nvPccsrChannelInst chid, nvPccsrChannelInst chid + 4]
  else [chramRegister channelRegsBase chid]

/-- The field `ENABLE` of a channel. -/
def Machine.channelEnabled (s : Machine) (channelRegsBase chid : ℕ) : Bool :=
  if s.chipId < 0x170 then (s.regs (nvPccsrChannelInst chid + 4)).getLsbD 0
  else (s.regs (chramRegister channelRegsBase chid)).getLsbD 1

/-- The fields `ENABLE_SET` and `ENABLE_CLEAR` read as zero, where there are any. -/
def Machine.ReadsZero (s : Machine) (chid : ℕ) : Prop :=
  s.chipId < 0x170 →
    (s.regs (nvPccsrChannelInst chid + 4)).getLsbD 10 = false ∧
      (s.regs (nvPccsrChannelInst chid + 4)).getLsbD 11 = false

/-- The base of the registers of the channels of a runlist. -/
def Machine.channelRegsBase (s : Machine) (rlId : ℕ) : ℕ :=
  match getRunlistRam s rlId with
  | .ok (_, runlistRegsBase) =>
      if s.chipId < 0x170 then 0 else chramBase (s.readlValue (runlistRegsBase + 0x004))
  | .error _ => 0

/-- Nothing but registers and the record of accesses differs. -/
structure SameButRegs (s s' : Machine) : Prop where
  window : s'.window = s.window
  core : s'.toCore = { s.toCore with regs := s'.regs }

namespace SameButRegs

variable {s s' s'' : Machine}

theorem refl (s : Machine) : SameButRegs s s := ⟨rfl, rfl⟩

theorem trans (h : SameButRegs s s') (h' : SameButRegs s' s'') : SameButRegs s s'' := by
  have hcore := congrArg (fun c : Core => { c with regs := s''.regs }) h.core
  exact ⟨h'.window.trans h.window, h'.core.trans hcore⟩

theorem of_core {β : Type} (h : SameButRegs s s') (f : Core → β)
    (hf : ∀ c regs, f { c with regs := regs } = f c) : f s'.toCore = f s.toCore := by
  rw [h.core, hf]

theorem chipId (h : SameButRegs s s') : s'.chipId = s.chipId :=
  h.of_core Core.chipId fun _ _ => rfl

theorem mem (h : SameButRegs s s') : s'.mem = s.mem :=
  h.of_core Core.mem fun _ _ => rfl

theorem iommu (h : SameButRegs s s') : s'.iommu = s.iommu :=
  h.of_core Core.iommu fun _ _ => rfl

theorem registersOff (h : SameButRegs s s') : s'.registersOff = s.registersOff :=
  h.of_core Core.registersOff fun _ _ => rfl

theorem windowReg (h : SameButRegs s s') : s'.windowReg = s.windowReg :=
  h.of_core Core.windowReg fun _ _ => rfl

theorem rlEntrySize (h : SameButRegs s s') : s'.rlEntrySize = s.rlEntrySize :=
  h.of_core Core.rlEntrySize fun _ _ => rfl

theorem channelRegs (h : SameButRegs s s') : s'.channelRegs = s.channelRegs :=
  h.of_core Core.channelRegs fun _ _ => rfl

theorem reach (h : SameButRegs s s') (k : Kva) : s'.reach k = s.reach k := by
  have hloc : s'.windowLoc = s.windowLoc :=
    h.of_core Core.windowLoc fun _ _ => rfl
  cases k <;> simp only [Machine.reach, h.window, hloc]

theorem holdsEntry (h : SameButRegs s s') {k : Kva} {entry : RunlistEntry}
    (hentry : HoldsEntry s k entry) : HoldsEntry s' k entry := by
  refine ⟨hentry.chipId.trans h.chipId.symm, ?_, ?_⟩
  · rw [h.reach, h.mem]
    exact hentry.lo
  · rw [h.reach, h.mem, h.chipId]
    exact hentry.hi

theorem holdsChannels (h : SameButRegs s s') {k : Kva} {chids : List ℕ}
    (hchids : HoldsChannels s k chids) : HoldsChannels s' k chids := by
  induction hchids with
  | nil k => exact .nil k
  | cons head channel _ ih =>
      rw [← h.rlEntrySize] at ih
      exact .cons (h.holdsEntry head) channel ih

theorem holdsRunlist (h : SameButRegs s s') {k : Kva} {tsgs : List Tsg}
    (htsgs : HoldsRunlist s k tsgs) : HoldsRunlist s' k tsgs := by
  induction htsgs with
  | nil k => exact .nil k
  | cons head tsg length channels _ ih =>
      have hchannels := h.holdsChannels channels
      rw [← h.rlEntrySize] at hchannels ih
      exact .cons (h.holdsEntry head) tsg length hchannels ih

end SameButRegs

theorem sameButRegs_logAccess (s : Machine) (k : Kva) : SameButRegs s (s.logAccess k) := by
  cases k <;> exact ⟨rfl, rfl⟩

theorem regs_logAccess (s : Machine) (k : Kva) : (s.logAccess k).regs = s.regs := by
  cases k <;> rfl

theorem readEntry_of_holds {s : Machine} {k : Kva} {entry : RunlistEntry}
    (h : HoldsEntry s k entry) :
    ∃ s', readEntry k s = some (entry, s') ∧ SameButRegs s s' ∧ s'.regs = s.regs := by
  obtain ⟨chipId, lo, hi⟩ := entry
  obtain ⟨l, hreach, hlo⟩ := h.lo
  have hchip := h.chipId
  have hhi := h.hi
  simp only at hlo hchip hhi
  have hread : readq k s = some (lo, s.logAccess k) := by
    rw [readq, hreach, ← hlo]
  have hsame := sameButRegs_logAccess s k
  simp only [readEntry, Kernel.bind_apply, Kernel.get_apply, Option.bind_some, hread]
  by_cases hvolta : 0x140 ≤ s.chipId
  · rw [if_pos hvolta] at hhi
    obtain ⟨l', hreach', hhi⟩ := hhi
    have hread' : readq (k.add 8) (s.logAccess k) =
        some (hi, (s.logAccess k).logAccess (k.add 8)) := by
      rw [readq, hsame.reach, hreach', hsame.mem, ← hhi]
    rw [if_pos hvolta]
    simp only [Kernel.bind_apply, hread', Option.bind_some, Kernel.pure_apply]
    refine ⟨_, by rw [hchip], hsame.trans (sameButRegs_logAccess _ _), ?_⟩
    rw [regs_logAccess, regs_logAccess]
  · rw [if_neg hvolta] at hhi
    rw [if_neg hvolta]
    simp only [Kernel.pure_apply]
    exact ⟨_, by rw [hchip, hhi], hsame, regs_logAccess s k⟩

theorem Kva.add_add (k : Kva) (m n : ℕ) : (k.add m).add n = k.add (m + n : ℕ) := by
  cases k with
  | null => rfl
  | err e => rfl
  | pramin off addr target =>
      simp only [Kva.add, Nat.cast_add, Kva.pramin.injEq, and_true]
      omega
  | bar2 off =>
      simp only [Kva.add, Nat.cast_add, Kva.bar2.injEq]
      omega
  | phys addr =>
      simp only [Kva.add, Nat.cast_add, Kva.phys.injEq]
      omega

/-! ## One channel -/

/-- Exactly these channels have been enabled or disabled. -/
structure Switched (s s' : Machine) (channelRegsBase : ℕ) (wanted : List (ℕ × Bool)) :
    Prop where
  same : SameButRegs s s'
  enabled : ∀ p ∈ wanted, s'.channelEnabled channelRegsBase p.1 = p.2
  others : ∀ r, (∀ p ∈ wanted, r ∉ s.channelRegs channelRegsBase p.1) →
    s'.regs r = s.regs r

/-- These channels can be switched: their registers are theirs alone, and can be
accessed. -/
structure Switchable (s : Machine) (channelRegsBase : ℕ) (chids : List ℕ) : Prop where
  registersOn : 0x170 ≤ s.chipId → s.registersOff = false
  small : ∀ chid ∈ chids, chid < 4096
  zero : ∀ chid ∈ chids, s.ReadsZero chid
  notWindow : 0x170 ≤ s.chipId → ∀ chid ∈ chids,
    chramRegister channelRegsBase chid ≠ s.windowReg

section Channel

variable {s s' s'' : Machine} {channelRegsBase chid chid' : ℕ}

theorem not_mem_channelRegs (c : Core) (hne : chid ≠ chid') (hsmall : chid < 4096)
    (hsmall' : chid' < 4096) {r : ℕ} (h : r ∈ c.channelRegs channelRegsBase chid) :
    r ∉ c.channelRegs channelRegsBase chid' := by
  intro h'
  rw [Core.channelRegs] at h h'
  split at h
  · rename_i hturing
    simp only [if_pos hturing, List.mem_cons, List.not_mem_nil, or_false,
      nvPccsrChannelInst] at h h'
    omega
  · rename_i hampere
    simp only [if_neg hampere, List.mem_singleton, chramRegister] at h h'
    omega

theorem channelEnabled_congr (hsame : SameButRegs s s')
    (hregs : ∀ r ∈ s.channelRegs channelRegsBase chid, s'.regs r = s.regs r) :
    s'.channelEnabled channelRegsBase chid = s.channelEnabled channelRegsBase chid := by
  rw [Core.channelRegs] at hregs
  rw [Machine.channelEnabled, Machine.channelEnabled, hsame.chipId]
  by_cases hturing : s.chipId < 0x170
  · rw [if_pos hturing] at hregs ⊢
    rw [if_pos hturing, hregs _ (by simp)]
  · rw [if_neg hturing] at hregs ⊢
    rw [if_neg hturing, hregs _ (by simp)]

theorem Switched.nil (hsame : SameButRegs s s') (hregs : s'.regs = s.regs) :
    Switched s s' channelRegsBase [] :=
  ⟨hsame, fun _ h => absurd h List.not_mem_nil, fun r _ => congrFun hregs r⟩

theorem Switched.before {wanted : List (ℕ × Bool)} (hsame : SameButRegs s s')
    (hregs : s'.regs = s.regs) (h : Switched s' s'' channelRegsBase wanted) :
    Switched s s'' channelRegsBase wanted := by
  refine ⟨hsame.trans h.same, h.enabled, ?_⟩
  intro r hr
  rw [← hregs]
  apply h.others r
  rw [hsame.channelRegs]
  exact hr

theorem Switchable.of_same {chids : List ℕ} (hsame : SameButRegs s s')
    (h : Switchable s channelRegsBase chids)
    (hzero : ∀ chid ∈ chids, s'.ReadsZero chid) :
    Switchable s' channelRegsBase chids := by
  constructor
  · rw [hsame.chipId, hsame.registersOff]
    exact h.registersOn
  · exact h.small
  · exact hzero
  · rw [hsame.chipId, hsame.windowReg]
    exact h.notWindow

theorem Switchable.of_regs {chids : List ℕ} (hsame : SameButRegs s s')
    (hregs : s'.regs = s.regs) (h : Switchable s channelRegsBase chids) :
    Switchable s' channelRegsBase chids := by
  apply h.of_same hsame
  intro chid hmem hturing
  rw [hsame.chipId] at hturing
  rw [hregs]
  exact h.zero chid hmem hturing

theorem Switchable.of_subset {chids chids' : List ℕ}
    (h : Switchable s channelRegsBase chids) (hsubset : chids' ⊆ chids) :
    Switchable s channelRegsBase chids' := by
  constructor
  · exact h.registersOn
  · exact fun chid hchid => h.small chid (hsubset hchid)
  · exact fun chid hchid => h.zero chid (hsubset hchid)
  · exact fun hampere chid hchid => h.notWindow hampere chid (hsubset hchid)

theorem Switchable.head {chids : List ℕ}
    (h : Switchable s channelRegsBase (chid :: chids)) :
    Switchable s channelRegsBase [chid] :=
  h.of_subset (List.cons_subset_cons _ (List.nil_subset _))

theorem Switchable.left {chids chids' : List ℕ}
    (h : Switchable s channelRegsBase (chids ++ chids')) :
    Switchable s channelRegsBase chids :=
  h.of_subset (List.subset_append_left _ _)

theorem Switchable.right {chids chids' : List ℕ}
    (h : Switchable s channelRegsBase (chids ++ chids')) :
    Switchable s channelRegsBase chids' :=
  h.of_subset (List.subset_append_right _ _)

theorem readsZero_congr (hsame : SameButRegs s s')
    (hregs : ∀ r ∈ s.channelRegs channelRegsBase chid, s'.regs r = s.regs r)
    (h : s.ReadsZero chid) : s'.ReadsZero chid := by
  intro hturing
  rw [hsame.chipId] at hturing
  rw [Core.channelRegs, if_pos hturing] at hregs
  rw [hregs _ (by simp)]
  exact h hturing

/-- Switching some channels and then others switches all of them. -/
theorem Switched.append {wanted wanted' : List (ℕ × Bool)}
    (h : Switched s s' channelRegsBase wanted)
    (h' : Switched s' s'' channelRegsBase wanted')
    (hsmall : ∀ p ∈ wanted ++ wanted', p.1 < 4096)
    (hdisjoint : ∀ p ∈ wanted, ∀ p' ∈ wanted', p.1 ≠ p'.1) :
    Switched s s'' channelRegsBase (wanted ++ wanted') := by
  refine ⟨h.same.trans h'.same, ?_, ?_⟩
  · intro p hp
    rcases List.mem_append.mp hp with hp' | hp'
    · rw [← h.enabled p hp']
      apply channelEnabled_congr h'.same
      intro r hr
      apply h'.others r
      intro p' hmem
      exact not_mem_channelRegs _ (hdisjoint p hp' p' hmem) (hsmall p hp)
        (hsmall p' (List.mem_append_right _ hmem)) hr
    · exact h'.enabled p hp'
  · intro r hr
    rw [h'.others r, h.others r]
    · intro p hp
      exact hr p (List.mem_append_left _ hp)
    · intro p hp
      rw [h.same.channelRegs]
      exact hr p (List.mem_append_right _ hp)

theorem Switchable.after {wanted : List (ℕ × Bool)} {chids : List ℕ}
    (hall : Switchable s channelRegsBase (wanted.map Prod.fst ++ chids))
    (h : Switched s s' channelRegsBase wanted)
    (hdisjoint : ∀ p ∈ wanted, ∀ chid ∈ chids, p.1 ≠ chid) :
    Switchable s' channelRegsBase chids := by
  apply hall.right.of_same h.same
  intro chid hmem
  apply @readsZero_congr s s' channelRegsBase chid h.same _ (hall.right.zero chid hmem)
  intro r hr
  apply h.others r
  intro p hp
  exact not_mem_channelRegs _ (hdisjoint p hp chid hmem).symm (hall.right.small chid hmem)
    (hall.small p.1 (List.mem_append_left _ (List.mem_map_of_mem hp))) hr

/-- The machine after a register has changed. -/
def Machine.setReg (s : Machine) (r : ℕ) (v : BitVec 32) : Machine :=
  { s with regs := Function.update s.regs r v }

theorem writeControl_eq {react : BitVec 32 → BitVec 32 → BitVec 32} {r : ℕ}
    (v : BitVec 32) (hoff : s.registersOff = false) (hr : r ≠ s.windowReg) :
    writeControl react r v s =
      some ((), s.setReg r (react (s.regs r) v)) := by
  simp only [writeControl, Machine.setReg, Kernel.bind_apply, Kernel.get_apply, Option.bind_some,
    nvdebugWritel, Kernel.modify_apply, hoff, Bool.false_eq_true, if_false, if_neg hr,
    Machine.register]

theorem nvPccsrChannelInst_ne (c : Core) (chid i : ℕ) :
    nvPccsrChannelInst chid + i ≠ c.windowReg := by
  rw [Core.windowReg, nvPccsrChannelInst]
  split <;> omega

theorem getLsbD_withEnable (hi lo : BitVec 32) (enable : Bool) :
    ((withEnable (hi ++ lo) enable).extractLsb' 32 32).getLsbD 10 =
        (enable || hi.getLsbD 10) ∧
      ((withEnable (hi ++ lo) enable).extractLsb' 32 32).getLsbD 11 =
        (!enable || hi.getLsbD 11) := by
  have hupper : ∀ i, (hi ++ lo).getLsbD (i + 32) = hi.getLsbD i := by
    intro i
    rw [BitVec.getLsbD_append, if_neg (by omega), Nat.add_sub_cancel]
  cases enable <;>
    simp [withEnable, Bitfield.getLsbD_set, hupper 10, hupper 11,
      -BitVec.getLsbD_eq_getElem]

theorem readPccsr_eq {raw : BitVec 64}
    (hread : nvdebugReadq (nvPccsrChannelInst chid) s = some (raw, s'))
    (hraw : raw ≠ BitVec.allOnes 64) :
    s' = s ∧ s.registersOff = false ∧
      raw = s.regs (nvPccsrChannelInst chid + 4) ++ s.regs (nvPccsrChannelInst chid) := by
  have hreg : ∀ i, s.register (nvPccsrChannelInst chid + i) =
      s.regs (nvPccsrChannelInst chid + i) := by
    intro i
    rw [Machine.register, if_neg (nvPccsrChannelInst_ne _ _ _)]
  have hreg0 := hreg 0
  rw [Nat.add_zero] at hreg0
  simp only [nvdebugReadq, Kernel.bind_apply, Kernel.get_apply, Option.bind_some, hreg,
    hreg0] at hread
  split at hread
  · cases hread
    exact absurd rfl hraw
  · rename_i hoff
    split at hread
    · cases hread
      exact absurd rfl hraw
    · cases hread
      exact ⟨rfl, eq_false_of_ne_true hoff, rfl⟩

theorem updatePccsr_switched {hw : ChannelHw} {enable : Bool}
    (hturing : s.chipId < 0x170) (hzero : s.ReadsZero chid)
    (hrun : updatePccsr hw enable chid s = some (0, s')) :
    Switched s s' channelRegsBase [(chid, enable)] := by
  obtain ⟨hset, hclear⟩ := hzero hturing
  rw [updatePccsr] at hrun
  obtain ⟨raw, s₁, hread, hwrite⟩ := Kernel.bind_eq_some hrun
  by_cases hraw : raw = BitVec.allOnes 64
  · rw [if_pos hraw] at hwrite
    have hzero : -eio = 0 := congrArg Prod.fst (Option.some.inj hwrite)
    exact absurd hzero (by decide)
  obtain ⟨rfl, hoff, hraw'⟩ := readPccsr_eq hread hraw
  rw [if_neg hraw, writePccsr, bind_assoc] at hwrite
  have hne := nvPccsrChannelInst_ne s₁.toCore chid 0
  rw [Nat.add_zero] at hne
  rw [Kernel.bind_eq_of_eq (writeControl_eq _ hoff hne)] at hwrite
  have hword2 : ∀ old v, writeControl hw.word2 (nvPccsrChannelInst chid + 4) v
      (s₁.setReg (nvPccsrChannelInst chid) old) = some ((), _) :=
    fun old v => writeControl_eq v hoff (nvPccsrChannelInst_ne s₁.toCore chid 4)
  rw [Kernel.bind_eq_of_eq (hword2 _ _)] at hwrite
  cases hwrite
  obtain ⟨hbit, hbit'⟩ := getLsbD_withEnable (s₁.regs (nvPccsrChannelInst chid + 4))
    (s₁.regs (nvPccsrChannelInst chid)) enable
  rw [← hraw'] at hbit hbit'
  rw [hset, Bool.or_false] at hbit
  rw [hclear, Bool.or_false] at hbit'
  refine ⟨⟨rfl, rfl⟩, ?_, ?_⟩
  · intro p hp
    rw [List.mem_singleton.mp hp]
    simp only [Machine.channelEnabled, Machine.setReg, if_pos hturing,
      Function.update_self]
    rw [Function.update_of_ne (by omega)]
    cases enable with
    | true => exact hw.enableSet _ _ hbit hbit'
    | false => exact hw.enableClear _ _ hbit' hbit
  · intro r hr
    have hne := hr _ (List.mem_singleton_self _)
    rw [Core.channelRegs, if_pos hturing] at hne
    simp only [List.mem_cons, List.not_mem_nil, or_false, not_or] at hne
    simp only [Machine.setReg, Function.update_of_ne hne.1, Function.update_of_ne hne.2]

theorem updateChram_switched {hw : ChannelHw} {enable : Bool}
    (hampere : 0x170 ≤ s.chipId) (hoff : s.registersOff = false)
    (hwindow : chramRegister channelRegsBase chid ≠ s.windowReg)
    (hrun : updateChram hw enable channelRegsBase chid s = some ((), s')) :
    Switched s s' channelRegsBase [(chid, enable)] := by
  rw [updateChram, writeControl_eq _ hoff hwindow] at hrun
  cases hrun
  have hturing : ¬ s.chipId < 0x170 := Nat.not_lt.mpr hampere
  refine ⟨⟨rfl, rfl⟩, ?_, ?_⟩
  · intro p hp
    rw [List.mem_singleton.mp hp]
    simp only [Machine.channelEnabled, Machine.setReg, if_neg hturing,
      Function.update_self]
    cases enable with
    | true => exact hw.chramEnable _ (Nvdebug.chramEnable true) (by decide)
    | false => exact hw.chramEnable _ (Nvdebug.chramEnable false) (by decide)
  · intro r hr
    have hne := hr _ (List.mem_singleton_self _)
    rw [Core.channelRegs, if_neg hturing, List.mem_singleton] at hne
    exact Function.update_of_ne hne _ _

end Channel

/-! ## The loops -/

section Loops

variable {hw : ChannelHw} {s s' : Machine} {channelRegsBase : ℕ} {enable : Bool}

theorem switchChannel_switched {chan : Kva} {entry : RunlistEntry}
    (hentry : HoldsEntry s chan entry)
    (hable : Switchable s channelRegsBase [entry.chid])
    (hrun : switchChannel hw channelRegsBase enable chan s = some (none, s')) :
    Switched s s' channelRegsBase [(entry.chid, enable)] := by
  have hmem := List.mem_singleton_self entry.chid
  obtain ⟨s₁, hread, hsame, hregs⟩ := readEntry_of_holds hentry
  have hable₁ := hable.of_regs hsame hregs
  apply Switched.before hsame hregs
  rw [switchChannel, Kernel.bind_eq_of_eq hread,
    Kernel.bind_eq_of_eq (Kernel.get_apply s₁)] at hrun
  by_cases hturing : s₁.chipId < 0x170
  · rw [if_pos hturing] at hrun
    obtain ⟨err, s₂, hupdate, hrun⟩ := Kernel.bind_eq_some hrun
    by_cases herr : err = 0
    · rw [herr] at hupdate
      rw [if_neg (not_not.mpr herr)] at hrun
      cases hrun
      exact updatePccsr_switched hturing (hable₁.zero _ hmem) hupdate
    · rw [if_pos herr] at hrun
      cases hrun
  · have hampere := Nat.not_lt.mp hturing
    rw [if_neg hturing] at hrun
    obtain ⟨u, s₂, hupdate, hrun⟩ := Kernel.bind_eq_some hrun
    cases hrun
    exact updateChram_switched hampere (hable₁.registersOn hampere)
      (hable₁.notWindow hampere _ hmem) hupdate

theorem forChanInTsg_switched {tsg : Kva} {entry : RunlistEntry} {chids : List ℕ}
    {rounds i : ℕ} (hentry : HoldsEntry s tsg entry)
    (hlength : entry.tsgLength + 1 = i + chids.length) (hrounds : chids.length < rounds)
    (hchids : HoldsChannels s (tsg.add (s.rlEntrySize * i : ℕ)) chids)
    (hnodup : chids.Nodup) (hable : Switchable s channelRegsBase chids)
    (hrun : forChanInTsg (switchChannel hw channelRegsBase enable) tsg rounds i s =
      some (none, s')) :
    Switched s s' channelRegsBase (chids.map fun chid => (chid, enable)) := by
  induction chids generalizing rounds i s with
  | nil =>
      obtain ⟨rounds, rfl⟩ := Nat.exists_eq_succ_of_ne_zero (Nat.ne_of_gt hrounds)
      obtain ⟨s₁, hread, hsame, hregs⟩ := readEntry_of_holds hentry
      have hlast : entry.tsgLength < i := by
        rw [List.length_nil] at hlength
        omega
      rw [forChanInTsg, Kernel.bind_eq_of_eq hread, if_pos hlast] at hrun
      cases hrun
      exact .nil hsame hregs
  | cons chid chids ih =>
      obtain ⟨rounds, rfl⟩ := Nat.exists_eq_succ_of_ne_zero
        (Nat.ne_of_gt (Nat.zero_lt_of_lt hrounds))
      rw [List.length_cons] at hlength hrounds
      obtain ⟨s₁, hread, hsame, hregs⟩ := readEntry_of_holds hentry
      have hmore : ¬ entry.tsgLength < i := by
        omega
      rw [forChanInTsg, Kernel.bind_eq_of_eq hread, if_neg hmore,
        Kernel.bind_eq_of_eq (Kernel.get_apply s₁)] at hrun
      obtain ⟨found, s₂, hbody, hrest⟩ := Kernel.bind_eq_some hrun
      cases found with
      | some err =>
          cases hrest
      | none =>
          have hchids₁ := hsame.holdsChannels hchids
          have hable₁ := hable.of_regs hsame hregs
          apply Switched.before hsame hregs
          rw [← hsame.rlEntrySize] at hchids₁
          cases hchids₁ with
          | @cons _ chan _ head channel rest =>
              have hfirst := switchChannel_switched head hable₁.head hbody
              obtain ⟨hnew, hnodup⟩ := List.nodup_cons.mp hnodup
              have hdisjoint : ∀ p ∈ [(chan.chid, enable)], ∀ chid ∈ chids, p.1 ≠ chid := by
                intro p hp chid hchid heq
                rw [List.mem_singleton.mp hp] at heq
                rw [← heq] at hchid
                exact hnew hchid
              rw [Kva.add_add, ← Nat.mul_succ] at rest
              have hrest := ih (hfirst.same.holdsEntry (hsame.holdsEntry hentry))
                (by omega) (by omega)
                (hfirst.same.rlEntrySize ▸ hfirst.same.holdsChannels rest) hnodup
                (hable₁.after hfirst hdisjoint) hrest
              rw [List.map_cons, ← List.singleton_append]
              apply hfirst.append hrest
              · intro p hp
                rcases List.mem_append.mp hp with hp | hp
                · rw [List.mem_singleton.mp hp]
                  exact hable.small chan.chid List.mem_cons_self
                · obtain ⟨chid, hchid, rfl⟩ := List.mem_map.mp hp
                  exact hable.small chid (List.mem_cons_of_mem _ hchid)
              · intro p hp p' hp'
                obtain ⟨chid, hchid, rfl⟩ := List.mem_map.mp hp'
                exact hdisjoint p hp chid hchid

theorem exists_of_forChanInTsg {α : Type} {body : Kva → Kernel (Option α)} {tsg : Kva}
    {rounds i : ℕ} {res : α}
    (hrun : forChanInTsg body tsg rounds i s = some (some res, s')) :
    ∃ chan s₁ s₂, body chan s₁ = some (some res, s₂) := by
  induction rounds generalizing i s with
  | zero => cases hrun
  | succ rounds ih =>
      rw [forChanInTsg] at hrun
      obtain ⟨entry, s₁, -, hrun⟩ := Kernel.bind_eq_some hrun
      by_cases hlast : entry.tsgLength < i
      · rw [if_pos hlast] at hrun
        cases hrun
      rw [if_neg hlast, Kernel.bind_eq_of_eq (Kernel.get_apply s₁)] at hrun
      obtain ⟨found, s₂, hbody, hrun⟩ := Kernel.bind_eq_some hrun
      cases found with
      | some res' =>
          cases hrun
          exact ⟨_, s₁, _, hbody⟩
      | none => exact ih hrun

theorem switchChannel_ne_zero {chan : Kva} {err : ℤ}
    (hrun : switchChannel hw channelRegsBase enable chan s = some (some err, s')) :
    err ≠ 0 := by
  rw [switchChannel] at hrun
  obtain ⟨entry, s₁, -, hrun⟩ := Kernel.bind_eq_some hrun
  rw [Kernel.bind_eq_of_eq (Kernel.get_apply s₁)] at hrun
  by_cases hturing : s₁.chipId < 0x170
  · rw [if_pos hturing] at hrun
    obtain ⟨err', s₂, -, hrun⟩ := Kernel.bind_eq_some hrun
    by_cases herr : err' = 0
    · rw [if_neg (not_not.mpr herr)] at hrun
      cases hrun
    · rw [if_pos herr] at hrun
      cases hrun
      exact herr
  · rw [if_neg hturing] at hrun
    obtain ⟨u, s₂, -, hrun⟩ := Kernel.bind_eq_some hrun
    cases hrun

/-- What becomes of every channel of a runlist. -/
def switchPlan (targetTsgid : ℕ) (tsgs : List Tsg) : List (ℕ × Bool) :=
  tsgs.flatMap fun tsg =>
    tsg.chids.map fun chid => (chid, decide (tsg.tsgid = targetTsgid))

theorem tsgLength_lt (entry : RunlistEntry) : entry.tsgLength < 256 := by
  have hgv100 := Bitfield.get_lt 32 8 entry.lo
  have hgk110 := Bitfield.get_lt 26 6 entry.lo
  rw [RunlistEntry.tsgLength, RunlistEntry.versioned]
  split_ifs <;> omega

theorem chid_lt (entry : RunlistEntry) : entry.chid < 4096 := by
  have hgv100 := Bitfield.get_lt 0 12 entry.hi
  have hgk110 := Bitfield.get_lt 0 12 entry.lo
  rw [RunlistEntry.chid, RunlistEntry.versioned]
  split_ifs <;> omega

theorem lt_of_holdsChannels {k : Kva} {chids : List ℕ} (h : HoldsChannels s k chids) :
    ∀ chid ∈ chids, chid < 4096 := by
  induction h with
  | nil k =>
      intro chid hmem
      cases hmem
  | cons _ _ _ ih =>
      intro chid hmem
      rcases List.mem_cons.mp hmem with rfl | hmem
      · exact chid_lt _
      · exact ih chid hmem

theorem lt_of_holdsRunlist {k : Kva} {tsgs : List Tsg} (h : HoldsRunlist s k tsgs) :
    ∀ chid ∈ runlistChids tsgs, chid < 4096 := by
  induction h with
  | nil k =>
      intro chid hmem
      cases hmem
  | cons _ _ _ channels _ ih =>
      intro chid hmem
      rcases List.mem_append.mp hmem with hmem | hmem
      · exact lt_of_holdsChannels channels chid hmem
      · exact ih chid hmem

theorem map_fst_switchPlan (targetTsgid : ℕ) (tsgs : List Tsg) :
    (switchPlan targetTsgid tsgs).map Prod.fst = runlistChids tsgs := by
  rw [switchPlan, runlistChids, List.map_flatMap]
  congr 1
  funext tsg
  rw [List.map_map]
  exact List.map_id _

theorem switchTsgs_switched {targetTsgid len rounds pos : ℕ} {k : Kva} {tsgs : List Tsg}
    (hlen : pos + runlistLength tsgs = len) (hrounds : runlistLength tsgs ≤ rounds)
    (hholds : HoldsRunlist s k tsgs) (hnodup : (runlistChids tsgs).Nodup)
    (hable : Switchable s channelRegsBase (runlistChids tsgs))
    (hrun : switchTsgs hw channelRegsBase targetTsgid len rounds pos k s =
      some (0, s')) :
    Switched s s' channelRegsBase (switchPlan targetTsgid tsgs) := by
  induction tsgs generalizing rounds pos k s with
  | nil =>
      have hpos : len ≤ pos := hlen.ge
      cases rounds with
      | zero =>
          cases hrun
          exact .nil (.refl _) rfl
      | succ rounds =>
          rw [switchTsgs, if_pos hpos] at hrun
          cases hrun
          exact .nil (.refl _) rfl
  | cons tsg tsgs ih =>
      cases hholds with
      | @cons _ entry chids _ head isTsg length channels rest =>
          have hcount : runlistLength (⟨entry.tsgid, chids⟩ :: tsgs) =
              1 + chids.length + runlistLength tsgs := by
            rw [runlistLength, List.map_cons, List.sum_cons, ← runlistLength]
          have hchids : runlistChids (⟨entry.tsgid, chids⟩ :: tsgs) =
              chids ++ runlistChids tsgs := rfl
          rw [hcount] at hlen hrounds
          rw [hchids] at hnodup hable
          obtain ⟨rounds, rfl⟩ : ∃ n, rounds = n + 1 :=
            Nat.exists_eq_succ_of_ne_zero (by omega)
          have hmore : ¬ len ≤ pos := by
            omega
          obtain ⟨s₁, hread, hsame, hregs⟩ := readEntry_of_holds head
          rw [switchTsgs, if_neg hmore, Kernel.bind_eq_of_eq hread] at hrun
          obtain ⟨found, s₂, hloop, hrun⟩ := Kernel.bind_eq_some hrun
          cases found with
          | some err =>
              obtain ⟨chan, s₃, s₄, hbody⟩ := exists_of_forChanInTsg hloop
              have herr : err = 0 := congrArg Prod.fst (Option.some.inj hrun)
              exact absurd herr (switchChannel_ne_zero hbody)
          | none =>
              -- The channels of this TSG.
              have hsmall := tsgLength_lt entry
              have hable₁ := hable.of_regs hsame hregs
              have hleft := hsame.holdsChannels channels
              rw [← hsame.rlEntrySize, ← Nat.mul_one s₁.rlEntrySize] at hleft
              have hfirst := Switched.before hsame hregs
                (forChanInTsg_switched (hsame.holdsEntry head) (by omega) (by omega) hleft
                  (List.nodup_append.mp hnodup).1 hable₁.left hloop)
              -- The pointer and the position advance.
              obtain ⟨s₃, hread₃, hsame₃, hregs₃⟩ :=
                readEntry_of_holds (hfirst.same.holdsEntry head)
              obtain ⟨s₄, hread₄, hsame₄, hregs₄⟩ :=
                readEntry_of_holds ((hfirst.same.trans hsame₃).holdsEntry head)
              have hnext : nextTsg k s₃ =
                  some (k.add (s₄.rlEntrySize * (entry.tsgLength + 1) : ℕ), s₄) := by
                rw [nextTsg, Kernel.bind_eq_of_eq hread₄]
                rfl
              dsimp only at hrun
              rw [Kernel.bind_eq_of_eq hread₃, Kernel.bind_eq_of_eq hnext] at hrun
              have hsame' := hsame₃.trans hsame₄
              have hregs' : s₄.regs = s₂.regs := hregs₄.trans hregs₃
              have hrest := (hfirst.same.trans hsame').holdsRunlist rest
              rw [← length, ← (hfirst.same.trans hsame').rlEntrySize] at hrest
              -- The other TSGs.
              obtain ⟨-, hnodup', hdisjoint⟩ := List.nodup_append.mp hnodup
              have hfst : (chids.map fun chid =>
                  (chid, decide (entry.tsgid = targetTsgid))).map Prod.fst = chids := by
                rw [List.map_map]
                exact List.map_id _
              have hne : ∀ p ∈ chids.map fun chid =>
                  (chid, decide (entry.tsgid = targetTsgid)),
                  ∀ chid ∈ runlistChids tsgs, p.1 ≠ chid := by
                intro p hp chid hchid
                obtain ⟨chid', hchid', rfl⟩ := List.mem_map.mp hp
                exact hdisjoint chid' hchid' chid hchid
              have hable₂ := Switchable.after (hfst.symm ▸ hable) hfirst hne
              have hothers := Switched.before hsame' hregs'
                (ih (by omega) (by omega) hrest hnodup' (hable₂.of_regs hsame' hregs') hrun)
              have hplan : switchPlan targetTsgid (⟨entry.tsgid, chids⟩ :: tsgs) =
                  (chids.map fun chid => (chid, decide (entry.tsgid = targetTsgid))) ++
                    switchPlan targetTsgid tsgs := rfl
              rw [hplan]
              apply hfirst.append hothers
              · intro p hp
                apply hable.small
                rw [← hfst, ← map_fst_switchPlan targetTsgid tsgs, ← List.map_append]
                exact List.mem_map_of_mem hp
              · intro p hp p' hp'
                apply hne p hp
                rw [← map_fst_switchPlan targetTsgid tsgs]
                exact List.mem_map_of_mem hp'

end Loops

/-! ## The whole write -/

/-- `get_runlist_iter` finds a well-formed runlist, in which each channel ID occurs
once; `s₁` is the machine by then. -/
structure FindsRunlist (s : Machine) (rlId : ℕ) (s₁ : Machine) (tsgs : List Tsg) :
    Prop where
  located : ∃ rlIter, getRunlistIter rlId s = some ((0, rlIter), s₁) ∧
    rlIter.len = runlistLength tsgs ∧ HoldsRunlist s₁ rlIter.currEntry tsgs
  once : (runlistChids tsgs).Nodup

/-- The control registers of these channels are as documented: the write-only fields
read as zero, and channel RAM does not overlap the register of the window. -/
structure ControlRegisters (s : Machine) (channelRegsBase : ℕ) (chids : List ℕ) :
    Prop where
  zero : ∀ chid ∈ chids, s.ReadsZero chid
  notWindow : 0x170 ≤ s.chipId → ∀ chid ∈ chids,
    chramRegister channelRegsBase chid ≠ s.windowReg

section Write

variable {hw : ChannelHw} {s s₁ s' : Machine} {rlId : ℕ}

theorem readChannelRegsBase_eq {channelRegsBase : ℕ}
    (hrun : readChannelRegsBase rlId s = some (.ok channelRegsBase, s')) :
    s' = s ∧ channelRegsBase = s.channelRegsBase rlId ∧
      (0x170 ≤ s.chipId → s.registersOff = false) := by
  rw [readChannelRegsBase, Kernel.bind_eq_of_eq (Kernel.get_apply s)] at hrun
  rw [Machine.channelRegsBase]
  by_cases hturing : s.chipId < 0x170
  · rw [if_pos hturing] at hrun
    cases hrun
    refine ⟨rfl, ?_, fun hampere => absurd hturing (Nat.not_lt.mpr hampere)⟩
    split
    · rw [if_pos hturing]
    · rfl
  · rw [if_neg hturing, readChannelConfig, bind_assoc,
      Kernel.bind_eq_of_eq (Kernel.get_apply s)] at hrun
    cases hram : getRunlistRam s rlId with
    | error e =>
        rw [hram] at hrun
        cases hrun
    | ok found =>
        rw [hram] at hrun
        simp only [nvdebugReadl, bind_assoc, pure_bind] at hrun
        rw [Kernel.bind_eq_of_eq (Kernel.get_apply s)] at hrun
        by_cases hread : s.readlValue (found.2 + 0x004) = BitVec.allOnes 32
        · rw [if_pos hread] at hrun
          cases hrun
        · rw [if_neg hread] at hrun
          cases hrun
          refine ⟨rfl, ?_, ?_⟩
          · simp only [if_neg hturing]
          · intro _
            by_contra hoff
            apply hread
            rw [Machine.readlValue, if_pos (eq_true_of_ne_false hoff)]

theorem getRunlistRamFrom_error_ne {rows : List PtopDeviceInfoGa100} {id : ℤ} {i : ℕ}
    {currRlId : ℤ} {subrow : ℕ} {e : ℤ}
    (h : getRunlistRamFrom id i currRlId subrow rows = .error e) : e ≠ 0 := by
  have hne : -einval ≠ 0 ∧ -eio ≠ 0 := by decide
  induction rows generalizing i currRlId subrow with
  | nil =>
      cases h
      exact hne.1
  | cons row rows ih =>
      rw [getRunlistRamFrom] at h
      split_ifs at h
      · cases h
        exact hne.2
      · exact ih h
      · exact ih h
      · exact ih h

theorem readChannelConfig_error_ne {e : ℤ}
    (hrun : readChannelConfig rlId s = some (.error e, s')) : e ≠ 0 := by
  rw [readChannelConfig, Kernel.bind_eq_of_eq (Kernel.get_apply s)] at hrun
  cases hram : getRunlistRam s rlId with
  | error e' =>
      rw [hram] at hrun
      cases hrun
      exact getRunlistRamFrom_error_ne hram
  | ok found =>
      rw [hram] at hrun
      dsimp only at hrun
      obtain ⟨channelConfig, s₁, -, hrun⟩ := Kernel.bind_eq_some hrun
      by_cases hconfig : channelConfig = BitVec.allOnes 32
      · rw [if_pos hconfig] at hrun
        cases hrun
        decide
      · rw [if_neg hconfig] at hrun
        cases hrun

theorem readChannelRegsBase_error_ne {e : ℤ}
    (hrun : readChannelRegsBase rlId s = some (.error e, s')) : e ≠ 0 := by
  rw [readChannelRegsBase, Kernel.bind_eq_of_eq (Kernel.get_apply s)] at hrun
  by_cases hturing : s.chipId < 0x170
  · rw [if_pos hturing] at hrun
    cases hrun
  rw [if_neg hturing] at hrun
  obtain ⟨config, s₁, hconfig, hrun⟩ := Kernel.bind_eq_some hrun
  cases config with
  | ok channelConfig => cases hrun
  | error e' =>
      cases hrun
      exact readChannelConfig_error_ne hconfig

/-- A write to `switch_to_tsg` that succeeds enables exactly the channels of the
TSGs with the ID that was written, disables the other channels of the runlist, and
changes no register of any other channel. -/
theorem switchToTsg_channels {targetTsgid : BitVec 32} {count n : ℕ} {tsgs : List Tsg}
    (hfinds : FindsRunlist s rlId s₁ tsgs)
    (hregs : ControlRegisters s₁ (s₁.channelRegsBase rlId) (runlistChids tsgs))
    (hrun : fileWrite (switchToTsg hw rlId) (.ok targetTsgid) count s =
      some (.ok n, s')) :
    (∀ tsg ∈ tsgs, ∀ chid ∈ tsg.chids,
      s'.channelEnabled (s₁.channelRegsBase rlId) chid =
        decide (tsg.tsgid = targetTsgid.toNat)) ∧
    ∀ r, (∀ chid ∈ runlistChids tsgs,
        r ∉ s.channelRegs (s₁.channelRegsBase rlId) chid) →
      s'.regs r = s.regs r := by
  obtain ⟨rlIter, hiter, hlen, hholds⟩ := hfinds.located
  have hcore : s₁.toCore = s.toCore := keepsCore_getRunlistIter rlId s _ s₁ hiter
  -- The operation returned zero.
  rw [fileWrite] at hrun
  obtain ⟨err, s₂, hswitch, hrun⟩ := Kernel.bind_eq_some hrun
  by_cases herr : err = 0
  swap
  · rw [if_pos herr] at hrun
    cases hrun
  rw [if_neg (not_not.mpr herr)] at hrun
  cases hrun
  rw [herr, switchToTsg] at hswitch
  by_cases hrange : 2 ^ 12 < targetTsgid.toNat
  · rw [if_pos hrange] at hswitch
    have hzero : -erange = 0 := congrArg Prod.fst (Option.some.inj hswitch)
    exact absurd hzero (by decide)
  rw [if_neg hrange, Kernel.bind_eq_of_eq hiter] at hswitch
  dsimp only at hswitch
  rw [if_neg (not_not.mpr rfl)] at hswitch
  obtain ⟨base, s₃, hbase, hloop⟩ := Kernel.bind_eq_some hswitch
  cases base with
  | error e =>
      have herr : e = 0 := congrArg Prod.fst (Option.some.inj hloop)
      exact absurd herr (readChannelRegsBase_error_ne hbase)
  | ok base =>
      obtain ⟨rfl, rfl, hon⟩ := readChannelRegsBase_eq hbase
      have hswitched := switchTsgs_switched (by rw [Nat.zero_add, hlen]) hlen.ge hholds
        hfinds.once ⟨hon, lt_of_holdsRunlist hholds, hregs.zero, hregs.notWindow⟩ hloop
      constructor
      · intro tsg htsg chid hchid
        apply hswitched.enabled (chid, decide (tsg.tsgid = targetTsgid.toNat))
        apply List.mem_flatMap.mpr
        exact ⟨tsg, htsg, List.mem_map_of_mem hchid⟩
      · intro r hr
        rw [hswitched.others r]
        · rw [hcore]
        · intro p hp
          rw [hcore]
          apply hr
          rw [← map_fst_switchPlan targetTsgid.toNat tsgs]
          exact List.mem_map_of_mem hp

end Write

/-- Control registers that keep everything else. -/
def plainChannelHw : ChannelHw where
  word1 _ v := v
  word2 old v :=
    if v.getLsbD 10 && !v.getLsbD 11 then Bitfield.set 0 1 old 1
    else if v.getLsbD 11 && !v.getLsbD 10 then Bitfield.set 0 1 old 0
    else old
  chram old v := if v.getLsbD 0 then old &&& ~~~v else old ||| v
  enableSet old v hset hclear := by
    rw [hset, hclear, if_pos (by decide), Bitfield.getLsbD_set]
    rfl
  enableClear old v hclear hset := by
    rw [hset, hclear, if_neg (by decide), if_pos (by decide), Bitfield.getLsbD_set]
    rfl
  chramEnable old v henable := by
    cases hclear : v.getLsbD 0 with
    | false =>
        rw [if_neg Bool.false_ne_true, BitVec.getLsbD_or, henable, Bool.or_true]
        rfl
    | true =>
        rw [if_pos rfl, BitVec.getLsbD_and, BitVec.getLsbD_not, henable]
        simp

/-- A Volta GPU whose runlist 0 has two TSGs, 5 with channel 3 and 6 with channel 4;
channel 4 is enabled. -/
def twoTsgs : Machine :=
  { Machine.ofWords [(⟨.sysmem, 0x1000⟩, 0x100000001), (⟨.sysmem, 0x1008⟩, 5),
      (⟨.sysmem, 0x1010⟩, 0), (⟨.sysmem, 0x1018⟩, 3),
      (⟨.sysmem, 0x1020⟩, 0x100000001), (⟨.sysmem, 0x1028⟩, 6),
      (⟨.sysmem, 0x1030⟩, 0), (⟨.sysmem, 0x1038⟩, 4)] with
    chipId := 0x140
    regs := fun r =>
      if r = 0x2280 then 0x20000001 else if r = 0x2284 then 4
      else if r = 0x00800024 then 1 else 0 }

theorem findsRunlist_twoTsgs :
    FindsRunlist twoTsgs 0 twoTsgs [⟨5, [3]⟩, ⟨6, [4]⟩] := by
  have hrun : getRunlistIter 0 twoTsgs =
      some ((0, ⟨.phys 0x1000, 0, 4, 0⟩), twoTsgs) := rfl
  refine ⟨⟨_, hrun, rfl, ?_⟩, by decide⟩
  have hentry : ∀ {addr : ℕ} {lo hi : BitVec 64}, twoTsgs.mem ⟨.sysmem, addr⟩ = lo →
      twoTsgs.mem ⟨.sysmem, addr + 8⟩ = hi →
      HoldsEntry twoTsgs (.phys addr) ⟨0x140, lo, hi⟩ := by
    intro addr lo hi hlo hhi
    exact ⟨rfl, ⟨_, rfl, hlo⟩, ⟨_, rfl, hhi⟩⟩
  have hchannel : ∀ {addr : ℕ} {chid : BitVec 64}, twoTsgs.mem ⟨.sysmem, addr⟩ = 0 →
      twoTsgs.mem ⟨.sysmem, addr + 8⟩ = chid →
      HoldsChannels twoTsgs (.phys addr) [Bitfield.get 0 12 chid] := by
    intro addr chid hlo hhi
    exact .cons (hentry hlo hhi)
      (by simp [RunlistEntry.isTsg, RunlistEntry.versioned]) (.nil _)
  have hlast := HoldsRunlist.cons (@hentry 0x1020 0x100000001 6 (by decide) (by decide))
    rfl rfl (@hchannel 0x1030 4 (by decide) (by decide)) (.nil _)
  exact HoldsRunlist.cons (@hentry 0x1000 0x100000001 5 (by decide) (by decide))
    rfl rfl (@hchannel 0x1010 3 (by decide) (by decide)) hlast

/-- Writing 5 swaps the two channels. -/
theorem switchToTsg_channels_two :
    ∃ s', fileWrite (switchToTsg plainChannelHw 0) (.ok 5) 1 twoTsgs =
        some (.ok 1, s') ∧
      s'.channelEnabled 0 3 = true ∧ s'.channelEnabled 0 4 = false := by
  have hresult : (fileWrite (switchToTsg plainChannelHw 0) (.ok 5) 1 twoTsgs).map
      Prod.fst = some (.ok 1) := by
    decide +kernel
  obtain ⟨s', hrun⟩ := Kernel.exists_of_map_fst hresult
  have hregs : ControlRegisters twoTsgs (twoTsgs.channelRegsBase 0) [3, 4] := by
    constructor
    · intro chid hmem _
      simp only [List.mem_cons, List.not_mem_nil, or_false] at hmem
      rcases hmem with rfl | rfl <;> decide
    · intro hampere
      exact absurd hampere (by decide)
  obtain ⟨hchannels, -⟩ := switchToTsg_channels findsRunlist_twoTsgs hregs hrun
  exact ⟨s', hrun, hchannels ⟨5, [3]⟩ (by simp) 3 (by simp),
    hchannels ⟨6, [4]⟩ (by simp) 4 (by simp)⟩

end A100Partitioning.Nvdebug
