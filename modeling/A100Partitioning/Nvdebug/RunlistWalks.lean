import A100Partitioning.Nvdebug.RunlistOps
import A100Partitioning.Nvdebug.SwitchToTsg

/-!
# How far the walks read

`switch_to_tsg_file_write` and `set_channel_preemption_mode` step through a runlist by the
lengths in its entries, and only compare the position of each TSG with the length of the
runlist.  The walks are stated here by how they read entries, so that the same walk can be
run with readers that check the entry.
-/

namespace A100Partitioning.Nvdebug

open Support Keeping

/-! ## The walks by their readers -/

/-- How entries are read: as a TSG, and as a channel. -/
structure EntryReaders where
  tsg : Kva → Kernel RunlistEntry
  chan : Kva → Kernel RunlistEntry

/-- `for_chan_in_tsg`. -/
def forChanInTsgBy (r : EntryReaders) {α : Type} (body : Kva → Kernel (Option α)) (tsg : Kva) :
    ℕ → ℕ → Kernel (Option α)
  | 0, _ => return none
  | rounds + 1, i => do
      if (← r.tsg tsg).tsgLength < i then return none
      match ← body (tsg.add ((← get).rlEntrySize * i : ℕ)) with
      | some res => return some res
      | none => forChanInTsgBy r body tsg rounds (i + 1)

/-- `next_tsg`. -/
def nextTsgBy (r : EntryReaders) (tsg : Kva) : Kernel Kva := do
  let entry ← r.tsg tsg
  return tsg.add ((← get).rlEntrySize * (entry.tsgLength + 1) : ℕ)

/-- The body of the inner loop of `switch_to_tsg_file_write`. -/
def switchChannelBy (r : EntryReaders) (hw : ChannelHw) (channelRegsBase : ℕ) (enable : Bool)
    (chan : Kva) : Kernel (Option ℤ) := do
  let entry ← r.chan chan
  if (← get).chipId < 0x170 then
    let err ← updatePccsr hw enable entry.chid
    if err ≠ 0 then return some err
    return none
  updateChram hw enable channelRegsBase entry.chid
  return none

/-- The outer loop of `switch_to_tsg_file_write`. -/
def switchTsgsBy (r : EntryReaders) (hw : ChannelHw) (channelRegsBase targetTsgid len : ℕ) :
    ℕ → ℕ → Kva → Kernel ℤ
  | 0, _, _ => return 0
  | rounds + 1, pos, tsg => do
      if len ≤ pos then return 0
      let entry ← r.tsg tsg
      let enable := decide (entry.tsgid = targetTsgid)
      match ← forChanInTsgBy r (switchChannelBy r hw channelRegsBase enable) tsg 256 1 with
      | some err => return err
      | none =>
          let tsgLength := (← r.tsg tsg).tsgLength
          let next ← nextTsgBy r tsg
          switchTsgsBy r hw channelRegsBase targetTsgid len rounds
            (pos + (1 + tsgLength)) next

/-- The body of the inner loop of `set_channel_preemption_mode`. -/
def matchChannelBy (r : EntryReaders) (chanId : ℕ) (chan : Kva) :
    Kernel (Option (ℕ × InstTarget)) := do
  let entry ← r.chan chan
  if entry.chid = chanId then return some (entry.instancePtr, entry.instTarget)
  return none

/-- The outer loop of `set_channel_preemption_mode`. -/
def findChannelBy (r : EntryReaders) (chanId len : ℕ) :
    ℕ → ℕ → Kva → Kernel (ℕ × InstTarget)
  | 0, _, _ => return (0, .vidMem)
  | rounds + 1, pos, tsg => do
      if len ≤ pos then return (0, .vidMem)
      let found ← forChanInTsgBy r (matchChannelBy r chanId) tsg 256 1
      let tsgLength := (← r.tsg tsg).tsgLength
      let next ← nextTsgBy r tsg
      match found with
      | some (instancePtr, instanceTarget) =>
          if instancePtr ≠ 0 then return (instancePtr, instanceTarget)
          findChannelBy r chanId len rounds (pos + (1 + tsgLength)) next
      | none => findChannelBy r chanId len rounds (pos + (1 + tsgLength)) next

/-- The driver's readers, which check nothing. -/
def driverReaders : EntryReaders := ⟨readEntry, readEntry⟩

theorem forChanInTsgBy_driver {α : Type} (body : Kva → Kernel (Option α)) (tsg : Kva)
    (rounds i : ℕ) :
    forChanInTsgBy driverReaders body tsg rounds i = forChanInTsg body tsg rounds i := by
  induction rounds generalizing i with
  | zero => rfl
  | succ rounds ih =>
      rw [forChanInTsgBy, forChanInTsg]
      simp only [ih]
      rfl

/-- With the driver's readers, the walk is the one of `switch_to_tsg_file_write`. -/
theorem switchTsgsBy_driver (hw : ChannelHw) (channelRegsBase targetTsgid len rounds pos : ℕ)
    (tsg : Kva) :
    switchTsgsBy driverReaders hw channelRegsBase targetTsgid len rounds pos tsg =
      switchTsgs hw channelRegsBase targetTsgid len rounds pos tsg := by
  induction rounds generalizing pos tsg with
  | zero => rfl
  | succ rounds ih =>
      rw [switchTsgsBy, switchTsgs]
      simp only [forChanInTsgBy_driver, ih]
      rfl

/-- With the driver's readers, the walk is the one of `set_channel_preemption_mode`. -/
theorem findChannelBy_driver (chanId len rounds pos : ℕ) (tsg : Kva) :
    findChannelBy driverReaders chanId len rounds pos tsg =
      findChannel chanId len rounds pos tsg := by
  induction rounds generalizing pos tsg with
  | zero => rfl
  | succ rounds ih =>
      rw [findChannelBy, findChannel]
      simp only [forChanInTsgBy_driver, ih]
      rfl

/-! ## Checked readers -/

/-- Read an entry only if it is one of the first `len`. -/
def readWithin (base : Kva) (len : ℕ) (k : Kva) : Kernel RunlistEntry := do
  let s ← get
  if ∃ i < len, k = base.add (s.rlEntrySize * i : ℕ) then readEntry k else oops

/-- Readers that stop at an entry outside of the runlist, and at any entry that is read as a
TSG without being one. -/
def checkedReaders (base : Kva) (len : ℕ) : EntryReaders where
  tsg k := do
    let entry ← readWithin base len k
    if entry.isTsg then return entry else oops
  chan := readWithin base len

/-- Where the checks pass, the walk is the driver's. -/
structure EntryReaders.Within (r r' : EntryReaders) : Prop where
  tsg : ∀ k, Keeping.Within (r.tsg k) (r'.tsg k)
  chan : ∀ k, Keeping.Within (r.chan k) (r'.chan k)

theorem readWithin_within (base : Kva) (len : ℕ) (k : Kva) :
    Keeping.Within (readWithin base len k) (readEntry k) := by
  intro s p hrun
  rw [readWithin, Kernel.bind_eq_of_eq (Kernel.get_apply s)] at hrun
  exact Keeping.Within.check (Keeping.Within.refl _) s p hrun

theorem checkedReaders_within (base : Kva) (len : ℕ) :
    (checkedReaders base len).Within driverReaders := by
  refine ⟨fun k => ?_, readWithin_within base len⟩
  have hcheck : Keeping.Within ((checkedReaders base len).tsg k) (readEntry k >>= pure) :=
    (readWithin_within base len k).bind fun entry => .check (.refl _)
  rw [bind_pure] at hcheck
  exact hcheck

section Within

variable {r r' : EntryReaders}

theorem forChanInTsgBy_within (h : r.Within r') {α : Type} {body body' : Kva → Kernel (Option α)}
    (hbody : ∀ k, Keeping.Within (body k) (body' k)) (tsg : Kva) (rounds i : ℕ) :
    Keeping.Within (forChanInTsgBy r body tsg rounds i)
      (forChanInTsgBy r' body' tsg rounds i) := by
  induction rounds generalizing i with
  | zero => exact .refl _
  | succ rounds ih =>
      refine (h.tsg tsg).bind fun entry => .ite (.refl _) ?_
      refine (Keeping.Within.refl _).bind fun s => (hbody _).bind fun found => ?_
      cases found with
      | none => exact ih (i + 1)
      | some res => exact .refl _

theorem nextTsgBy_within (h : r.Within r') (tsg : Kva) :
    Keeping.Within (nextTsgBy r tsg) (nextTsgBy r' tsg) :=
  (h.tsg tsg).bind fun _ => .refl _

theorem switchTsgsBy_within (h : r.Within r') (hw : ChannelHw)
    (channelRegsBase targetTsgid len rounds pos : ℕ) (tsg : Kva) :
    Keeping.Within (switchTsgsBy r hw channelRegsBase targetTsgid len rounds pos tsg)
      (switchTsgsBy r' hw channelRegsBase targetTsgid len rounds pos tsg) := by
  induction rounds generalizing pos tsg with
  | zero => exact .refl _
  | succ rounds ih =>
      refine .ite (.refl _) ((h.tsg tsg).bind fun entry => ?_)
      have hbody (enable : Bool) (k : Kva) :
          Keeping.Within (switchChannelBy r hw channelRegsBase enable k)
            (switchChannelBy r' hw channelRegsBase enable k) :=
        (h.chan k).bind fun _ => .refl _
      refine (forChanInTsgBy_within h (hbody _) tsg 256 1).bind fun found => ?_
      cases found with
      | none =>
          refine (h.tsg tsg).bind fun entry' => ?_
          exact (nextTsgBy_within h tsg).bind fun next => ih _ next
      | some err => exact .refl _

theorem findChannelBy_within (h : r.Within r') (chanId len rounds pos : ℕ) (tsg : Kva) :
    Keeping.Within (findChannelBy r chanId len rounds pos tsg)
      (findChannelBy r' chanId len rounds pos tsg) := by
  induction rounds generalizing pos tsg with
  | zero => exact .refl _
  | succ rounds ih =>
      have hbody (k : Kva) : Keeping.Within (matchChannelBy r chanId k)
          (matchChannelBy r' chanId k) := (h.chan k).bind fun _ => .refl _
      refine .ite (.refl _) ?_
      refine (forChanInTsgBy_within h hbody tsg 256 1).bind fun found => ?_
      refine (h.tsg tsg).bind fun entry => (nextTsgBy_within h tsg).bind fun next => ?_
      cases found with
      | none => exact ih _ next
      | some found => exact .ite (.refl _) (ih _ next)

end Within

/-- A checked run of the walk is a run of `switch_to_tsg_file_write`. -/
theorem switchTsgs_of_checked {base : Kva} {listLen : ℕ} {hw : ChannelHw}
    {channelRegsBase targetTsgid len rounds pos : ℕ} {tsg : Kva} {s : Machine}
    {p : ℤ × Machine}
    (h : switchTsgsBy (checkedReaders base listLen) hw channelRegsBase targetTsgid len rounds
      pos tsg s = some p) :
    switchTsgs hw channelRegsBase targetTsgid len rounds pos tsg s = some p := by
  rw [← switchTsgsBy_driver]
  exact switchTsgsBy_within (checkedReaders_within base listLen) _ _ _ _ _ _ _ s p h

/-- A checked run of the walk is a run of `set_channel_preemption_mode`. -/
theorem findChannel_of_checked {base : Kva} {listLen chanId len rounds pos : ℕ} {tsg : Kva}
    {s : Machine} {p : (ℕ × InstTarget) × Machine}
    (h : findChannelBy (checkedReaders base listLen) chanId len rounds pos tsg s = some p) :
    findChannel chanId len rounds pos tsg s = some p := by
  rw [← findChannelBy_driver]
  exact findChannelBy_within (checkedReaders_within base listLen) _ _ _ _ _ s p h

/-! ## Runlists in memory -/

/-- Nothing but registers, the power state and the record of accesses differs. -/
structure SameMemory (s s' : Machine) : Prop where
  window : s'.window = s.window
  core : s'.toCore = { s.toCore with regs := s'.regs, suspended := s'.suspended }

namespace SameMemory

variable {s s' s'' : Machine}

theorem trans (h : SameMemory s s') (h' : SameMemory s' s'') : SameMemory s s'' := by
  have hcore := congrArg
    (fun c : Core => { c with regs := s''.regs, suspended := s''.suspended }) h.core
  exact ⟨h'.window.trans h.window, h'.core.trans hcore⟩

theorem of_core {β : Type} (h : SameMemory s s') (f : Core → β)
    (hf : ∀ c regs suspended, f { c with regs := regs, suspended := suspended } = f c) :
    f s'.toCore = f s.toCore := by
  rw [h.core, hf]

theorem rlEntrySize (h : SameMemory s s') : s'.rlEntrySize = s.rlEntrySize :=
  h.of_core Core.rlEntrySize fun _ _ _ => rfl

theorem chipId (h : SameMemory s s') : s'.chipId = s.chipId :=
  h.of_core Core.chipId fun _ _ _ => rfl

theorem windowReg (h : SameMemory s s') : s'.windowReg = s.windowReg :=
  h.of_core Core.windowReg fun _ _ _ => rfl

theorem reach (h : SameMemory s s') (k : Kva) : s'.reach k = s.reach k := by
  have hloc : s'.windowLoc = s.windowLoc := h.of_core Core.windowLoc fun _ _ _ => rfl
  cases k <;> simp only [Machine.reach, h.window, hloc]

theorem holdsEntry (h : SameMemory s s') {k : Kva} {entry : RunlistEntry}
    (hentry : HoldsEntry s k entry) : HoldsEntry s' k entry := by
  have hmem : s'.mem = s.mem := h.of_core Core.mem fun _ _ _ => rfl
  refine ⟨hentry.chipId.trans h.chipId.symm, ?_, ?_⟩
  · rw [h.reach, hmem]
    exact hentry.lo
  · rw [h.chipId, h.reach, hmem]
    exact hentry.hi

end SameMemory

theorem SameButRegs.sameMemory {s s' : Machine} (h : SameButRegs s s') : SameMemory s s' := by
  have hsuspended : s'.suspended = s.suspended := h.of_core Core.suspended fun _ _ => rfl
  refine ⟨h.window, ?_⟩
  rw [hsuspended]
  exact h.core

/-- The machine with other registers, and suspended or not. -/
def Machine.withRegisters (s : Machine) (regs : ℕ → BitVec 32) (suspended : Bool) : Machine :=
  { s with regs := regs, suspended := suspended }

theorem sameMemory_withRegisters (s : Machine) (regs : ℕ → BitVec 32) (suspended : Bool) :
    SameMemory s (s.withRegisters regs suspended) := ⟨rfl, rfl⟩

/-- The pointer to an entry. -/
def Machine.entryPtr (s : Machine) (base : Kva) (i : ℕ) : Kva := base.add (s.rlEntrySize * i : ℕ)

/-- Memory shows these entries one behind the other. -/
def HoldsEntries (s : Machine) (base : Kva) (entries : List RunlistEntry) : Prop :=
  ∀ (i : ℕ) (h : i < entries.length), HoldsEntry s (s.entryPtr base i) entries[i]

/-- TSGs, each with as many entries behind it as it says. -/
inductive WholeTsgs : List RunlistEntry → Prop where
  | nil : WholeTsgs []
  | cons {entry : RunlistEntry} {channels rest : List RunlistEntry}
      (tsg : entry.isTsg = true) (length : channels.length = entry.tsgLength)
      (whole : WholeTsgs rest) : WholeTsgs (entry :: (channels ++ rest))

/-- Whatever the registers hold, and whatever is written, both walks read only entries of
the runlist, and only TSGs as TSGs.  The channel RAM must not be on the register of the
window through which the runlist may be read. -/
structure WalksWithin (s : Machine) (base : Kva) (len : ℕ) : Prop where
  switches : ∀ regs suspended hw channelRegsBase targetTsgid,
    (0x170 ≤ s.chipId → ∀ chid < 4096, chramRegister channelRegsBase chid ≠ s.windowReg) →
    (switchTsgsBy (checkedReaders base len) hw channelRegsBase targetTsgid len len 0 base
      (s.withRegisters regs suspended)).isSome
  finds : 0x170 ≤ s.chipId → ∀ regs suspended chanId,
    (findChannelBy (checkedReaders base len) chanId len len 0 base
      (s.withRegisters regs suspended)).isSome

/-! ## Reading entries -/

theorem Core.rlEntrySize_pos (c : Core) : 0 < c.rlEntrySize := by
  rw [Core.rlEntrySize]
  split_ifs <;> decide

/-- Pointers to different offsets differ, unless there is nothing behind them. -/
theorem Kva.add_inj {s : Machine} {k : Kva} (hreach : s.reach k ≠ none) {m n : ℕ}
    (h : k.add m = k.add n) : m = n := by
  cases k with
  | null => exact absurd rfl hreach
  | err e => exact absurd rfl hreach
  | pramin off addr target =>
      have hoff : off + (m : ℤ) = off + n := (Kva.pramin.inj h).1
      omega
  | bar2 off =>
      have hoff : (off + (m : ℤ)).toNat = (off + n : ℤ).toNat := Kva.bar2.inj h
      omega
  | phys addr =>
      have haddr : (addr + (m : ℤ)).toNat = (addr + n : ℤ).toNat := Kva.phys.inj h
      omega

/-- What holds of a machine is about registers at most, apart from the memory. -/
structure SeesMemory (s₀ : Machine) (I : Machine → Prop) : Prop where
  memory : ∀ s, I s → SameMemory s₀ s
  reads : ∀ s s', I s → SameButRegs s s' → s'.regs = s.regs → I s'

section Reading

variable {s₀ : Machine} {I : Machine → Prop} {base : Kva} {entries : List RunlistEntry}

theorem SeesMemory.entryPtr_add (hI : SeesMemory s₀ I) {s : Machine} (hs : I s) (p i : ℕ) :
    (s₀.entryPtr base p).add (s.rlEntrySize * i : ℕ) = s₀.entryPtr base (p + i) := by
  rw [(hI.memory s hs).rlEntrySize, Machine.entryPtr, Machine.entryPtr, Kva.add_add,
    Nat.mul_add]

theorem readWithin_gives (hI : SeesMemory s₀ I) (hholds : HoldsEntries s₀ base entries)
    {i : ℕ} (hi : i < entries.length) :
    Gives I (· = entries[i]) (readWithin base entries.length (s₀.entryPtr base i)) := by
  intro s hs
  have hmemory := hI.memory s hs
  have hwithin : ∃ j < entries.length,
      s₀.entryPtr base i = base.add (s.rlEntrySize * j : ℕ) := by
    refine ⟨i, hi, ?_⟩
    rw [hmemory.rlEntrySize]
    rfl
  obtain ⟨s', hread, hsame, hregs⟩ := readEntry_of_holds (hmemory.holdsEntry (hholds i hi))
  refine ⟨entries[i], s', ?_, rfl, hI.reads s s' hs hsame hregs⟩
  rw [readWithin, Kernel.bind_eq_of_eq (Kernel.get_apply s), if_pos hwithin]
  exact hread

theorem readWithin_fails (hI : SeesMemory s₀ I) (hholds : HoldsEntries s₀ base entries)
    (hne : entries ≠ []) {i : ℕ} (hi : entries.length ≤ i) :
    Fails I (readWithin base entries.length (s₀.entryPtr base i)) := by
  intro s hs
  have hbase : s₀.reach base ≠ none := by
    obtain ⟨l, hreach, -⟩ := (hholds 0 (List.length_pos_iff.mpr hne)).lo
    rw [Machine.entryPtr, Nat.mul_zero, Kva.add_zero] at hreach
    rw [hreach]
    exact Option.some_ne_none _
  have hbeyond : ¬ ∃ j < entries.length,
      s₀.entryPtr base i = base.add (s.rlEntrySize * j : ℕ) := by
    rintro ⟨j, hj, heq⟩
    rw [(hI.memory s hs).rlEntrySize] at heq
    have hindex := Nat.eq_of_mul_eq_mul_left s₀.rlEntrySize_pos (Kva.add_inj hbase heq)
    omega
  rw [readWithin, Kernel.bind_eq_of_eq (Kernel.get_apply s), if_neg hbeyond]
  rfl

theorem tsgReader_gives (hI : SeesMemory s₀ I) (hholds : HoldsEntries s₀ base entries)
    {i : ℕ} (hi : i < entries.length) (htsg : entries[i].isTsg = true) :
    Gives I (· = entries[i])
      ((checkedReaders base entries.length).tsg (s₀.entryPtr base i)) := by
  apply (readWithin_gives hI hholds hi).bind
  rintro entry rfl
  rw [if_pos htsg]
  exact .pure rfl

theorem tsgReader_fails (hI : SeesMemory s₀ I) (hholds : HoldsEntries s₀ base entries)
    {i : ℕ} (hi : i < entries.length) (htsg : ¬ entries[i].isTsg = true) :
    Fails I ((checkedReaders base entries.length).tsg (s₀.entryPtr base i)) := by
  apply (readWithin_gives hI hholds hi).bind_fails
  rintro entry rfl
  rw [if_neg htsg]
  exact fun _ _ => rfl

theorem nextTsgBy_gives (hI : SeesMemory s₀ I) (hholds : HoldsEntries s₀ base entries)
    {i : ℕ} (hi : i < entries.length) (htsg : entries[i].isTsg = true) :
    Gives I (· = s₀.entryPtr base (i + (1 + entries[i].tsgLength)))
      (nextTsgBy (checkedReaders base entries.length) (s₀.entryPtr base i)) := by
  apply (tsgReader_gives hI hholds hi htsg).bind
  rintro entry rfl s hs
  refine ⟨_, s, rfl, ?_, hs⟩
  rw [hI.entryPtr_add hs, Nat.add_comm 1]

/-! ## The inner loop -/

section Inner

variable {α : Type} {body : Kva → Kernel (Option α)} {i : ℕ}

/-- Within the runlist, the inner loop reads what its body reads. -/
theorem forChanInTsgBy_gives (hI : SeesMemory s₀ I) (hholds : HoldsEntries s₀ base entries)
    (hi : i < entries.length) (htsg : entries[i].isTsg = true)
    (hfits : i + entries[i].tsgLength < entries.length) {q : Option α → Prop} (hnone : q none)
    (hbody : ∀ j < entries.length, Gives I q (body (s₀.entryPtr base j))) (rounds k : ℕ) :
    Gives I q (forChanInTsgBy (checkedReaders base entries.length) body (s₀.entryPtr base i)
      rounds k) := by
  induction rounds generalizing k with
  | zero => exact .pure hnone
  | succ rounds ih =>
      apply (tsgReader_gives hI hholds hi htsg).bind
      rintro entry rfl
      by_cases hlast : entries[i].tsgLength < k
      · rw [if_pos hlast]
        exact .pure hnone
      · rw [if_neg hlast]
        intro s hs
        rw [Kernel.bind_eq_of_eq (Kernel.get_apply s), hI.entryPtr_add hs]
        have hstep := (hbody (i + k) (by omega)).bind (f := fun found => match found with
          | some res => pure (some res)
          | none => forChanInTsgBy (checkedReaders base entries.length) body
              (s₀.entryPtr base i) rounds (k + 1)) (q := q) ?_
        · exact hstep s hs
        · intro found hfound
          cases found with
          | some res => exact .pure hfound
          | none => exact ih (k + 1)

theorem forChanInTsgBy_fails (hI : SeesMemory s₀ I) (hholds : HoldsEntries s₀ base entries)
    (hi : i < entries.length) (htsg : entries[i].isTsg = true)
    (hlong : entries.length ≤ i + entries[i].tsgLength)
    (hbody : ∀ j < entries.length, Gives I (· = none) (body (s₀.entryPtr base j)))
    (hbeyond : ∀ j, entries.length ≤ j → Fails I (body (s₀.entryPtr base j)))
    {rounds k : ℕ} (hk : i + k ≤ entries.length) (hrounds : entries.length < i + k + rounds) :
    Fails I (forChanInTsgBy (checkedReaders base entries.length) body (s₀.entryPtr base i)
      rounds k) := by
  induction rounds generalizing k with
  | zero => omega
  | succ rounds ih =>
      apply (tsgReader_gives hI hholds hi htsg).bind_fails
      rintro entry rfl
      rw [if_neg (by omega : ¬ entries[i].tsgLength < k)]
      intro s hs
      rw [Kernel.bind_eq_of_eq (Kernel.get_apply s), hI.entryPtr_add hs]
      by_cases hend : i + k = entries.length
      · exact (hbeyond (i + k) hend.ge).bind _ s hs
      · apply (hbody (i + k) (by omega)).bind_fails _ s hs
        rintro found rfl
        exact ih (by omega) (by omega)

end Inner

end Reading

/-! ## The bodies of the inner loops -/

section Bodies

variable {s₀ : Machine} {I : Machine → Prop} {hw : ChannelHw}

theorem seesMemory_sameMemory (s₀ : Machine) : SeesMemory s₀ (SameMemory s₀) :=
  ⟨fun _ h => h, fun _ _ h hsame _ => h.trans hsame.sameMemory⟩

theorem writeControl_runs {react : BitVec 32 → BitVec 32 → BitVec 32} {r : ℕ}
    (hr : r ≠ s₀.windowReg) (v : BitVec 32) :
    Runs (SameMemory s₀) (writeControl react r v) := by
  intro s hs
  cases hoff : s.registersOff with
  | false =>
      refine ⟨(), _, writeControl_eq v hoff (hs.windowReg ▸ hr), hs.trans ⟨rfl, rfl⟩⟩
  | true =>
      refine ⟨(), s, ?_, hs⟩
      simp only [writeControl, Kernel.bind_apply, Kernel.get_apply, Option.bind_some,
        nvdebugWritel, Kernel.modify_apply, hoff, if_true]

theorem nvdebugReadq_runs (r : ℕ) : Runs I (nvdebugReadq r) := by
  intro s hs
  simp only [nvdebugReadq, Kernel.bind_apply, Kernel.get_apply, Option.bind_some]
  split_ifs
  · exact ⟨_, s, rfl, hs⟩
  · exact ⟨_, s, rfl, hs⟩
  · exact ⟨_, s, rfl, hs⟩

theorem updatePccsr_runs (enable : Bool) (chid : ℕ) :
    Runs (SameMemory s₀) (updatePccsr hw enable chid) := by
  have hword1 := nvPccsrChannelInst_ne s₀.toCore chid 0
  rw [Nat.add_zero] at hword1
  apply (nvdebugReadq_runs _).bind
  intro raw
  by_cases hraw : raw = BitVec.allOnes 64
  · rw [if_pos hraw]
    exact .pure _
  · rw [if_neg hraw]
    apply Runs.bind ((writeControl_runs hword1 _).bind fun _ =>
      writeControl_runs (nvPccsrChannelInst_ne s₀.toCore chid 4) _)
    exact fun _ => .pure _

/-- With any registers, the channels of the runlist can be switched. -/
theorem switchChannelBy_runs {base : Kva} {entries : List RunlistEntry}
    (hholds : HoldsEntries s₀ base entries) {channelRegsBase : ℕ}
    (hwindow : 0x170 ≤ s₀.chipId → ∀ chid < 4096,
      chramRegister channelRegsBase chid ≠ s₀.windowReg) (enable : Bool) {i : ℕ}
    (hi : i < entries.length) :
    Runs (SameMemory s₀) (switchChannelBy (checkedReaders base entries.length) hw
      channelRegsBase enable (s₀.entryPtr base i)) := by
  apply (readWithin_gives (seesMemory_sameMemory s₀) hholds hi).bind_runs
  rintro entry rfl s hs
  rw [Kernel.bind_eq_of_eq (Kernel.get_apply s)]
  by_cases hturing : s.chipId < 0x170
  · rw [if_pos hturing]
    apply Runs.bind (updatePccsr_runs enable _) _ s hs
    intro err
    by_cases herr : err ≠ 0
    · rw [if_pos herr]
      exact .pure _
    · rw [if_neg herr]
      exact .pure _
  · rw [if_neg hturing]
    have hampere : 0x170 ≤ s₀.chipId := hs.chipId ▸ Nat.not_lt.mp hturing
    exact Runs.bind (writeControl_runs (hwindow hampere _ (chid_lt _)) _)
      (fun _ => .pure _) s hs

theorem matchChannelBy_runs {base : Kva} {entries : List RunlistEntry}
    (hholds : HoldsEntries s₀ base entries) (chanId : ℕ) {i : ℕ} (hi : i < entries.length) :
    Runs (SameMemory s₀) (matchChannelBy (checkedReaders base entries.length) chanId
      (s₀.entryPtr base i)) := by
  apply (readWithin_gives (seesMemory_sameMemory s₀) hholds hi).bind_runs
  rintro entry rfl
  by_cases hmatch : entries[i].chid = chanId
  · rw [if_pos hmatch]
    exact .pure _
  · rw [if_neg hmatch]
    exact .pure _

/-! ### Channels that never fail -/

/-- The registers can be read, and no PCCSR entry reads as all ones. -/
structure Ready (s₀ s : Machine) : Prop where
  memory : SameMemory s₀ s
  registersOn : s.registersOff = false
  pccsr : ∀ chid, s.regs (nvPccsrChannelInst chid) = 0

theorem seesMemory_ready (s₀ : Machine) : SeesMemory s₀ (Ready s₀) := by
  refine ⟨fun _ h => h.memory, fun s s' h hsame hregs => ?_⟩
  refine ⟨h.memory.trans hsame.sameMemory, hsame.registersOff.trans h.registersOn, ?_⟩
  rw [hregs]
  exact h.pccsr

/-- Control registers whose lower PCCSR words stay zero. -/
def zeroChannelHw : ChannelHw := { plainChannelHw with word1 := fun _ _ => 0 }

theorem writeControl_ready {react : BitVec 32 → BitVec 32 → BitVec 32} {r : ℕ}
    (hr : r ≠ s₀.windowReg)
    (hreact : (∀ old v, react old v = 0) ∨ ∀ chid, r ≠ nvPccsrChannelInst chid)
    (v : BitVec 32) : Runs (Ready s₀) (writeControl react r v) := by
  intro s hs
  refine ⟨(), _, writeControl_eq v hs.registersOn (hs.memory.windowReg ▸ hr), ?_⟩
  refine ⟨hs.memory.trans ⟨rfl, rfl⟩, hs.registersOn, fun chid => ?_⟩
  rw [Machine.setReg]
  by_cases hsame : nvPccsrChannelInst chid = r
  · rcases hreact with hzero | hother
    · rw [hsame]
      exact (Function.update_self _ _ _).trans (hzero _ _)
    · exact absurd hsame.symm (hother chid)
  · exact (Function.update_of_ne hsame _ _).trans (hs.pccsr chid)

theorem updatePccsr_ready (enable : Bool) (chid : ℕ) :
    Gives (Ready s₀) (· = 0) (updatePccsr zeroChannelHw enable chid) := by
  have hread : Gives (Ready s₀) (· ≠ BitVec.allOnes 64)
      (nvdebugReadq (nvPccsrChannelInst chid)) := by
    intro s hs
    have hwindow := nvPccsrChannelInst_ne s.toCore chid 0
    rw [Nat.add_zero] at hwindow
    have hzero : s.register (nvPccsrChannelInst chid) = 0 :=
      (if_neg hwindow).trans (hs.pccsr chid)
    have hgood : isBadRead 0 = false := by decide
    refine ⟨s.register (nvPccsrChannelInst chid + 4) ++ 0#32, s, ?_, ?_, hs⟩
    · simp only [nvdebugReadq, Kernel.bind_apply, Kernel.get_apply, Option.bind_some,
        hs.registersOn, hzero, Bool.false_eq_true, if_false, hgood]
      rfl
    · intro hones
      have hbit := congrArg (fun raw => raw.getLsbD 0) hones
      rw [BitVec.getLsbD_append, if_pos (by decide), BitVec.getLsbD_allOnes] at hbit
      exact absurd hbit (by decide)
  have hword1 := nvPccsrChannelInst_ne s₀.toCore chid 0
  rw [Nat.add_zero] at hword1
  have hother : ∀ chid', nvPccsrChannelInst chid + 4 ≠ nvPccsrChannelInst chid' := by
    intro chid'
    rw [nvPccsrChannelInst, nvPccsrChannelInst]
    omega
  apply hread.bind
  intro raw hraw
  rw [if_neg hraw]
  have hwrite : Runs (Ready s₀) (writePccsr zeroChannelHw chid (withEnable raw enable)) :=
    (writeControl_ready hword1 (.inl fun _ _ => rfl) _).bind fun _ =>
      writeControl_ready (nvPccsrChannelInst_ne s₀.toCore chid 4) (.inr hother) _
  exact hwrite.gives.bind fun _ _ => .pure rfl

theorem chramRegister_ne (c : Core) {chid : ℕ} (hchid : chid < 4096) :
    chramRegister 0x20000 chid ≠ c.windowReg ∧
      ∀ chid', chramRegister 0x20000 chid ≠ nvPccsrChannelInst chid' := by
  have hregister : chramRegister 0x20000 chid = 0x20000 + 4 * chid := by
    rw [chramRegister, Nat.mod_eq_of_lt (by omega)]
  rw [hregister, Core.windowReg]
  constructor
  · split_ifs <;> omega
  · intro chid'
    rw [nvPccsrChannelInst]
    omega

/-- With such registers, the inner loop goes through all channels. -/
theorem switchChannelBy_ready {base : Kva} {entries : List RunlistEntry}
    (hholds : HoldsEntries s₀ base entries) (enable : Bool) {i : ℕ}
    (hi : i < entries.length) :
    Gives (Ready s₀) (· = none) (switchChannelBy (checkedReaders base entries.length)
      zeroChannelHw 0x20000 enable (s₀.entryPtr base i)) := by
  apply (readWithin_gives (seesMemory_ready s₀) hholds hi).bind
  rintro entry rfl s hs
  rw [Kernel.bind_eq_of_eq (Kernel.get_apply s)]
  by_cases hturing : s.chipId < 0x170
  · rw [if_pos hturing]
    apply (updatePccsr_ready enable _).bind _ s hs
    rintro err rfl
    rw [if_neg (not_not.mpr rfl)]
    exact .pure rfl
  · rw [if_neg hturing]
    obtain ⟨hwindow, hother⟩ := chramRegister_ne s₀.toCore (chid_lt entries[i])
    have hwrite : Runs (Ready s₀) (updateChram zeroChannelHw enable 0x20000 entries[i].chid) :=
      writeControl_ready hwindow (.inr hother) _
    have hend : Gives (Ready s₀) (· = none) (updateChram zeroChannelHw enable 0x20000
        entries[i].chid >>= fun _ => pure (none : Option ℤ)) :=
      hwrite.gives.bind fun _ _ => .pure rfl
    exact hend s hs

end Bodies

/-! ## The outer loops -/

section Outer

variable {s₀ : Machine} {base : Kva} {entries : List RunlistEntry}

theorem getElem_of_split {before rest : List RunlistEntry} {entry : RunlistEntry}
    (h : entries = before ++ entry :: rest) :
    ∃ hi : before.length < entries.length, entries[before.length] = entry := by
  subst h
  have hi : before.length < (before ++ entry :: rest).length := by
    rw [List.length_append, List.length_cons]
    omega
  refine ⟨hi, ?_⟩
  simp only [List.getElem_append_right le_rfl, Nat.sub_self, List.getElem_cons_zero]

theorem split_next {before channels rest : List RunlistEntry} {entry : RunlistEntry}
    (hsplit : entries = before ++ entry :: (channels ++ rest))
    (hlength : channels.length = entry.tsgLength) :
    entries = before ++ entry :: channels ++ rest ∧
      (before ++ entry :: channels).length = before.length + (1 + entry.tsgLength) := by
  constructor
  · rw [List.append_assoc]
    exact hsplit
  · rw [List.length_append, List.length_cons, hlength, Nat.add_comm 1]

/-- `switch_to_tsg_file_write` goes through whole TSGs with any registers. -/
theorem switchTsgsBy_runs (hholds : HoldsEntries s₀ base entries) (hw : ChannelHw)
    {channelRegsBase : ℕ} (targetTsgid : ℕ)
    (hwindow : 0x170 ≤ s₀.chipId → ∀ chid < 4096,
      chramRegister channelRegsBase chid ≠ s₀.windowReg)
    {rest : List RunlistEntry} (hwhole : WholeTsgs rest) {before : List RunlistEntry}
    (hsplit : entries = before ++ rest) (rounds : ℕ) :
    Runs (SameMemory s₀) (switchTsgsBy (checkedReaders base entries.length) hw
      channelRegsBase targetTsgid entries.length rounds before.length
      (s₀.entryPtr base before.length)) := by
  have hI := seesMemory_sameMemory s₀
  induction hwhole generalizing before rounds with
  | nil =>
      cases rounds with
      | zero => exact .pure _
      | succ rounds =>
          rw [List.append_nil] at hsplit
          rw [switchTsgsBy, if_pos (hsplit ▸ le_rfl)]
          exact .pure _
  | @cons entry channels rest htsg hlength _ ih =>
      cases rounds with
      | zero => exact .pure _
      | succ rounds =>
          obtain ⟨hi, hentry⟩ := getElem_of_split hsplit
          subst hentry
          have htotal := congrArg List.length hsplit
          simp only [List.length_append, List.length_cons] at htotal
          rw [switchTsgsBy, if_neg (by omega)]
          apply (tsgReader_gives hI hholds hi htsg).bind_runs
          rintro _ rfl
          apply Gives.bind_runs (forChanInTsgBy_gives hI hholds hi htsg (by omega) trivial
            (fun j hj => (switchChannelBy_runs hholds hwindow _ hj).gives) 256 1)
          rintro (_ | err) -
          · apply (tsgReader_gives hI hholds hi htsg).bind_runs
            rintro _ rfl
            apply (nextTsgBy_gives hI hholds hi htsg).bind_runs
            rintro _ rfl
            obtain ⟨hsplit', hnext⟩ := split_next hsplit hlength
            rw [← hnext]
            exact ih hsplit' rounds
          · exact .pure _

theorem findChannelBy_runs (hholds : HoldsEntries s₀ base entries) (chanId : ℕ)
    {rest : List RunlistEntry} (hwhole : WholeTsgs rest) {before : List RunlistEntry}
    (hsplit : entries = before ++ rest) (rounds : ℕ) :
    Runs (SameMemory s₀) (findChannelBy (checkedReaders base entries.length) chanId
      entries.length rounds before.length (s₀.entryPtr base before.length)) := by
  have hI := seesMemory_sameMemory s₀
  induction hwhole generalizing before rounds with
  | nil =>
      cases rounds with
      | zero => exact .pure _
      | succ rounds =>
          rw [List.append_nil] at hsplit
          rw [findChannelBy, if_pos (hsplit ▸ le_rfl)]
          exact .pure _
  | @cons entry channels rest htsg hlength _ ih =>
      cases rounds with
      | zero => exact .pure _
      | succ rounds =>
          obtain ⟨hi, hentry⟩ := getElem_of_split hsplit
          subst hentry
          have htotal := congrArg List.length hsplit
          simp only [List.length_append, List.length_cons] at htotal
          rw [findChannelBy, if_neg (by omega)]
          apply Gives.bind_runs (forChanInTsgBy_gives hI hholds hi htsg (by omega) trivial
            (fun j hj => (matchChannelBy_runs hholds chanId hj).gives) 256 1)
          intro found _
          apply (tsgReader_gives hI hholds hi htsg).bind_runs
          rintro _ rfl
          apply (nextTsgBy_gives hI hholds hi htsg).bind_runs
          rintro _ rfl
          obtain ⟨hsplit', hnext⟩ := split_next hsplit hlength
          rw [← hnext]
          cases found with
          | none => exact ih hsplit' rounds
          | some found =>
              by_cases hinstance : found.1 ≠ 0
              · simp only [if_pos hinstance]
                exact .pure _
              · simp only [if_neg hinstance]
                exact ih hsplit' rounds

/-- On any other runlist, `switch_to_tsg_file_write` reads what it should not when no
register stops it. -/
theorem switchTsgsBy_fails (hholds : HoldsEntries s₀ base entries) (targetTsgid : ℕ)
    {rest : List RunlistEntry} (hwhole : ¬ WholeTsgs rest) {before : List RunlistEntry}
    (hsplit : entries = before ++ rest) {rounds : ℕ} (hrounds : rest.length ≤ rounds) :
    Fails (Ready s₀) (switchTsgsBy (checkedReaders base entries.length) zeroChannelHw
      0x20000 targetTsgid entries.length rounds before.length
      (s₀.entryPtr base before.length)) := by
  have hI := seesMemory_ready s₀
  induction rounds generalizing before rest with
  | zero =>
      rw [List.length_eq_zero_iff.mp (Nat.le_zero.mp hrounds)] at hwhole
      exact absurd .nil hwhole
  | succ rounds ih =>
      cases rest with
      | nil => exact absurd .nil hwhole
      | cons entry tail =>
          obtain ⟨hi, hentry⟩ := getElem_of_split hsplit
          subst hentry
          have hne : entries ≠ [] := List.ne_nil_of_length_pos (by omega)
          have htotal := congrArg List.length hsplit
          simp only [List.length_append, List.length_cons] at htotal
          rw [switchTsgsBy, if_neg (by omega)]
          by_cases htsg : entries[before.length].isTsg = true
          · apply (tsgReader_gives hI hholds hi htsg).bind_fails
            rintro _ rfl
            have hbody (enable : Bool) (j : ℕ) (hj : j < entries.length) :=
              switchChannelBy_ready hholds enable hj
            by_cases hfits : before.length + entries[before.length].tsgLength < entries.length
            · apply (forChanInTsgBy_gives (q := (· = none)) hI hholds hi htsg hfits rfl
                (hbody _) 256 1).bind_fails
              rintro _ rfl
              apply (tsgReader_gives hI hholds hi htsg).bind_fails
              rintro _ rfl
              apply (nextTsgBy_gives hI hholds hi htsg).bind_fails
              rintro _ rfl
              have hchannels : (tail.take entries[before.length].tsgLength).length =
                  entries[before.length].tsgLength := List.length_take_of_le (by omega)
              have hrest : ¬ WholeTsgs (tail.drop entries[before.length].tsgLength) := by
                intro hrest
                have hcons := WholeTsgs.cons htsg hchannels hrest
                rw [List.take_append_drop] at hcons
                exact hwhole hcons
              rw [← List.take_append_drop entries[before.length].tsgLength tail] at hsplit
              obtain ⟨hsplit', hnext⟩ := split_next hsplit hchannels
              rw [← hnext]
              apply ih hrest hsplit'
              rw [List.length_drop]
              rw [List.length_cons] at hrounds
              omega
            · apply Fails.bind (forChanInTsgBy_fails hI hholds hi htsg (by omega) (hbody _)
                (fun j hj => (readWithin_fails hI hholds hne hj).bind _) (by omega) _)
              have hlt := tsgLength_lt entries[before.length]
              omega
          · exact (tsgReader_fails hI hholds hi htsg).bind _

end Outer

/-- Both walks stay within a runlist, and on its TSGs, exactly if it consists of TSGs with
as many entries behind each as it says. -/
theorem walksWithin_iff {s : Machine} {base : Kva} {entries : List RunlistEntry}
    (hholds : HoldsEntries s base entries) :
    WalksWithin s base entries.length ↔ WholeTsgs entries := by
  have hstart : s.entryPtr base 0 = base := by
    rw [Machine.entryPtr, Nat.mul_zero]
    exact Kva.add_zero base
  constructor
  · intro hwithin
    by_contra hwhole
    have hready : Ready s (s.withRegisters (fun _ => 0) false) :=
      ⟨sameMemory_withRegisters s _ _, Bool.and_false _, fun _ => rfl⟩
    have hwindow : 0x170 ≤ s.chipId → ∀ chid < 4096,
        chramRegister 0x20000 chid ≠ s.windowReg :=
      fun _ _ hchid => (chramRegister_ne s.toCore hchid).1
    have hsome := hwithin.switches (fun _ => 0) false zeroChannelHw 0x20000 0 hwindow
    have hnone := switchTsgsBy_fails hholds 0 hwhole (List.nil_append _).symm le_rfl _ hready
    rw [List.length_nil, hstart] at hnone
    rw [hnone] at hsome
    cases hsome
  · intro hwhole
    refine ⟨fun regs suspended hw channelRegsBase targetTsgid hwindow => ?_,
      fun _ regs suspended chanId => ?_⟩
    · obtain ⟨err, s', hrun, -⟩ := switchTsgsBy_runs hholds hw targetTsgid hwindow hwhole
        (List.nil_append _).symm entries.length _ (sameMemory_withRegisters s regs suspended)
      rw [List.length_nil, hstart] at hrun
      rw [hrun]
      rfl
    · obtain ⟨found, s', hrun, -⟩ := findChannelBy_runs hholds chanId hwhole
        (List.nil_append _).symm entries.length _ (sameMemory_withRegisters s regs suspended)
      rw [List.length_nil, hstart] at hrun
      rw [hrun]
      rfl

/-- Two TSGs of one channel. -/
theorem walksWithin_twoTsgs : WalksWithin twoTsgs (.phys 0x1000) 4 := by
  have hholds : HoldsEntries twoTsgs (.phys 0x1000)
      [⟨0x140, 0x100000001, 5⟩, ⟨0x140, 0, 3⟩, ⟨0x140, 0x100000001, 6⟩, ⟨0x140, 0, 4⟩] := by
    intro i hi
    simp only [List.length_cons, List.length_nil] at hi
    interval_cases i <;> exact ⟨rfl, ⟨_, rfl, rfl⟩, ⟨_, rfl, rfl⟩⟩
  have hlast : WholeTsgs [⟨0x140, 0x100000001, 6⟩, ⟨0x140, 0, 4⟩] :=
    @WholeTsgs.cons _ [⟨0x140, 0, 4⟩] _ (by decide) (by decide) .nil
  exact (walksWithin_iff hholds).mpr
    (@WholeTsgs.cons _ [⟨0x140, 0, 3⟩] _ (by decide) (by decide) hlast)

/-- A Pascal GPU with a bare channel before a TSG with one channel. -/
def bareChannel : Machine :=
  { Machine.ofWords [(⟨.sysmem, 0x1000⟩, 3), (⟨.sysmem, 0x1008⟩, 0x04002005),
      (⟨.sysmem, 0x1010⟩, 4)] with
    chipId := 0x132 }

/-- A Pascal GPU with a TSG of two channels, of which only one is in the runlist. -/
def overlongTsg : Machine :=
  { Machine.ofWords [(⟨.sysmem, 0x1000⟩, 0x08002005), (⟨.sysmem, 0x1008⟩, 3)] with
    chipId := 0x132 }

/-- The walks read the bare channel as a TSG, and an entry behind the overlong one. -/
theorem not_walksWithin :
    (HoldsEntries bareChannel (.phys 0x1000)
        [⟨0x132, 3, 0⟩, ⟨0x132, 0x04002005, 0⟩, ⟨0x132, 4, 0⟩] ∧
      ¬ WalksWithin bareChannel (.phys 0x1000) 3) ∧
    (HoldsEntries overlongTsg (.phys 0x1000) [⟨0x132, 0x08002005, 0⟩, ⟨0x132, 3, 0⟩] ∧
      ¬ WalksWithin overlongTsg (.phys 0x1000) 2) := by
  refine ⟨⟨?_, fun hwithin => ?_⟩, ⟨?_, fun hwithin => ?_⟩⟩
  · intro i hi
    simp only [List.length_cons, List.length_nil] at hi
    interval_cases i <;> exact ⟨rfl, ⟨_, rfl, rfl⟩, rfl⟩
  · have hsome := hwithin.switches (fun _ => 0) false zeroChannelHw 0x20000 0
      fun hampere => absurd hampere (by decide)
    exact absurd hsome (by decide)
  · intro i hi
    simp only [List.length_cons, List.length_nil] at hi
    interval_cases i <;> exact ⟨rfl, ⟨_, rfl, rfl⟩, rfl⟩
  · have hsome := hwithin.switches (fun _ => 0) false zeroChannelHw 0x20000 0
      fun hampere => absurd hampere (by decide)
    exact absurd hsome (by decide)

end A100Partitioning.Nvdebug
