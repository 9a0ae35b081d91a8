import A100Partitioning.Nvdebug.ProcFiles
import A100Partitioning.Nvdebug.Resubmit

/-!
# What the control files write (`runlist_procfs.c`)

The files `preempt_tsg`, `preempt_runlist` and `resubmit_runlist` put an ID into a field
of a control register.  This module says which writes an accepted ID leads to, and for
which IDs these writes name exactly the TSG or the runlist.
-/

namespace A100Partitioning.Nvdebug

open Support

/-! ## Writes -/

/-- The control files that take an ID. -/
inductive ControlFile where
  | preemptTsg
  | preemptRunlist
  | resubmitRunlist
  deriving DecidableEq

/-- A write to a control register.  For a submission, also the register that the present
configuration of the runlist was read from. -/
inductive ControlWrite where
  | tsg (reg : ℕ) (raw : BitVec 32)
  | runlist (reg : ℕ) (raw : BitVec 32)
  | submit (read reg : ℕ) (raw : BitVec 64)

/-- The write, as the driver does it. -/
def ControlWrite.perform : ControlWrite → Kernel Unit
  | .tsg reg raw => nvdebugWritel reg raw
  | .runlist reg raw => nvdebugWritel reg raw
  | .submit _ reg raw => nvdebugWriteq reg raw

/-- One write after another. -/
def performAll : List ControlWrite → Kernel Unit
  | [] => return ()
  | w :: writes => do
      w.perform
      performAll writes

/-- An error, or a list of writes. -/
def answer : Except ℤ (List ControlWrite) → Kernel ℤ
  | .error e => return e
  | .ok writes => do
      performAll writes
      return 0

/-- What a write to the file does, on runlist `rlId`; this number is what the entry of
`resubmit_runlist` holds. -/
def ControlFile.operation (stack : BitVec 32) (rlId value : ℕ) : ControlFile → Kernel ℤ
  | .preemptTsg => preemptTsgChecked rlId value
  | .preemptRunlist => Nvdebug.preemptRunlist stack value
  | .resubmitRunlist => Nvdebug.resubmitRunlist stack rlId value

/-- The ID that a write to the file is about. -/
def ControlFile.target (rlId value : ℕ) : ControlFile → ℕ
  | .preemptTsg => value
  | .preemptRunlist => value
  | .resubmitRunlist => rlId

/-! ## Which writes there are -/

/-- The writes of `preempt_tsg_file_write`. -/
def preemptTsgWrites (s : Machine) (rlId tsgId : ℕ) : Except ℤ (List ControlWrite) :=
  if 2 ^ 12 < tsgId then .error (-erange)
  else if s.chipId < 0xE0 then .error (-eopnotsupp)
  else if s.chipId < 0x170 then .ok [.tsg 0x00002634 (pfifoPreemptTsg tsgId)]
  else (getRunlistRam s rlId).map fun found =>
    [.tsg (found.2 + 0x098) (pfifoPreemptTsg tsgId)]

/-- The writes of `preempt_runlist`. -/
def preemptRunlistWrites (stack : BitVec 32) (s : Machine) (rlId : ℕ) :
    Except ℤ (List ControlWrite) :=
  if s.chipId < 0x120 then .error (-eopnotsupp)
  else if s.chipId < 0x170 then
    .ok [.runlist 0x00002638 ((1#64 <<< (rlId % 64)).setWidth 32)]
  else (getRunlistRam s rlId).map fun found =>
    [.runlist (found.2 + 0x098) (Bitfield.set 24 2 (Bitfield.set 0 12 stack rlId) 0)]

/-- The writes of `resubmit_runlist`, once the configuration is read. -/
def submitWrites (stack : BitVec 32) (s : Machine) (rlId off reg : ℕ) :
    Except ℤ (List ControlWrite) :=
  let raw := s.readqValue reg
  if raw = BitVec.allOnes 64 then .error (-eio)
  else if s.chipId < 0x160 then
    .ok [.submit reg 0x00002270 (Bitfield.set 52 4 raw rlId)]
  else (preemptRunlistWrites stack s rlId).map fun preempt =>
    preempt ++ [.submit reg reg
      (if off ≠ 2 ^ 32 - 1 then Bitfield.set 16 16 raw off else raw)]

/-- The writes of `resubmit_runlist`. -/
def resubmitRunlistWrites (stack : BitVec 32) (s : Machine) (rlId off : ℕ) :
    Except ℤ (List ControlWrite) :=
  if s.chipId < 0xC0 then .error (-eopnotsupp)
  else (submitRegister s rlId).bind (submitWrites stack s rlId off)

/-- The writes that a write to the file leads to. -/
def ControlFile.writes (stack : BitVec 32) (s : Machine) (rlId value : ℕ) :
    ControlFile → Except ℤ (List ControlWrite)
  | .preemptTsg => preemptTsgWrites s rlId value
  | .preemptRunlist => preemptRunlistWrites stack s value
  | .resubmitRunlist => resubmitRunlistWrites stack s rlId value

section Writes

variable {stack : BitVec 32} {s : Machine} {rlId value off : ℕ}

theorem answer_single (w : ControlWrite) (s : Machine) :
    answer (.ok [w]) s = (w.perform s).bind fun p => some (0, p.2) := by
  simp only [answer, performAll, Kernel.bind_apply]
  cases w.perform s with
  | none => rfl
  | some p => rfl

theorem preemptTsgChecked_eq (s : Machine) (rlId tsgId : ℕ) :
    preemptTsgChecked rlId tsgId s = answer (preemptTsgWrites s rlId tsgId) s := by
  rw [preemptTsgChecked, preemptTsgWrites]
  by_cases hmax : 2 ^ 12 < tsgId
  · rw [if_pos hmax, if_pos hmax]
    rfl
  rw [if_neg hmax, if_neg hmax, preemptTsg, Kernel.bind_apply, Kernel.get_apply,
    Option.bind_some]
  by_cases hfermi : s.chipId < 0xE0
  · rw [if_pos hfermi, if_pos hfermi]
    rfl
  rw [if_neg hfermi, if_neg hfermi]
  by_cases hturing : s.chipId < 0x170
  · rw [if_pos hturing, if_pos hturing, answer_single]
    rfl
  rw [if_neg hturing, if_neg hturing]
  cases getRunlistRam s rlId with
  | error e => rfl
  | ok found =>
      rw [Except.map, answer_single]
      rfl

theorem preemptRunlist_eq (stack : BitVec 32) (s : Machine) (rlId : ℕ) :
    preemptRunlist stack rlId s = answer (preemptRunlistWrites stack s rlId) s := by
  rw [preemptRunlist, preemptRunlistWrites, Kernel.bind_apply, Kernel.get_apply,
    Option.bind_some]
  by_cases hkepler : s.chipId < 0x120
  · rw [if_pos hkepler, if_pos hkepler]
    rfl
  rw [if_neg hkepler, if_neg hkepler]
  by_cases hturing : s.chipId < 0x170
  · rw [if_pos hturing, if_pos hturing, answer_single]
    rfl
  rw [if_neg hturing, if_neg hturing]
  cases getRunlistRam s rlId with
  | error e => rfl
  | ok found =>
      rw [Except.map, answer_single]
      rfl

theorem performAll_append (writes writes' : List ControlWrite) :
    performAll (writes ++ writes') = performAll writes >>= fun _ => performAll writes' := by
  induction writes with
  | nil => rfl
  | cons w writes ih =>
      rw [List.cons_append, performAll, performAll, ih, bind_assoc]

/-- From Turing on, a runlist that can be resubmitted can be preempted. -/
theorem preemptRunlistWrites_ok {reg : ℕ} (hvolta : ¬ s.chipId < 0x160)
    (hreg : submitRegister s rlId = .ok reg) :
    ∃ w, preemptRunlistWrites stack s rlId = .ok [w] := by
  rw [preemptRunlistWrites, if_neg (by omega)]
  by_cases hturing : s.chipId < 0x170
  · rw [if_pos hturing]
    exact ⟨_, rfl⟩
  · rw [submitRegister, if_neg hvolta, if_neg hturing] at hreg
    rw [if_neg hturing]
    cases hram : getRunlistRam s rlId with
    | error e =>
        rw [hram] at hreg
        cases hreg
    | ok found => exact ⟨_, rfl⟩

theorem resubmitTu102_eq {reg : ℕ} (off : ℕ) (hvolta : ¬ s.chipId < 0x160)
    (hreg : submitRegister s rlId = .ok reg) :
    resubmitTu102 stack rlId off reg s =
      answer (submitWrites stack s rlId off reg) s := by
  rw [resubmitTu102, Kernel.bind_eq_of_eq (nvdebugReadq_eq s reg), submitWrites]
  by_cases hraw : s.readqValue reg = BitVec.allOnes 64
  · rw [if_pos hraw, if_pos hraw]
    rfl
  rw [if_neg hraw, if_neg hraw, if_neg hvolta]
  obtain ⟨w, hpreempt⟩ := @preemptRunlistWrites_ok stack s rlId reg hvolta hreg
  rw [Kernel.bind_apply, preemptRunlist_eq, hpreempt, Except.map, answer_single, answer,
    performAll_append]
  simp only [performAll, Kernel.bind_apply, Kernel.pure_apply]
  cases w.perform s with
  | none => rfl
  | some p => rfl

theorem resubmitRunlist_eq (stack : BitVec 32) (s : Machine) (rlId off : ℕ) :
    resubmitRunlist stack rlId off s = answer (resubmitRunlistWrites stack s rlId off) s := by
  rw [resubmitRunlist, resubmitRunlistWrites, Kernel.bind_apply, Kernel.get_apply,
    Option.bind_some]
  by_cases hfermi : s.chipId < 0xC0
  · rw [if_pos hfermi, if_pos hfermi]
    rfl
  rw [if_neg hfermi, if_neg hfermi]
  by_cases hvolta : s.chipId < 0x160
  · rw [if_pos hvolta, submitRegister, if_pos hvolta]
    by_cases hmax : 34 < rlId
    · rw [if_pos hmax, if_pos hmax]
      rfl
    rw [if_neg hmax, if_neg hmax, Kernel.bind_eq_of_eq (nvdebugReadq_eq s _), Except.bind,
      submitWrites]
    by_cases hraw : s.readqValue (0x00002280 + rlId * 8) = BitVec.allOnes 64
    · rw [if_pos hraw, if_pos hraw]
      rfl
    rw [if_neg hraw, if_neg hraw, if_pos hvolta, answer_single]
    rfl
  rw [if_neg hvolta]
  have hsubmit : ∀ reg, submitRegister s rlId = .ok reg →
      resubmitTu102 stack rlId off reg s =
        answer ((submitRegister s rlId).bind (submitWrites stack s rlId off)) s := by
    intro reg hreg
    rw [resubmitTu102_eq off hvolta hreg, hreg]
    rfl
  by_cases hturing : s.chipId < 0x170
  · rw [if_pos hturing]
    by_cases hmax : 80 < rlId
    · rw [if_pos hmax, submitRegister, if_neg hvolta, if_pos hturing, if_pos hmax]
      rfl
    · rw [if_neg hmax]
      apply hsubmit
      rw [submitRegister, if_neg hvolta, if_pos hturing, if_neg hmax]
  · rw [if_neg hturing]
    cases hram : getRunlistRam s rlId with
    | error e =>
        rw [submitRegister, if_neg hvolta, if_neg hturing, hram]
        rfl
    | ok found =>
        apply hsubmit
        rw [submitRegister, if_neg hvolta, if_neg hturing, hram]
        rfl

/-- A write to the file fails, or leads to these writes and no others. -/
theorem operation_eq (file : ControlFile) (stack : BitVec 32) (s : Machine)
    (rlId value : ℕ) :
    file.operation stack rlId value s = answer (file.writes stack s rlId value) s := by
  cases file with
  | preemptTsg => exact preemptTsgChecked_eq s rlId value
  | preemptRunlist => exact preemptRunlist_eq stack s value
  | resubmitRunlist => exact resubmitRunlist_eq stack s rlId value

end Writes

/-! ## Which writes name the ID -/

/-- What `preempt_runlist` finds on the stack, apart from the fields it assigns, is zero. -/
def QuietStack (stack : BitVec 32) : Prop :=
  ∀ i, 12 ≤ i → i ≠ 24 → i ≠ 25 → stack.getLsbD i = false

/-- The register is in the array of runlist registers; from Ampere on, each runlist has
registers of its own. -/
def InRunlistArray (s : Machine) (rlId reg : ℕ) : Prop :=
  if s.chipId < 0x160 then 0x00002280 ≤ reg ∧ reg + 8 ≤ 0x00002390
  else if s.chipId < 0x170 then 0x00002B00 ≤ reg ∧ reg + 8 ≤ 0x00003000
  else ∃ row base, getRunlistRam s rlId = .ok (row, base) ∧ base ≤ reg ∧ reg + 8 ≤ base + 0x400

/-- The write names the TSG or the runlist with this ID, and nothing else. -/
def ControlWrite.Exact (s : Machine) (id : ℕ) : ControlWrite → Prop
  | .tsg _ raw =>
      Bitfield.get 0 12 raw = id ∧ Bitfield.get 24 2 raw = 1 ∧
        ∀ i, 12 ≤ i → i ≠ 24 → i ≠ 25 → raw.getLsbD i = false
  | .runlist _ raw =>
      if s.chipId < 0x170 then ∀ i, raw.getLsbD i = decide (i = id)
      else Bitfield.get 0 12 raw = id ∧ ∀ i, 12 ≤ i → raw.getLsbD i = false
  | .submit read reg raw =>
      InRunlistArray s id read ∧ submitRegister s id = .ok read ∧
        if s.chipId < 0x160 then Bitfield.get 52 4 raw = id else reg = read

/-- The ID fits into the field that it is put in, or has a place in the array; where fields
are left as they were on the stack, they are zero. -/
def ControlWrite.Fits (chipId : ℕ) (stack : BitVec 32) (id : ℕ) : ControlWrite → Prop
  | .tsg _ _ => id < 4096
  | .runlist _ _ => if chipId < 0x170 then id < 32 else QuietStack stack
  | .submit _ _ _ =>
      if chipId < 0x160 then id < 16 else if chipId < 0x170 then id < 80 else True

section Exact

variable {stack : BitVec 32} {s : Machine} {id value off : ℕ}

theorem tsg_exact_iff (reg : ℕ) :
    (ControlWrite.tsg reg (pfifoPreemptTsg id)).Exact s id ↔ id < 4096 := by
  have hid : Bitfield.get 0 12 (pfifoPreemptTsg id) = id % 2 ^ 12 := by
    rw [pfifoPreemptTsg, Bitfield.get_set_of_disjoint _ _ (.inl (by decide)),
      Bitfield.get_set_self _ _ (by decide)]
  have htype : Bitfield.get 24 2 (pfifoPreemptTsg id) = 1 := by
    rw [pfifoPreemptTsg, Bitfield.get_set_self _ _ (by decide)]
    rfl
  have hzero : ∀ i, 12 ≤ i → i ≠ 24 → i ≠ 25 → (pfifoPreemptTsg id).getLsbD i = false := by
    intro i hi h24 h25
    rw [pfifoPreemptTsg, Bitfield.getLsbD_set, if_neg (by omega), Bitfield.getLsbD_set,
      if_neg (by omega)]
    exact BitVec.getLsbD_zero
  rw [ControlWrite.Exact, hid, htype]
  constructor
  · intro h
    have hlt := Nat.mod_lt id (show 0 < 2 ^ 12 by decide)
    rw [h.1] at hlt
    exact hlt
  · intro h
    exact ⟨Nat.mod_eq_of_lt h, rfl, hzero⟩

theorem bit_exact_iff :
    (∀ i, ((1#64 <<< (id % 64)).setWidth 32).getLsbD i = decide (i = id)) ↔ id < 32 := by
  constructor
  · intro h
    by_contra hid
    have hbit := h id
    rw [BitVec.getLsbD_of_ge _ _ (not_lt.mp hid), decide_eq_true rfl] at hbit
    cases hbit
  · intro hid i
    rw [Nat.mod_eq_of_lt (by omega), BitVec.getLsbD_setWidth, BitVec.getLsbD_shiftLeft,
      BitVec.getLsbD_one]
    by_cases heq : i = id
    · subst heq
      simp [hid]
      omega
    · rw [decide_eq_false heq]
      simp
      omega

/-- The number of a runlist found in PTOP is less than that of the rows. -/
theorem lt_of_getRunlistRamFrom {rows : List PtopDeviceInfoGa100} {rlId currRlId : ℤ}
    {i subrow : ℕ} {found : ℕ × ℕ}
    (h : getRunlistRamFrom rlId i currRlId subrow rows = .ok found) :
    rlId < currRlId + rows.length := by
  induction rows generalizing currRlId i subrow with
  | nil => cases h
  | cons row rows ih =>
      rw [List.length_cons]
      rw [getRunlistRamFrom] at h
      split_ifs at h
      · have hlt := ih h
        omega
      · omega
      · have hlt := ih h
        omega
      · have hlt := ih h
        omega

theorem lt_of_getRunlistRam {found : ℕ × ℕ} (h : getRunlistRam s id = .ok found) :
    id < 4096 := by
  have hlt := lt_of_getRunlistRamFrom h
  have hsize : s.ptopSizeGa100 < 4096 := by
    have hreg := (s.readlValue 0x000224fc).isLt
    rw [Machine.ptopSizeGa100, Nat.shiftRight_eq_div_pow]
    omega
  rw [Machine.ptopRowsGa100, List.length_map, List.length_range] at hlt
  omega

theorem runlist_exact_iff {w : ControlWrite}
    (h : preemptRunlistWrites stack s id = .ok [w]) :
    w.Exact s id ↔ w.Fits s.chipId stack id := by
  rw [preemptRunlistWrites] at h
  by_cases hkepler : s.chipId < 0x120
  · rw [if_pos hkepler] at h
    cases h
  rw [if_neg hkepler] at h
  by_cases hturing : s.chipId < 0x170
  · rw [if_pos hturing] at h
    cases h
    rw [ControlWrite.Exact, ControlWrite.Fits, if_pos hturing, if_pos hturing]
    exact bit_exact_iff
  rw [if_neg hturing] at h
  cases hram : getRunlistRam s id with
  | error e =>
      rw [hram] at h
      cases h
  | ok found =>
      rw [hram] at h
      cases h
      have hid : Bitfield.get 0 12 (Bitfield.set 24 2 (Bitfield.set 0 12 stack id) 0) = id := by
        rw [Bitfield.get_set_of_disjoint _ _ (.inl (by decide)),
          Bitfield.get_set_self _ _ (by decide)]
        exact Nat.mod_eq_of_lt (lt_of_getRunlistRam hram)
      have hhigh : ∀ i, 12 ≤ i →
          (Bitfield.set 24 2 (Bitfield.set 0 12 stack id) 0).getLsbD i =
            if i = 24 ∨ i = 25 then false else stack.getLsbD i := by
        intro i hi
        rw [Bitfield.getLsbD_set, Nat.zero_testBit, Bitfield.getLsbD_set,
          if_neg (show ¬ (0 ≤ i ∧ i < 0 + 12 ∧ i < 32) by omega)]
        by_cases htype : i = 24 ∨ i = 25
        · rw [if_pos htype, if_pos (by omega)]
        · rw [if_neg htype, if_neg (by omega)]
      rw [ControlWrite.Exact, ControlWrite.Fits, if_neg hturing, if_neg hturing]
      constructor
      · intro hexact i hi h24 h25
        have hbit := hexact.2 i hi
        rw [hhigh i hi, if_neg (by omega)] at hbit
        exact hbit
      · intro hquiet
        refine ⟨hid, ?_⟩
        intro i hi
        rw [hhigh i hi]
        by_cases htype : i = 24 ∨ i = 25
        · rw [if_pos htype]
        · rw [if_neg htype]
          exact hquiet i hi (by omega) (by omega)

theorem submitGf100_exact_iff (raw : BitVec 64) (hvolta : s.chipId < 0x160) (hmax : id ≤ 34) :
    (ControlWrite.submit (0x00002280 + id * 8) 0x00002270
      (Bitfield.set 52 4 raw id)).Exact s id ↔ id < 16 := by
  have hid : Bitfield.get 52 4 (Bitfield.set 52 4 raw id) = id % 2 ^ 4 :=
    Bitfield.get_set_self _ _ (by decide)
  rw [ControlWrite.Exact, InRunlistArray, if_pos hvolta, if_pos hvolta, hid]
  constructor
  · intro h
    have hlt := Nat.mod_lt id (show 0 < 2 ^ 4 by decide)
    rw [h.2.2] at hlt
    exact hlt
  · intro h
    refine ⟨by omega, ?_, Nat.mod_eq_of_lt h⟩
    rw [submitRegister, if_pos hvolta, if_neg (by omega)]

/-- From Turing on, each runlist has a register of its own, but there may be none for the
largest ID. -/
theorem submitTu102_exact_iff {reg : ℕ} (raw : BitVec 64) (hvolta : ¬ s.chipId < 0x160)
    (hreg : submitRegister s id = .ok reg) :
    (ControlWrite.submit reg reg raw).Exact s id ↔
      if s.chipId < 0x170 then id < 80 else True := by
  rw [ControlWrite.Exact, InRunlistArray, if_neg hvolta, if_neg hvolta]
  have hread := hreg
  rw [submitRegister, if_neg hvolta] at hreg
  by_cases hturing : s.chipId < 0x170
  · rw [if_pos hturing] at hreg
    rw [if_pos hturing, if_pos hturing]
    by_cases hmax : 80 < id
    · rw [if_pos hmax] at hreg
      cases hreg
    · rw [if_neg hmax] at hreg
      cases hreg
      constructor
      · intro h
        have hlast := h.1.2
        omega
      · intro h
        exact ⟨by omega, hread, rfl⟩
  · rw [if_neg hturing] at hreg
    rw [if_neg hturing, if_neg hturing]
    cases hram : getRunlistRam s id with
    | error e =>
        rw [hram] at hreg
        cases hreg
    | ok found =>
        rw [hram] at hreg
        cases hreg
        have hlast : found.2 + 0x088 + 8 ≤ found.2 + 0x400 := by
          omega
        exact iff_of_true ⟨⟨found.1, found.2, rfl, Nat.le_add_right _ _, hlast⟩, hread, rfl⟩
          trivial

theorem preemptTsg_exact_iff {rlId : ℕ} {writes : List ControlWrite} {w : ControlWrite}
    (h : preemptTsgWrites s rlId id = .ok writes) (hw : w ∈ writes) :
    w.Exact s id ↔ w.Fits s.chipId stack id := by
  have hwrite : ∃ reg, writes = [.tsg reg (pfifoPreemptTsg id)] := by
    rw [preemptTsgWrites] at h
    split_ifs at h
    · cases h
      exact ⟨_, rfl⟩
    · cases hram : getRunlistRam s rlId with
      | error e =>
          rw [hram] at h
          cases h
      | ok found =>
          rw [hram] at h
          cases h
          exact ⟨_, rfl⟩
  obtain ⟨reg, rfl⟩ := hwrite
  rw [List.mem_singleton.mp hw]
  exact tsg_exact_iff reg

theorem preemptRunlist_exact_iff {writes : List ControlWrite} {w : ControlWrite}
    (h : preemptRunlistWrites stack s id = .ok writes) (hw : w ∈ writes) :
    w.Exact s id ↔ w.Fits s.chipId stack id := by
  have hwrite : writes = [w] := by
    have hsingle : ∃ w', writes = [w'] := by
      rw [preemptRunlistWrites] at h
      split_ifs at h
      · cases h
        exact ⟨_, rfl⟩
      · cases hram : getRunlistRam s id with
        | error e =>
            rw [hram] at h
            cases h
        | ok found =>
            rw [hram] at h
            cases h
            exact ⟨_, rfl⟩
    obtain ⟨w', rfl⟩ := hsingle
    rw [List.mem_singleton.mp hw]
  rw [hwrite] at h
  exact runlist_exact_iff h

theorem resubmit_exact_iff {writes : List ControlWrite} {w : ControlWrite}
    (h : resubmitRunlistWrites stack s id off = .ok writes) (hw : w ∈ writes) :
    w.Exact s id ↔ w.Fits s.chipId stack id := by
  rw [resubmitRunlistWrites] at h
  by_cases hfermi : s.chipId < 0xC0
  · rw [if_pos hfermi] at h
    cases h
  rw [if_neg hfermi] at h
  cases hreg : submitRegister s id with
  | error e =>
      rw [hreg] at h
      cases h
  | ok reg =>
      rw [hreg, Except.bind, submitWrites] at h
      by_cases hraw : s.readqValue reg = BitVec.allOnes 64
      · rw [if_pos hraw] at h
        cases h
      rw [if_neg hraw] at h
      by_cases hvolta : s.chipId < 0x160
      · rw [if_pos hvolta] at h
        cases h
        rw [List.mem_singleton] at hw
        rw [submitRegister, if_pos hvolta] at hreg
        by_cases hmax : 34 < id
        · rw [if_pos hmax] at hreg
          cases hreg
        · rw [if_neg hmax] at hreg
          cases hreg
          rw [hw, ControlWrite.Fits, if_pos hvolta]
          exact submitGf100_exact_iff _ hvolta (Nat.le_of_not_lt hmax)
      · rw [if_neg hvolta] at h
        obtain ⟨preempt, hpreempt⟩ := @preemptRunlistWrites_ok stack s id reg hvolta hreg
        rw [hpreempt, Except.map] at h
        cases h
        rw [List.mem_append, List.mem_singleton, List.mem_singleton] at hw
        rcases hw with rfl | rfl
        · exact runlist_exact_iff hpreempt
        · rw [ControlWrite.Fits, if_neg hvolta]
          exact submitTu102_exact_iff _ hvolta hreg

/-- An accepted value leads to these writes, and each of them names exactly the TSG or the
runlist it is about if and only if the ID fits. -/
theorem controlFile_exact_iff {file : ControlFile} {rlId : ℕ} {value : BitVec 32}
    {writes : List ControlWrite}
    (haccepted : file.writes stack s rlId value.toNat = .ok writes)
    {w : ControlWrite} (hw : w ∈ writes) :
    file.operation stack rlId value.toNat s = answer (.ok writes) s ∧
      (w.Exact s (file.target rlId value.toNat) ↔
        w.Fits s.chipId stack (file.target rlId value.toNat)) := by
  constructor
  · rw [operation_eq, haccepted]
  cases file with
  | preemptTsg => exact preemptTsg_exact_iff haccepted hw
  | preemptRunlist => exact preemptRunlist_exact_iff haccepted hw
  | resubmitRunlist => exact resubmit_exact_iff haccepted hw

end Exact

/-- A Pascal GPU whose registers are all zero. -/
def quietPascal : Machine :=
  { Machine.ofWords [] with chipId := 0x132 }

/-- ID 4096 is accepted, and the write preempts TSG 0. -/
theorem preemptTsg_accepts_4096 :
    (ControlFile.preemptTsg.operation 0 0 4096 quietPascal).map Prod.fst = some 0 ∧
      ¬ ∀ writes, ControlFile.preemptTsg.writes 0 quietPascal 0 4096 = .ok writes →
        ∀ w ∈ writes, w.Exact quietPascal 4096 := by
  have hwrites : ControlFile.preemptTsg.writes 0 quietPascal 0 4096 =
      .ok [.tsg 0x00002634 (pfifoPreemptTsg 0)] := by
    rw [ControlFile.writes, preemptTsgWrites, if_neg (by decide), if_neg (by decide),
      if_pos (by decide)]
    rfl
  constructor
  · rw [operation_eq, hwrites, answer_single]
    rfl
  · intro h
    have hid := (h _ hwrites _ List.mem_cons_self).1
    revert hid
    decide

theorem controlFile_exact_iff_seven :
    ControlFile.preemptTsg.operation 0 0 7 quietPascal =
        answer (.ok [.tsg 0x00002634 (pfifoPreemptTsg 7)]) quietPascal ∧
      (ControlWrite.tsg 0x00002634 (pfifoPreemptTsg 7)).Exact quietPascal 7 := by
  have haccepted : ControlFile.preemptTsg.writes 0 quietPascal 0 (7#32).toNat =
      .ok [.tsg 0x00002634 (pfifoPreemptTsg 7)] := by
    rw [ControlFile.writes, preemptTsgWrites, if_neg (by decide), if_neg (by decide),
      if_pos (by decide)]
    rfl
  obtain ⟨hrun, hexact⟩ := controlFile_exact_iff haccepted List.mem_cons_self
  refine ⟨hrun, hexact.mpr ?_⟩
  rw [ControlWrite.Fits]
  decide

end A100Partitioning.Nvdebug
