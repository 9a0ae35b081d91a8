import A100Partitioning.Support.Keeps
import A100Partitioning.Nvdebug.RunlistShow

/-!
# Failures of the PRAMIN window (`addr_to_pramin_mut`)

The window cannot show every address.  A caller of `addr_to_pramin_mut` gets a negative
error then, and should quit before it forms a pointer from it.  This module collects the
calls that `get_runlist_iter`, `get_ctxsw` and `runlist_detail_seq_show_inst` make, each
with the code that comes behind it.
-/

namespace A100Partitioning.Nvdebug

open Support Keeping

/-! ## When the window can show an address -/

/-- The window can be made to show the address. -/
structure Machine.Accessible (s : Machine) (addr : ℕ) (target : InstTarget) : Prop where
  addr_lt : addr < 2 ^ 40
  readable : s.readlValue s.windowReg ≠ BitVec.allOnes 32
  hopper : s.isHopperLike = true → windowTarget s.window = target

/-- The window shows the address already. -/
def Machine.InWindow (s : Machine) (addr : ℕ) (target : InstTarget) : Prop :=
  windowTarget s.window = target ∧ windowBase s.window * 0x10000 ≤ addr ∧
    addr < windowBase s.window * 0x10000 + nvPraminLen

instance (s : Machine) (addr : ℕ) (target : InstTarget) : Decidable (s.InWindow addr target) :=
  inferInstanceAs (Decidable (_ ∧ _))

/-- Where in the window the address is going to be. -/
def Machine.praminOffset (s : Machine) (addr : ℕ) (target : InstTarget) : ℕ :=
  if s.InWindow addr target then addr - windowBase s.window * 0x10000 else addr % 0x10000

theorem addrToPraminMut_of_accessible {s : Machine} {addr : ℕ} {target : InstTarget}
    (h : s.Accessible addr target) :
    ∃ s', addrToPraminMut addr target s = some ((s.praminOffset addr target : ℤ), s') := by
  have hlt := Nat.not_le.mpr h.addr_lt
  obtain ⟨hoff, hread⟩ := window_of_readlValue_ne h.readable
  have hne : s.window ≠ BitVec.allOnes 32 := hread ▸ h.readable
  have hrelocate := relocateWindow_eq s.window addr target hoff
  rw [Machine.praminOffset]
  by_cases htarget : windowTarget s.window = target
  · by_cases hout : addr < windowBase s.window * 0x10000 ∨
        windowBase s.window * 0x10000 + nvPraminLen ≤ addr
    · refine ⟨{ s with window := movedWindow s.window addr target },
        Eq.trans ?_ (hrelocate.trans ?_)⟩
      · simp only [addrToPraminMut, if_neg hlt, nvdebugReadl, Kernel.bind_apply,
          Kernel.get_apply, Option.bind_some, Kernel.pure_apply, hread, if_neg hne,
          if_neg (not_not.mpr htarget), if_pos hout]
      · rw [if_neg fun hin : s.InWindow addr target => by
          have := hin.2
          omega]
    · refine ⟨s, ?_⟩
      rw [if_pos (show s.InWindow addr target from ⟨htarget, by omega, by omega⟩)]
      simp only [addrToPraminMut, if_neg hlt, nvdebugReadl, Kernel.bind_apply,
        Kernel.get_apply, Option.bind_some, Kernel.pure_apply, hread, if_neg hne,
        if_neg (not_not.mpr htarget), if_neg hout]
  · have hhopper : ¬ s.isHopperLike = true := fun hhop => htarget (h.hopper hhop)
    refine ⟨{ s with window := movedWindow s.window addr target },
      Eq.trans ?_ (hrelocate.trans ?_)⟩
    · simp only [addrToPraminMut, if_neg hlt, nvdebugReadl, Kernel.bind_apply,
        Kernel.get_apply, Option.bind_some, Kernel.pure_apply, hread, if_neg hne,
        if_pos htarget, if_neg hhopper]
    · rw [if_neg fun hin => htarget hin.1]

theorem addrToPraminMut_of_not_accessible {s : Machine} {addr : ℕ} {target : InstTarget}
    (h : ¬ s.Accessible addr target) :
    ∃ e, (e = -einval ∨ e = -eopnotsupp) ∧ addrToPraminMut addr target s = some (e, s) := by
  rcases addrToPraminMut_cases s addr target with
    ⟨e, -, hrun, hwhy⟩ | ⟨hlt, hread, hne, hin | ⟨hhopper, -⟩⟩
  · refine ⟨e, ?_, hrun⟩
    rcases hwhy with ⟨-, he⟩ | ⟨-, he, -⟩
    · exact .inl he
    · exact .inr he
  · exact absurd ⟨hlt, hread ▸ hne, fun _ => hin.1⟩ h
  · exact absurd ⟨hlt, hread ▸ hne, hhopper⟩ h

theorem errno_of_failed {e : ℤ} (he : e = -einval ∨ e = -eopnotsupp) : e < 0 ∧ e ≠ -1 := by
  rcases he with rfl | rfl <;> decide

/-! ## Calls -/

/-- A call of `addr_to_pramin_mut`: its arguments, the state before it, and the rest of the
calling function, to which the result goes. -/
structure PraminCall (α : Type) where
  addr : ℕ
  target : InstTarget
  before : Machine
  rest : ℤ → Kernel α

namespace PraminCall

variable {α : Type}

/-- The caller from the call on. -/
def run (c : PraminCall α) : Option (α × Machine) :=
  (addrToPraminMut c.addr c.target >>= c.rest) c.before

/-- The window can be made to show the address. -/
def Accessible (c : PraminCall α) : Prop := c.before.Accessible c.addr c.target

/-- If the call fails, the caller returns in one of these ways, and does nothing else. -/
def Quits (c : PraminCall α) (quits : α → Prop) : Prop :=
  ∀ e s', addrToPraminMut c.addr c.target c.before = some (e, s') → e < 0 →
    ∃ a, quits a ∧ c.rest e = pure a

/-- A caller that goes on with every result but -1 handles no failure. -/
theorem quits_iff (c : PraminCall α) {quits : α → Prop}
    (hgoes : ∀ e, e ≠ -1 → ∀ a, quits a → c.rest e ≠ pure a) :
    c.Quits quits ↔ c.Accessible := by
  constructor
  · intro hquits
    by_contra hbad
    obtain ⟨e, he, hrun⟩ := addrToPraminMut_of_not_accessible hbad
    obtain ⟨hneg, hne⟩ := errno_of_failed he
    obtain ⟨a, ha, hrest⟩ := hquits e c.before hrun hneg
    exact hgoes e hne a ha hrest
  · intro hgood e s' hrun he
    obtain ⟨s'', hrun'⟩ := addrToPraminMut_of_accessible hgood
    rw [hrun'] at hrun
    cases hrun
    exact absurd he (Int.not_lt.mpr (Int.natCast_nonneg _))

end PraminCall

/-! ## Runlists -/

/-- `get_runlist_iter` behind the call of `addr_to_pramin_mut`. -/
def runlistRest (rl : RunlistConfig) (off : ℤ) : Kernel (ℤ × RunlistIter) := do
  let rlIter := { RunlistIter.empty with runlistPriBase := rl.priBase }
  if off = -1 then return (off, rlIter)
  return (0, { rlIter with currEntry := .pramin off rl.iova rl.target, len := rl.len })

/-- The call of `addr_to_pramin_mut` in `get_runlist_iter`, for a runlist in video memory
that is not found in the page tables of BAR2. -/
inductive RunlistCall (rlId : ℕ) (s : Machine) (rl : RunlistConfig) :
    PraminCall (ℤ × RunlistIter) → Prop where
  | fallback {s₀ s₁ : Machine}
      (config : readRunlistConfig rlId s = some (.ok rl, s₀)) (nonempty : rl.len ≠ 0)
      (vidMem : rl.target = .vidMem) (search : searchBar2 rl s₀ = some (none, s₁)) :
      RunlistCall rlId s rl ⟨rl.iova, rl.target, s₁, runlistRest rl⟩

theorem RunlistCall.run_eq {rlId : ℕ} {s : Machine} {rl : RunlistConfig}
    {c : PraminCall (ℤ × RunlistIter)} (h : RunlistCall rlId s rl c) :
    getRunlistIter rlId s = c.run := by
  cases h with
  | fallback config nonempty vidMem search =>
      rw [getRunlistIter, Kernel.bind_eq_of_eq config]
      simp only [if_neg nonempty, if_neg (not_not.mpr vidMem)]
      rw [Kernel.bind_eq_of_eq search]
      rfl

/-- An error is reported, with a null pointer. -/
def IterFails (r : ℤ × RunlistIter) : Prop := r.1 < 0 ∧ r.2.currEntry = .null

/-- Every entry of the runlist lies inside the window. -/
def PraminCall.Fits (c : PraminCall (ℤ × RunlistIter)) : Prop :=
  ∀ off s' rlIter s'', addrToPraminMut c.addr c.target c.before = some (off, s') →
    c.rest off s' = some ((0, rlIter), s'') →
      0 ≤ off ∧ off + (rlIter.len * c.before.rlEntrySize : ℕ) ≤ nvPraminLen

theorem RunlistCall.quits_and_fits_iff {rlId : ℕ} {s : Machine} {rl : RunlistConfig}
    {c : PraminCall (ℤ × RunlistIter)} (h : RunlistCall rlId s rl c) :
    (c.Quits IterFails ∧ c.Fits) ↔ c.Accessible ∧
      c.before.praminOffset c.addr c.target + rl.len * c.before.rlEntrySize ≤ nvPraminLen := by
  have hquits : c.Quits IterFails ↔ c.Accessible := by
    apply c.quits_iff
    intro e he r hr heq
    cases h with
    | fallback config nonempty vidMem search =>
        have hrun : runlistRest rl e s = some (r, s) := congrFun heq s
        rw [runlistRest, if_neg he] at hrun
        cases hrun
        exact absurd hr.1 (lt_irrefl 0)
  rw [hquits]
  refine and_congr_right fun hgood => ?_
  obtain ⟨s', hcall⟩ := addrToPraminMut_of_accessible hgood
  cases h with
  | @fallback s₀ s₁ config nonempty vidMem search =>
      have hne : ((s₁.praminOffset rl.iova rl.target : ℕ) : ℤ) ≠ -1 := by omega
      have hrest : runlistRest rl (s₁.praminOffset rl.iova rl.target : ℕ) s' =
          some ((0, { RunlistIter.empty with
            runlistPriBase := rl.priBase
            currEntry := .pramin (s₁.praminOffset rl.iova rl.target : ℕ) rl.iova rl.target
            len := rl.len }), s') := by
        rw [runlistRest, if_neg hne]
        rfl
      constructor
      · intro hfits
        have hin := (hfits _ _ _ _ hcall hrest).2
        dsimp only at hin ⊢
        omega
      · intro hin off s₂ rlIter s₃ hcall' hrest'
        dsimp only at hrest'
        rw [hcall] at hcall'
        cases hcall'
        rw [hrest] at hrest'
        cases hrest'
        dsimp only at hin ⊢
        omega

/-! ## The context-switch block -/

/-- Return early, or go on with an address. -/
def orReturn (f : ℕ × InstTarget → Kernel Kva) : Except Kva (ℕ × InstTarget) → Kernel Kva
  | .error k => return k
  | .ok p => f p

/-- Return an error where a lookup found nothing. -/
def orNotRecoverable : Option (ℕ × InstTarget) → Except Kva (ℕ × InstTarget)
  | none => .error (.err (-enotrecoverable))
  | some p => .ok p

/-- `get_ctxsw` up to the first call of `addr_to_pramin_mut`. -/
def locateWfi (inst : Kva) : Kernel (Except Kva (ℕ × InstTarget)) := do
  let wfiVirt := (← instEngineWfi inst).ptr * 4096
  if wfiVirt = 0 then return .error .null
  if (← instEngineWfi inst).isVirtual then
    return orNotRecoverable (← lookupVirt (← instPdb inst) wfiVirt)
  else
    let wfi ← instEngineWfi inst
    return .ok (wfi.ptr * 4096, wfi.target)

/-- `get_ctxsw` between the two calls. -/
def locateCtxsw (inst wfi : Kva) : Kernel (Except Kva (ℕ × InstTarget)) := do
  if (← instSubcontextPdbValid inst) = 0 then return .error wfi
  if !(← instPdb inst).isVer2 then return .error (.err (-enotrecoverable))
  let contextBufferPtrHi ← readl (wfi.add 120)
  let contextBufferPtrLo ← readl (wfi.add 124)
  let ctxswVirt := (contextBufferPtrHi ++ contextBufferPtrLo).toNat
  if ctxswVirt = 0 then return .error .null
  let t ← translatePageDirectory (← instPdb inst) ctxswVirt
  return orNotRecoverable t.accepted

/-- `get_ctxsw` behind the second call. -/
def ctxswRest (p : ℕ × InstTarget) (off : ℤ) : Kernel Kva := do
  if off = -1 then return .null
  return .pramin off p.1 p.2

/-- `get_ctxsw` behind the first call. -/
def wfiRest (inst : Kva) (p : ℕ × InstTarget) (off : ℤ) : Kernel Kva := do
  if off = -1 then return .null
  let located ← locateCtxsw inst (.pramin off p.1 p.2)
  orReturn (fun q => do ctxswRest q (← addrToPraminMut q.1 q.2)) located

/-- The calls of `addr_to_pramin_mut` in `get_ctxsw`. -/
inductive CtxswCall (inst : Kva) (s : Machine) : PraminCall Kva → Prop where
  | wfi {p : ℕ × InstTarget} {s₁ : Machine}
      (located : locateWfi inst s = some (.ok p, s₁)) :
      CtxswCall inst s ⟨p.1, p.2, s₁, wfiRest inst p⟩
  | ctxsw {p q : ℕ × InstTarget} {s₁ s₂ s₃ : Machine} {off : ℤ}
      (located : locateWfi inst s = some (.ok p, s₁))
      (call : addrToPraminMut p.1 p.2 s₁ = some (off, s₂)) (goes : off ≠ -1)
      (located' : locateCtxsw inst (.pramin off p.1 p.2) s₂ = some (.ok q, s₃)) :
      CtxswCall inst s ⟨q.1, q.2, s₃, ctxswRest q⟩

theorem ctxswOfWfi_eq (inst : Kva) (p : ℕ × InstTarget) :
    ctxswOfWfi inst p.1 p.2 = (do wfiRest inst p (← addrToPraminMut p.1 p.2)) := by
  rw [ctxswOfWfi]
  refine bind_congr fun wfiOff => ?_
  rw [wfiRest]
  by_cases hoff : wfiOff = -1
  · rw [if_pos hoff, if_pos hoff]
  rw [if_neg hoff, if_neg hoff]
  simp only [locateCtxsw, bind_assoc]
  refine bind_congr fun valid => ?_
  by_cases hvalid : valid = 0
  · simp only [if_pos hvalid, pure_bind, orReturn]
  simp only [if_neg hvalid, bind_assoc]
  refine bind_congr fun pdb => ?_
  by_cases hver : pdb.isVer2 = true
  · simp only [hver, Bool.not_true, Bool.false_eq_true, if_false, bind_assoc]
    refine bind_congr fun hi => bind_congr fun lo => ?_
    by_cases hvirt : (hi ++ lo).toNat = 0
    · simp only [if_pos hvirt, pure_bind, orReturn]
    simp only [if_neg hvirt, bind_assoc]
    refine bind_congr fun pdb' => bind_congr fun t => ?_
    cases t.accepted with
    | none => rfl
    | some q => rfl
  · simp only [hver, Bool.not_false, if_true, pure_bind, orReturn]

theorem getCtxsw_eq (inst : Kva) : getCtxsw inst = (do
    let located ← locateWfi inst
    orReturn (fun p => do wfiRest inst p (← addrToPraminMut p.1 p.2)) located) := by
  simp only [getCtxsw, locateWfi, bind_assoc]
  refine bind_congr fun wfi => ?_
  by_cases hzero : wfi.ptr * 4096 = 0
  · simp only [if_pos hzero, pure_bind, orReturn]
  simp only [if_neg hzero, bind_assoc]
  refine bind_congr fun wfi' => ?_
  by_cases hvirt : wfi'.isVirtual = true
  · simp only [hvirt, if_true, bind_assoc]
    refine bind_congr fun pdb => bind_congr fun found => ?_
    cases found with
    | none => rfl
    | some p => exact ctxswOfWfi_eq inst p
  · simp only [hvirt, Bool.false_eq_true, if_false, bind_assoc, pure_bind]
    exact bind_congr fun wfi'' => ctxswOfWfi_eq inst (wfi''.ptr * 4096, wfi''.target)

theorem CtxswCall.run_eq {inst : Kva} {s : Machine} {c : PraminCall Kva}
    (h : CtxswCall inst s c) : getCtxsw inst s = c.run := by
  rw [getCtxsw_eq]
  cases h with
  | wfi located =>
      rw [Kernel.bind_eq_of_eq located]
      rfl
  | ctxsw located call goes located' =>
      rw [Kernel.bind_eq_of_eq located, orReturn, Kernel.bind_eq_of_eq call, wfiRest,
        if_neg goes, Kernel.bind_eq_of_eq located']
      rfl

theorem readq_ofWords_nil {k : Kva} {w : BitVec 64} {s' : Machine}
    (h : readq k (.ofWords []) = some (w, s')) : w = 0 := by
  rw [readq] at h
  cases hreach : (Machine.ofWords []).reach k with
  | none =>
      rw [hreach] at h
      cases h
  | some r =>
      rw [hreach] at h
      cases r with
      | word l =>
          cases h
          rfl
      | bar0 r =>
          have hzero : ∀ r, (Machine.ofWords []).register r = 0 := by
            intro r
            rw [Machine.register]
            split <;> rfl
          cases h
          rw [hzero, hzero]
          rfl

/-- A failed call goes unnoticed, and the pointer formed from it can be returned. -/
theorem CtxswCall.quits_iff {inst : Kva} {s : Machine} {c : PraminCall Kva}
    (h : CtxswCall inst s c) : c.Quits (·.isErrOrNull = true) ↔ c.Accessible := by
  apply c.quits_iff
  intro e he k hk heq
  have hrun : c.rest e (.ofWords []) = some (k, .ofWords []) := congrFun heq _
  cases h with
  | @wfi p s₁ located =>
      dsimp only at hrun
      rw [wfiRest, if_neg he] at hrun
      obtain ⟨found, s₂, hlocate, hreturn⟩ := Kernel.bind_eq_some hrun
      rw [locateCtxsw] at hlocate
      obtain ⟨valid, s₃, hvalid, hlocate⟩ := Kernel.bind_eq_some hlocate
      rw [readq_ofWords_nil hvalid, if_pos rfl] at hlocate
      cases hlocate
      cases hreturn
      cases hk
  | ctxsw located call goes located' =>
      dsimp only at hrun
      rw [ctxswRest, if_neg he] at hrun
      cases hrun
      cases hk

/-! ## Instance blocks -/

/-- `runlist_detail_seq_show_inst` behind the call of `addr_to_pramin_mut`, given the chip
and the window register to restore. -/
def showInstRest (indent : Bool) (instancePtr : ℕ) (instanceTarget : InstTarget)
    (s : Machine) (win : BitVec 32) (off : ℤ) : Kernel (List RunlistText) := do
  let inst := Kva.pramin off instancePtr instanceTarget
  let block ← showInstanceBlock indent inst
  if s.chipId < 0x120 then return block
  let ctxsw ← getCtxsw inst
  if ctxsw.isErrOrNull then
    nvdebugWritel s.windowReg win
    return block
  let contextId ← readl (ctxsw.add 240)
  let block := block ++ [.contextId indent contextId.toNat]
  if s.chipId < 0x130 then return block
  let state ← showContextState indent ctxsw
  nvdebugWritel s.windowReg win
  return block ++ [state]

/-- The call of `addr_to_pramin_mut` in `runlist_detail_seq_show_inst`. -/
def showInstCall (indent : Bool) (instancePtr : ℕ) (instanceTarget : InstTarget)
    (s : Machine) : PraminCall (List RunlistText) :=
  ⟨instancePtr, instanceTarget, s,
    showInstRest indent instancePtr instanceTarget s (s.readlValue s.windowReg)⟩

example (indent : Bool) (instancePtr : ℕ) (instanceTarget : InstTarget) (s : Machine) :
    runlistDetailSeqShowInst indent instancePtr instanceTarget s =
      (showInstCall indent instancePtr instanceTarget s).run := rfl

theorem returns_showInstRest (indent : Bool) (instancePtr : ℕ) (instanceTarget : InstTarget)
    (s : Machine) (win : BitVec 32) (off : ℤ) :
    Returns (· ≠ []) (showInstRest indent instancePtr instanceTarget s win off) := by
  have hblock : ∀ inst, Returns (· ≠ []) (showInstanceBlock indent inst) := by
    intro inst
    iterate 8 refine Returns.after fun _ => ?_
    exact .pure (List.cons_ne_nil _ _)
  refine (hblock _).bind fun block hne => ?_
  refine Returns.ite (fun _ => .pure hne) fun _ => Returns.after fun ctxsw => ?_
  refine Returns.ite (fun _ => Returns.after fun _ => .pure hne) fun _ => ?_
  refine Returns.after fun contextId => ?_
  refine Returns.ite (fun _ => .pure (List.append_ne_nil_of_left_ne_nil hne _)) fun _ => ?_
  refine Returns.after fun state => Returns.after fun _ => .pure ?_
  exact List.append_ne_nil_of_left_ne_nil (List.append_ne_nil_of_left_ne_nil hne _) _

theorem showInstCall_quits_iff (indent : Bool) (instancePtr : ℕ) (instanceTarget : InstTarget)
    (s : Machine) :
    (showInstCall indent instancePtr instanceTarget s).Quits (· = []) ↔
      s.Accessible instancePtr instanceTarget := by
  refine (showInstCall indent instancePtr instanceTarget s).quits_iff ?_
  intro e _ block hblock heq
  exact returns_showInstRest indent instancePtr instanceTarget s _ e s block s
    (congrFun heq s) hblock

/-! ## All callers -/

/-- A failed call makes its caller quit exactly when it cannot fail.  In a runlist that is
accessed through the window, all entries lie inside the window exactly if they fit behind
the first one. -/
theorem praminFailures_iff (s : Machine) (rlId : ℕ) (inst : Kva) (indent : Bool)
    (instancePtr : ℕ) (instanceTarget : InstTarget) :
    (∀ rl c, RunlistCall rlId s rl c →
      ((c.Quits IterFails ∧ c.Fits) ↔ c.Accessible ∧
        c.before.praminOffset c.addr c.target + rl.len * c.before.rlEntrySize ≤
          nvPraminLen)) ∧
    (∀ c, CtxswCall inst s c → (c.Quits (·.isErrOrNull = true) ↔ c.Accessible)) ∧
    ((showInstCall indent instancePtr instanceTarget s).Quits (· = []) ↔
      s.Accessible instancePtr instanceTarget) := by
  refine ⟨?_, ?_, showInstCall_quits_iff indent instancePtr instanceTarget s⟩
  · intro rl c h
    exact h.quits_and_fits_iff
  · intro c h
    exact h.quits_iff

/-- A Turing GPU whose window register cannot be read, without BAR2: runlist 0 has 65535
entries at 0x1000, and the WFI block of the instance block at 0x5000 is at 0x9000. -/
def noWindow : Machine :=
  { Machine.ofWords [(⟨.sysmem, 0x5210⟩, 0x9000)] with
    chipId := 0x164
    bar2 := false
    regs := fun r => if r = 0x2B00 then 0x1000 else if r = 0x2B08 then 0xffff else 0
    window := 0xbad00200 }

/-- All three callers go on with the failed result -95. -/
theorem praminFailures_unnoticed :
    (addrToPraminMut 0x1000 .vidMem noWindow).map Prod.fst = some (-95) ∧
    (getRunlistIter 0 noWindow).map Prod.fst =
      some (0, ⟨.pramin (-95) 0x1000 .vidMem, 0, 65535, 0⟩) ∧
    (getCtxsw (.phys 0x5000) noWindow).map Prod.fst = some (.pramin (-95) 0x9000 .vidMem) ∧
    (runlistDetailSeqShowInst false 0x1000 .vidMem noWindow).map (fun r => r.1.isEmpty) =
      some false := by
  refine ⟨?_, ?_, ?_, ?_⟩ <;> decide

end A100Partitioning.Nvdebug
