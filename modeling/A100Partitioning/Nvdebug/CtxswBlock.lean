import A100Partitioning.Nvdebug.ReverseTranslation
import A100Partitioning.Nvdebug.TranslationErrors
import A100Partitioning.Nvdebug.WindowFailures
import A100Partitioning.Nvdebug.WindowRestore

/-!
# Where the context-switch block is (`get_ctxsw`)

An instance block names its WFI block, and with subcontexts the WFI block names the
context-switch block.  This module says which block belongs to an instance block by what
memory holds, and when `get_ctxsw` returns a pointer to that block.
-/

namespace A100Partitioning.Nvdebug

open Support RadixTable

/-! ## What memory says -/

/-- The page tables map a virtual address, as far as the window can show them. -/
def Core.Maps (c : Core) (pdb : PageDirConfig) (virt : ℕ) (q : ℕ × InstTarget) : Prop :=
  ∃ vidOk, (View.mk c vidOk).presentFor pdb virt = some q

/-- The word at an offset of an instance block, which is not accessed through the window. -/
def Core.instWord (c : Core) (inst : Kva) (n : ℕ) : BitVec 64 :=
  match inst with
  | .bar2 off => c.mem ⟨.bar2, off + n⟩
  | .phys addr => c.mem ⟨.sysmem, addr + n⟩
  | _ => 0

/-- `inst->engine_wfi_*`, in memory. -/
def Core.engineWfi (c : Core) (inst : Kva) : EngineWfi := ⟨c.instWord inst 528⟩

/-- `inst->pdb`, in memory. -/
def Core.pdb (c : Core) (inst : Kva) : PageDirConfig := ⟨c.instWord inst 512⟩

/-- One half of an aligned word. -/
def Core.load (c : Core) (l : Loc) : BitVec 32 :=
  (c.mem { l with addr := l.addr - l.addr % 8 }).extractLsb' (8 * (l.addr % 8)) 32

/-- Replace one half of an aligned word. -/
def Core.store (c : Core) (l : Loc) (w : BitVec 32) : Core :=
  let aligned : Loc := { l with addr := l.addr - l.addr % 8 }
  c.write aligned (Bitfield.set (8 * (l.addr % 8)) 32 (c.mem aligned) w.toNat)

/-- The instance block has its WFI block at `p`. -/
def Core.WfiBlock (c : Core) (inst : Kva) (p : ℕ × InstTarget) : Prop :=
  (c.engineWfi inst).ptr ≠ 0 ∧
    if (c.engineWfi inst).isVirtual then
      c.Maps (c.pdb inst) ((c.engineWfi inst).ptr * 4096) p
    else p = ((c.engineWfi inst).ptr * 4096, (c.engineWfi inst).target)

/-- The pointer that the WFI block at `p` holds. -/
def Core.contextBufferPtr (c : Core) (p : ℕ × InstTarget) : ℕ :=
  (c.load (c.windowLoc p.2 (p.1 + 120)) ++ c.load (c.windowLoc p.2 (p.1 + 124))).toNat

/-- The instance block has its context-switch block at this address. -/
inductive Core.CtxswBlock (c : Core) (inst : Kva) : ℕ × InstTarget → Prop where
  | wfi {p : ℕ × InstTarget} (block : c.WfiBlock inst p) (single : c.instWord inst 664 = 0) :
      CtxswBlock c inst p
  | ctxsw {p q : ℕ × InstTarget} (block : c.WfiBlock inst p)
      (subcontexts : c.instWord inst 664 ≠ 0) (ver2 : (c.pdb inst).isVer2 = true)
      (ne : c.contextBufferPtr p ≠ 0) (maps : c.Maps (c.pdb inst) (c.contextBufferPtr p) q) :
      CtxswBlock c inst q

/-! ## Page tables do not depend on the window -/

section Maps

variable {c : Core} {pdb : PageDirConfig} {virt : ℕ} {q q' : ℕ × InstTarget}

/-- What one view dereferences, another view of the same machine does as well, unless one
of them fails. -/
theorem deref_eq_or_err (vidOk vidOk' : Bool) (addr : ℕ) (pdAp : PdTarget) :
    (View.mk c vidOk').deref addr pdAp = (View.mk c vidOk).deref addr pdAp ∨
      (∃ e, (View.mk c vidOk).deref addr pdAp = .err e) ∨
      ∃ e, (View.mk c vidOk').deref addr pdAp = .err e := by
  simp only [View.deref]
  split_ifs
  · exact .inl rfl
  · exact .inl rfl
  · exact .inl rfl
  · exact .inr (.inl ⟨_, rfl⟩)
  · exact .inr (.inr ⟨_, rfl⟩)
  · exact .inl rfl
  · exact .inl rfl
  · exact .inl rfl

theorem walk_eq_or_err (vidOk vidOk' : Bool) (vaddr : ℕ) (n : Table) :
    (View.mk c vidOk').walk PageDirEntry.addr (List.range 5) vaddr n =
        (View.mk c vidOk).walk PageDirEntry.addr (List.range 5) vaddr n ∨
      (∃ r, (∃ e, r = Miss.err e) ∧
        (View.mk c vidOk).walk PageDirEntry.addr (List.range 5) vaddr n = .error r) ∨
      ∃ r, (∃ e, r = Miss.err e) ∧
        (View.mk c vidOk').walk PageDirEntry.addr (List.range 5) vaddr n = .error r := by
  refine walk_eq_or_excused ?_ _ n
  intro m k
  simp only [View.slot, View.entryLoc]
  rcases @deref_eq_or_err c vidOk vidOk' (m.base + ptHalf k.level) m.target with
    heq | ⟨e, he⟩ | ⟨e, he⟩
  · rw [heq]
    exact .inl rfl
  · rw [he]
    exact .inr (.inl ⟨_, ⟨e, rfl⟩, rfl⟩)
  · rw [he]
    exact .inr (.inr ⟨_, ⟨e, rfl⟩, rfl⟩)

theorem walkV1_eq_or_err (vidOk vidOk' : Bool) :
    (View.mk c vidOk').walkV1 pdb virt = (View.mk c vidOk).walkV1 pdb virt ∨
      (∃ r, (∃ level e, r = MissV1.err level e) ∧
        (View.mk c vidOk).walkV1 pdb virt = .error r) ∨
      ∃ r, (∃ level e, r = MissV1.err level e) ∧
        (View.mk c vidOk').walkV1 pdb virt = .error r := by
  refine walk_eq_or_excused ?_ _ _
  intro m k
  simp only [View.slotV1]
  rcases @deref_eq_or_err c vidOk vidOk' ((m.base + k.idx * 8) % 2 ^ 64) m.target with
    heq | ⟨e, he⟩ | ⟨e, he⟩
  · rw [heq]
    exact .inl rfl
  · rw [he]
    exact .inr (.inl ⟨_, ⟨k.level, e, rfl⟩, rfl⟩)
  · rw [he]
    exact .inr (.inr ⟨_, ⟨k.level, e, rfl⟩, rfl⟩)

/-- An address is mapped exactly if the walk of a view that does not fail says so. -/
theorem presentFor_eq_or_none (vidOk vidOk' : Bool) :
    (View.mk c vidOk').presentFor pdb virt = (View.mk c vidOk).presentFor pdb virt ∨
      (View.mk c vidOk).presentFor pdb virt = none ∨
      (View.mk c vidOk').presentFor pdb virt = none := by
  simp only [View.presentFor, View.presentPte, View.presentPteV1]
  split_ifs
  · exact .inl rfl
  · rcases @walk_eq_or_err c vidOk vidOk' virt pdb.root with
      heq | ⟨r, -, hr⟩ | ⟨r, -, hr⟩
    · rw [heq]
      exact .inl rfl
    · rw [hr]
      exact .inr (.inl rfl)
    · rw [hr]
      exact .inr (.inr rfl)
  · rcases @walkV1_eq_or_err c pdb virt vidOk vidOk' with heq | ⟨r, -, hr⟩ | ⟨r, -, hr⟩
    · rw [heq]
      exact .inl rfl
    · rw [hr]
      exact .inr (.inl rfl)
    · rw [hr]
      exact .inr (.inr rfl)
  · exact .inl rfl

theorem Core.Maps.unique (h : c.Maps pdb virt q) (h' : c.Maps pdb virt q') : q = q' := by
  obtain ⟨vidOk, hq⟩ := h
  obtain ⟨vidOk', hq'⟩ := h'
  rcases @presentFor_eq_or_none c pdb virt vidOk vidOk' with heq | hnone | hnone
  · rw [heq, hq] at hq'
    exact Option.some.inj hq'
  · rw [hq] at hnone
    cases hnone
  · rw [hq'] at hnone
    cases hnone

theorem Core.Maps.not_endsSilently {v : View} (h : v.toCore.Maps pdb virt q)
    (hver : pdb.isVer2 = true) : ¬ v.EndsSilently pdb virt := by
  rintro ⟨halign, hwalk⟩
  obtain ⟨vidOk, hq⟩ := h
  rw [View.presentFor, hver, if_pos rfl, View.presentPte, if_neg (not_not.mpr halign)] at hq
  rcases @walk_eq_or_err v.toCore v.vidOk vidOk virt pdb.root with
    heq | ⟨r, ⟨e, rfl⟩, hr⟩ | ⟨r, -, hr⟩
  · rw [heq] at hq
    rcases hwalk with hwalk | hwalk <;> rw [hwalk] at hq <;> cases hq
  · rcases hwalk with hwalk | hwalk <;> rw [hwalk] at hr <;> cases hr
  · rw [hr] at hq
    cases hq

theorem Core.Maps.not_endsSilentlyV1 {v : View} (h : v.toCore.Maps pdb virt q)
    (hver : pdb.isVer2 = false) : ¬ v.EndsSilentlyV1 pdb virt := by
  rintro ⟨haccepts, hwalk⟩
  obtain ⟨vidOk, hq⟩ := h
  rw [View.presentFor, hver, if_neg Bool.false_ne_true, View.presentPteV1,
    if_pos haccepts] at hq
  rcases @walkV1_eq_or_err v.toCore pdb virt v.vidOk vidOk with
    heq | ⟨r, ⟨level, e, rfl⟩, hr⟩ | ⟨r, -, hr⟩
  · rw [heq, hwalk] at hq
    cases hq
  · rw [hwalk] at hr
    cases hr
  · rw [hr] at hq
    cases hq

end Maps

/-! ## Lookups -/

section Lookups

variable {s s' : Machine} {pdb : PageDirConfig} {virt : ℕ}

/-- A lookup neither ends silently nor reads through a bad pointer. -/
def View.LooksUp (v : View) (pdb : PageDirConfig) (virt : ℕ) : Prop :=
  if pdb.isVer2 then ¬ v.EndsSilently pdb virt
  else ¬ v.EndsSilentlyV1 pdb virt ∧ ¬ v.ReadsBadPointerV1 pdb virt

theorem lookupVirt_eq (s : Machine) (pdb : PageDirConfig) (virt : ℕ) :
    ∃ s', s'.view = s.view ∧ s.FreshSince s' ∧ lookupVirt pdb virt s =
      (if pdb.isVer2 then some (s.view.translate pdb virt)
        else s.view.translateV1 pdb virt).map fun t => (t.accepted, s') := by
  cases hver : pdb.isVer2 with
  | true =>
      obtain ⟨s', hrun, hview, hfresh⟩ := translatePageDirectory_spec s pdb virt
      refine ⟨s', hview, hfresh, ?_⟩
      rw [lookupVirt, hver, if_pos rfl, if_pos rfl, Kernel.map_apply, hrun]
      rfl
  | false =>
      obtain ⟨s', hview, hfresh, hrun⟩ := translateV1PageDirectory_spec s pdb virt
      refine ⟨s', hview, hfresh, ?_⟩
      rw [lookupVirt, hver, if_neg Bool.false_ne_true, if_neg Bool.false_ne_true,
        Kernel.map_apply, hrun, Option.map_map]
      rfl

theorem View.LooksUp.lookupVirt_eq (h : s.view.LooksUp pdb virt) :
    ∃ s', s'.view = s.view ∧ s.FreshSince s' ∧
      lookupVirt pdb virt s = some (s.view.presentFor pdb virt, s') := by
  obtain ⟨s', hview, hfresh, hrun⟩ := Nvdebug.lookupVirt_eq s pdb virt
  refine ⟨s', hview, hfresh, hrun.trans ?_⟩
  rw [View.LooksUp] at h
  rw [View.presentFor]
  cases hver : pdb.isVer2 with
  | true =>
      rw [hver, if_pos rfl] at h
      have hright := (s.view.isRight_translate_iff pdb virt).mpr h
      rw [if_pos rfl, if_pos rfl, Option.map_some, accepted_of_isRight hright]
  | false =>
      rw [hver, if_neg Bool.false_ne_true] at h
      have hright := (s.view.isRight_translateV1_iff pdb virt).mpr h
      rw [if_neg Bool.false_ne_true, if_neg Bool.false_ne_true]
      cases ht : s.view.translateV1 pdb virt with
      | none =>
          rw [ht] at hright
          exact hright.elim
      | some t =>
          rw [ht] at hright
          rw [Option.map_some, accepted_of_isRight hright]

/-- A lookup of an address that is mapped goes well if it ends. -/
theorem Core.Maps.looksUp {q : ℕ × InstTarget} {r : Option (ℕ × InstTarget)}
    (h : s.toCore.Maps pdb virt q) (hrun : lookupVirt pdb virt s = some (r, s')) :
    s.view.LooksUp pdb virt := by
  rw [View.LooksUp]
  cases hver : pdb.isVer2 with
  | true =>
      rw [if_pos rfl]
      exact Core.Maps.not_endsSilently (v := s.view) h hver
  | false =>
      rw [if_neg Bool.false_ne_true]
      refine ⟨Core.Maps.not_endsSilentlyV1 (v := s.view) h hver, fun hbad => ?_⟩
      obtain ⟨s₁, -, -, hlookup⟩ := Nvdebug.lookupVirt_eq s pdb virt
      rw [hver, if_neg Bool.false_ne_true,
        View.translateV1_of_readsBadPointerV1 hbad] at hlookup
      rw [hlookup] at hrun
      cases hrun

theorem lookupVirt_view {r : Option (ℕ × InstTarget)}
    (hrun : lookupVirt pdb virt s = some (r, s')) :
    s'.view = s.view ∧ s.FreshSince s' := by
  obtain ⟨s₁, hview, hfresh, hlookup⟩ := lookupVirt_eq s pdb virt
  rw [hlookup] at hrun
  obtain ⟨t, -, heq⟩ := Option.map_eq_some_iff.mp hrun
  cases heq
  exact ⟨hview, hfresh⟩

theorem mod_of_lookupVirt {p : ℕ × InstTarget}
    (hrun : lookupVirt pdb virt s = some (some p, s')) : p.1 % 4096 = 0 := by
  obtain ⟨s₁, -, -, hlookup⟩ := lookupVirt_eq s pdb virt
  rw [hlookup] at hrun
  obtain ⟨t, ht, heq⟩ := Option.map_eq_some_iff.mp hrun
  have haccepted : t.accepted = some p := (Prod.mk.inj heq).1
  rw [Translation.accepted] at haccepted
  split_ifs at haccepted
  cases haccepted
  split_ifs at ht
  · cases ht
    exact @View.mod_of_translate s.view pdb virt _ _ _ rfl
  · rw [View.translateV1] at ht
    split_ifs at ht
    · rcases s.view.walkV1_cases pdb virt with
        ⟨pte, h⟩ | h | h | ⟨e, -, h⟩ | h | ⟨e, h⟩ <;> rw [h] at ht <;> cases ht
      · exact Nat.mul_mod_left _ _
      · rfl
      · rfl
      · rfl
    · cases ht
      rfl

end Lookups

/-! ## Pointers into the window -/

/-- The pointer was computed for `q`, and the window shows `q` where it points. -/
def Machine.PointsTo (s : Machine) (k : Kva) (q : ℕ × InstTarget) : Prop :=
  ∃ off : ℕ, k = .pramin off q.1 q.2 ∧ windowTarget s.window = q.2 ∧
    windowBase s.window * 0x10000 + off = q.1 ∧ ShowsChunk s.window q.1

section PointsTo

variable {s s' : Machine} {k : Kva} {q : ℕ × InstTarget}

theorem Machine.PointsTo.congr (h : s.PointsTo k q) (hwindow : s'.window = s.window) :
    s'.PointsTo k q := by
  rw [Machine.PointsTo, hwindow]
  exact h

theorem Machine.PointsTo.shows (h : s.PointsTo k q) (halign : q.1 % 4096 = 0) {n : ℕ}
    (hn : n < 4096) : Shows s (k.add (n : ℕ)) (s.windowLoc q.2 (q.1 + n)) := by
  obtain ⟨off, rfl, htarget, hbase, hchunk⟩ := h
  obtain ⟨hlow, hhigh⟩ := hchunk
  have hlen : nvPraminLen = 16 * 0x10000 := rfl
  have hin : 0 ≤ (off : ℤ) + (n : ℕ) ∧ (off : ℤ) + (n : ℕ) < nvPraminLen := by
    rw [hlen] at hhigh ⊢
    omega
  constructor
  · simp only [Kva.add, Machine.reach, if_pos hin, htarget]
    congr 3
    omega
  · refine ⟨[⟨off + (n : ℕ), ((q.1 : ℤ) + (n : ℕ)).toNat, q.2, s.window⟩], rfl, ?_⟩
    intro a ha
    rw [List.mem_singleton.mp ha]
    refine ⟨htarget, hin.1, hin.2, ?_⟩
    dsimp only
    omega

/-- The pointer that a successful call of `addr_to_pramin_mut` yields. -/
theorem pointsTo_of_accessible {addr : ℕ} {target : InstTarget}
    (h : s.Accessible addr target) :
    ∃ off s', addrToPraminMut addr target s = some (off, s') ∧ 0 ≤ off ∧
      s'.PointsTo (.pramin off addr target) (addr, target) := by
  obtain ⟨s₁, hrun₁⟩ := addrToPraminMut_of_accessible h
  obtain ⟨ret, s', hrun, hshows, -, -⟩ := addrToPraminMut_spec s addr target
  obtain ⟨rfl, rfl⟩ := Prod.mk.inj (Option.some.inj (hrun₁.symm.trans hrun))
  obtain ⟨htarget, hbase, hchunk⟩ := hshows (Int.natCast_nonneg _)
  refine ⟨_, s₁, hrun, Int.natCast_nonneg _, ⟨_, rfl, htarget, ?_, hchunk⟩⟩
  dsimp only
  omega

theorem accesses_addrToPraminMut {addr : ℕ} {target : InstTarget} {off : ℤ}
    (hrun : addrToPraminMut addr target s = some (off, s')) :
    s'.accesses = s.accesses := by
  rcases addrToPraminMut_cases s addr target with
    ⟨e, -, hmut, -⟩ | ⟨-, -, -, ⟨-, n, -, -, hmut⟩ | ⟨-, hmut⟩⟩
  · obtain ⟨-, rfl⟩ := Prod.mk.inj (Option.some.inj (hrun.symm.trans hmut))
    rfl
  · obtain ⟨-, rfl⟩ := Prod.mk.inj (Option.some.inj (hrun.symm.trans hmut))
    rfl
  · obtain ⟨-, rfl⟩ := Prod.mk.inj (Option.some.inj (hrun.symm.trans hmut))
    rfl

theorem not_pointsTo_of_neg {e : ℤ} {addr : ℕ} {target : InstTarget} (he : e < 0) :
    ¬ s.PointsTo (.pramin e addr target) q := by
  rintro ⟨off, hk, -⟩
  cases hk
  omega

end PointsTo

/-! ## Accesses that are not fresh -/

theorem Machine.FreshSince.suffix {s s' : Machine} (h : s.FreshSince s') :
    s.accesses <:+ s'.accesses := by
  obtain ⟨new, hnew, -⟩ := h
  exact ⟨new, hnew.symm⟩

theorem not_freshSince {s s' : Machine} {a : PraminAccess} {l : List PraminAccess}
    (ha : ¬ a.IsFresh) (hbefore : s.accesses <:+ l) (hafter : a :: l <:+ s'.accesses) :
    ¬ s.FreshSince s' := by
  rintro ⟨new, hnew, hfresh⟩
  obtain ⟨x, rfl⟩ := hbefore
  obtain ⟨y, hy⟩ := hafter
  have hsplit : new = y ++ a :: x := by
    apply (List.append_left_inj s.accesses).mp
    rw [← hnew, ← hy, List.append_assoc, List.cons_append]
  apply ha
  apply hfresh
  rw [hsplit]
  simp

/-! ## The lookups of `get_ctxsw` -/

/-- The pointer is routed via BAR2 or to system memory, as `instance_deref` returns it. -/
def Kva.IsDirect : Kva → Prop
  | .bar2 _ => True
  | .phys _ => True
  | _ => False

/-- The virtual addresses that `get_ctxsw` looks up, each with the view at that time. -/
inductive CtxswLookup (inst : Kva) (s : Machine) : View → ℕ → Prop where
  | wfi (ne : (s.engineWfi inst).ptr ≠ 0) (isVirtual : (s.engineWfi inst).isVirtual = true) :
      CtxswLookup inst s s.view ((s.engineWfi inst).ptr * 4096)
  | ctxsw {p : ℕ × InstTarget} {s₁ s₂ : Machine} {off : ℤ}
      (located : locateWfi inst s = some (.ok p, s₁))
      (call : addrToPraminMut p.1 p.2 s₁ = some (off, s₂))
      (subcontexts : s.instWord inst 664 ≠ 0) (ver2 : (s.pdb inst).isVer2 = true)
      (ne : s.contextBufferPtr p ≠ 0) :
      CtxswLookup inst s s₂.view (s.contextBufferPtr p)

section GetCtxsw

variable {inst : Kva} {s s' : Machine} (hinst : inst.IsDirect)

include hinst

theorem instEngineWfi_of_isDirect (s : Machine) :
    instEngineWfi inst s = some (s.engineWfi inst, s) := by
  cases inst with
  | null => exact hinst.elim
  | err e => exact hinst.elim
  | pramin off addr target => exact hinst.elim
  | bar2 off => rfl
  | phys addr => rfl

theorem instPdb_of_isDirect (s : Machine) : instPdb inst s = some (s.pdb inst, s) := by
  cases inst with
  | null => exact hinst.elim
  | err e => exact hinst.elim
  | pramin off addr target => exact hinst.elim
  | bar2 off => rfl
  | phys addr => rfl

theorem instSubcontextPdbValid_of_isDirect (s : Machine) :
    instSubcontextPdbValid inst s = some (s.instWord inst 664, s) := by
  cases inst with
  | null => exact hinst.elim
  | err e => exact hinst.elim
  | pramin off addr target => exact hinst.elim
  | bar2 off => rfl
  | phys addr => rfl

theorem locateWfi_eq (s : Machine) :
    locateWfi inst s =
      if (s.engineWfi inst).ptr = 0 then some (.error .null, s)
      else if (s.engineWfi inst).isVirtual then
        (orNotRecoverable <$> lookupVirt (s.pdb inst) ((s.engineWfi inst).ptr * 4096)) s
      else some (.ok ((s.engineWfi inst).ptr * 4096, (s.engineWfi inst).target), s) := by
  have hwfi := instEngineWfi_of_isDirect hinst s
  rw [locateWfi, Kernel.bind_eq_of_eq hwfi]
  by_cases hzero : (s.engineWfi inst).ptr = 0
  · rw [if_pos hzero, if_pos (by omega)]
    rfl
  rw [if_neg hzero, if_neg (by omega), Kernel.bind_eq_of_eq hwfi]
  by_cases hvirt : (s.engineWfi inst).isVirtual = true
  · rw [if_pos hvirt, if_pos hvirt, Kernel.bind_eq_of_eq (instPdb_of_isDirect hinst s)]
    rw [bind_pure_comp]
  · rw [if_neg hvirt, if_neg hvirt, Kernel.bind_eq_of_eq hwfi]
    rfl

/-- Behind a pointer that points to the WFI block, memory is read. -/
theorem locateCtxsw_eq {wfi : Kva} {p : ℕ × InstTarget} (hwfi : s.PointsTo wfi p)
    (halign : p.1 % 4096 = 0) :
    locateCtxsw inst wfi s =
      if s.instWord inst 664 = 0 then some (.error wfi, s)
      else if (s.pdb inst).isVer2 then
        if s.contextBufferPtr p = 0 then
          some (.error .null, (s.logAccess (wfi.add 120)).logAccess (wfi.add 124))
        else
          (orNotRecoverable <$> lookupVirt (s.pdb inst) (s.contextBufferPtr p))
            ((s.logAccess (wfi.add 120)).logAccess (wfi.add 124))
      else some (.error (.err (-enotrecoverable)), s) := by
  have hhi := hwfi.shows halign (n := 120) (by decide)
  have hstay : (s.logAccess (wfi.add 120)).PointsTo wfi p := hwfi.congr (by cases wfi <;> rfl)
  have hlo := hstay.shows halign (n := 124) (by decide)
  have hcore : (s.logAccess (wfi.add 120)).toCore = s.toCore := by
    cases wfi <;> rfl
  have hcore' : ((s.logAccess (wfi.add 120)).logAccess (wfi.add 124)).toCore = s.toCore := by
    cases wfi <;> rfl
  rw [locateCtxsw, Kernel.bind_eq_of_eq (instSubcontextPdbValid_of_isDirect hinst s)]
  by_cases hvalid : s.instWord inst 664 = 0
  · rw [if_pos hvalid, if_pos hvalid]
    rfl
  rw [if_neg hvalid, if_neg hvalid, Kernel.bind_eq_of_eq (instPdb_of_isDirect hinst s)]
  by_cases hver : (s.pdb inst).isVer2 = true
  · have hhi' : readl (wfi.add 120) s =
        some (s.load (s.windowLoc p.2 (p.1 + 120)), s.logAccess (wfi.add 120)) :=
      hhi.readl_eq
    have hlo' : readl (wfi.add 124) (s.logAccess (wfi.add 120)) =
        some (s.load (s.windowLoc p.2 (p.1 + 124)),
          (s.logAccess (wfi.add 120)).logAccess (wfi.add 124)) := by
      rw [← hcore]
      exact hlo.readl_eq
    have hptr : (s.load (s.windowLoc p.2 (p.1 + 120)) ++
        s.load (s.windowLoc p.2 (p.1 + 124))).toNat = s.contextBufferPtr p := rfl
    rw [if_pos hver, hver, Bool.not_true, if_neg Bool.false_ne_true,
      Kernel.bind_eq_of_eq hhi', Kernel.bind_eq_of_eq hlo', hptr]
    by_cases hzero : s.contextBufferPtr p = 0
    · rw [if_pos hzero, if_pos hzero]
      rfl
    have hpdb := instPdb_of_isDirect hinst ((s.logAccess (wfi.add 120)).logAccess (wfi.add 124))
    rw [hcore'] at hpdb
    rw [if_neg hzero, if_neg hzero, Kernel.bind_eq_of_eq hpdb]
    rw [lookupVirt, hver, if_pos rfl, Functor.map_map, bind_pure_comp]
  · rw [if_neg hver]
    rw [Bool.not_eq_true] at hver
    rw [hver, Bool.not_false, if_pos rfl]
    rfl

/-- Up to the WFI block, nothing changes but the window, and nothing but memory is read. -/
theorem locateWfi_spec {r : Except Kva (ℕ × InstTarget)}
    (hrun : locateWfi inst s = some (r, s')) :
    s'.view = s.view ∧ s.FreshSince s' ∧ (∀ k, r = .error k → k.isErrOrNull = true) ∧
      ∀ p, r = .ok p → p.1 % 4096 = 0 := by
  rw [locateWfi_eq hinst] at hrun
  split_ifs at hrun with hzero hvirt
  · cases hrun
    refine ⟨rfl, .refl s, ?_, ?_⟩
    · intro k hk
      cases hk
      rfl
    · intro p hp
      cases hp
  · rw [Kernel.map_apply] at hrun
    obtain ⟨⟨found, s₁⟩, hlookup, heq⟩ := Option.map_eq_some_iff.mp hrun
    cases heq
    obtain ⟨hview, hfresh⟩ := lookupVirt_view hlookup
    refine ⟨hview, hfresh, ?_, ?_⟩
    · intro k hk
      cases found with
      | none =>
          cases hk
          rfl
      | some p => cases hk
    · intro p hp
      cases found with
      | none => cases hp
      | some p' =>
          cases hp
          exact mod_of_lookupVirt hlookup
  · cases hrun
    refine ⟨rfl, .refl s, ?_, ?_⟩
    · intro k hk
      cases hk
    · intro p hp
      cases hp
      exact Nat.mul_mod_left _ _

/-- The WFI block that is located is the one that memory says. -/
theorem wfiBlock_of_located {p : ℕ × InstTarget}
    (hrun : locateWfi inst s = some (.ok p, s'))
    (hlookup : (s.engineWfi inst).ptr ≠ 0 → (s.engineWfi inst).isVirtual = true →
      s.view.LooksUp (s.pdb inst) ((s.engineWfi inst).ptr * 4096)) :
    s.WfiBlock inst p := by
  rw [locateWfi_eq hinst] at hrun
  split_ifs at hrun with hzero hvirt
  · cases hrun
  · obtain ⟨s₁, -, -, hfound⟩ := (hlookup hzero hvirt).lookupVirt_eq
    rw [Kernel.map_apply, hfound, Option.map_some] at hrun
    refine ⟨hzero, ?_⟩
    rw [if_pos hvirt]
    refine ⟨s.vidOk, ?_⟩
    change s.view.presentFor _ _ = some p
    cases hpresent : s.view.presentFor (s.pdb inst) ((s.engineWfi inst).ptr * 4096) with
    | none =>
        rw [hpresent] at hrun
        cases hrun
    | some p' =>
        rw [hpresent] at hrun
        cases hrun
        rfl
  · cases hrun
    refine ⟨hzero, ?_⟩
    rw [if_neg hvirt]

/-- If there is a WFI block, the lookup of its address goes well. -/
theorem looksUp_of_wfiBlock {p : ℕ × InstTarget} {r : Except Kva (ℕ × InstTarget)}
    (hrun : locateWfi inst s = some (r, s')) (hblock : s.WfiBlock inst p)
    (hvirt : (s.engineWfi inst).isVirtual = true) :
    s.view.LooksUp (s.pdb inst) ((s.engineWfi inst).ptr * 4096) := by
  obtain ⟨hne, hmaps⟩ := hblock
  rw [if_pos hvirt] at hmaps
  rw [locateWfi_eq hinst, if_neg hne, if_pos hvirt, Kernel.map_apply] at hrun
  obtain ⟨⟨found, s₁⟩, hlookup, -⟩ := Option.map_eq_some_iff.mp hrun
  exact hmaps.looksUp hlookup

end GetCtxsw

theorem Core.WfiBlock.unique {c : Core} {inst : Kva} {p p' : ℕ × InstTarget}
    (h : c.WfiBlock inst p) (h' : c.WfiBlock inst p') : p = p' := by
  obtain ⟨-, hp⟩ := h
  obtain ⟨-, hp'⟩ := h'
  split_ifs at hp hp'
  · exact hp.unique hp'
  · exact hp.trans hp'.symm

/-! ## When the block is found -/

theorem accesses_of_readl {s s' : Machine} {k : Kva} {w : BitVec 32}
    (hrun : readl k s = some (w, s')) : s' = s.logAccess k := by
  rw [readl] at hrun
  cases hreach : s.reach k with
  | none =>
      rw [hreach] at hrun
      cases hrun
  | some r =>
      rw [hreach] at hrun
      cases r <;> cases hrun <;> rfl

theorem suffix_logAccess (s : Machine) (k : Kva) :
    s.accesses <:+ (s.logAccess k).accesses := by
  cases k with
  | pramin off addr target => exact List.suffix_cons _ _
  | null => exact List.suffix_refl _
  | err e => exact List.suffix_refl _
  | bar2 off => exact List.suffix_refl _
  | phys addr => exact List.suffix_refl _

section Sound

variable {inst : Kva} {s s' : Machine} {p : ℕ × InstTarget}

/-- Behind a failed call, the pointer that was formed is returned or nothing is, or else the
WFI block is not read where it is. -/
theorem locateCtxsw_of_failed (hinst : inst.IsDirect) {e : ℤ}
    (he : e = -einval ∨ e = -eopnotsupp) (halign : p.1 % 4096 = 0)
    {r : Except Kva (ℕ × InstTarget)}
    (hrun : locateCtxsw inst (.pramin e p.1 p.2) s = some (r, s')) :
    r = .error (.pramin e p.1 p.2) ∨ (∃ k : Kva, r = .error k ∧ k.isErrOrNull = true) ∨
      ∃ a : PraminAccess, ¬ a.IsFresh ∧ a :: s.accesses <:+ s'.accesses := by
  rw [locateCtxsw, Kernel.bind_eq_of_eq (instSubcontextPdbValid_of_isDirect hinst s)] at hrun
  by_cases hvalid : s.instWord inst 664 = 0
  · rw [if_pos hvalid] at hrun
    cases hrun
    exact .inl rfl
  rw [if_neg hvalid, Kernel.bind_eq_of_eq (instPdb_of_isDirect hinst s)] at hrun
  by_cases hver : (s.pdb inst).isVer2 = true
  swap
  · rw [Bool.not_eq_true] at hver
    rw [hver, Bool.not_false, if_pos rfl] at hrun
    cases hrun
    exact .inr (.inl ⟨_, rfl, rfl⟩)
  rw [hver, Bool.not_true, if_neg Bool.false_ne_true] at hrun
  obtain ⟨hi, s₁, hhi, hrun⟩ := Kernel.bind_eq_some hrun
  obtain ⟨lo, s₂, hlo, hrun⟩ := Kernel.bind_eq_some hrun
  have hfirst : s₁.accesses = ⟨e + 120, ((p.1 : ℤ) + 120).toNat, p.2, s.window⟩ ::
      s.accesses := by
    rw [accesses_of_readl hhi]
    rfl
  have hsecond : s₁.accesses <:+ s₂.accesses := by
    rw [accesses_of_readl hlo]
    exact suffix_logAccess s₁ _
  rw [hfirst] at hsecond
  refine .inr (.inr ⟨⟨e + 120, ((p.1 : ℤ) + 120).toNat, p.2, s.window⟩, ?_, hsecond.trans ?_⟩)
  · -- the window begins at a page, as the block does, but the error is no multiple of pages
    rintro ⟨-, -, -, hbase⟩
    dsimp only at hbase
    rcases he with rfl | rfl
    · rw [einval] at hbase
      omega
    · rw [eopnotsupp] at hbase
      omega
  · by_cases hzero : (hi ++ lo).toNat = 0
    · simp only [if_pos hzero] at hrun
      cases hrun
      exact List.suffix_refl _
    · simp only [if_neg hzero] at hrun
      rw [Kernel.bind_eq_of_eq (instPdb_of_isDirect hinst s₂)] at hrun
      obtain ⟨t, s₃, htranslate, hrun⟩ := Kernel.bind_eq_some hrun
      obtain ⟨s₄, hspec, -, hfresh⟩ := translatePageDirectory_spec s₂ (s₂.pdb inst)
        (hi ++ lo).toNat
      obtain ⟨-, rfl⟩ := Prod.mk.inj (Option.some.inj (hspec.symm.trans htranslate))
      cases hrun
      exact hfresh.suffix

theorem getCtxsw_steps (hinst : inst.IsDirect) {k : Kva}
    (hrun : getCtxsw inst s = some (k, s')) (hok : k.isErrOrNull = false) :
    ∃ p s₁ off s₂, locateWfi inst s = some (.ok p, s₁) ∧ p.1 % 4096 = 0 ∧
      addrToPraminMut p.1 p.2 s₁ = some (off, s₂) ∧ off ≠ -1 ∧
      (locateCtxsw inst (.pramin off p.1 p.2) s₂ = some (.error k, s') ∨
        ∃ q s₃ off', locateCtxsw inst (.pramin off p.1 p.2) s₂ = some (.ok q, s₃) ∧
          addrToPraminMut q.1 q.2 s₃ = some (off', s') ∧ k = .pramin off' q.1 q.2) := by
  rw [getCtxsw_eq] at hrun
  obtain ⟨r, s₁, hlocate, hrun⟩ := Kernel.bind_eq_some hrun
  obtain ⟨-, -, herror, halign⟩ := locateWfi_spec hinst hlocate
  cases r with
  | error k' =>
      cases hrun
      rw [herror k rfl] at hok
      cases hok
  | ok p =>
      obtain ⟨off, s₂, hcall, hrun⟩ := Kernel.bind_eq_some hrun
      rw [wfiRest] at hrun
      by_cases hoff : off = -1
      · rw [if_pos hoff] at hrun
        cases hrun
        cases hok
      rw [if_neg hoff] at hrun
      obtain ⟨r', s₃, hlocate', hrun⟩ := Kernel.bind_eq_some hrun
      refine ⟨p, s₁, off, s₂, hlocate, halign p rfl, hcall, hoff, ?_⟩
      cases r' with
      | error k' =>
          cases hrun
          exact .inl hlocate'
      | ok q =>
          obtain ⟨off', s₄, hcall', hrun⟩ := Kernel.bind_eq_some hrun
          rw [ctxswRest] at hrun
          by_cases hoff' : off' = -1
          · rw [if_pos hoff'] at hrun
            cases hrun
            cases hok
          · rw [if_neg hoff'] at hrun
            cases hrun
            exact .inr ⟨q, s₃, off', hlocate', hcall', rfl⟩

/-- Reading the WFI block through a pointer that points to it. -/
theorem freshSince_readWfi {wfi : Kva} (hwfi : s.PointsTo wfi p) (halign : p.1 % 4096 = 0) :
    s.FreshSince ((s.logAccess (wfi.add 120)).logAccess (wfi.add 124)) := by
  have hhi := hwfi.shows halign (n := 120) (by decide)
  have hstay : (s.logAccess (wfi.add 120)).PointsTo wfi p := hwfi.congr (by cases wfi <;> rfl)
  have hlo := hstay.shows halign (n := 124) (by decide)
  exact hhi.fresh.trans hlo.fresh

theorem lookup_of_located (hinst : inst.IsDirect) {wfi : Kva} (hwfi : s.PointsTo wfi p)
    (halign : p.1 % 4096 = 0) {r : Except Kva (ℕ × InstTarget)}
    (hvalid : s.instWord inst 664 ≠ 0) (hver : (s.pdb inst).isVer2 = true)
    (hne : s.contextBufferPtr p ≠ 0) (hrun : locateCtxsw inst wfi s = some (r, s')) :
    ∃ found u, r = orNotRecoverable found ∧ u.view = s.view ∧ s.FreshSince u ∧
      lookupVirt (s.pdb inst) (s.contextBufferPtr p) u = some (found, s') := by
  rw [locateCtxsw_eq hinst hwfi halign, if_neg hvalid, if_pos hver, if_neg hne,
    Kernel.map_apply] at hrun
  obtain ⟨⟨found, s₁⟩, hlookup, heq⟩ := Option.map_eq_some_iff.mp hrun
  cases heq
  refine ⟨found, _, rfl, ?_, freshSince_readWfi hwfi halign, hlookup⟩
  rw [Machine.view_logAccess, Machine.view_logAccess]

/-- An address is only located behind the WFI block with subcontexts. -/
theorem subcontexts_of_located (hinst : inst.IsDirect) {wfi : Kva} (hwfi : s.PointsTo wfi p)
    (halign : p.1 % 4096 = 0) {q : ℕ × InstTarget}
    (hrun : locateCtxsw inst wfi s = some (.ok q, s')) :
    s.instWord inst 664 ≠ 0 ∧ (s.pdb inst).isVer2 = true ∧ s.contextBufferPtr p ≠ 0 := by
  rw [locateCtxsw_eq hinst hwfi halign] at hrun
  split_ifs at hrun with hvalid hver hzero
  · cases hrun
  · cases hrun
  · exact ⟨hvalid, hver, hzero⟩
  · cases hrun

/-- An early return of a pointer, behind the WFI block, is that of the WFI block. -/
theorem single_of_located (hinst : inst.IsDirect) {wfi k : Kva} (hwfi : s.PointsTo wfi p)
    (halign : p.1 % 4096 = 0) (hok : k.isErrOrNull = false)
    (hrun : locateCtxsw inst wfi s = some (.error k, s')) :
    s.instWord inst 664 = 0 ∧ k = wfi ∧ s' = s := by
  rw [locateCtxsw_eq hinst hwfi halign] at hrun
  split_ifs at hrun with hvalid hver hzero
  · cases hrun
    exact ⟨hvalid, rfl, rfl⟩
  · cases hrun
    cases hok
  · rw [Kernel.map_apply] at hrun
    obtain ⟨⟨found, s₁⟩, -, heq⟩ := Option.map_eq_some_iff.mp hrun
    cases found with
    | none =>
        cases heq
        cases hok
    | some q => cases heq
  · cases hrun
    cases hok

/-- The first call does not fail in a run that reads the WFI block where it is. -/
theorem accessible_of_fresh (hinst : inst.IsDirect) {k : Kva} {q : ℕ × InstTarget}
    {s₁ s₂ : Machine} {off : ℤ} (halign : p.1 % 4096 = 0)
    (hcall : addrToPraminMut p.1 p.2 s₁ = some (off, s₂))
    (hend : locateCtxsw inst (.pramin off p.1 p.2) s₂ = some (.error k, s') ∨
      ∃ q s₃ off', locateCtxsw inst (.pramin off p.1 p.2) s₂ = some (.ok q, s₃) ∧
        addrToPraminMut q.1 q.2 s₃ = some (off', s') ∧ k = .pramin off' q.1 q.2)
    (hok : k.isErrOrNull = false) (hpoints : s'.PointsTo k q) (hbefore : s.FreshSince s₁)
    (hfresh : s.FreshSince s') : s₁.Accessible p.1 p.2 := by
  by_contra hbad
  obtain ⟨e, he, hfailed⟩ := addrToPraminMut_of_not_accessible hbad
  obtain ⟨rfl, rfl⟩ := Prod.mk.inj (Option.some.inj (hcall.symm.trans hfailed))
  rcases hend with hend | ⟨q', s₃, off', hend, hcall', rfl⟩
  · rcases locateCtxsw_of_failed hinst he halign hend with hk | ⟨k', hk, hbad'⟩ | ⟨a, ha, hlog⟩
    · cases hk
      exact not_pointsTo_of_neg (errno_of_failed he).1 hpoints
    · cases hk
      rw [hok] at hbad'
      cases hbad'
    · exact not_freshSince ha hbefore.suffix hlog hfresh
  · rcases locateCtxsw_of_failed hinst he halign hend with hk | ⟨k', hk, -⟩ | ⟨a, ha, hlog⟩
    · cases hk
    · cases hk
    · rw [← accesses_addrToPraminMut hcall'] at hlog
      exact not_freshSince ha hbefore.suffix hlog hfresh

theorem maps_of_lookup {pdb : PageDirConfig} {virt : ℕ} {q : ℕ × InstTarget}
    (hlooks : s.view.LooksUp pdb virt) (hrun : lookupVirt pdb virt s = some (some q, s')) :
    s.Maps pdb virt q := by
  obtain ⟨s₁, -, -, hfound⟩ := hlooks.lookupVirt_eq
  obtain ⟨hpresent, -⟩ := Prod.mk.inj (Option.some.inj (hfound.symm.trans hrun))
  exact ⟨s.vidOk, hpresent⟩

/-- `get_ctxsw` follows pointers to where they lead, and returns a pointer to the block that
belongs to the instance block, exactly if its lookups go well and the window can show both
blocks. -/
theorem getCtxsw_sound_iff (hinst : inst.IsDirect) {k : Kva}
    (hrun : getCtxsw inst s = some (k, s')) (hok : k.isErrOrNull = false) :
    (∃ q, s.CtxswBlock inst q ∧ s'.PointsTo k q ∧ s.FreshSince s') ↔
      (∀ v virt, CtxswLookup inst s v virt → v.LooksUp (s.pdb inst) virt) ∧
        ∀ c, CtxswCall inst s c → c.Accessible := by
  obtain ⟨p, s₁, off, s₂, hlocate, halign, hcall, hoff, hend⟩ := getCtxsw_steps hinst hrun hok
  obtain ⟨hview₁, hfresh₁, -⟩ := locateWfi_spec hinst hlocate
  have hcore₁ : s₁.toCore = s.toCore := congrArg View.toCore hview₁
  have hcore₂ : s₂.toCore = s.toCore :=
    (keepsCore_addrToPraminMut p.1 p.2 s₁ _ _ hcall).trans hcore₁
  have hlog₂ := accesses_addrToPraminMut hcall
  constructor
  · rintro ⟨q, hblock, hpoints, hfresh⟩
    have hfirst : ∃ p', s.WfiBlock inst p' := by
      cases hblock with
      | wfi block single => exact ⟨_, block⟩
      | ctxsw block subcontexts ver2 ne maps => exact ⟨_, block⟩
    obtain ⟨p', hp'⟩ := hfirst
    have hlooks₁ : (s.engineWfi inst).isVirtual = true →
        s.view.LooksUp (s.pdb inst) ((s.engineWfi inst).ptr * 4096) :=
      looksUp_of_wfiBlock hinst hlocate hp'
    have hwfi : s.WfiBlock inst p := wfiBlock_of_located hinst hlocate fun _ => hlooks₁
    have haccessible : s₁.Accessible p.1 p.2 :=
      accessible_of_fresh hinst halign hcall hend hok hpoints hfresh₁ hfresh
    obtain ⟨off₁, t, hcall₁, -, hpoints₁⟩ := pointsTo_of_accessible haccessible
    obtain ⟨rfl, rfl⟩ := Prod.mk.inj (Option.some.inj (hcall₁.symm.trans hcall))
    constructor
    · intro v virt hlookup
      cases hlookup with
      | wfi ne isVirtual => exact hlooks₁ isVirtual
      | @ctxsw p₀ s₀ t₀ off₀ located call subcontexts ver2 ne =>
          obtain ⟨hp, rfl⟩ := Prod.mk.inj (Option.some.inj (hlocate.symm.trans located))
          cases hp
          obtain ⟨-, rfl⟩ := Prod.mk.inj (Option.some.inj (hcall.symm.trans call))
          have hmaps : s.Maps (s.pdb inst) (s.contextBufferPtr p) q := by
            cases hblock with
            | wfi block single => exact absurd single subcontexts
            | ctxsw block subcontexts ver2 ne maps =>
                rw [hwfi.unique block]
                exact maps
          rw [← hcore₂] at subcontexts ver2 ne hmaps ⊢
          rcases hend with hend | ⟨q', s₃, off', hend, -⟩
          · exact absurd (single_of_located hinst hpoints₁ halign hok hend).1 subcontexts
          · obtain ⟨found, u, -, hview, -, hlookup⟩ :=
              lookup_of_located hinst hpoints₁ halign subcontexts ver2 ne hend
            have hcore : u.toCore = t.toCore := congrArg View.toCore hview
            have hmaps' : u.Maps (t.pdb inst) (t.contextBufferPtr p) q := by
              rw [hcore]
              exact hmaps
            rw [← hview]
            exact hmaps'.looksUp hlookup
    · intro c hc
      cases hc with
      | wfi located =>
          obtain ⟨hp, rfl⟩ := Prod.mk.inj (Option.some.inj (hlocate.symm.trans located))
          cases hp
          exact haccessible
      | @ctxsw p₀ q₀ s₀ t₀ u₀ off₀ located call goes located' =>
          obtain ⟨hp, rfl⟩ := Prod.mk.inj (Option.some.inj (hlocate.symm.trans located))
          cases hp
          obtain ⟨rfl, rfl⟩ := Prod.mk.inj (Option.some.inj (hcall.symm.trans call))
          by_contra hbad
          obtain ⟨e, he, hfailed⟩ := addrToPraminMut_of_not_accessible hbad
          rcases hend with hend | ⟨q', s₃, off', hend, hcall', rfl⟩
          · rw [located'] at hend
            cases hend
          · rw [located'] at hend
            cases hend
            obtain ⟨rfl, -⟩ := Prod.mk.inj (Option.some.inj (hcall'.symm.trans hfailed))
            exact not_pointsTo_of_neg (errno_of_failed he).1 hpoints
  · rintro ⟨hlookups, hcalls⟩
    have hblock : s.WfiBlock inst p := wfiBlock_of_located hinst hlocate fun ne isVirtual =>
      hlookups _ _ (.wfi ne isVirtual)
    obtain ⟨off₁, t, hcall₁, -, hpoints₁⟩ := pointsTo_of_accessible (hcalls _ (.wfi hlocate))
    obtain ⟨rfl, rfl⟩ := Prod.mk.inj (Option.some.inj (hcall₁.symm.trans hcall))
    have hfresh₂ : s.FreshSince t := hfresh₁.trans (.of_eq hlog₂)
    rcases hend with hend | ⟨q, s₃, off', hlocate', hcall', rfl⟩
    · obtain ⟨hvalid, rfl, rfl⟩ := single_of_located hinst hpoints₁ halign hok hend
      rw [hcore₂] at hvalid
      exact ⟨p, .wfi hblock hvalid, hpoints₁, hfresh₂⟩
    · obtain ⟨hvalid, hver, hne⟩ := subcontexts_of_located hinst hpoints₁ halign hlocate'
      obtain ⟨found, u, hfound, hview, hread, hlookup⟩ :=
        lookup_of_located hinst hpoints₁ halign hvalid hver hne hlocate'
      obtain ⟨hview₃, hfresh₃⟩ := lookupVirt_view hlookup
      cases found with
      | none => cases hfound
      | some q' =>
          cases hfound
          obtain ⟨off₂, t', hcall₂, -, hpoints₂⟩ :=
            pointsTo_of_accessible (hcalls _ (.ctxsw hlocate hcall hoff hlocate'))
          obtain ⟨rfl, rfl⟩ := Prod.mk.inj (Option.some.inj (hcall₂.symm.trans hcall'))
          rw [hcore₂] at hvalid hver hne hlookup
          have hlooks := hlookups _ _ (.ctxsw hlocate hcall hvalid hver hne)
          rw [← hview] at hlooks
          have hcore : u.toCore = s.toCore := (congrArg View.toCore hview).trans hcore₂
          have hmaps := maps_of_lookup hlooks hlookup
          rw [hcore] at hmaps
          refine ⟨q, .ctxsw hblock hvalid hver hne hmaps, hpoints₂, ?_⟩
          exact ((hfresh₂.trans hread).trans hfresh₃).trans
            (.of_eq (accesses_addrToPraminMut hcall'))

end Sound

end A100Partitioning.Nvdebug
