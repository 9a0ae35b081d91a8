import A100Partitioning.Nvdebug.Bus

/-!
# Dereferencing page-directory pointers (`pd_deref`)

`pd_deref` turns an address of the GPU into a pointer for the kernel, moving the
PRAMIN window on the way.  What it reaches does not depend on where the window
was before.  A `View` is the machine without the window; the specification below
lets the page-table walks be described on views alone.
-/

namespace A100Partitioning.Nvdebug

/-- `pd_deref`. -/
def pdDeref (addr : ℕ) (pdAp : PdTarget) : Kernel Kva := do
  if !pdAp.isPdTarget || pdAp == .pdInvalid || addr == 0 then
    return .err (-einval)
  if pdAp = .pdVidMem then
    let off ← addrToPraminMut addr .vidMem
    if off < 0 then return .err off
    return .pramin off addr .vidMem
  let phys := ((← get).busLoc addr).addr
  if phys = 0 then return .null
  return .phys phys

/-! ## Views -/

/-- The machine without the PRAMIN window; `vidOk` remembers whether the window
can show video memory. -/
structure View extends Core where
  vidOk : Bool

/-- What the page tables depend on. -/
def Machine.view (s : Machine) : View :=
  { toCore := s.toCore, vidOk := s.vidOk }

/-- Replace one word of memory. -/
def View.write (v : View) (l : Loc) (w : BitVec 64) : View :=
  { v with mem := Function.update v.mem l w }

@[simp] theorem View.write_mem_self (v : View) (l : Loc) (w : BitVec 64) :
    (v.write l w).mem l = w := by
  simp [View.write]

theorem View.write_mem_of_ne (v : View) {l l' : Loc} (w : BitVec 64)
    (hne : l' ≠ l) : (v.write l w).mem l' = v.mem l' := by
  simp [View.write, hne]

/-- What dereferencing an address yields. -/
inductive Deref where
  | at (l : Loc)
  | null
  | err (errno : ℤ)
  deriving DecidableEq, Repr

/-- What `pd_deref` reaches. -/
def View.deref (v : View) (addr : ℕ) (pdAp : PdTarget) : Deref :=
  if !pdAp.isPdTarget || pdAp == .pdInvalid || addr == 0 then .err (-einval)
  else if pdAp = .pdVidMem then
    if 2 ^ 40 ≤ addr then .err (-einval)
    else if v.vidOk then .at ⟨.vram, addr⟩ else .err (-eopnotsupp)
  else if (v.busLoc addr).addr = 0 then .null
  else .at (v.busLoc addr)

@[simp] theorem View.deref_write (v : View) (l : Loc) (w : BitVec 64)
    (addr : ℕ) (pdAp : PdTarget) :
    (v.write l w).deref addr pdAp = v.deref addr pdAp := rfl

theorem View.deref_err_neg {v : View} {addr : ℕ} {pdAp : PdTarget} {e : ℤ}
    (h : v.deref addr pdAp = .err e) : e < 0 := by
  have hneg : -einval < 0 ∧ -eopnotsupp < 0 := by decide
  rw [View.deref] at h
  split_ifs at h <;> cases h
  · exact hneg.1
  · exact hneg.1
  · exact hneg.2

theorem Core.busLoc_add {c : Core} {base n : ℕ}
    (hn : base % 4096 + n < 4096) (hmapped : (c.busLoc base).addr ≠ 0) :
    c.busLoc (base + n) = (c.busLoc base).add n := by
  have hpage : (base + n) / 4096 = base / 4096 := by omega
  have hoff : (base + n) % 4096 = base % 4096 + n := by omega
  cases hdom : c.iommu with
  | none => simp [Core.busLoc, hdom, Loc.add]
  | some dom =>
      have hframe : dom (base / 4096) ≠ 0 := by
        intro hzero
        simp [Core.busLoc, hdom, iommuIovaToPhys, hzero] at hmapped
      simp [Core.busLoc, hdom, iommuIovaToPhys, hpage, hoff, hframe, Loc.add,
        Nat.add_assoc]

theorem Core.busLoc_add_unmapped {c : Core} {base n : ℕ} (hbase : base ≠ 0)
    (hn : base % 4096 + n < 4096) (hunmapped : (c.busLoc base).addr = 0) :
    (c.busLoc (base + n)).addr = 0 := by
  have hpage : (base + n) / 4096 = base / 4096 := by omega
  cases hdom : c.iommu with
  | none => simp [Core.busLoc, hdom, hbase] at hunmapped
  | some dom =>
      by_cases hframe : dom (base / 4096) = 0
      · simp [Core.busLoc, hdom, iommuIovaToPhys, hpage, hframe]
      · simp [Core.busLoc, hdom, iommuIovaToPhys, hframe] at hunmapped

theorem View.deref_add {v : View} {base : ℕ} {pdAp : PdTarget} {n : ℕ}
    (hbase : base ≠ 0) (hn : base % 4096 + n < 4096) :
    v.deref (base + n) pdAp =
      match v.deref base pdAp with
      | .at l => .at (l.add n)
      | .null => .null
      | .err e => .err e := by
  have hsum : base + n ≠ 0 := by omega
  have hrange : 2 ^ 40 ≤ base + n ↔ 2 ^ 40 ≤ base := by omega
  simp only [View.deref, beq_eq_false_iff_ne.mpr hbase,
    beq_eq_false_iff_ne.mpr hsum, hrange]
  by_cases hmapped : (v.busLoc base).addr = 0
  · rw [if_pos (v.busLoc_add_unmapped hbase hn hmapped), if_pos hmapped]
    split_ifs <;> rfl
  · have hbus := v.busLoc_add hn hmapped
    have hsum : (v.busLoc (base + n)).addr ≠ 0 := by
      rw [hbus, Loc.add]
      simp only
      omega
    rw [if_neg hsum, if_neg hmapped, hbus]
    split_ifs <;> rfl

/-! ## Fresh accesses -/

/-- The access reached the address that its pointer was computed for. -/
def PraminAccess.IsFresh (a : PraminAccess) : Prop :=
  windowTarget a.window = a.target ∧ 0 ≤ a.off ∧ a.off < nvPraminLen ∧
    (windowBase a.window * 0x10000 : ℕ) + a.off = a.addr

/-- All window accesses between two states were fresh. -/
def Machine.FreshSince (s s' : Machine) : Prop :=
  ∃ new, s'.accesses = new ++ s.accesses ∧ ∀ a ∈ new, a.IsFresh

theorem Machine.FreshSince.of_eq {s s' : Machine}
    (h : s'.accesses = s.accesses) : s.FreshSince s' :=
  ⟨[], by simpa using h, by simp⟩

theorem Machine.FreshSince.refl (s : Machine) : s.FreshSince s :=
  .of_eq rfl

theorem Machine.FreshSince.trans {s s' s'' : Machine}
    (h : s.FreshSince s') (h' : s'.FreshSince s'') : s.FreshSince s'' := by
  obtain ⟨new, hnew, hfresh⟩ := h
  obtain ⟨new', hnew', hfresh'⟩ := h'
  refine ⟨new' ++ new, by rw [hnew', hnew, List.append_assoc], ?_⟩
  intro a ha
  rcases List.mem_append.mp ha with ha | ha
  · exact hfresh' a ha
  · exact hfresh a ha

/-- Accessing `k` reaches the word at `l`, which is what `k` was made for. -/
structure Shows (s : Machine) (k : Kva) (l : Loc) : Prop where
  reach_eq : s.reach k = some (.word l)
  fresh : s.FreshSince (s.logAccess k)

@[simp] theorem Machine.view_logAccess (s : Machine) (k : Kva) :
    (s.logAccess k).view = s.view := by
  cases k <;> rfl

theorem Shows.readq_eq {s : Machine} {k : Kva} {l : Loc} (h : Shows s k l) :
    readq k s = some (s.mem l, s.logAccess k) := by
  simp [readq, h.reach_eq]

theorem Shows.writeq_eq {s : Machine} {k : Kva} {l : Loc} (h : Shows s k l)
    (w : BitVec 64) :
    writeq k w s =
      some ((), { s.logAccess k with toCore := s.toCore.write l w }) := by
  simp [writeq, h.reach_eq]

/-- `k` points to `l`, also at offsets within the page, and does so for as long
as the window stays where it is. -/
def Points (s : Machine) (k : Kva) (l : Loc) : Prop :=
  ∀ s' : Machine, s'.window = s.window → ∀ n : ℤ,
    0 ≤ ((l.addr % 4096 : ℕ) : ℤ) + n → ((l.addr % 4096 : ℕ) : ℤ) + n < 4096 →
      Shows s' (k.add n) ⟨l.space, (l.addr + n).toNat⟩

theorem Points.congr {s s' : Machine} {k : Kva} {l : Loc} (h : Points s k l)
    (hwindow : s'.window = s.window) : Points s' k l :=
  fun s'' hs'' => h s'' (hs''.trans hwindow)

theorem Points.logAccess {s : Machine} {k : Kva} {l : Loc} (h : Points s k l)
    (k' : Kva) : Points (s.logAccess k') k l :=
  h.congr (by cases k' <;> rfl)

theorem Points.shows {s : Machine} {k : Kva} {l : Loc} (h : Points s k l)
    {n : ℕ} (hn : l.addr % 4096 + n < 4096) :
    Shows s (k.add (n : ℕ)) (l.add n) := by
  have hshows := h s rfl n (by omega) (by omega)
  have hloc : (⟨l.space, ((l.addr : ℤ) + n).toNat⟩ : Loc) = l.add n := by
    rw [Loc.add]
    congr 1
  rwa [hloc] at hshows

theorem points_pramin {s : Machine} {off : ℕ} {addr : ℕ}
    (htarget : windowTarget s.window = .vidMem) (hoff : off < nvPraminLen)
    (hbase : windowBase s.window * 0x10000 + off = addr) :
    Points s (.pramin off addr .vidMem) ⟨.vram, addr⟩ := by
  intro s' hs' n hlo hhi
  rw [← hs'] at htarget hbase
  have hlen : nvPraminLen = 0x100000 := rfl
  have hmod : addr % 4096 = off % 4096 := by omega
  have hin : 0 ≤ (off : ℤ) + n ∧ (off : ℤ) + n < nvPraminLen := by
    constructor <;> simp only at hlo hhi <;> omega
  constructor
  · simp only [Kva.add, Machine.reach, if_pos hin, htarget, Core.windowLoc]
    congr 3
    omega
  · refine ⟨[⟨off + n, (addr + n).toNat, .vidMem, s'.window⟩], rfl, ?_⟩
    intro a ha
    rw [List.mem_singleton] at ha
    subst ha
    refine ⟨htarget, hin.1, hin.2, ?_⟩
    simp only
    omega

theorem points_phys (s : Machine) (addr : ℕ) :
    Points s (.phys addr) ⟨.sysmem, addr⟩ := by
  intro s' _ n _ _
  exact ⟨rfl, .refl s'⟩

/-! ## Specification -/

/-- The pointer `k` is what the dereference `d` stands for. -/
def Resolves (s : Machine) (k : Kva) : Deref → Prop
  | .at l => k.isErrOrNull = false ∧ k.isErr = false ∧ Points s k l
  | .null => k = .null
  | .err e => k = .err e

/-- A window that was just moved shows the address it was moved for. -/
theorem vidOk_moved {s : Machine} {addr : ℕ}
    (hread : s.readlValue s.windowReg = s.window)
    (hne : s.window ≠ BitVec.allOnes 32) (hhopper : s.isHopperLike = true →
      windowTarget s.window = .vidMem) :
    s.vidOk = true ∧
      ({ s with window := movedWindow s.window addr .vidMem } : Machine).vidOk
        = true := by
  have hoff := (window_of_readlValue_ne (s := s) (by rwa [hread])).1
  constructor
  · cases hh : s.isHopperLike
    · simpa [Machine.vidOk, hread, hh] using hne
    · simpa [Machine.vidOk, hread, hhopper hh] using hne
  · obtain ⟨hall, hbad⟩ := readable_of_windowTarget_vidMem
      (windowTarget_movedWindow s.window addr .vidMem)
    have hmoved := readlValue_windowReg
      { s with window := movedWindow s.window addr .vidMem }
    simp only [hoff, hbad, Bool.false_eq_true, if_false] at hmoved
    simp only [Machine.vidOk, hmoved, windowTarget_movedWindow]
    simpa using hall

/-- `pd_deref` leaves the view as it was and returns a pointer to what the view
holds at the address. -/
theorem pdDeref_spec (s : Machine) (addr : ℕ) (pdAp : PdTarget) :
    ∃ k s', pdDeref addr pdAp s = some (k, s') ∧ s'.view = s.view ∧
      s'.accesses = s.accesses ∧
      Resolves s' k (s.view.deref addr pdAp) := by
  by_cases hbad : (!pdAp.isPdTarget || pdAp == .pdInvalid || addr == 0) = true
  · refine ⟨.err (-einval), s, by simp [pdDeref, hbad], rfl, rfl, ?_⟩
    simp only [View.deref, if_pos hbad]
    rfl
  by_cases hvid : pdAp = .pdVidMem
  · subst hvid
    have hderef : s.view.deref addr .pdVidMem =
        if 2 ^ 40 ≤ addr then .err (-einval)
        else if s.vidOk then .at ⟨.vram, addr⟩ else .err (-eopnotsupp) := by
      simp only [View.deref, if_neg hbad, if_true]
      rfl
    have hrun : ∀ {e : ℤ} {s' : Machine},
        addrToPraminMut addr .vidMem s = some (e, s') →
        pdDeref addr .pdVidMem s =
          some (if e < 0 then .err e else .pramin e addr .vidMem, s') := by
      intro e s' h
      simp only [pdDeref, if_neg hbad, if_true]
      rw [Kernel.bind_eq_of_eq h]
      split <;> rfl
    rw [hderef]
    rcases addrToPraminMut_cases s addr .vidMem with
      ⟨e, he, hmut, hwhy⟩ | ⟨hlt, hread, hne, hin | ⟨hhopper, hmut⟩⟩
    · refine ⟨.err e, s, by rw [hrun hmut, if_pos he], rfl, rfl, ?_⟩
      rcases hwhy with ⟨hge, rfl⟩ | ⟨hlt, rfl, hoff⟩
      · rw [if_pos hge]
        rfl
      · rw [if_neg (Nat.not_le.mpr hlt)]
        have hvidOk : s.vidOk = false := by
          rcases hoff with hoff | ⟨hhopper, htarget⟩
          · simp [Machine.vidOk, hoff]
          · by_cases hraw : s.readlValue s.windowReg = BitVec.allOnes 32
            · simp [Machine.vidOk, hraw]
            · have hwin := (window_of_readlValue_ne hraw).2
              simp [Machine.vidOk, hwin, hhopper, htarget]
        simp only [hvidOk]
        rfl
    · obtain ⟨htarget, n, hn, hbase, hmut⟩ := hin
      refine ⟨.pramin n addr .vidMem, s, ?_, rfl, rfl, ?_⟩
      · rw [hrun hmut, if_neg (by omega)]
      · have hvidOk := (@vidOk_moved _ addr hread hne (fun _ => htarget)).1
        rw [if_neg (Nat.not_le.mpr hlt), if_pos hvidOk]
        exact ⟨rfl, rfl, points_pramin htarget hn hbase⟩
    · obtain ⟨hvidOk, hmoved⟩ := @vidOk_moved _ addr hread hne hhopper
      refine ⟨.pramin (addr % 0x10000 : ℕ) addr .vidMem,
        { s with window := movedWindow s.window addr .vidMem }, ?_, ?_, ?_, ?_⟩
      · rw [hrun hmut, if_neg (by omega)]
      · simp [Machine.view, hvidOk, hmoved]
      · rfl
      · rw [if_neg (Nat.not_le.mpr hlt), if_pos hvidOk]
        refine ⟨rfl, rfl, points_pramin (windowTarget_movedWindow _ _ _) ?_ ?_⟩
        · simp only [nvPraminLen]
          omega
        · simp only [windowBase_movedWindow _ _ hlt]
          omega
  · have hrun : pdDeref addr pdAp s =
        some (if (s.busLoc addr).addr = 0 then .null
          else .phys (s.busLoc addr).addr, s) := by
      simp only [pdDeref, if_neg hbad, if_neg hvid, Kernel.bind_apply,
        Kernel.get_apply, Option.bind_some]
      split <;> rfl
    refine ⟨_, s, hrun, rfl, rfl, ?_⟩
    have hderef : s.view.deref addr pdAp =
        if (s.busLoc addr).addr = 0 then .null else .at (s.busLoc addr) := by
      simp only [View.deref, if_neg hbad, if_neg hvid]
      rfl
    rw [hderef]
    split
    · rfl
    · refine ⟨rfl, rfl, ?_⟩
      have hspace : s.busLoc addr = ⟨.sysmem, (s.busLoc addr).addr⟩ := by
        simp only [Core.busLoc]
        split <;> rfl
      rw [hspace]
      exact points_phys s _

end A100Partitioning.Nvdebug
