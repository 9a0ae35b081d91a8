import A100Partitioning.Nvdebug.Search

/-!
# V1 page tables (`translate_v1_page_directory`, `search_v1_page_directory`)

A V1 page table has one level of directory entries and one of table entries, and
its tables span several pages, so both directions dereference every entry on its
own.  Both are described by one two-level radix table.
-/

namespace A100Partitioning.Nvdebug

open Support RadixTable

/-- `NV_MMU_PT_V1_SZ[level]`, for a level in range. -/
def ptV1Sz (level : ℕ) : ℕ := nvMmuPtV1Sz.getD level 1

/-- `NV_MMU_PT_V1_LSB[level]`, for a level in range. -/
def ptV1Lsb (level : ℕ) : ℕ := nvMmuPtV1Lsb.getD level 12

/-- The index of `vaddr` into the table at `level`. -/
def ptV1Index (level vaddr : ℕ) : ℕ :=
  vaddr / 2 ^ ptV1Lsb level % ptV1Sz level

/-- Address of a directory entry; the sum is a `uintptr_t`. -/
def pdeV1Addr (pdConfig : PageDirConfig) (i : ℕ) : ℕ :=
  (pdConfig.pageDir * 4096 + i * 8) % 2 ^ 64

/-- Address of a table entry. -/
def pteV1Addr (pde : PageDirEntryV1) (j : ℕ) : ℕ :=
  pde.altAddr * 4096 + j * 8

/-- Neither half of the directory entry points anywhere. -/
def PageDirEntryV1.isAbsent (pde : PageDirEntryV1) : Bool :=
  pde.target == 0 && pde.altTarget == 0

/-! ## The code -/

/-- The end of `translate_v1_page_directory`: read the table entry. -/
def readPteV1 (pteKva : Kva) : Kernel Translation := do
  let pte : PageTblEntryV1 := ⟨← readq pteKva⟩
  if !pte.isPresent then return .failed (-enxio)
  return ⟨0, pte.addr * 4096, pte.target⟩

/-- The middle of `translate_v1_page_directory`: follow the directory entry that
was read through `pdeKva`. -/
def followPdeV1 (addrToFind : ℕ) (pdeKva : Kva) (pde : PageDirEntryV1) :
    Kernel Translation := do
  if pde.isAbsent then return .failed (-enxio)
  let pteKva ← pdDeref (pteV1Addr pde (ptV1Index 1 addrToFind))
    (.ofV1 pde.altTarget)
  -- The source checks `pde_kva` again here, not `pte_kva`.
  if pdeKva.isErrOrNull then return .failed pteKva.ptrErr
  readPteV1 pteKva

/-- `translate_v1_page_directory`. -/
def translateV1PageDirectory (pdConfig : PageDirConfig) (addrToFind : ℕ) :
    Kernel Translation := do
  if addrToFind % 4096 ≠ 0 then return .failed (-einval)
  if pdConfig.isVer2 then return .failed (-einval)
  if pdConfig.is64kBigPage then return .failed (-einval)
  let pdeKva ← pdDeref (pdeV1Addr pdConfig (ptV1Index 0 addrToFind))
    (.ofInst pdConfig.target)
  if pdeKva.isErrOrNull then return .failed pdeKva.ptrErr
  let word ← readq pdeKva
  followPdeV1 addrToFind pdeKva ⟨word⟩

/-- The loop of `search_v1_page_directory` over the entries of one table. -/
def searchV1PageTable (addrToFind : ℕ) (addrToFindAperture : InstTarget)
    (i : ℕ) (pde : PageDirEntryV1) : Kernel (Option ℕ) :=
  forReturn (fun j => do
    let pteAddr ← pdDeref (pteV1Addr pde j) (.ofV1 pde.altTarget)
    if pteAddr.isErrOrNull then return some 0
    let hi ← readl (pteAddr.add 4)
    let lo ← readl pteAddr
    let pte : PageTblEntryV1 := ⟨hi ++ lo⟩
    if !pte.isPresent then return none
    if pte.addr * 4096 = addrToFind ∧ pte.target = addrToFindAperture then
      return some (i <<< ptV1Lsb 0 ||| j <<< ptV1Lsb 1)
    return none) (List.range (ptV1Sz 1))

/-- `search_v1_page_directory`. -/
def searchV1PageDirectory (pdConfig : PageDirConfig) (addrToFind : ℕ)
    (addrToFindAperture : InstTarget) : Kernel ℕ := do
  if pdConfig.isVer2 then return 0
  if pdConfig.is64kBigPage then return 0
  let found ← forReturn (fun i => do
    let pdeAddr ← pdDeref (pdeV1Addr pdConfig i) (.ofInst pdConfig.target)
    if pdeAddr.isErrOrNull then return some 0
    let hi ← readl (pdeAddr.add 4)
    let lo ← readl pdeAddr
    let pde : PageDirEntryV1 := ⟨hi ++ lo⟩
    if pde.isAbsent then return none
    searchV1PageTable addrToFind addrToFindAperture i pde)
    (List.range (ptV1Sz 0))
  return found.getD 0

/-! ## V1 page tables as radix tables -/

/-- Why a V1 walk ends without a PTE: an entry is not present, or the entry
wanted at `level` cannot be dereferenced. -/
inductive MissV1 where
  | absent
  | null (level : ℕ)
  | err (level : ℕ) (errno : ℤ)
  | overrun
  deriving DecidableEq, Repr

/-- Where a directory entry leads. -/
def slotOfPdeV1 (pde : PageDirEntryV1) : Slot Table PageTblEntryV1 MissV1 :=
  if pde.isAbsent then .miss .absent
  else .table ⟨pde.altAddr, .ofV1 pde.altTarget⟩

/-- Where a table entry leads. -/
def slotOfPteV1 (pte : PageTblEntryV1) : Slot Table PageTblEntryV1 MissV1 :=
  if pte.isPresent then .leaf pte else .miss .absent

/-- One slot of a V1 page table. -/
def View.slotV1 (v : View) (n : Table) (k : PtKey) :
    Slot Table PageTblEntryV1 MissV1 :=
  match v.deref ((n.base + k.idx * 8) % 2 ^ 64) n.target with
  | .at l =>
      if k.level = 0 then slotOfPdeV1 ⟨v.mem l⟩ else slotOfPteV1 ⟨v.mem l⟩
  | .null => .miss (.null k.level)
  | .err e => .miss (.err k.level e)

/-- The keys of a virtual address. -/
def keysV1 (vaddr : ℕ) : List PtKey :=
  [⟨0, ptV1Index 0 vaddr⟩, ⟨1, ptV1Index 1 vaddr⟩]

/-- The walk for a virtual address. -/
def View.walkV1 (v : View) (pdConfig : PageDirConfig) (vaddr : ℕ) :
    Except MissV1 PageTblEntryV1 :=
  RadixTable.walk v.slotV1 .overrun (keysV1 vaddr) pdConfig.root

/-- The arguments that `translate_v1_page_directory` does not reject. -/
def acceptsV1 (pdConfig : PageDirConfig) (vaddr : ℕ) : Bool :=
  decide (vaddr % 4096 = 0) && !pdConfig.isVer2 && !pdConfig.is64kBigPage

/-- What `translate_v1_page_directory` makes of the end of a walk.  A table
entry that cannot be dereferenced is read nevertheless. -/
def translationOfV1 : Except MissV1 PageTblEntryV1 → Option Translation
  | .ok pte => some ⟨0, pte.addr * 4096, pte.target⟩
  | .error .absent => some (.failed (-enxio))
  | .error (.null 0) => some (.failed 0)
  | .error (.err 0 e) => some (.failed e)
  | .error _ => none

/-- The result of `translate_v1_page_directory` in a view. -/
def View.translateV1 (v : View) (pdConfig : PageDirConfig) (vaddr : ℕ) :
    Option Translation :=
  if acceptsV1 pdConfig vaddr then translationOfV1 (v.walkV1 pdConfig vaddr)
  else some (.failed (-einval))

/-- All keys of one level, in the order of the search.  Irreducible because the
list has thousands of elements. -/
@[irreducible] def keysV1At (level : ℕ) : List PtKey :=
  (List.range (ptV1Sz level)).map (PtKey.mk level)

/-- The PTE maps the address that is searched for. -/
def acceptsPteV1 (addrToFind : ℕ) (addrToFindAperture : InstTarget)
    (pte : PageTblEntryV1) : Bool :=
  decide (pte.addr * 4096 = addrToFind ∧ pte.target = addrToFindAperture)

/-- The search passes over entries that are not present, and ends at the first
one that it cannot dereference. -/
def skipsMissV1 : MissV1 → Bool
  | .absent => true
  | _ => false

/-- The depth-first search of the given levels below `n`. -/
def View.findBelowV1 (v : View) (addrToFind : ℕ)
    (addrToFindAperture : InstTarget) (levels : List ℕ) (n : Table) :
    Found PtKey PageTblEntryV1 MissV1 :=
  RadixTable.find v.slotV1 .overrun
    (acceptsPteV1 addrToFind addrToFindAperture) skipsMissV1
    (levels.map keysV1At) n

/-- Virtual bytes per page mapped at this level. -/
def PtKey.weightV1 (k : PtKey) : ℕ := k.idx * 2 ^ ptV1Lsb k.level

/-- The virtual address of a path of V1 entries. -/
def vaddrOfV1 (path : List PtKey) : ℕ := address PtKey.weightV1 path

/-- The result of `search_v1_page_directory` in a view. -/
def View.searchV1 (v : View) (pdConfig : PageDirConfig) (addrToFind : ℕ)
    (addrToFindAperture : InstTarget) : ℕ :=
  if pdConfig.isVer2 || pdConfig.is64kBigPage then 0
  else
    match v.findBelowV1 addrToFind addrToFindAperture [0, 1] pdConfig.root with
    | .hit path _ => vaddrOfV1 path
    | _ => 0

/-! ## Reading one entry -/

theorem pdeV1Addr_mod (pdConfig : PageDirConfig) (i : ℕ) :
    pdeV1Addr pdConfig i % 8 = 0 := by
  rw [pdeV1Addr]
  omega

/-- Dereferencing an aligned address yields an aligned location. -/
theorem View.addr_mod_eight_of_deref {v : View} {addr : ℕ} {pdAp : PdTarget}
    {l : Loc} (haddr : addr % 8 = 0) (h : v.deref addr pdAp = .at l) :
    l.addr % 8 = 0 := by
  have := v.addr_mod_of_deref h
  omega

theorem extractLsb'_append_extractLsb' (w : BitVec 64) :
    w.extractLsb' 32 32 ++ w.extractLsb' 0 32 = w := by
  apply BitVec.eq_of_getLsbD_eq
  intro i hi
  rw [BitVec.getLsbD_append]
  by_cases h : i < 32
  · simp [h]
  · have h' : i - 32 < 32 := by omega
    have h'' : 32 + (i - 32) = i := by omega
    simp [h, h', h'']

theorem Shows.readl_eq {s : Machine} {k : Kva} {l : Loc} (h : Shows s k l) :
    readl k s = some
      ((s.mem { l with addr := l.addr - l.addr % 8 }).extractLsb'
        (8 * (l.addr % 8)) 32, s.logAccess k) := by
  simp [readl, h.reach_eq]

theorem Points.readl_pair {s : Machine} {k : Kva} {l : Loc}
    (h : Points s k l) (hl : l.addr % 8 = 0) :
    ∃ s', s'.view = s.view ∧ s.FreshSince s' ∧ ∀ {α : Type}
      (f : BitVec 64 → Kernel α),
      (do
        let hi ← readl (k.add 4)
        let lo ← readl k
        f (hi ++ lo)) s = f (s.mem l) s' := by
  have hhi : Shows s (k.add 4) (l.add 4) := h.shows (n := 4) (by omega)
  have hlo := (h.logAccess (k.add 4)).shows (n := 0) (by omega)
  rw [Kva.add_zero] at hlo
  refine ⟨(s.logAccess (k.add 4)).logAccess k, by simp,
    hhi.fresh.trans hlo.fresh, ?_⟩
  intro α f
  have hmod : (l.addr + 4) % 8 = 4 := by omega
  have hsub : l.addr + 4 - 4 = l.addr := by omega
  have hread := hhi.readl_eq
  simp only [Loc.add, hmod, hsub] at hread
  have hread' := hlo.readl_eq
  simp only [Loc.add, hl, Nat.add_zero, Nat.sub_zero, Nat.mul_zero] at hread'
  have hmem : (s.logAccess (k.add 4)).mem = s.mem :=
    congrArg (·.mem) (s.view_logAccess (k.add 4))
  rw [Kernel.bind_eq_of_eq hread, Kernel.bind_eq_of_eq hread', hmem,
    extractLsb'_append_extractLsb']

/-- The fragment that the search shares between its two levels. -/
def derefReadlPair {α : Type} (addr : ℕ) (pdAp : PdTarget)
    (bad : Kernel α) (good : BitVec 64 → Kernel α) : Kernel α := do
  let k ← pdDeref addr pdAp
  if k.isErrOrNull then bad
  else
    let hi ← readl (k.add 4)
    let lo ← readl k
    good (hi ++ lo)

theorem derefReadlPair_spec {α : Type} (s : Machine) {addr : ℕ}
    (pdAp : PdTarget) (haddr : addr % 8 = 0)
    (bad : Kernel α) (good : BitVec 64 → Kernel α) :
    ∃ s', s'.view = s.view ∧ s.FreshSince s' ∧
      derefReadlPair addr pdAp bad good s =
        match s.view.deref addr pdAp with
        | .at l => good (s.mem l) s'
        | _ => bad s' := by
  obtain ⟨k, s₁, hrun, hview, hlog, hres⟩ := pdDeref_spec s addr pdAp
  have hfresh : s.FreshSince s₁ := .of_eq hlog
  cases hd : s.view.deref addr pdAp with
  | null =>
      rw [hd] at hres
      subst hres
      exact ⟨s₁, hview, hfresh, Kernel.bind_eq_of_eq hrun⟩
  | err e =>
      rw [hd] at hres
      subst hres
      exact ⟨s₁, hview, hfresh, Kernel.bind_eq_of_eq hrun⟩
  | «at» l =>
      rw [hd] at hres
      obtain ⟨hok, -, hpoints⟩ := hres
      obtain ⟨s₂, hview₂, hfresh₂, hread⟩ :=
        hpoints.readl_pair (View.addr_mod_eight_of_deref haddr hd)
      refine ⟨s₂, hview₂.trans hview, hfresh.trans hfresh₂, ?_⟩
      have hmem : s₁.mem = s.mem := congrArg (·.mem) hview
      rw [derefReadlPair, Kernel.bind_eq_of_eq hrun, hok,
        if_neg Bool.false_ne_true, hread, hmem]

/-! ## Forward translation is the walk -/

theorem Points.isErrOrNull_eq_false {s : Machine} {k : Kva} {l : Loc}
    (h : Points s k l) : k.isErrOrNull = false := by
  have hreach := (h.shows (n := 0) (by omega)).reach_eq
  rw [Kva.add_zero] at hreach
  cases k <;> simp [Machine.reach, Kva.isErrOrNull] at hreach ⊢

theorem altAddr_lt (pde : PageDirEntryV1) : pde.altAddr < 2 ^ 28 :=
  Bitfield.get_lt _ _ _

/-- The address of a table entry does not wrap around. -/
theorem pteV1Addr_eq (pde : PageDirEntryV1) {j : ℕ} (hj : j < ptV1Sz 1) :
    ((Table.mk pde.altAddr (.ofV1 pde.altTarget)).base + j * 8) % 2 ^ 64 =
      pteV1Addr pde j := by
  have haddr := altAddr_lt pde
  have hsz : ptV1Sz 1 = 16384 := rfl
  simp only [Table.base, pteV1Addr]
  omega

theorem ptV1Index_lt (level vaddr : ℕ) :
    ptV1Index level vaddr < ptV1Sz level := by
  apply Nat.mod_lt
  simp only [ptV1Sz, nvMmuPtV1Sz]
  rcases level with _ | _ | level <;> simp

theorem pdDeref_readPteV1 (s : Machine) (addr : ℕ) (pdAp : PdTarget) :
    ∃ s', s'.view = s.view ∧ s.FreshSince s' ∧
      (pdDeref addr pdAp >>= readPteV1) s =
        (match s.view.deref addr pdAp with
          | .at l => translationOfV1 (match slotOfPteV1 ⟨s.mem l⟩ with
              | .table _ => .error .overrun
              | .leaf pte => .ok pte
              | .miss r => .error r)
          | _ => none).map (·, s') := by
  obtain ⟨k, s₁, hrun, hview, hlog, hres⟩ := pdDeref_spec s addr pdAp
  have hfresh : s.FreshSince s₁ := .of_eq hlog
  rw [Kernel.bind_eq_of_eq hrun]
  cases hd : s.view.deref addr pdAp with
  | null =>
      rw [hd] at hres
      subst hres
      exact ⟨s₁, hview, hfresh, rfl⟩
  | err e =>
      rw [hd] at hres
      subst hres
      exact ⟨s₁, hview, hfresh, rfl⟩
  | «at» l =>
      rw [hd] at hres
      have hshows := hres.2.2.shows (n := 0) (by omega)
      rw [Kva.add_zero] at hshows
      refine ⟨s₁.logAccess k, by simp [hview], hfresh.trans hshows.fresh, ?_⟩
      have hmem : s₁.mem = s.mem := congrArg (·.mem) hview
      have hl : l.add 0 = l := rfl
      rw [readPteV1, Kernel.bind_eq_of_eq hshows.readq_eq, hmem, hl]
      cases hpresent : (PageTblEntryV1.mk (s.mem l)).isPresent <;>
        simp [slotOfPteV1, hpresent, translationOfV1]

/-- `translate_v1_page_directory` returns what the walk determines, and fails
where it reads through a table entry's bad pointer. -/
theorem translateV1PageDirectory_spec (s : Machine) (pdConfig : PageDirConfig)
    (vaddr : ℕ) :
    ∃ s', s'.view = s.view ∧ s.FreshSince s' ∧
      translateV1PageDirectory pdConfig vaddr s =
        (s.view.translateV1 pdConfig vaddr).map (·, s') := by
  by_cases haccepts : acceptsV1 pdConfig vaddr = true
  swap
  · refine ⟨s, rfl, .refl s, ?_⟩
    rw [View.translateV1, if_neg haccepts, translateV1PageDirectory]
    simp only [acceptsV1, Bool.and_eq_true, decide_eq_true_eq] at haccepts
    by_cases halign : vaddr % 4096 = 0
    · cases hver : pdConfig.isVer2 <;> cases hbig : pdConfig.is64kBigPage <;>
        simp [halign, hver, hbig] at haccepts ⊢
    · simp [halign]
  have hchecks := haccepts
  simp only [acceptsV1, Bool.and_eq_true, decide_eq_true_eq,
    Bool.not_eq_true'] at hchecks
  obtain ⟨⟨halign, hver⟩, hbig⟩ := hchecks
  obtain ⟨s₁, hview, hfresh, hread⟩ := @derefReadq_spec _ s _ 0
    (.ofInst pdConfig.target) (by omega)
    (fun k => pure (Translation.failed k.ptrErr))
    (fun k word => followPdeV1 vaddr k ⟨word⟩)
  have hrun : translateV1PageDirectory pdConfig vaddr s =
      derefReadq (pdeV1Addr pdConfig (ptV1Index 0 vaddr))
        (.ofInst pdConfig.target) 0
        (fun k => pure (Translation.failed k.ptrErr))
        (fun k word => followPdeV1 vaddr k ⟨word⟩) s := by
    simp only [translateV1PageDirectory, halign, hver, hbig, derefReadq,
      Kva.add_zero]
    rfl
  have hslot : s.view.slotV1 pdConfig.root ⟨0, ptV1Index 0 vaddr⟩ =
      match s.view.deref (pdeV1Addr pdConfig (ptV1Index 0 vaddr))
        (.ofInst pdConfig.target) with
      | .at l => slotOfPdeV1 ⟨s.mem l⟩
      | .null => .miss (.null 0)
      | .err e => .miss (.err 0 e) := rfl
  rw [hrun, View.translateV1, if_pos haccepts, View.walkV1, keysV1,
    RadixTable.walk, hslot]
  cases hd : s.view.deref (pdeV1Addr pdConfig (ptV1Index 0 vaddr))
      (.ofInst pdConfig.target) with
  | null =>
      rw [hd] at hread
      exact ⟨s₁, hview, hfresh, hread⟩
  | err e =>
      rw [hd] at hread
      exact ⟨s₁, hview, hfresh, hread⟩
  | «at» l =>
      rw [hd] at hread
      obtain ⟨k, hpoints, hread⟩ := hread
      have hl : l.add 0 = l := rfl
      rw [hread, hl, followPdeV1]
      cases habsent : (PageDirEntryV1.mk (s.mem l)).isAbsent with
      | true => exact ⟨s₁, hview, hfresh, by simp [slotOfPdeV1, habsent, translationOfV1]⟩
      | false =>
          obtain ⟨s₂, hview₂, hfresh₂, hpte⟩ := pdDeref_readPteV1 s₁
            (pteV1Addr ⟨s.mem l⟩ (ptV1Index 1 vaddr))
            (.ofV1 (PageDirEntryV1.mk (s.mem l)).altTarget)
          refine ⟨s₂, hview₂.trans hview, hfresh.trans hfresh₂, ?_⟩
          have hmem : s₁.mem = s.mem := congrArg (·.mem) hview
          rw [hview, hmem] at hpte
          simp only [hpoints.isErrOrNull_eq_false, Bool.false_eq_true, if_false,
            slotOfPdeV1, habsent]
          refine hpte.trans ?_
          simp only [RadixTable.walk, View.slotV1,
            pteV1Addr_eq _ (ptV1Index_lt 1 vaddr), Nat.one_ne_zero, if_false]
          cases s.view.deref (pteV1Addr ⟨s.mem l⟩ (ptV1Index 1 vaddr))
            (.ofV1 (PageDirEntryV1.mk (s.mem l)).altTarget) with
          | null => rfl
          | err e => rfl
          | «at» l' =>
              simp only [Machine.view]
              cases slotOfPteV1 ⟨s.mem l'⟩ <;> rfl

/-! ## Reverse translation is the search -/

/-- The value that a loop returns, within the directory entry at index `i`; an
entry that blocks the search makes it return 0. -/
def entriesResultV1 (i : ℕ) :
    Found PtKey PageTblEntryV1 MissV1 → Option (Option ℕ)
  | .hit path _ => some (some (i * 2 ^ ptV1Lsb 0 + vaddrOfV1 path))
  | .none => some none
  | .blocked _ => some (some 0)

variable (addrToFind : ℕ) (addrToFindAperture : InstTarget)

/-- The outcome of the search at one entry. -/
def View.lookBelowV1 (v : View) (levels : List ℕ) (n : Table) (k : PtKey) :
    Found PtKey PageTblEntryV1 MissV1 :=
  look v.slotV1 (acceptsPteV1 addrToFind addrToFindAperture) skipsMissV1
    (v.findBelowV1 addrToFind addrToFindAperture levels) n k

theorem findBelowV1_cons (v : View) (level : ℕ) (levels : List ℕ) (n : Table) :
    v.findBelowV1 addrToFind addrToFindAperture (level :: levels) n =
      firstFound (v.lookBelowV1 addrToFind addrToFindAperture levels n)
        (keysV1At level) := by
  rw [View.findBelowV1, List.map_cons, RadixTable.find]
  rfl

theorem vaddrOfV1_singleton (k : PtKey) : vaddrOfV1 [k] = k.weightV1 := by
  simp only [vaddrOfV1, address, List.map_cons, List.map_nil, List.sum_cons,
    List.sum_nil, Nat.add_zero]

theorem lookBelowV1_pte (v : View) (pde : PageDirEntryV1) {j : ℕ}
    (hj : j < ptV1Sz 1) :
    v.lookBelowV1 addrToFind addrToFindAperture []
        ⟨pde.altAddr, .ofV1 pde.altTarget⟩ ⟨1, j⟩ =
      match v.deref (pteV1Addr pde j) (.ofV1 pde.altTarget) with
      | .at l =>
          if (PageTblEntryV1.mk (v.mem l)).isPresent ∧ acceptsPteV1 addrToFind
            addrToFindAperture ⟨v.mem l⟩ then .hit [⟨1, j⟩] ⟨v.mem l⟩
          else .none
      | .null => .blocked (.null 1)
      | .err e => .blocked (.err 1 e) := by
  rw [View.lookBelowV1, look, View.slotV1, pteV1Addr_eq pde hj]
  simp only
  cases v.deref (pteV1Addr pde j) (.ofV1 pde.altTarget) with
  | null => rfl
  | err e => rfl
  | «at» l =>
      cases hpresent : (PageTblEntryV1.mk (v.mem l)).isPresent <;>
        simp [slotOfPteV1, hpresent, skipsMissV1]

/-- The loop over one table returns what the search finds there. -/
theorem searchV1PageTable_spec (s : Machine) (i : ℕ) (pde : PageDirEntryV1) :
    ∃ s', s'.view = s.view ∧ s.FreshSince s' ∧
      searchV1PageTable addrToFind addrToFindAperture i pde s =
        (entriesResultV1 i (s.view.findBelowV1 addrToFind addrToFindAperture [1]
          ⟨pde.altAddr, .ofV1 pde.altTarget⟩)).map (·, s') := by
  rw [findBelowV1_cons, keysV1At]
  refine forReturn_spec (v := s.view)
    (f := s.view.lookBelowV1 addrToFind addrToFindAperture []
      ⟨pde.altAddr, .ofV1 pde.altTarget⟩)
    rfl (by intro r hr; cases r <;> simp [entriesResultV1] at hr ⊢) _ ?_ s rfl
  intro j hj s₀ hs₀
  have hj := List.mem_range.mp hj
  obtain ⟨s₁, hview, hfresh, hrun⟩ := @derefReadlPair_spec _ s₀
    (pteV1Addr pde j) (.ofV1 pde.altTarget)
    (by simp only [pteV1Addr]; omega) (pure (some 0))
    (fun word =>
      if !(PageTblEntryV1.mk word).isPresent then pure none
      else if (PageTblEntryV1.mk word).addr * 4096 = addrToFind ∧
          (PageTblEntryV1.mk word).target = addrToFindAperture then
        pure (some (i <<< ptV1Lsb 0 ||| j <<< ptV1Lsb 1))
      else pure none)
  refine ⟨s₁, hview.trans hs₀, hfresh, hrun.trans ?_⟩
  have hmem : s₀.mem = s.mem := congrArg (·.mem) hs₀
  rw [lookBelowV1_pte _ _ _ _ hj, hs₀]
  cases s.view.deref (pteV1Addr pde j) (.ofV1 pde.altTarget) with
  | null => rfl
  | err e => rfl
  | «at» l =>
      have hor : i <<< ptV1Lsb 0 ||| j <<< ptV1Lsb 1 =
          i * 2 ^ ptV1Lsb 0 + j * 2 ^ ptV1Lsb 1 := by
        have hsz : ptV1Sz 1 = 16384 := rfl
        have hlsb : ptV1Lsb 1 = 12 ∧ ptV1Lsb 0 = 27 := ⟨rfl, rfl⟩
        rw [Nat.or_comm, or_shiftLeft, Nat.shiftLeft_eq, Nat.add_comm]
        rw [Nat.shiftLeft_eq, hlsb.1, hlsb.2]
        omega
      have hword : s.view.mem l = s.mem l := rfl
      simp only [hmem, hword, hor]
      by_cases hpresent : (PageTblEntryV1.mk (s.mem l)).isPresent = true
      · by_cases hmatch : (PageTblEntryV1.mk (s.mem l)).addr * 4096 =
            addrToFind ∧
            (PageTblEntryV1.mk (s.mem l)).target = addrToFindAperture
        · have haccepts : acceptsPteV1 addrToFind addrToFindAperture
              ⟨s.mem l⟩ = true := decide_eq_true hmatch
          rw [if_neg (by simp [hpresent]), if_pos hmatch,
            if_pos ⟨hpresent, haccepts⟩]
          simp only [entriesResultV1, vaddrOfV1_singleton, PtKey.weightV1]
          rfl
        · simp [hpresent, hmatch, entriesResultV1, acceptsPteV1]
      · simp [hpresent, entriesResultV1]

theorem lookBelowV1_pde (v : View) (pdConfig : PageDirConfig) (i : ℕ) :
    v.lookBelowV1 addrToFind addrToFindAperture [1] pdConfig.root ⟨0, i⟩ =
      match v.deref (pdeV1Addr pdConfig i) (.ofInst pdConfig.target) with
      | .at l =>
          if (PageDirEntryV1.mk (v.mem l)).isAbsent then .none
          else (v.findBelowV1 addrToFind addrToFindAperture [1]
            ⟨(PageDirEntryV1.mk (v.mem l)).altAddr,
              .ofV1 (PageDirEntryV1.mk (v.mem l)).altTarget⟩).under ⟨0, i⟩
      | .null => .blocked (.null 0)
      | .err e => .blocked (.err 0 e) := by
  rw [View.lookBelowV1, look, View.slotV1]
  simp only [PageDirConfig.root, Table.base]
  rw [show (pdConfig.pageDir * 4096 + i * 8) % 2 ^ 64 = pdeV1Addr pdConfig i
    from rfl]
  cases v.deref (pdeV1Addr pdConfig i) (.ofInst pdConfig.target) with
  | null => rfl
  | err e => rfl
  | «at» l =>
      cases habsent : (PageDirEntryV1.mk (v.mem l)).isAbsent <;>
        simp [slotOfPdeV1, habsent, skipsMissV1]

/-- `search_v1_page_directory` returns the virtual address of the path that the
depth-first search finds. -/
theorem searchV1PageDirectory_spec (s : Machine) (pdConfig : PageDirConfig) :
    ∃ s', s'.view = s.view ∧ s.FreshSince s' ∧
      searchV1PageDirectory pdConfig addrToFind addrToFindAperture s =
        some (s.view.searchV1 pdConfig addrToFind addrToFindAperture, s') := by
  by_cases hconfig : (pdConfig.isVer2 || pdConfig.is64kBigPage) = true
  · refine ⟨s, rfl, .refl s, ?_⟩
    rw [View.searchV1, if_pos hconfig, searchV1PageDirectory]
    cases hver : pdConfig.isVer2 <;> simp [hver] at hconfig ⊢
    simp [hconfig]
  have hbody : ∀ i ∈ List.range (ptV1Sz 0), ∀ s₀ : Machine, s₀.view = s.view →
      ∃ s', s'.view = s.view ∧ s₀.FreshSince s' ∧
        derefReadlPair (pdeV1Addr pdConfig i) (.ofInst pdConfig.target)
          (pure (some 0)) (fun word =>
            if (PageDirEntryV1.mk word).isAbsent then pure none
            else searchV1PageTable addrToFind addrToFindAperture i ⟨word⟩) s₀ =
          (entriesResultV1 0 (s.view.lookBelowV1 addrToFind addrToFindAperture
            [1] pdConfig.root ⟨0, i⟩)).map (·, s') := by
    intro i _ s₀ hs₀
    obtain ⟨s₁, hview, hfresh, hrun⟩ := derefReadlPair_spec s₀
      (.ofInst pdConfig.target)
      (pdeV1Addr_mod pdConfig i) (pure (some 0))
      (fun word =>
        if (PageDirEntryV1.mk word).isAbsent then pure none
        else searchV1PageTable addrToFind addrToFindAperture i ⟨word⟩)
    have hmem : s₀.mem = s.mem := congrArg (·.mem) hs₀
    rw [hrun, lookBelowV1_pde, hs₀]
    cases s.view.deref (pdeV1Addr pdConfig i) (.ofInst pdConfig.target) with
    | null => exact ⟨s₁, hview.trans hs₀, hfresh, rfl⟩
    | err e => exact ⟨s₁, hview.trans hs₀, hfresh, rfl⟩
    | «at» l =>
        have hword : s.view.mem l = s.mem l := rfl
        simp only [hmem, hword]
        by_cases habsent : (PageDirEntryV1.mk (s.mem l)).isAbsent = true
        · refine ⟨s₁, hview.trans hs₀, hfresh, ?_⟩
          rw [if_pos habsent, if_pos habsent]
          rfl
        · obtain ⟨s₂, hview₂, hfresh₂, hrun₂⟩ := searchV1PageTable_spec
            addrToFind addrToFindAperture s₁ i ⟨s.mem l⟩
          refine ⟨s₂, hview₂.trans (hview.trans hs₀), hfresh.trans hfresh₂, ?_⟩
          rw [hview, hs₀] at hrun₂
          rw [if_neg habsent, if_neg habsent, hrun₂]
          cases s.view.findBelowV1 addrToFind addrToFindAperture [1]
            ⟨(PageDirEntryV1.mk (s.mem l)).altAddr,
              .ofV1 (PageDirEntryV1.mk (s.mem l)).altTarget⟩ <;>
            simp [Found.under, entriesResultV1, vaddrOfV1, address,
              PtKey.weightV1]
  obtain ⟨s', hview, hfresh, hrun⟩ := forReturn_spec (v := s.view)
    (f := s.view.lookBelowV1 addrToFind addrToFindAperture [1] pdConfig.root)
    rfl (by intro r hr; cases r <;> simp [entriesResultV1] at hr ⊢) _ hbody s rfl
  refine ⟨s', hview, hfresh, ?_⟩
  simp only [Bool.or_eq_true, not_or, Bool.not_eq_true] at hconfig
  have hcode : searchV1PageDirectory pdConfig addrToFind addrToFindAperture s =
      (forReturn (fun i =>
        derefReadlPair (pdeV1Addr pdConfig i) (.ofInst pdConfig.target)
          (pure (some 0)) (fun word =>
            if (PageDirEntryV1.mk word).isAbsent then pure none
            else searchV1PageTable addrToFind addrToFindAperture i ⟨word⟩))
        (List.range (ptV1Sz 0)) >>= fun found => pure (found.getD 0)) s := by
    simp only [searchV1PageDirectory, hconfig, derefReadlPair]
    rfl
  rw [hcode, Kernel.bind_apply, hrun, View.searchV1]
  simp only [hconfig, Bool.or_self, Bool.false_eq_true, if_false]
  rw [findBelowV1_cons, keysV1At]
  cases firstFound (s.view.lookBelowV1 addrToFind addrToFindAperture [1]
    pdConfig.root) ((List.range (ptV1Sz 0)).map (PtKey.mk 0)) <;>
    simp [entriesResultV1]

end A100Partitioning.Nvdebug
