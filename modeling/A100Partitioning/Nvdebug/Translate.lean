import A100Partitioning.Support.RadixTable
import A100Partitioning.Nvdebug.Deref
import A100Partitioning.Nvdebug.PageFormat

/-!
# Forward translation of V2 page tables (`translate_page_directory`)

The page tables of a view form a radix table, whose nodes are the directories
and tables and whose keys are an index together with its level.  Translation is
the walk of that table; the specification at the end reads every result of
`translate_page_directory` off the walk.
-/

namespace A100Partitioning.Nvdebug

open Support RadixTable

/-! ## The code -/

/-- Return value and outputs of a translation. -/
structure Translation where
  ret : ℤ
  foundAddr : ℕ
  foundAperture : InstTarget
  deriving DecidableEq, Repr

/-- A return code with the initial outputs. -/
def Translation.failed (ret : ℤ) : Translation :=
  ⟨ret, 0, .invalid⟩

/-- The loop of `translate_page_directory` over the remaining levels. -/
def translateLevels (addrToFind : ℕ) :
    List ℕ → ℕ → PdTarget → Kernel Translation
  | [], _, _ => return .failed 0
  | level :: levels, next, nextTarget => do
      let next := next + ptHalf level
      let nextKva ← pdDeref next nextTarget
      if nextKva.isErrOrNull then return .failed nextKva.ptrErr
      let word ← readq
        (nextKva.add (ptEntrySz level * ptIndex level addrToFind : ℕ))
      let entry : PageDirEntry := ⟨word⟩
      if entry.isInvalid then return .failed (-enxio)
      if entry.isPte then return ⟨0, entry.addr * 4096, entry.aperture⟩
      translateLevels addrToFind levels (entry.addr * 4096) entry.target

/-- `translate_page_directory`. -/
def translatePageDirectory (pdConfig : PageDirConfig) (addrToFind : ℕ) :
    Kernel Translation := do
  if addrToFind % 4096 ≠ 0 then return .failed (-einval)
  translateLevels addrToFind (List.range 5) (pdConfig.pageDir * 4096)
    (.ofInst pdConfig.target)

/-! ## Page tables as radix tables -/

/-- A page directory or table: one page, in the target it is pointed to in. -/
structure Table where
  page : ℕ
  target : PdTarget
  deriving DecidableEq, Repr

/-- Address of the first byte. -/
def Table.base (n : Table) : ℕ := n.page * 4096

/-- An entry's index, with the level of the table. -/
structure PtKey where
  level : ℕ
  idx : ℕ
  deriving DecidableEq, Repr

namespace PtKey

/-- The index is within its table. -/
def InRange (k : PtKey) : Prop := k.level < 5 ∧ k.idx < ptSz k.level

/-- Byte offset of the entry, or of its used half, from `ptHalf`. -/
def offset (k : PtKey) : ℕ := ptEntrySz k.level * k.idx

/-- Virtual bytes per page mapped at this level. -/
def weight (k : PtKey) : ℕ := k.idx * 2 ^ ptLsb k.level

end PtKey

theorem offset_lt {k : PtKey} (hk : k.InRange) :
    ptHalf k.level + k.offset + 8 ≤ 4096 := by
  obtain ⟨level, idx⟩ := k
  obtain ⟨hlevel, hidx⟩ := hk
  simp only at hlevel hidx
  interval_cases level <;>
    simp [PtKey.offset, ptHalf, ptEntrySz, ptSz, nvMmuPtV2EntrySz, nvMmuPtV2Sz]
      at hidx ⊢ <;>
    omega

/-- A page-table entry and the level it was found at. -/
structure Pte where
  level : ℕ
  entry : PageDirEntry
  deriving DecidableEq, Repr

/-- Why a walk ends without a PTE. -/
inductive Miss where
  | absent (l : Loc) (entry : PageDirEntry)
  | null
  | err (errno : ℤ)
  | overrun
  deriving DecidableEq, Repr

/-- How the entry that was read at `l` continues a walk; `follow` is the
address field used for directory pointers. -/
def slotOfEntry (follow : PageDirEntry → ℕ) (level : ℕ) (l : Loc)
    (entry : PageDirEntry) : Slot Table Pte Miss :=
  if entry.isInvalid then .miss (.absent l entry)
  else if entry.isPte then .leaf ⟨level, entry⟩
  else .table ⟨follow entry, entry.target⟩

section SlotOfEntry

variable {follow : PageDirEntry → ℕ} {level : ℕ} {l : Loc} {entry : PageDirEntry}

theorem slotOfEntry_of_invalid (h : entry.isInvalid = true) :
    slotOfEntry follow level l entry = .miss (.absent l entry) := by
  rw [slotOfEntry, if_pos h]

theorem slotOfEntry_of_pte (h : entry.isPte = true) :
    slotOfEntry follow level l entry = .leaf ⟨level, entry⟩ := by
  simp [slotOfEntry, PageDirEntry.isInvalid_of_isPte h, h]

theorem slotOfEntry_of_pde (h : entry.isInvalid = false)
    (hpte : entry.isPte = false) :
    slotOfEntry follow level l entry = .table ⟨follow entry, entry.target⟩ := by
  simp [slotOfEntry, h, hpte]

end SlotOfEntry

/-- Where the entry for a key lies; the table is dereferenced, not the entry. -/
def View.entryLoc (v : View) (n : Table) (k : PtKey) : Deref :=
  match v.deref (n.base + ptHalf k.level) n.target with
  | .at l => .at (l.add k.offset)
  | .null => .null
  | .err e => .err e

/-- One slot of the page tables. -/
def View.slot (v : View) (follow : PageDirEntry → ℕ) (n : Table) (k : PtKey) :
    Slot Table Pte Miss :=
  match v.entryLoc n k with
  | .at l => slotOfEntry follow k.level l ⟨v.mem l⟩
  | .null => .miss .null
  | .err e => .miss (.err e)

theorem View.slot_of_loc {v : View} {n : Table} {k : PtKey} {l : Loc}
    (h : v.entryLoc n k = .at l) (follow : PageDirEntry → ℕ) :
    v.slot follow n k = slotOfEntry follow k.level l ⟨v.mem l⟩ := by
  simp only [View.slot, h]

/-- The keys of a virtual address for the given levels. -/
def keysOf (levels : List ℕ) (vaddr : ℕ) : List PtKey :=
  levels.map fun level => ⟨level, ptIndex level vaddr⟩

/-- The walk for a virtual address over the given levels. -/
def View.walk (v : View) (follow : PageDirEntry → ℕ) (levels : List ℕ)
    (vaddr : ℕ) (n : Table) : Except Miss Pte :=
  RadixTable.walk (v.slot follow) .overrun (keysOf levels vaddr) n

/-- The top-level directory. -/
def PageDirConfig.root (c : PageDirConfig) : Table :=
  ⟨c.pageDir, .ofInst c.target⟩

/-- What `translate_page_directory` makes of the end of a walk.  A `NULL`
pointer and running past the last level both read as success. -/
def translationOf : Except Miss Pte → Translation
  | .ok pte => ⟨0, pte.entry.addr * 4096, pte.entry.aperture⟩
  | .error (.absent _ _) => .failed (-enxio)
  | .error .null => .failed 0
  | .error (.err e) => .failed e
  | .error .overrun => .failed 0

/-- The result of `translate_page_directory` in a view. -/
def View.translate (v : View) (pdConfig : PageDirConfig) (vaddr : ℕ) :
    Translation :=
  if vaddr % 4096 ≠ 0 then .failed (-einval)
  else translationOf
    (v.walk PageDirEntry.addr (List.range 5) vaddr pdConfig.root)

/-! ## Reading one entry -/

theorem ptIndex_lt (level vaddr : ℕ) : ptIndex level vaddr < ptSz level := by
  apply Nat.mod_lt
  simp only [ptSz, nvMmuPtV2Sz]
  rcases level with _ | _ | _ | _ | _ | level <;> simp

theorem View.addr_mod_of_deref {v : View} {addr : ℕ} {pdAp : PdTarget} {l : Loc}
    (h : v.deref addr pdAp = .at l) : l.addr % 4096 = addr % 4096 := by
  simp only [View.deref] at h
  split_ifs at h with _ _ _ _ hmapped
  · cases h
    rfl
  · cases h
    cases hdom : v.iommu with
    | none => simp [Core.busLoc, hdom]
    | some dom =>
        have hframe : dom (addr / 4096) ≠ 0 := by
          intro hzero
          simp [Core.busLoc, hdom, iommuIovaToPhys, hzero] at hmapped
        simp only [Core.busLoc, hdom, iommuIovaToPhys, if_neg hframe]
        omega

/-- The code that all page-table walks share: dereference a table, give up on a
bad pointer, and read the word `off` bytes further on. -/
def derefReadq {α : Type} (addr : ℕ) (pdAp : PdTarget) (off : ℕ)
    (bad : Kva → Kernel α) (good : Kva → BitVec 64 → Kernel α) : Kernel α := do
  let k ← pdDeref addr pdAp
  if k.isErrOrNull then bad k
  else
    let word ← readq (k.add off)
    good k word

theorem derefReadq_spec {α : Type} (s : Machine) {addr off : ℕ}
    (pdAp : PdTarget) (hoff : addr % 4096 + off < 4096)
    (bad : Kva → Kernel α) (good : Kva → BitVec 64 → Kernel α) :
    ∃ s', s'.view = s.view ∧ s.FreshSince s' ∧
      match s.view.deref addr pdAp with
      | .at l => ∃ k, Points s' k l ∧
          derefReadq addr pdAp off bad good s = good k (s.mem (l.add off)) s'
      | .null => derefReadq addr pdAp off bad good s = bad .null s'
      | .err e => derefReadq addr pdAp off bad good s = bad (.err e) s' := by
  obtain ⟨k, s₁, hrun, hview, hlog, hres⟩ := pdDeref_spec s addr pdAp
  have hfresh : s.FreshSince s₁ := .of_eq hlog
  cases hd : s.view.deref addr pdAp with
  | null =>
      rw [hd] at hres
      subst hres
      exact ⟨s₁, hview, hfresh, Kernel.bind_eq_of_eq hrun⟩
  | err e =>
      rw [hd] at hres
      subst hres
      exact ⟨s₁, hview, hfresh, Kernel.bind_eq_of_eq hrun⟩
  | «at» l =>
      rw [hd] at hres
      obtain ⟨hok, -, hpoints⟩ := hres
      have hmod := View.addr_mod_of_deref hd
      have hshows := hpoints.shows (n := off) (by omega)
      refine ⟨s₁.logAccess (k.add (off : ℕ)), by simp [hview],
        hfresh.trans hshows.fresh, k, hpoints.logAccess _, ?_⟩
      have hmem : s₁.mem = s.mem := congrArg (·.mem) hview
      rw [derefReadq, Kernel.bind_eq_of_eq hrun, hok, if_neg Bool.false_ne_true,
        Kernel.bind_eq_of_eq hshows.readq_eq, hmem]

/-! ## Translation is the walk -/

theorem translateLevels_cons (s : Machine) (n : Table) {level : ℕ}
    (hlevel : level < 5) (levels : List ℕ) (vaddr : ℕ) :
    ∃ s', s'.view = s.view ∧ s.FreshSince s' ∧
      translateLevels vaddr (level :: levels) n.base n.target s =
        match s.view.slot PageDirEntry.addr n ⟨level, ptIndex level vaddr⟩ with
        | .table m => translateLevels vaddr levels m.base m.target s'
        | .leaf pte => some (translationOf (.ok pte), s')
        | .miss r => some (translationOf (.error r), s') := by
  have hoff := offset_lt (k := ⟨level, ptIndex level vaddr⟩)
    ⟨hlevel, ptIndex_lt level vaddr⟩
  obtain ⟨s', hview, hfresh, hrun⟩ := @derefReadq_spec _ s
    (n.base + ptHalf level) (ptEntrySz level * ptIndex level vaddr) n.target
    (by simp only [Table.base, PtKey.offset] at hoff ⊢; omega)
    (fun k => pure (.failed k.ptrErr))
    (fun _ word =>
      if (PageDirEntry.mk word).isInvalid then pure (.failed (-enxio))
      else if (PageDirEntry.mk word).isPte then
        pure ⟨0, (PageDirEntry.mk word).addr * 4096,
          (PageDirEntry.mk word).aperture⟩
      else translateLevels vaddr levels ((PageDirEntry.mk word).addr * 4096)
        (PageDirEntry.mk word).target)
  refine ⟨s', hview, hfresh, ?_⟩
  rw [translateLevels]
  simp only [View.slot, View.entryLoc]
  cases hd : s.view.deref (n.base + ptHalf level) n.target with
  | null =>
      rw [hd] at hrun
      exact hrun
  | err e =>
      rw [hd] at hrun
      exact hrun
  | «at» l =>
      rw [hd] at hrun
      obtain ⟨k, -, hrun⟩ := hrun
      refine hrun.trans ?_
      change _ = match slotOfEntry _ _ _
        ⟨s.mem (l.add (ptEntrySz level * ptIndex level vaddr))⟩ with
        | .table m => _ | .leaf pte => _ | .miss r => _
      cases hinv : (PageDirEntry.mk (s.mem _)).isInvalid with
      | true =>
          rw [slotOfEntry_of_invalid hinv, if_pos rfl]
          rfl
      | false =>
          cases hpte : (PageDirEntry.mk (s.mem _)).isPte with
          | true =>
              rw [slotOfEntry_of_pte hpte, if_neg Bool.false_ne_true, if_pos rfl]
              rfl
          | false =>
              rw [slotOfEntry_of_pde hinv hpte, if_neg Bool.false_ne_true,
                if_neg Bool.false_ne_true]
              rfl

theorem translateLevels_spec (s : Machine) (n : Table) {levels : List ℕ}
    (hlevels : ∀ level ∈ levels, level < 5) (vaddr : ℕ) :
    ∃ s', translateLevels vaddr levels n.base n.target s =
        some (translationOf
          (s.view.walk PageDirEntry.addr levels vaddr n), s') ∧
      s'.view = s.view ∧ s.FreshSince s' := by
  induction levels generalizing s n with
  | nil => exact ⟨s, rfl, rfl, .refl s⟩
  | cons level levels ih =>
      obtain ⟨s₁, hview, hfresh, hrun⟩ := translateLevels_cons s n
        (hlevels level (by simp)) levels vaddr
      rw [hrun]
      simp only [View.walk, keysOf, List.map_cons, RadixTable.walk]
      cases s.view.slot PageDirEntry.addr n ⟨level, ptIndex level vaddr⟩ with
      | table m =>
          obtain ⟨s₂, hrun₂, hview₂, hfresh₂⟩ := ih s₁ m
            (fun l hl => hlevels l (by simp [hl]))
          refine ⟨s₂, ?_, hview₂.trans hview, hfresh.trans hfresh₂⟩
          rw [hview] at hrun₂
          exact hrun₂
      | leaf pte => exact ⟨s₁, rfl, hview, hfresh⟩
      | miss r => exact ⟨s₁, rfl, hview, hfresh⟩

/-- `translate_page_directory` returns what the walk determines and leaves the
page tables alone. -/
theorem translatePageDirectory_spec (s : Machine) (pdConfig : PageDirConfig)
    (vaddr : ℕ) :
    ∃ s', translatePageDirectory pdConfig vaddr s =
        some (s.view.translate pdConfig vaddr, s') ∧
      s'.view = s.view ∧ s.FreshSince s' := by
  by_cases halign : vaddr % 4096 ≠ 0
  · refine ⟨s, ?_, rfl, .refl s⟩
    simp only [translatePageDirectory, View.translate, if_pos halign]
    rfl
  · simp only [translatePageDirectory, View.translate, if_neg halign]
    exact translateLevels_spec s pdConfig.root (by simp) vaddr

end A100Partitioning.Nvdebug
