import A100Partitioning.Nvdebug.Translate

/-!
# Reverse translation of V2 page tables (`search_page_directory`)

The search enumerates the indices of every level and dereferences each entry on
its own.  It is a depth-first search of the radix table; the value it returns
encodes the path to the PTE it accepted.
-/

namespace A100Partitioning.Nvdebug

open Support RadixTable

/-! ## The code -/

/-- A loop over indices that is left as soon as its body returns a value. -/
def forReturn {α : Type} (body : ℕ → Kernel (Option α)) :
    List ℕ → Kernel (Option α)
  | [] => return none
  | i :: is => do
      match ← body i with
      | some res => return some res
      | none => forReturn body is

/-- `search_page_directory_subtree`; the list holds the levels from this one on.
At the last level the loop's bound `NV_MMU_PT_V2_SZ[level + 1]` is read out of
bounds. -/
def searchPageDirectorySubtree (addrToFind : ℕ)
    (addrToFindAperture : InstTarget) :
    List ℕ → ℕ → PdTarget → Kernel ℕ
  | [], _, _ => oops
  | level :: levels, pdeAddr, pdeTarget => do
      -- `sizeof(NV_MMU_PT_V2_SZ)`, which is in bytes
      if 20 < level then return 0
      let pdeAddr := pdeAddr + ptHalf level
      let pdeKern ← pdDeref pdeAddr pdeTarget
      if pdeKern.isErrOrNull then return 0
      let word ← readq pdeKern
      let entry : PageDirEntry := ⟨word⟩
      if entry.isInvalid then return 0
      if entry.isPte then
        return (decide (entry.addr * 4096 = addrToFind) &&
          decide (entry.aperture = addrToFindAperture)).toNat
      match levels with
      | [] => oops
      | next :: _ =>
          let found ← forReturn (fun i => do
            let res ← searchPageDirectorySubtree addrToFind addrToFindAperture
              levels (entry.addr * 4096 + ptEntrySz next * i) entry.target
            if res ≠ 0 then return some (res ||| i <<< ptLsb next)
            return none) (List.range (ptSz next))
          return found.getD 0

/-- `search_page_directory`. -/
def searchPageDirectory (pdConfig : PageDirConfig) (addrToFind : ℕ)
    (addrToFindAperture : InstTarget) : Kernel ℕ := do
  if addrToFind % 4096 ≠ 0 then return 0
  let found ← forReturn (fun i => do
    let res ← searchPageDirectorySubtree addrToFind addrToFindAperture
      (List.range 5) (pdConfig.pageDir * 4096 + ptEntrySz 0 * i)
      (.ofInst pdConfig.target)
    -- `(res & ~0xfff) | (i << NV_MMU_PT_V2_LSB[0])`
    if res ≠ 0 then return some (res / 4096 * 4096 ||| i <<< ptLsb 0)
    return none) (List.range (ptSz 0))
  return found.getD 0

/-! ## The search space -/

/-- All keys of one level, in the order of the search. -/
def keysAt (level : ℕ) : List PtKey :=
  (List.range (ptSz level)).map (PtKey.mk level)

/-- The PTE maps the address that is searched for. -/
def acceptsPte (addrToFind : ℕ) (addrToFindAperture : InstTarget)
    (pte : Pte) : Bool :=
  decide (pte.entry.addr * 4096 = addrToFind) &&
    decide (pte.entry.aperture = addrToFindAperture)

/-- The search passes over everything but the end of the last level's loop. -/
def skipsMiss : Miss → Bool
  | .overrun => false
  | _ => true

/-- One slot as the search sees it: the entry itself is dereferenced. -/
def View.searchSlot (v : View) (n : Table) (k : PtKey) : Slot Table Pte Miss :=
  match v.deref (n.base + k.offset + ptHalf k.level) n.target with
  | .at l => slotOfEntry PageDirEntry.addr k.level l ⟨v.mem l⟩
  | .null => .miss .null
  | .err e => .miss (.err e)

/-- The depth-first search of the levels below `n`. -/
def View.findBelow (v : View) (addrToFind : ℕ)
    (addrToFindAperture : InstTarget) (levels : List ℕ) (n : Table) :
    Found PtKey Pte Miss :=
  RadixTable.find v.searchSlot .overrun
    (acceptsPte addrToFind addrToFindAperture) skipsMiss (levels.map keysAt) n

/-- The virtual address of a path of entries. -/
def vaddrOf (path : List PtKey) : ℕ := address PtKey.weight path

/-- The result of `search_page_directory` in a view; `none` when it runs past
the last level. -/
def View.search (v : View) (pdConfig : PageDirConfig) (addrToFind : ℕ)
    (addrToFindAperture : InstTarget) : Option ℕ :=
  if addrToFind % 4096 ≠ 0 then some 0
  else
    match v.findBelow addrToFind addrToFindAperture (List.range 5)
      pdConfig.root with
    | .hit path _ => some (vaddrOf path)
    | .none => some 0
    | .blocked _ => none

theorem keysAt_sorted (level : ℕ) :
    (keysAt level).Pairwise (PtKey.idx · < PtKey.idx ·) := by
  rw [keysAt, List.pairwise_map]
  exact List.pairwise_lt_range

theorem mem_keysAt {level : ℕ} {k : PtKey} :
    k ∈ keysAt level ↔ k.level = level ∧ k.idx < ptSz level := by
  obtain ⟨l, i⟩ := k
  simp only [keysAt, List.mem_map, List.mem_range, PtKey.mk.injEq]
  constructor
  · rintro ⟨j, hj, rfl, rfl⟩
    exact ⟨rfl, hj⟩
  · rintro ⟨rfl, hi⟩
    exact ⟨i, hi, rfl, rfl⟩

theorem length_keysOf (levels : List ℕ) (a : ℕ) :
    (keysOf levels a).length = (levels.map keysAt).length := by
  simp [keysOf]

theorem valid_keysOf (levels : List ℕ) (a : ℕ) :
    Valid (keysOf levels a) (levels.map keysAt) := by
  induction levels with
  | nil => exact .nil []
  | cons level levels ih =>
      exact .cons (mem_keysAt.mpr ⟨rfl, ptIndex_lt level a⟩) ih

/-- Bytes of virtual address space that one table at this level covers. -/
def ptSpan (level : ℕ) : ℕ := ptSz level * 2 ^ ptLsb level

theorem ptSpan_succ {level : ℕ} (hlevel : level < 5) :
    ptSpan (level + 1) = 2 ^ ptLsb level := by
  interval_cases level <;> rfl

theorem vaddrOf_cons {level : ℕ} {k : PtKey} (hk : k.level = level)
    (path : List PtKey) :
    vaddrOf (k :: path) = k.idx * 2 ^ ptLsb level + vaddrOf path := by
  simp only [vaddrOf, address, List.map_cons, List.sum_cons, PtKey.weight, hk]

/-- The paths through a table stay within its virtual address range, and the
levels are weighted by position. -/
theorem graded_keysAt (m : ℕ) {level : ℕ} (hlevel : level + m = 5) :
    Graded PtKey.weight PtKey.idx ((List.range' level m).map keysAt) ∧
      ∀ path, Valid path ((List.range' level m).map keysAt) →
        vaddrOf path < ptSpan level := by
  have hpos : 0 < ptSpan level :=
    Nat.mul_pos (lt_of_le_of_lt (Nat.zero_le _) (ptIndex_lt level 0))
      (Nat.two_pow_pos _)
  induction m generalizing level with
  | zero =>
      refine ⟨.nil, ?_⟩
      intro path hpath
      cases hpath
      exact hpos
  | succ m ih =>
      have hspan := @ptSpan_succ level (by omega)
      obtain ⟨hgraded, hsmall⟩ := ih (by omega)
        (hspan ▸ Nat.two_pow_pos _)
      rw [hspan] at hsmall
      rw [List.range'_succ, List.map_cons]
      constructor
      · refine .cons (2 ^ ptLsb level) ?_ hsmall hgraded
        intro k hk
        rw [PtKey.weight, (mem_keysAt.mp hk).1]
      · intro path hpath
        cases hpath with
        | nil => exact hpos
        | @cons k _ path _ hk hpath =>
            have hlt := hsmall path hpath
            obtain ⟨hlvl, hidx⟩ := mem_keysAt.mp hk
            have hmul : (k.idx + 1) * 2 ^ ptLsb level ≤ ptSpan level :=
              Nat.mul_le_mul_right _ hidx
            rw [Nat.add_mul] at hmul
            rw [vaddrOf_cons hlvl]
            omega

/-- The paths below one entry stay within its virtual address range. -/
theorem vaddrOf_lt_of_valid {m level : ℕ} (hlevel : level + 1 + m = 5)
    {path : List PtKey}
    (hpath : Valid path ((List.range' (level + 1) m).map keysAt)) :
    vaddrOf path < 2 ^ ptLsb level := by
  rw [← ptSpan_succ (by omega)]
  exact (graded_keysAt m hlevel).2 path hpath

theorem two_pow_ptLsb_mod (level : ℕ) : 2 ^ ptLsb level % 4096 = 0 := by
  simp only [ptLsb, nvMmuPtV2Lsb]
  rcases level with _ | _ | _ | _ | _ | level <;> simp

theorem vaddrOf_mod (path : List PtKey) : vaddrOf path % 4096 = 0 := by
  induction path with
  | nil => rfl
  | cons k path ih =>
      have hunit := two_pow_ptLsb_mod k.level
      simp only [vaddrOf, address, List.map_cons, List.sum_cons, PtKey.weight]
        at ih ⊢
      rw [Nat.add_mod, ih, Nat.mul_mod, hunit]
      simp

/-! ## The code is the search -/

/-- A loop follows `firstFound` when its body follows the outcome at each
index. -/
theorem forReturn_spec {α κ ε μ : Type} {body : ℕ → Kernel (Option α)}
    {v : View} {f : κ → Found κ ε μ} {key : ℕ → κ}
    {code : Found κ ε μ → Option (Option α)}
    (hnone : code .none = some none) (hstop : ∀ r, r ≠ .none →
      code r ≠ some none) (is : List ℕ)
    (hbody : ∀ i ∈ is, ∀ s : Machine, s.view = v →
      ∃ s', s'.view = v ∧ s.FreshSince s' ∧
        body i s = (code (f (key i))).map (·, s'))
    (s : Machine) (hs : s.view = v) :
    ∃ s', s'.view = v ∧ s.FreshSince s' ∧
      forReturn body is s =
        (code (firstFound f (is.map key))).map (·, s') := by
  induction is generalizing s with
  | nil => exact ⟨s, hs, .refl s, by simp [forReturn, firstFound, hnone]⟩
  | cons i is ih =>
      obtain ⟨s₁, hview, hfresh, hrun⟩ := hbody i (by simp) s hs
      by_cases hfound : f (key i) = .none
      · rw [hfound, hnone] at hrun
        obtain ⟨s₂, hview₂, hfresh₂, hrun₂⟩ :=
          ih (fun j hj => hbody j (by simp [hj])) s₁ hview
        refine ⟨s₂, hview₂, hfresh.trans hfresh₂, ?_⟩
        rw [forReturn, Kernel.bind_eq_of_eq hrun]
        simpa only [List.map_cons, firstFound, hfound] using hrun₂
      · have hfirst : firstFound f ((i :: is).map key) = f (key i) := by
          cases hf : f (key i) with
          | none => exact absurd hf hfound
          | hit path x => simp [firstFound, hf]
          | blocked r => simp [firstFound, hf]
        refine ⟨s₁, hview, hfresh, ?_⟩
        rw [hfirst, forReturn, Kernel.bind_apply, hrun]
        cases hcode : code (f (key i)) with
        | none => rfl
        | some res =>
            cases res with
            | none => exact absurd hcode (hstop _ hfound)
            | some a => rfl

/-- The value that the recursion returns for one entry: one bit for success,
and the indices below the entry's own. -/
def subtreeResult : Found PtKey Pte Miss → Option ℕ
  | .hit path _ => some (1 + vaddrOf path.tail)
  | .none => some 0
  | .blocked _ => none

/-- The value that a loop over the entries of one table returns. -/
def entriesResult : Found PtKey Pte Miss → Option (Option ℕ)
  | .hit path _ => some (some (1 + vaddrOf path))
  | .none => some none
  | .blocked _ => none

theorem kss_sorted (levels : List ℕ) :
    ∀ ks ∈ levels.map keysAt, ks.Pairwise (PtKey.idx · < PtKey.idx ·) := by
  intro ks hks
  obtain ⟨level, -, rfl⟩ := List.mem_map.mp hks
  exact keysAt_sorted level

theorem Kva.add_zero (k : Kva) : k.add (0 : ℕ) = k := by
  cases k <;> simp [Kva.add]

theorem or_shiftLeft {x i b : ℕ} (hx : x < 2 ^ b) :
    x ||| i <<< b = x + i * 2 ^ b := by
  rw [Nat.or_comm, ← Nat.shiftLeft_add_eq_or_of_lt hx, Nat.shiftLeft_eq,
    Nat.add_comm]

variable (addrToFind : ℕ) (addrToFindAperture : InstTarget)

/-- The outcome of the search at one entry. -/
def View.lookBelow (v : View) (levels : List ℕ) (n : Table) (k : PtKey) :
    Found PtKey Pte Miss :=
  look v.searchSlot (acceptsPte addrToFind addrToFindAperture) skipsMiss
    (v.findBelow addrToFind addrToFindAperture levels) n k

theorem lookBelow_hit {v : View} {levels : List ℕ} {n : Table} {k : PtKey}
    {path : List PtKey} {pte : Pte}
    (h : v.lookBelow addrToFind addrToFindAperture levels n k =
      .hit path pte) :
    ∃ below, path = k :: below ∧ Valid below (levels.map keysAt) := by
  rw [View.lookBelow, look] at h
  cases hslot : v.searchSlot n k with
  | table m =>
      simp only [hslot] at h
      cases hfind : v.findBelow addrToFind addrToFindAperture levels m with
      | hit below x =>
          rw [hfind, Found.under] at h
          cases h
          exact ⟨below, rfl, valid_of_find_eq_hit (kss_sorted levels) hfind⟩
      | none => simp [hfind, Found.under] at h
      | blocked r => simp [hfind, Found.under] at h
  | leaf x =>
      simp only [hslot] at h
      split at h
      · cases h
        exact ⟨[], rfl, .nil _⟩
      · cases h
  | miss r =>
      simp only [hslot] at h
      split at h <;> cases h

/-- The recursion into the table `n`, once an entry pointed to it. -/
def searchTable (levels : List ℕ) (n : Table) : Kernel ℕ :=
  match levels with
  | [] => oops
  | next :: _ => do
      let found ← forReturn (fun i => do
        let res ← searchPageDirectorySubtree addrToFind addrToFindAperture
          levels (n.base + ptEntrySz next * i) n.target
        if res ≠ 0 then return some (res ||| i <<< ptLsb next)
        return none) (List.range (ptSz next))
      return found.getD 0

/-- The recursion reads one slot, and continues below it if it is a table. -/
theorem searchPageDirectorySubtree_cons (s : Machine) (n : Table) {level i : ℕ}
    (hk : (PtKey.mk level i).InRange) (levels : List ℕ) :
    ∃ s', s'.view = s.view ∧ s.FreshSince s' ∧
      searchPageDirectorySubtree addrToFind addrToFindAperture
        (level :: levels) (n.base + ptEntrySz level * i) n.target s =
        match s.view.searchSlot n ⟨level, i⟩ with
        | .table m => searchTable addrToFind addrToFindAperture levels m s'
        | .leaf pte => some
            ((acceptsPte addrToFind addrToFindAperture pte).toNat, s')
        | .miss _ => some (0, s') := by
  have hoff := offset_lt hk
  obtain ⟨s', hview, hfresh, hrun⟩ := @derefReadq_spec _ s _ 0 n.target
    (by simp only [PtKey.offset] at hoff ⊢; omega)
    (fun _ => pure 0)
    (fun _ word =>
      if (PageDirEntry.mk word).isInvalid then pure 0
      else if (PageDirEntry.mk word).isPte then
        pure (acceptsPte addrToFind addrToFindAperture ⟨level, ⟨word⟩⟩).toNat
      else searchTable addrToFind addrToFindAperture levels
        ⟨(PageDirEntry.mk word).addr, (PageDirEntry.mk word).target⟩)
  refine ⟨s', hview, hfresh, ?_⟩
  rw [searchPageDirectorySubtree, if_neg (by have := hk.1; simp only at this; omega)]
  simp only [derefReadq, Kva.add_zero] at hrun
  simp only [View.searchSlot, PtKey.offset]
  cases hd : s.view.deref (n.base + ptEntrySz level * i + ptHalf level)
      n.target with
  | null =>
      rw [hd] at hrun
      exact hrun
  | err e =>
      rw [hd] at hrun
      exact hrun
  | «at» l =>
      rw [hd] at hrun
      obtain ⟨k, -, hrun⟩ := hrun
      refine hrun.trans ?_
      change _ = match slotOfEntry _ _ _ ⟨s.mem l⟩ with
        | .table m => _ | .leaf pte => _ | .miss r => _
      have hl : l.add 0 = l := rfl
      rw [hl]
      cases hinv : (PageDirEntry.mk (s.mem l)).isInvalid with
      | true =>
          rw [slotOfEntry_of_invalid hinv, if_pos rfl]
          rfl
      | false =>
          cases hpte : (PageDirEntry.mk (s.mem l)).isPte with
          | true =>
              rw [slotOfEntry_of_pte hpte, if_neg Bool.false_ne_true, if_pos rfl]
              rfl
          | false =>
              rw [slotOfEntry_of_pde hinv hpte, if_neg Bool.false_ne_true,
                if_neg Bool.false_ne_true]

theorem skipsMiss_of_searchSlot {v : View} {n : Table} {k : PtKey} {r : Miss}
    (h : v.searchSlot n k = .miss r) : skipsMiss r = true := by
  rw [View.searchSlot] at h
  cases hd : v.deref (n.base + k.offset + ptHalf k.level) n.target with
  | null =>
      rw [hd] at h
      cases h
      rfl
  | err e =>
      rw [hd] at h
      cases h
      rfl
  | «at» l =>
      simp only [hd, slotOfEntry] at h
      split_ifs at h
      cases h
      rfl

/-- The result at one entry, from what the recursion into a table returns. -/
theorem subtreeResult_lookBelow {v : View} {levels : List ℕ} {n : Table}
    {k : PtKey} :
    subtreeResult
        (v.lookBelow addrToFind addrToFindAperture levels n k) =
      match v.searchSlot n k with
      | .table m => (entriesResult (v.findBelow addrToFind addrToFindAperture
          levels m)).map (·.getD 0)
      | .leaf pte => some (acceptsPte addrToFind addrToFindAperture pte).toNat
      | .miss _ => some 0 := by
  rw [View.lookBelow, look]
  cases hslot : v.searchSlot n k with
  | table m =>
      cases hfind : v.findBelow addrToFind addrToFindAperture levels m <;>
        simp [hfind, Found.under, subtreeResult, entriesResult]
  | leaf pte =>
      cases hpte : acceptsPte addrToFind addrToFindAperture pte <;>
        simp [hpte, subtreeResult, vaddrOf, address]
  | miss r =>
      simp [skipsMiss_of_searchSlot hslot, subtreeResult]

theorem entriesResult_lookBelow {v : View} {m : ℕ} {level i : ℕ} {n : Table}
    (hlevel : level + 1 + m = 5) :
    entriesResult (v.lookBelow addrToFind addrToFindAperture
        (List.range' (level + 1) m) n ⟨level, i⟩) =
      (subtreeResult (v.lookBelow addrToFind addrToFindAperture
        (List.range' (level + 1) m) n ⟨level, i⟩)).map fun res =>
          if res ≠ 0 then some (res ||| i <<< ptLsb level) else none := by
  cases hlook : v.lookBelow addrToFind addrToFindAperture
      (List.range' (level + 1) m) n ⟨level, i⟩ with
  | none => rfl
  | blocked r => rfl
  | hit path pte =>
      obtain ⟨below, rfl, hvalid⟩ := lookBelow_hit _ _ hlook
      have hlt := vaddrOf_lt_of_valid hlevel hvalid
      have hmod := vaddrOf_mod below
      have hunit := two_pow_ptLsb_mod level
      have hsum : vaddrOf (⟨level, i⟩ :: below) =
          i * 2 ^ ptLsb level + vaddrOf below := vaddrOf_cons rfl below
      simp only [entriesResult, subtreeResult, List.tail_cons, Option.map_some]
      rw [if_pos (by omega), or_shiftLeft (by omega), hsum]
      congr 2
      omega

/-- The loop over the entries of a table, when its body is right at each of
them. -/
theorem forReturn_entries {v : View} (n : Table) (level : ℕ) {levels : List ℕ}
    {combine : ℕ → ℕ → ℕ} {code : Found PtKey Pte Miss → Option (Option ℕ)}
    {sub : ℕ → Kernel ℕ} (hnone : code .none = some none)
    (hstop : ∀ r, r ≠ .none → code r ≠ some none)
    (hcode : ∀ i, code (v.lookBelow addrToFind addrToFindAperture levels n
        ⟨level, i⟩) =
      (subtreeResult (v.lookBelow addrToFind addrToFindAperture levels n
        ⟨level, i⟩)).map fun res =>
          if res ≠ 0 then some (combine res i) else none)
    (hsub : ∀ i < ptSz level, ∀ s : Machine, s.view = v →
      ∃ s', s'.view = v ∧ s.FreshSince s' ∧
        sub i s = (subtreeResult (v.lookBelow addrToFind addrToFindAperture
          levels n ⟨level, i⟩)).map (·, s'))
    (s : Machine) (hs : s.view = v) :
    ∃ s', s'.view = v ∧ s.FreshSince s' ∧
      forReturn (fun i => do
        let res ← sub i
        if res ≠ 0 then return some (combine res i)
        return none) (List.range (ptSz level)) s =
        (code (v.findBelow addrToFind addrToFindAperture (level :: levels)
          n)).map (·, s') := by
  refine forReturn_spec (f := v.lookBelow addrToFind addrToFindAperture levels n)
    hnone hstop _ ?_ s hs
  intro i hi s' hs'
  obtain ⟨s'', hview, hfresh, hrun⟩ := hsub i (List.mem_range.mp hi) s' hs'
  refine ⟨s'', hview, hfresh, ?_⟩
  rw [hcode, Kernel.bind_apply, hrun]
  cases subtreeResult (v.lookBelow addrToFind addrToFindAperture levels n
    ⟨level, i⟩) with
  | none => rfl
  | some res =>
      by_cases hres : res = 0
      · simp [hres]
      · simp [hres]

/-- Below one entry, the recursion returns what the search finds there. -/
theorem searchPageDirectorySubtree_spec (m : ℕ) {level : ℕ}
    (hlevel : level + 1 + m = 5) (s : Machine) (n : Table) {i : ℕ}
    (hi : i < ptSz level) :
    ∃ s', s'.view = s.view ∧ s.FreshSince s' ∧
      searchPageDirectorySubtree addrToFind addrToFindAperture
        (List.range' level (m + 1)) (n.base + ptEntrySz level * i) n.target s =
        (subtreeResult (s.view.lookBelow addrToFind addrToFindAperture
          (List.range' (level + 1) m) n ⟨level, i⟩)).map (·, s') := by
  induction m generalizing level s n i with
  | zero =>
      obtain ⟨s', hview, hfresh, hrun⟩ := searchPageDirectorySubtree_cons
        addrToFind addrToFindAperture s n
        ⟨show level < 5 by omega, hi⟩ []
      refine ⟨s', hview, hfresh, hrun.trans ?_⟩
      rw [subtreeResult_lookBelow]
      cases s.view.searchSlot n ⟨level, i⟩ <;> rfl
  | succ m ih =>
      obtain ⟨s₁, hview, hfresh, hrun⟩ := searchPageDirectorySubtree_cons
        addrToFind addrToFindAperture s n
        ⟨show level < 5 by omega, hi⟩ (List.range' (level + 1) (m + 1))
      rw [List.range'_succ, hrun, subtreeResult_lookBelow]
      cases hslot : s.view.searchSlot n ⟨level, i⟩ with
      | leaf pte => exact ⟨s₁, hview, hfresh, rfl⟩
      | miss r => exact ⟨s₁, hview, hfresh, rfl⟩
      | table child =>
          obtain ⟨s₂, hview₂, hfresh₂, hrun₂⟩ :=
            forReturn_entries addrToFind addrToFindAperture child (level + 1)
              rfl
              (by intro r hr; cases r <;> simp [entriesResult] at hr ⊢)
              (fun j => entriesResult_lookBelow _ _ (m := m) (by omega))
              (fun j hj s' hs' => by
                obtain ⟨s'', hview', hrest⟩ := ih (by omega) s' child hj
                rw [hs'] at hview' hrest
                exact ⟨s'', hview', hrest⟩)
              s₁ hview
          refine ⟨s₂, hview₂, hfresh.trans hfresh₂, ?_⟩
          change (forReturn _ _ >>= _) s₁ = _
          rw [Kernel.bind_apply, hrun₂]
          simp only [List.range'_succ]
          cases entriesResult (s.view.findBelow addrToFind addrToFindAperture
            ((level + 1) :: List.range' (level + 1 + 1) m) child) <;> rfl

/-- The value that the top-level loop returns. -/
def topResult : Found PtKey Pte Miss → Option (Option ℕ)
  | .hit path _ => some (some (vaddrOf path))
  | .none => some none
  | .blocked _ => none

/-- One pass of the top-level loop, which drops the bit for success. -/
theorem topResult_lookBelow {v : View} {m level i : ℕ} {n : Table}
    (hlevel : level + 1 + m = 5) :
    topResult (v.lookBelow addrToFind addrToFindAperture
        (List.range' (level + 1) m) n ⟨level, i⟩) =
      (subtreeResult (v.lookBelow addrToFind addrToFindAperture
        (List.range' (level + 1) m) n ⟨level, i⟩)).map fun res =>
          if res ≠ 0 then some (res / 4096 * 4096 ||| i <<< ptLsb level)
          else none := by
  cases hlook : v.lookBelow addrToFind addrToFindAperture
      (List.range' (level + 1) m) n ⟨level, i⟩ with
  | none => rfl
  | blocked r => rfl
  | hit path pte =>
      obtain ⟨below, rfl, hvalid⟩ := lookBelow_hit _ _ hlook
      have hlt := vaddrOf_lt_of_valid hlevel hvalid
      have hmod := vaddrOf_mod below
      have hsum : vaddrOf (⟨level, i⟩ :: below) =
          i * 2 ^ ptLsb level + vaddrOf below := vaddrOf_cons rfl below
      simp only [topResult, subtreeResult, List.tail_cons, Option.map_some]
      rw [if_pos (by omega), or_shiftLeft (by omega), hsum]
      congr 2
      omega

/-- `search_page_directory` returns the virtual address of the path that the
depth-first search finds, or fails where that search is blocked. -/
theorem searchPageDirectory_spec (s : Machine) (pdConfig : PageDirConfig) :
    ∃ s', s'.view = s.view ∧ s.FreshSince s' ∧
      searchPageDirectory pdConfig addrToFind addrToFindAperture s =
        (s.view.search pdConfig addrToFind addrToFindAperture).map (·, s') := by
  by_cases halign : addrToFind % 4096 ≠ 0
  · refine ⟨s, rfl, .refl s, ?_⟩
    simp only [searchPageDirectory, View.search, if_pos halign]
    rfl
  have hsub : ∀ i < ptSz 0, ∀ s' : Machine, s'.view = s.view →
      ∃ s'', s''.view = s.view ∧ s'.FreshSince s'' ∧
        searchPageDirectorySubtree addrToFind addrToFindAperture (List.range 5)
          (pdConfig.pageDir * 4096 + ptEntrySz 0 * i) (.ofInst pdConfig.target)
          s' = (subtreeResult (s.view.lookBelow addrToFind addrToFindAperture
            (List.range' 1 4) pdConfig.root ⟨0, i⟩)).map (·, s'') := by
    intro i hi s' hs'
    obtain ⟨s'', hview', hrest⟩ := searchPageDirectorySubtree_spec
      addrToFind addrToFindAperture 4 rfl s' pdConfig.root hi
    rw [hs'] at hview' hrest
    exact ⟨s'', hview', hrest⟩
  obtain ⟨s', hview, hfresh, hrun⟩ :=
    forReturn_entries addrToFind addrToFindAperture pdConfig.root 0
      rfl
      (by intro r hr; cases r <;> simp [topResult] at hr ⊢)
      (fun i => topResult_lookBelow _ _ (m := 4) rfl) hsub s rfl
  refine ⟨s', hview, hfresh, ?_⟩
  simp only [searchPageDirectory, View.search, if_neg halign]
  rw [Kernel.bind_apply, hrun,
    show List.range 5 = 0 :: List.range' 1 4 from rfl]
  cases s.view.findBelow addrToFind addrToFindAperture (0 :: List.range' 1 4)
    pdConfig.root <;> rfl

end A100Partitioning.Nvdebug
