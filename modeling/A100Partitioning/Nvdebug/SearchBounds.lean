import A100Partitioning.Nvdebug.ReverseTranslation

/-!
# How deep the search of V2 page tables goes (`search_page_directory_subtree`)

The recursion carries its level as a number, and looks it up in three arrays of five
elements.  Here every one of these accesses is written out, and the nested calls are
counted; the search of `Search.lean` is what remains when no access is out of bounds.
-/

namespace A100Partitioning.Nvdebug

open Support RadixTable

/-! ## The code -/

/-- An access to one of the arrays `NV_MMU_PT_V2_*`. -/
def readLevel (array : List ℕ) (level : ℕ) : Kernel ℕ :=
  match array[level]? with
  | some x => return x
  | none => oops

/-- The loop over the entries of the table at `base`, for the call `sub` that searches one
of them and for the way in which its result is joined with the index. -/
def searchEntries (sub : ℕ → Kernel (Option ℕ)) (join : ℕ → ℕ → ℕ) (level base : ℕ) :
    Kernel (Option ℕ) := do
  let sz ← readLevel nvMmuPtV2Sz level
  let found ← forReturn (fun i => do
    let entrySz ← readLevel nvMmuPtV2EntrySz level
    match ← sub (base + entrySz * i) with
    | none => return some none
    | some res =>
        if res ≠ 0 then
          let lsb ← readLevel nvMmuPtV2Lsb level
          return some (some (join res (i <<< lsb)))
        return none) (List.range sz)
  return found.getD (some 0)

/-- `search_page_directory_subtree`, if it makes at most `fuel` nested calls; else `none`. -/
def searchSubtree (addrToFind : ℕ) (addrToFindAperture : InstTarget) :
    ℕ → ℕ → ℕ → PdTarget → Kernel (Option ℕ)
  | 0, _, _, _ => return none
  | fuel + 1, level, pdeAddr, pdeTarget => do
      -- `sizeof(NV_MMU_PT_V2_SZ)`, which is in bytes
      if 20 < level then return some 0
      let entrySz ← readLevel nvMmuPtV2EntrySz level
      let pdeAddr := if entrySz = 16 then pdeAddr + 8 else pdeAddr
      let pdeKern ← pdDeref pdeAddr pdeTarget
      if pdeKern.isErrOrNull then return some 0
      let word ← readq pdeKern
      let entry : PageDirEntry := ⟨word⟩
      if entry.isInvalid then return some 0
      if entry.isPte then
        return some (decide (entry.addr * 4096 = addrToFind) &&
          decide (entry.aperture = addrToFindAperture)).toNat
      searchEntries (fun next =>
        searchSubtree addrToFind addrToFindAperture fuel (level + 1) next entry.target)
        (fun res bits => res ||| bits) (level + 1) (entry.addr * 4096)

/-- `search_page_directory`, if it makes at most `fuel` nested calls; else `none`. -/
def searchDirectory (fuel : ℕ) (pdConfig : PageDirConfig) (addrToFind : ℕ)
    (addrToFindAperture : InstTarget) : Kernel (Option ℕ) := do
  if addrToFind % 4096 ≠ 0 then return some 0
  searchEntries (fun next =>
    searchSubtree addrToFind addrToFindAperture fuel 0 next (.ofInst pdConfig.target))
    -- `(res & ~0xfff) | (i << NV_MMU_PT_V2_LSB[0])`
    (fun res bits => res / 4096 * 4096 ||| bits) 0 (pdConfig.pageDir * 4096)

/-- The search ends, and each access to an array is to one of its five elements. -/
def SearchInBounds (pdConfig : PageDirConfig) (addrToFind : ℕ)
    (addrToFindAperture : InstTarget) (s : Machine) : Prop :=
  ∃ calls res s', ∀ fuel, calls ≤ fuel →
    searchDirectory fuel pdConfig addrToFind addrToFindAperture s = some (some res, s')

/-! ## Five nested calls are enough -/

theorem readLevel_of_lt {array : List ℕ} {level : ℕ} (h : level < array.length) (d : ℕ) :
    readLevel array level = pure (array.getD level d) := by
  rw [readLevel, List.getD_eq_getElem?_getD, List.getElem?_eq_getElem h]
  rfl

theorem readLevel_sz {level : ℕ} (h : level < 5) :
    readLevel nvMmuPtV2Sz level = pure (ptSz level) :=
  readLevel_of_lt h 1

theorem readLevel_entrySz {level : ℕ} (h : level < 5) :
    readLevel nvMmuPtV2EntrySz level = pure (ptEntrySz level) :=
  readLevel_of_lt h 8

theorem readLevel_lsb {level : ℕ} (h : level < 5) :
    readLevel nvMmuPtV2Lsb level = pure (ptLsb level) :=
  readLevel_of_lt h 12

/-- A loop whose body's results are wrapped wraps its own result. -/
theorem forReturn_map {α β : Type} (g : α → β) {body : ℕ → Kernel (Option α)}
    {body' : ℕ → Kernel (Option β)} {is : List ℕ}
    (h : ∀ i ∈ is, body' i = Option.map g <$> body i) :
    forReturn body' is = Option.map g <$> forReturn body is := by
  induction is with
  | nil => rfl
  | cons i is ih =>
      rw [forReturn, forReturn, h i List.mem_cons_self, bind_map_left, map_bind]
      refine bind_congr fun found => ?_
      cases found with
      | none => exact ih fun j hj => h j (List.mem_cons_of_mem _ hj)
      | some a => rfl

/-- The loop over the entries of one table, when the calls that it makes have enough fuel. -/
theorem searchEntries_eq {level : ℕ} (hlevel : level < 5) {sub : ℕ → Kernel ℕ}
    {sub' : ℕ → Kernel (Option ℕ)} (h : ∀ next, sub' next = some <$> sub next)
    (join : ℕ → ℕ → ℕ) (base : ℕ) :
    searchEntries sub' join level base = some <$> (do
      let found ← forReturn (fun i => do
        let res ← sub (base + ptEntrySz level * i)
        if res ≠ 0 then return some (join res (i <<< ptLsb level))
        return none) (List.range (ptSz level))
      return found.getD 0) := by
  rw [searchEntries, readLevel_sz hlevel, pure_bind, readLevel_entrySz hlevel,
    readLevel_lsb hlevel, map_bind]
  rw [@forReturn_map _ _ some (fun i => do
        let res ← sub (base + ptEntrySz level * i)
        if res ≠ 0 then return some (join res (i <<< ptLsb level))
        return none), bind_map_left]
  · refine bind_congr fun found => ?_
    cases found <;> rfl
  · intro i _
    rw [pure_bind, h, bind_map_left, map_bind]
    refine bind_congr fun res => ?_
    by_cases hres : res ≠ 0
    · simp only [if_pos hres, pure_bind, map_pure, Option.map_some]
    · simp only [if_neg hres, map_pure, Option.map_none]

section Depth

variable (addrToFind : ℕ) (addrToFindAperture : InstTarget)

/-- Above the last level, a call does what the code did that has no counters, if the loop
over the entries that it points to does. -/
theorem searchSubtree_succ {fuel level : ℕ} {levels : List ℕ} (hlevel : level < 5)
    (hrest : ∀ n : Table,
      searchEntries (fun next =>
          searchSubtree addrToFind addrToFindAperture fuel (level + 1) next n.target)
          (fun res bits => res ||| bits) (level + 1) n.base =
        some <$> searchTable addrToFind addrToFindAperture levels n)
    (pdeAddr : ℕ) (pdeTarget : PdTarget) :
    searchSubtree addrToFind addrToFindAperture (fuel + 1) level pdeAddr pdeTarget =
      some <$> searchPageDirectorySubtree addrToFind addrToFindAperture
        (level :: levels) pdeAddr pdeTarget := by
  have haddr : (if ptEntrySz level = 16 then pdeAddr + 8 else pdeAddr) =
      pdeAddr + ptHalf level := by
    rw [ptHalf]
    split <;> rfl
  rw [searchSubtree, searchPageDirectorySubtree, readLevel_entrySz hlevel,
    if_neg (by omega), if_neg (by omega), pure_bind, map_bind, haddr]
  refine bind_congr fun pdeKern => ?_
  by_cases herr : pdeKern.isErrOrNull = true
  · rw [if_pos herr, if_pos herr, map_pure]
  rw [if_neg herr, if_neg herr, map_bind]
  refine bind_congr fun word => ?_
  by_cases hinvalid : (PageDirEntry.mk word).isInvalid = true
  · simp only [if_pos hinvalid, map_pure]
  by_cases hpte : (PageDirEntry.mk word).isPte = true
  · simp only [if_neg hinvalid, if_pos hpte, map_pure]
  · simp only [if_neg hinvalid, if_neg hpte]
    exact hrest ⟨(PageDirEntry.mk word).addr, (PageDirEntry.mk word).target⟩

theorem searchSubtree_eq (m : ℕ) {fuel level : ℕ} (hlevel : level + (m + 1) = 5)
    (hfuel : m + 1 ≤ fuel) (pdeAddr : ℕ) (pdeTarget : PdTarget) :
    searchSubtree addrToFind addrToFindAperture fuel level pdeAddr pdeTarget =
      some <$> searchPageDirectorySubtree addrToFind addrToFindAperture
        (List.range' level (m + 1)) pdeAddr pdeTarget := by
  induction m generalizing fuel level pdeAddr pdeTarget with
  | zero =>
      obtain ⟨fuel, rfl⟩ : ∃ f, fuel = f + 1 := ⟨fuel - 1, by omega⟩
      obtain rfl : level = 4 := by omega
      -- the next level is out of bounds for both
      exact searchSubtree_succ addrToFind addrToFindAperture (by omega) (fun n => rfl) _ _
  | succ m ih =>
      obtain ⟨fuel, rfl⟩ : ∃ f, fuel = f + 1 := ⟨fuel - 1, by omega⟩
      rw [List.range'_succ]
      refine searchSubtree_succ addrToFind addrToFindAperture (by omega) ?_ _ _
      intro n
      rw [searchEntries_eq (by omega) (fun next => ih (by omega) (by omega) next n.target)]
      rfl

/-- Five nested calls are enough, and then the search is the one without counters. -/
theorem searchDirectory_eq {fuel : ℕ} (hfuel : 5 ≤ fuel) (pdConfig : PageDirConfig) :
    searchDirectory fuel pdConfig addrToFind addrToFindAperture =
      some <$> searchPageDirectory pdConfig addrToFind addrToFindAperture := by
  rw [searchDirectory, searchPageDirectory]
  by_cases halign : addrToFind % 4096 ≠ 0
  · rw [if_pos halign, if_pos halign, map_pure]
  rw [if_neg halign, if_neg halign, searchEntries_eq (by omega) fun next =>
    searchSubtree_eq addrToFind addrToFindAperture 4 rfl hfuel next _]
  rfl

end Depth

/-! ## When the search stays in bounds -/

theorem searchInBounds_iff_isSome (pdConfig : PageDirConfig) (p : ℕ) (ap : InstTarget)
    (s : Machine) :
    SearchInBounds pdConfig p ap s ↔ (s.view.search pdConfig p ap).isSome = true := by
  obtain ⟨s', -, -, hrun⟩ := searchPageDirectory_spec p ap s pdConfig
  constructor
  · rintro ⟨calls, res, s'', h⟩
    have hend := h (max calls 5) (le_max_left _ _)
    rw [searchDirectory_eq p ap (le_max_right _ _), Kernel.map_apply, hrun] at hend
    cases hsearch : s.view.search pdConfig p ap with
    | none =>
        rw [hsearch] at hend
        cases hend
    | some res => rfl
  · intro h
    obtain ⟨res, hres⟩ := Option.isSome_iff_exists.mp h
    refine ⟨5, res, s', ?_⟩
    intro fuel hfuel
    rw [searchDirectory_eq p ap hfuel, Kernel.map_apply, hrun, hres]
    rfl

/-- The search runs over when a walk does that no PTE stops it in front of. -/
theorem View.search_isSome_iff (v : View) (pdConfig : PageDirConfig) {p : ℕ}
    (hp : p % 4096 = 0) (ap : InstTarget) :
    (v.search pdConfig p ap).isSome = true ↔
      ∀ b, v.RunsOver pdConfig b → ∃ a < b, v.ReachesPte pdConfig p ap a := by
  have hblocked : (∃ r, v.findBelow p ap (List.range 5) pdConfig.root = .blocked r) ↔
      ∃ b, v.RunsOver pdConfig b ∧ ∀ a < b, ¬ v.ReachesPte pdConfig p ap a :=
    exists_find_eq_blocked_iff graded_top (kss_sorted _) digits_top
  rw [View.search, if_neg (by omega)]
  constructor
  · intro hsome b hb
    by_contra hfree
    push Not at hfree
    obtain ⟨r, hr⟩ := hblocked.mpr ⟨b, hb, hfree⟩
    rw [hr] at hsome
    cases hsome
  · intro hcond
    cases hfind : v.findBelow p ap (List.range 5) pdConfig.root with
    | hit path pte => rfl
    | none => rfl
    | blocked r =>
        obtain ⟨b, hb, hfree⟩ := hblocked.mp ⟨r, hfind⟩
        obtain ⟨a, hlt, ha⟩ := hcond b hb
        exact absurd ha (hfree a hlt)

/-- After five nested calls the search is never out of calls, and it stays in bounds exactly
if each virtual address whose walk finds a directory entry at the last level comes after one
that is mapped to what is searched for. -/
theorem searchDirectory_inBounds_iff (s : Machine) (pdConfig : PageDirConfig) (p : ℕ)
    (ap : InstTarget) :
    (∀ fuel s', 5 ≤ fuel → searchDirectory fuel pdConfig p ap s ≠ some (none, s')) ∧
    (SearchInBounds pdConfig p ap s ↔
      (p % 4096 = 0 → ∀ b, s.view.RunsOver pdConfig b →
        ∃ a < b, s.view.ReachesPte pdConfig p ap a)) := by
  constructor
  · intro fuel s' hfuel hrun
    rw [searchDirectory_eq p ap hfuel, Kernel.map_apply] at hrun
    cases hsearch : searchPageDirectory pdConfig p ap s with
    | none =>
        rw [hsearch] at hrun
        cases hrun
    | some r =>
        rw [hsearch] at hrun
        cases hrun
  · rw [searchInBounds_iff_isSome]
    by_cases hp : p % 4096 = 0
    · rw [s.view.search_isSome_iff pdConfig hp ap]
      exact ⟨fun h _ => h, fun h => h hp⟩
    · have hzero : s.view.search pdConfig p ap = some 0 := by
        rw [View.search, if_pos hp]
      rw [hzero]
      exact ⟨fun _ h => absurd h hp, fun _ => rfl⟩

/-- Page tables on pages 1 to 5; the first entry of the last one is no PTE. -/
def directoryAtBottom : Machine :=
  .ofWords [(⟨.vram, 0x1000⟩, 0x202), (⟨.vram, 0x2000⟩, 0x302),
    (⟨.vram, 0x3000⟩, 0x402), (⟨.vram, 0x4008⟩, 0x502),
    (⟨.vram, 0x5000⟩, 0x602)]

set_option maxRecDepth 30000 in
/-- A directory entry at the last level makes the search read `NV_MMU_PT_V2_SZ[5]`. -/
theorem search_reads_sz_five : ¬ SearchInBounds ⟨0x1400⟩ 0x7000 .vidMem directoryAtBottom := by
  rintro ⟨calls, res, s', h⟩
  have hend := h (max calls 5) (le_max_left _ _)
  have hoops : (searchPageDirectory ⟨0x1400⟩ 0x7000 .vidMem directoryAtBottom).isNone =
      true := by
    decide
  rw [searchDirectory_eq _ _ (le_max_right _ _), Kernel.map_apply,
    Option.isNone_iff_eq_none.mp hoops] at hend
  cases hend

end A100Partitioning.Nvdebug
