import A100Partitioning.Nvdebug.MapEffect

/-!
# What `map_page_directory` says about existing mappings

The return values 1 and `-EADDRINUSE` are decided by the walk for the requested
address, down to the level whose entry becomes the PTE.  The loop compares the
start of the page that a PTE maps with the requested physical address, so it is
right about a PTE whose page starts at the requested virtual address, and not in
general about one that maps it as a part of a larger page.
-/

namespace A100Partitioning.Nvdebug

open Support RadixTable

/-! ## Existing mappings -/

/-- The directory pointer of an entry: `addr` for `VID_MEM` targets, and `addr_w`
for `SYS_MEM` targets. -/
def PageDirEntry.pointer (e : PageDirEntry) : ℕ :=
  if e.target = .pdVidMem then e.addr else e.addrW

/-- The physical address that a PTE maps the start of its page to. -/
def Pte.base (pte : Pte) : ℕ :=
  if pte.entry.aperture = .vidMem then pte.entry.addr * 4096
  else pte.entry.addrW * 4096

/-- Bytes mapped by a PTE. -/
def Pte.span (pte : Pte) : ℕ := 2 ^ ptLsb pte.level

/-- The levels down to the one whose entry becomes the PTE. -/
def MapRequest.levels (q : MapRequest) : List ℕ :=
  if q.hugePage then List.range 4 else List.range 5

/-- The end of the walk for the requested address: an existing PTE, an
unpopulated entry, or a table in the place of the PTE (`overrun`). -/
def View.existing (v : View) (q : MapRequest) (root : Table) : Except Miss Pte :=
  v.walk PageDirEntry.pointer q.levels q.vaddrToFind root

/-- The PTE, which covers the requested address, maps all of the requested page
to the requested physical page. -/
def MapRequest.AgreesWith (q : MapRequest) (pte : Pte) : Prop :=
  q.size ≤ pte.span ∧ pte.entry.aperture = q.paddrTarget ∧
    pte.base + q.vaddrToFind % pte.span = q.paddrToMap

/-! ## What the code decides -/

/-- The levels that the loop can pass; huge mappings stop at level 3. -/
def MapRequest.passed (q : MapRequest) : List ℕ → List ℕ
  | [] => []
  | level :: levels =>
      level :: if q.hugePage && level == 3 then [] else q.passed levels

theorem MapRequest.passed_range (q : MapRequest) :
    q.passed (List.range 5) = q.levels := by
  rw [MapRequest.levels]
  cases hhuge : q.hugePage <;>
    simp [List.range_succ, MapRequest.passed, hhuge]

/-- The code that a PTE stops the loop with. -/
def MapRequest.codeOf (q : MapRequest) (pte : Pte) : ℤ :=
  if pte.entry.aperture = q.paddrTarget ∧ pte.base = q.paddrToMap then 1
  else -eaddrinuse

/-- What the end of the walk says about a run; an unpopulated entry only says
something if the pages are `fresh`. -/
def MapRequest.Verdict (q : MapRequest) (levels : List ℕ) (fresh : Prop)
    (v : View) (ret : ℤ) (v' : View) : Except Miss Pte → Prop
  | .ok pte => ret = q.codeOf pte ∧ v' = v
  | .error (.absent _ _) => fresh → ret ≠ 1 ∧ ret ≠ -eaddrinuse
  | .error .overrun =>
      ret = (if q.hugePage = true ∧ 3 ∈ levels then -eaddrinuse
        else -enotrecoverable) ∧ v' = v
  | .error _ => ret = -enotrecoverable ∧ v' = v

section Verdict

variable {q : MapRequest} {alloc : ℕ → PageAlloc} {levels : List ℕ} {level : ℕ}
variable {n m root : Table} {v v' : View} {ret : ℤ}

theorem followEntry_of_pte (haligned : q.paddrToMap % 4096 = 0)
    {entry : PageDirEntry} (hpte : entry.isPte = true) :
    followEntry q level entry = .error (q.codeOf ⟨level, entry⟩) := by
  have hbase : ∀ page : ℕ, page * 4096 = q.paddrToMap ↔
      page = q.paddrToMap / 4096 := fun page => by omega
  rw [followEntry, if_pos hpte, MapRequest.codeOf, Pte.base]
  by_cases hap : entry.aperture = q.paddrTarget
  · rw [if_neg (not_not.mpr hap)]
    simp only [hap, true_and]
    split_ifs <;> simp_all
  · rw [if_pos hap, if_neg fun h => hap h.1]

theorem MapRequest.Verdict.mono {fresh fresh' : Prop} (himp : fresh' → fresh)
    {w : Except Miss Pte} (h : q.Verdict levels fresh v ret v' w) :
    q.Verdict levels fresh' v ret v' w := by
  rcases w with (⟨l, entry⟩ | _ | e | _) | pte
  · exact fun hf => h (himp hf)
  · exact h
  · exact h
  · exact h
  · exact h

theorem MapRequest.Verdict.cons {fresh : Prop} {w : Except Miss Pte}
    (hsmall : (q.hugePage && level == 3) = false)
    (h : q.Verdict levels fresh v ret v' w) :
    q.Verdict (level :: levels) fresh v ret v' w := by
  rcases w with (⟨l, entry⟩ | _ | e | _) | pte
  · exact h
  · exact h
  · exact h
  · refine ⟨h.1.trans ?_, h.2⟩
    cases hhuge : q.hugePage with
    | true =>
        have hne : level ≠ 3 := by simpa [hhuge] using hsmall
        simp [hne.symm]
    | false => simp
  · exact h

theorem MapRun.verdict (haligned : q.paddrToMap % 4096 = 0)
    (hrun : MapRun q alloc levels n v ret v') :
    q.Verdict levels (∃ pre, MapState q alloc levels root n v pre) v ret v'
      (RadixTable.walk (v.slot PageDirEntry.addrW) .overrun
        (keysOf (q.passed levels) q.vaddrToFind) n) := by
  induction hrun with
  | ranOut n v => exact ⟨by simp, rfl⟩
  | @unresolved level levels n v bad =>
      rw [MapRequest.passed, keysOf, List.map_cons, RadixTable.walk, View.slot]
      cases hloc : v.entryLoc n ⟨level, ptIndex level q.vaddrToFind⟩ with
      | null => exact ⟨rfl, rfl⟩
      | err e => exact ⟨rfl, rfl⟩
      | «at» l => exact absurd hloc (bad l)
  | @found level levels n v l ret loc valid stop =>
      rw [MapRequest.passed, keysOf, List.map_cons, RadixTable.walk,
        View.slot_of_loc loc]
      cases hpte : (PageDirEntry.mk (v.mem l)).isPte with
      | true =>
          rw [slotOfEntry_of_pte hpte]
          rw [followEntry_of_pte haligned hpte] at stop
          cases stop
          exact ⟨rfl, rfl⟩
      | false =>
          rw [slotOfEntry_of_pde valid hpte]
          by_cases hsmall : (q.hugePage && level == 3) = true
          · rw [if_pos hsmall]
            rw [followEntry, hpte, if_neg Bool.false_ne_true, if_pos hsmall]
              at stop
            cases stop
            simp only [Bool.and_eq_true, beq_iff_eq] at hsmall
            refine ⟨?_, rfl⟩
            rw [if_pos ⟨hsmall.1, by simp [hsmall.2]⟩]
          · rw [followEntry_of_pde valid hpte
              (Bool.eq_false_of_not_eq_true hsmall)] at stop
            cases stop
  | @descend level levels n v v' l ret loc valid pde small rest ih =>
      rw [MapRequest.passed, small, if_neg Bool.false_ne_true, keysOf,
        List.map_cons, RadixTable.walk, View.slot_of_loc loc,
        slotOfEntry_of_pde valid pde]
      refine (ih.mono ?_).cons small
      rintro ⟨pre, hstate⟩
      exact ⟨_, hstate.descend loc valid pde⟩
  | @install level levels n v l loc invalid final =>
      rw [MapRequest.passed, keysOf, List.map_cons, RadixTable.walk,
        View.slot_of_loc loc, slotOfEntry_of_invalid invalid]
      exact fun _ => by decide
  | exhausted loc invalid inner out =>
      rw [MapRequest.passed, keysOf, List.map_cons, RadixTable.walk,
        View.slot_of_loc loc, slotOfEntry_of_invalid invalid]
      exact fun _ => by decide
  | unmapped loc invalid inner out =>
      rw [MapRequest.passed, keysOf, List.map_cons, RadixTable.walk,
        View.slot_of_loc loc, slotOfEntry_of_invalid invalid]
      exact fun _ => by decide
  | @link level levels n v v' l page ret loc invalid inner out rest ih =>
      rw [MapRequest.passed, keysOf, List.map_cons, RadixTable.walk,
        View.slot_of_loc loc, slotOfEntry_of_invalid invalid]
      rintro ⟨pre, hstate⟩
      have hlink := hstate.linkStep loc invalid out
      have hnext := hstate.link loc invalid out
      rw [hstate.toPde_table out] at ih
      -- The new table is empty, so the walk ends at its first entry.
      cases levels with
      | nil =>
          rw [ih.1, if_neg (by simp)]
          decide
      | cons level' levels =>
          obtain ⟨l', -, hnew⟩ := slot_link_new (n := n)
            (k := ⟨level, ptIndex level q.vaddrToFind⟩)
            ⟨level', ptIndex level' q.vaddrToFind⟩ hlink.wellFormed
            (hnext.inRange (by simp [keysOf]))
            (hlink.frame_ne hlink.hasTable hlink.valid hlink.loc)
          rw [MapRequest.passed, keysOf, List.map_cons, RadixTable.walk, hnew]
            at ih
          exact ih ⟨_, hnext⟩

end Verdict

/-! ## When the verdict is right -/

/-- What a call from `s` to `s'` that returns `ret` should say about existing
mappings. -/
structure MapRequest.SaysExisting (q : MapRequest) (pdConfig : PageDirConfig)
    (s s' : Machine) (ret : ℤ) : Prop where
  exists_iff : ret = 1 ↔
    ∃ pte, s.view.existing q pdConfig.root = .ok pte ∧ q.AgreesWith pte
  inUse_iff : ret = -eaddrinuse ↔
    (∃ pte, s.view.existing q pdConfig.root = .ok pte ∧ ¬ q.AgreesWith pte) ∨
      q.hugePage = true ∧ s.view.existing q pdConfig.root = .error .overrun
  unchanged : ret = 1 ∨ ret = -eaddrinuse → s'.view = s.view
  repeated : ret = 0 → ∀ alloc, ∃ s'', mapPageDirectory alloc pdConfig
    q.vaddrToFind q.paddrToMap q.paddrTarget q.hugePage s' = some (1, s'')
  inHuge : q.hugePage = false → ∀ pte,
    s.view.existing q pdConfig.root = .ok pte → pte.level = 3 →
    (0 ≤ ret ↔ q.AgreesWith pte)

/-- The directory pointers to `VID_MEM` on the request's way have no bits set
that only `SYS_MEM` addresses use. -/
def View.NoStrayBits (v : View) (q : MapRequest) (root : Table) : Prop :=
  ∀ ks k n l, ks ++ [k] <+: keysOf q.levels q.vaddrToFind →
    Path (v.slot PageDirEntry.pointer) root ks n → v.entryLoc n k = .at l →
    (PageDirEntry.mk (v.mem l)).target = .pdVidMem →
    (PageDirEntry.mk (v.mem l)).addrW < 2 ^ 24

/-- An existing PTE maps the requested address as a part of a larger page that
starts at the requested physical address or contains it at the right place. -/
def View.InLargerPage (v : View) (q : MapRequest) (root : Table) : Prop :=
  ∃ pte, v.existing q root = .ok pte ∧ pte.entry.aperture = q.paddrTarget ∧
    q.vaddrToFind % pte.span ≠ 0 ∧
    (pte.base = q.paddrToMap ∨
      pte.base + q.vaddrToFind % pte.span = q.paddrToMap)

/-- Without stray bits, the loop takes the way of the hardware. -/
theorem View.NoStrayBits.existing_eq {v : View} {q : MapRequest} {root : Table}
    (h : v.NoStrayBits q root) :
    v.existing q root = RadixTable.walk (v.slot PageDirEntry.addrW) .overrun
      (keysOf (q.passed (List.range 5)) q.vaddrToFind) root := by
  rw [q.passed_range]
  symm
  refine walk_congr ?_ (.nil root)
  intro n k pre hinitial hpath
  simp only [View.slot]
  cases hloc : v.entryLoc n k with
  | null => rfl
  | err e => rfl
  | «at» l =>
      have hlt := h pre k n l hinitial hpath hloc
      have hpointer : (PageDirEntry.mk (v.mem l)).addrW =
          (PageDirEntry.mk (v.mem l)).pointer := by
        rw [PageDirEntry.pointer]
        split_ifs with hvid
        · rw [PageDirEntry.addr_eq_addrW_mod, Nat.mod_eq_of_lt (hlt hvid)]
        · rfl
      simp only [slotOfEntry, hpointer]

/-- The PTE that ends the walk covers a page that is large enough. -/
theorem View.size_le_of_existing {v : View} {q : MapRequest} {root : Table}
    {pte : Pte} (h : v.existing q root = .ok pte) : q.size ≤ pte.span := by
  obtain ⟨pre, k, post, m, hkeys, -, hleaf⟩ := exists_path_of_walk_ok h
  have hlevel : pte.level = k.level := by
    rw [View.slot] at hleaf
    cases hloc : v.entryLoc m k with
    | null => simp [hloc] at hleaf
    | err e => simp [hloc] at hleaf
    | «at» l =>
        simp only [hloc, slotOfEntry] at hleaf
        split_ifs at hleaf
        cases hleaf
        rfl
  have hmem : k ∈ keysOf q.levels q.vaddrToFind := by
    rw [hkeys]
    simp
  rw [keysOf, List.mem_map] at hmem
  obtain ⟨level, hmem, rfl⟩ := hmem
  simp only at hlevel
  rw [Pte.span, hlevel, MapRequest.size]
  rw [MapRequest.levels] at hmem
  cases hhuge : q.hugePage with
  | true =>
      rw [hhuge, if_pos rfl, List.mem_range] at hmem
      interval_cases level <;> decide
  | false =>
      rw [hhuge, if_neg Bool.false_ne_true, List.mem_range] at hmem
      interval_cases level <;> decide

theorem codeOf_toPte {q : MapRequest} (haccepted : q.isAccepted = true)
    (level : ℕ) (entry : PageDirEntry) :
    q.codeOf ⟨level, entry.toPte q.paddrToMap q.paddrTarget⟩ = 1 := by
  simp only [MapRequest.isAccepted, Bool.and_eq_true, decide_eq_true_eq]
    at haccepted
  obtain ⟨⟨⟨⟨⟨⟨-, halign⟩, -⟩, -⟩, hvidMem⟩, hsysMem⟩, hpeer⟩ := haccepted
  rw [MapRequest.codeOf, if_pos]
  refine ⟨PageDirEntry.toPte_aperture _ _ _, ?_⟩
  simp only [Pte.base, PageDirEntry.toPte_aperture]
  split_ifs with hvid
  · have hlt := hvidMem hvid
    rw [PageDirEntry.toPte_addr]
    omega
  · have hlt : q.paddrToMap < 2 ^ 58 := by
      apply hsysMem
      cases htarget : q.paddrTarget <;> simp_all
    rw [PageDirEntry.toPte_addrW _ _ _ hvid]
    omega

theorem repeat_eq_one {alloc : ℕ → PageAlloc} {pdConfig : PageDirConfig}
    {q : MapRequest} {s s' : Machine} (haccepted : q.isAccepted = true)
    (hrun : MapRun q alloc (List.range 5) pdConfig.root s.view 0 s'.view)
    (hfresh : FreshPages alloc (List.range 5) s.view pdConfig.root)
    (alloc' : ℕ → PageAlloc) :
    ∃ s'', mapPageDirectory alloc' pdConfig q.vaddrToFind q.paddrToMap
      q.paddrTarget q.hugePage s' = some (1, s'') := by
  have halign : q.paddrToMap % 4096 = 0 := by
    simp only [MapRequest.isAccepted, Bool.and_eq_true, decide_eq_true_eq]
      at haccepted
    omega
  obtain ⟨entry, hentry⟩ := hrun.installed rfl (mapState_root hfresh)
  have hagrees : q.Agrees (keysOf (List.range 5) q.vaddrToFind)
      (keysOf q.levels q.vaddrToFind) := by
    rw [MapRequest.levels]
    cases hhuge : q.hugePage <;>
      simp [keysOf, List.range_succ, MapRequest.Agrees, MapRequest.IsFinal, hhuge]
  obtain ⟨level, hwalk⟩ := hentry.walk_eq _ hagrees
  obtain ⟨ret, s'', hrun', -, hcases⟩ :=
    mapPageDirectory_spec q alloc' s' pdConfig
  rcases hcases with ⟨hrejected, -⟩ | ⟨-, hmap⟩
  · rw [haccepted] at hrejected
    cases hrejected
  · have hverdict := @MapRun.verdict _ _ _ _ pdConfig.root _ _ _ halign hmap
    rw [q.passed_range, hwalk] at hverdict
    rw [hverdict.1, codeOf_toPte haccepted] at hrun'
    exact ⟨s'', hrun'⟩

theorem codeOf_eq_one_iff {q : MapRequest} {pte : Pte} :
    q.codeOf pte = 1 ↔
      pte.entry.aperture = q.paddrTarget ∧ pte.base = q.paddrToMap := by
  rw [MapRequest.codeOf]
  split_ifs with h
  · simp [h]
  · simp only [h, iff_false]
    decide

theorem codeOf_eq_or (q : MapRequest) (pte : Pte) :
    q.codeOf pte = 1 ∨ q.codeOf pte = -eaddrinuse := by
  rw [MapRequest.codeOf]
  split_ifs
  · exact .inl rfl
  · exact .inr rfl

/-- At an existing PTE, the verdict is right exactly if the code is 1 for the
PTEs that agree. -/
theorem saysExisting_of_ok {pdConfig : PageDirConfig} {q : MapRequest}
    {s s' : Machine} {pte : Pte}
    (hpte : s.view.existing q pdConfig.root = .ok pte)
    (hview : s'.view = s.view) :
    q.SaysExisting pdConfig s s' (q.codeOf pte) ↔
      (q.codeOf pte = 1 ↔ q.AgreesWith pte) := by
  have hcodes := codeOf_eq_or q pte
  have hne : (1 : ℤ) ≠ -eaddrinuse := by decide
  constructor
  · intro hstated
    rw [hstated.exists_iff]
    constructor
    · rintro ⟨pte', hpte', hagrees⟩
      cases hpte.symm.trans hpte'
      exact hagrees
    · exact fun hagrees => ⟨pte, hpte, hagrees⟩
  · intro hiff
    have hinUse : q.codeOf pte = -eaddrinuse ↔ ¬ q.AgreesWith pte := by
      rw [← hiff]
      constructor
      · intro hcode hone
        exact hne (hone.symm.trans hcode)
      · exact hcodes.resolve_left
    refine ⟨?_, ?_, fun _ => hview, ?_, ?_⟩
    · rw [hiff]
      constructor
      · exact fun hagrees => ⟨pte, hpte, hagrees⟩
      · rintro ⟨pte', hpte', hagrees⟩
        cases hpte.symm.trans hpte'
        exact hagrees
    · rw [hinUse]
      constructor
      · exact fun hother => .inl ⟨pte, hpte, hother⟩
      · rintro (⟨pte', hpte', hother⟩ | ⟨-, hover⟩)
        · cases hpte.symm.trans hpte'
          exact hother
        · cases hpte.symm.trans hover
    · intro hzero
      rcases hcodes with hcode | hcode <;> rw [hcode] at hzero <;> cases hzero
    · intro _ pte' hpte' _
      cases hpte.symm.trans hpte'
      rw [← hiff]
      rcases hcodes with hcode | hcode <;> rw [hcode] <;> decide

/-- At an existing PTE, the code is 1 for the PTEs that agree, unless the
requested address lies inside its page in one of two ways. -/
theorem codeOf_iff_agreesWith {v : View} {q : MapRequest} {root : Table}
    {pte : Pte} (hpte : v.existing q root = .ok pte) :
    (q.codeOf pte = 1 ↔ q.AgreesWith pte) ↔ ¬ v.InLargerPage q root := by
  have hsize := View.size_le_of_existing hpte
  rw [codeOf_eq_one_iff, MapRequest.AgreesWith, and_iff_right hsize]
  constructor
  · rintro hiff ⟨pte', hpte', hap, hoff, hbase⟩
    cases hpte.symm.trans hpte'
    simp only [hap, true_and] at hiff
    omega
  · intro hfree
    by_cases hap : pte.entry.aperture = q.paddrTarget
    · simp only [hap, true_and]
      by_cases hoff : q.vaddrToFind % pte.span = 0
      · rw [hoff, Nat.add_zero]
      · have hneither : ¬ (pte.base = q.paddrToMap ∨
            pte.base + q.vaddrToFind % pte.span = q.paddrToMap) :=
          fun h => hfree ⟨pte, hpte, hap, hoff, h⟩
        omega
    · simp [hap]

/-- Where the walk ends without a PTE, the verdict is right if the code is
`-EADDRINUSE` for huge pages over a table only, and nothing was changed then. -/
theorem saysExisting_of_error {pdConfig : PageDirConfig} {q : MapRequest}
    {s s' : Machine} {ret : ℤ} {r : Miss}
    (hmiss : s.view.existing q pdConfig.root = .error r) (hone : ret ≠ 1)
    (hinUse : ret = -eaddrinuse ↔ q.hugePage = true ∧ r = .overrun)
    (hview : ret = -eaddrinuse → s'.view = s.view)
    (hrepeated : ret = 0 → ∀ alloc, ∃ s'', mapPageDirectory alloc pdConfig
      q.vaddrToFind q.paddrToMap q.paddrTarget q.hugePage s' = some (1, s'')) :
    q.SaysExisting pdConfig s s' ret := by
  have hnone : ∀ pte, s.view.existing q pdConfig.root ≠ .ok pte := by
    intro pte hpte
    cases hmiss.symm.trans hpte
  refine ⟨?_, ?_, fun h => hview (h.resolve_left hone), hrepeated,
    fun _ pte hpte => absurd hpte (hnone pte)⟩
  · constructor
    · exact fun h => absurd h hone
    · exact fun ⟨pte, hpte, _⟩ => absurd hpte (hnone pte)
  · rw [hinUse, hmiss]
    constructor
    · rintro ⟨hhuge, rfl⟩
      exact .inr ⟨hhuge, rfl⟩
    · rintro (⟨pte, hpte, -⟩ | ⟨hhuge, hover⟩)
      · cases hpte
      · cases hover
        exact ⟨hhuge, rfl⟩

/-- Where the walk ends without a PTE, the code is never 1, and `-EADDRINUSE`
only for huge pages over a table. -/
theorem MapRequest.Verdict.of_error {q : MapRequest} {fresh : Prop} {v v' : View}
    {ret : ℤ} {r : Miss}
    (h : q.Verdict (List.range 5) fresh v ret v' (.error r)) (hfresh : fresh) :
    ret ≠ 1 ∧ (ret = -eaddrinuse ↔ q.hugePage = true ∧ r = .overrun) ∧
      (ret = -eaddrinuse → v' = v) := by
  cases r with
  | absent l entry =>
      obtain ⟨hone, hinUse⟩ := h hfresh
      exact ⟨hone, by simp [hinUse], fun heq => absurd heq hinUse⟩
  | null =>
      obtain ⟨rfl, hview⟩ := h
      exact ⟨by decide, by simp [enotrecoverable, eaddrinuse], fun _ => hview⟩
  | err e =>
      obtain ⟨rfl, hview⟩ := h
      exact ⟨by decide, by simp [enotrecoverable, eaddrinuse], fun _ => hview⟩
  | overrun =>
      obtain ⟨rfl, hview⟩ := h
      cases hhuge : q.hugePage with
      | true => exact ⟨by decide, by simp, fun _ => hview⟩
      | false =>
          exact ⟨by decide, by simp [enotrecoverable, eaddrinuse],
            fun _ => hview⟩

/-- A page table on pages 1 to 4 that maps the first 2 MiB to 0x200000. -/
def hugeMapping : Machine :=
  .ofWords [(⟨.sysmem, 0x1000⟩, 0x204), (⟨.sysmem, 0x2000⟩, 0x304),
    (⟨.sysmem, 0x3000⟩, 0x404), (⟨.sysmem, 0x4008⟩, 0x20009)]

theorem noStrayBits_hugeMapping (q : MapRequest) (root : Table) :
    hugeMapping.view.NoStrayBits q root := by
  intro ks k n l _ _ _ hvid
  rcases Machine.mem_ofWords
    [(⟨.sysmem, 0x1000⟩, 0x204), (⟨.sysmem, 0x2000⟩, 0x304),
      (⟨.sysmem, 0x3000⟩, 0x404), (⟨.sysmem, 0x4008⟩, 0x20009)] l with
    hzero | hword
  · rw [show hugeMapping.view.mem l = 0 from hzero] at hvid
    exact absurd hvid (by decide)
  · simp only [List.map_cons, List.map_nil, List.mem_cons, List.not_mem_nil,
      or_false] at hword
    rcases hword with hword | hword | hword | hword <;>
      rw [show hugeMapping.view.mem l = _ from hword] at hvid <;>
      exact absurd hvid (by decide)

end A100Partitioning.Nvdebug
