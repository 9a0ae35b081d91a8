import A100Partitioning.Nvdebug.MapEffect

/-!
# Page tables as maps

From outside, a page table is a map from addresses to translations, and a successful call of
`map_page_directory` fills in the page that it is given.  What any number of calls leave behind
is what these updates make of the first map; and as a call only ever fills in what was not
mapped, no address that is translated is ever translated differently.
-/

namespace A100Partitioning.Nvdebug

open Support RadixTable

/-! ## The map -/

/-- What a call that returned `ret` makes of a map.  Of an address, the low 49 bits count. -/
def MapRequest.remap (q : MapRequest) (ret : ℤ) (map : ℕ → Translation) : ℕ → Translation :=
  fun vaddr =>
    if ret = 0 ∧ vaddr % 4096 = 0 ∧ q.vaddrToFind ≤ vaddr % 2 ^ 49 ∧
        vaddr % 2 ^ 49 < q.vaddrToFind + q.size then
      ⟨0, q.paddrToMap / 4096 % 2 ^ 24 * 4096, q.paddrTarget⟩
    else map vaddr

/-- `MapsTo pdConfig s₀ calls s`: these calls for the page table, newest first, and what each
returned, lead from `s₀` to `s`.  The pages that are handed out are not in use, and translation
reads all of their bus addresses. -/
inductive MapsTo (pdConfig : PageDirConfig) (s₀ : Machine) :
    List (MapRequest × ℤ) → Machine → Prop where
  | start : MapsTo pdConfig s₀ [] s₀
  | call {calls : List (MapRequest × ℤ)} {s s' : Machine} {alloc : ℕ → PageAlloc}
      {q : MapRequest} {ret : ℤ} (before : MapsTo pdConfig s₀ calls s)
      (fresh : FreshPages alloc (List.range 5) s.view pdConfig.root)
      (bus_lt : ∀ level < 5, ∀ page, alloc level = .mapped page → page.bus < 2 ^ 36)
      (run : mapPageDirectory alloc pdConfig q.vaddrToFind q.paddrToMap q.paddrTarget
        q.hugePage s = some (ret, s')) :
      MapsTo pdConfig s₀ ((q, ret) :: calls) s'

/-! ## What a call needs and keeps -/

section Keeps

variable {q : MapRequest} {alloc : ℕ → PageAlloc} {levels : List ℕ}
variable {n root : Table} {v v' : View} {ret : ℤ} {pre : List PtKey}

/-- A change that adds no table and moves no entry leaves a tree. -/
theorem View.IsTree.of_slot (htree : v.IsTree root)
    (hslot : ∀ p k p', v'.slot PageDirEntry.addrW p k = .table p' →
      v.slot PageDirEntry.addrW p k = .table p')
    (hloc : ∀ p k, v'.entryLoc p k = v.entryLoc p k) : v'.IsTree root := by
  intro ks ks' m m' k k' l l' hm hm' hk hk' hl hl' hspace hpage
  rw [hloc] at hl hl'
  exact htree ks ks' m m' k k' l l' (hm.of_slot hslot) (hm'.of_slot hslot) hk hk' hl hl' hspace
    hpage

theorem MapRun.isTree (hrun : MapRun q alloc levels n v ret v')
    (hstate : MapState q alloc levels root n v pre) (htree : v.IsTree root) : v'.IsTree root := by
  induction hrun generalizing pre with
  | ranOut n v => exact htree
  | unresolved bad => exact htree
  | found loc valid stop => exact htree
  | descend loc valid pde small rest ih => exact ih (hstate.descend loc valid pde) htree
  | install loc invalid final =>
      exact htree.of_slot (fun _ _ _ h => slot_of_slot_install h)
        fun p k => entryLoc_install _ p k
  | exhausted loc invalid inner out => exact htree
  | unmapped loc invalid inner out =>
      exact htree.of_slot (fun _ _ _ h => slot_of_slot_zeroFrame h) fun _ _ => rfl
  | @link level levels n v v' l page ret loc invalid inner out rest ih =>
      rw [hstate.toPde_table out] at ih
      exact ih (hstate.link loc invalid out) ((hstate.linkStep loc invalid out).isTree htree)

/-- Where all pointers are narrow, those on the way of a request are. -/
theorem View.Narrow.narrowWay (hnarrow : v.Narrow root)
    (hbus : ∀ level < 5, ∀ page, alloc level = .mapped page → page.bus < 2 ^ 36) :
    v.NarrowWay q alloc (List.range 5) root where
  tables ks m _ hks hpath :=
    hnarrow ks m ⟨(valid_keysOf (List.range 5) q.vaddrToFind).of_initial hks, hpath⟩
  pages mid level post hlevels _ _ page halloc := by
    have hlevel : level ∈ List.range 5 := by simp [hlevels]
    exact hbus level (List.mem_range.mp hlevel) page halloc

/-- A run that succeeds has found nothing at the addresses of the page. -/
theorem MapRun.walk_absent (hrun : MapRun q alloc levels n v ret v')
    (hstate : MapState q alloc levels root n v pre) (hret : ret = 0) {keys : List PtKey}
    (hkeys : q.Agrees (keysOf levels q.vaddrToFind) keys) :
    ∃ l entry, RadixTable.walk (v.slot PageDirEntry.addrW) .overrun keys n =
      .error (.absent l entry) := by
  induction hrun generalizing pre keys with
  | ranOut n v => cases hret
  | unresolved bad => cases hret
  | found loc valid stop => exact absurd hret (followEntry_ne_zero stop)
  | exhausted loc invalid inner out => cases hret
  | unmapped loc invalid inner out => cases hret
  | descend loc valid pde small rest ih =>
      cases keys with
      | nil => cases hkeys
      | cons k keys =>
          obtain ⟨rfl, htail⟩ := hkeys
          have hagrees := htail.resolve_left (not_isFinal_of_small hstate small rest hret)
          obtain ⟨l, entry, hwalk⟩ := ih (hstate.descend loc valid pde) hret hagrees
          refine ⟨l, entry, ?_⟩
          rw [RadixTable.walk, View.slot_of_loc loc, slotOfEntry_of_pde valid pde]
          exact hwalk
  | @install level levels n v l loc invalid final =>
      cases keys with
      | nil => cases hkeys
      | cons k keys =>
          obtain ⟨rfl, -⟩ := hkeys
          refine ⟨l, ⟨v.mem l⟩, ?_⟩
          rw [RadixTable.walk, View.slot_of_loc loc, slotOfEntry_of_invalid invalid]
  | @link level levels n v v' l page ret loc invalid inner out rest ih =>
      cases keys with
      | nil => cases hkeys
      | cons k keys =>
          obtain ⟨rfl, -⟩ := hkeys
          refine ⟨l, ⟨v.mem l⟩, ?_⟩
          rw [RadixTable.walk, View.slot_of_loc loc, slotOfEntry_of_invalid invalid]

end Keeps

/-! ## One call -/

theorem ptIndex_mod (level vaddr : ℕ) : ptIndex level (vaddr % 2 ^ 49) = ptIndex level vaddr := by
  rcases level with _ | _ | _ | _ | _ | level
  all_goals
    simp only [ptIndex, ptLsb, nvMmuPtV2Lsb, ptSz, nvMmuPtV2Sz, List.getD_cons_zero,
      List.getD_cons_succ, List.getD_nil]
    omega

theorem View.translate_mod (v : View) (pdConfig : PageDirConfig) (vaddr : ℕ) :
    v.translate pdConfig (vaddr % 2 ^ 49) = v.translate pdConfig vaddr := by
  have hkeys : keysOf (List.range 5) (vaddr % 2 ^ 49) = keysOf (List.range 5) vaddr := by
    simp only [keysOf, ptIndex_mod]
  have halign : vaddr % 2 ^ 49 % 4096 = vaddr % 4096 := by omega
  rw [View.translate, View.translate, View.walk, View.walk, hkeys, halign]

/-- What the tables of a page table have to be like. -/
structure View.Regular (v : View) (root : Table) : Prop where
  isTree : v.IsTree root
  narrow : v.Narrow root

/-- How a call changes the map. -/
structure Remaps (pdConfig : PageDirConfig) (q : MapRequest) (ret : ℤ) (s s' : Machine) :
    Prop where
  regular : s'.view.Regular pdConfig.root
  translate : s'.view.translate pdConfig = q.remap ret (s.view.translate pdConfig)
  absent : ∀ vaddr, q.remap ret (s.view.translate pdConfig) vaddr ≠
      s.view.translate pdConfig vaddr →
    s.view.translate pdConfig vaddr = .failed (-enxio)

section Call

variable {alloc : ℕ → PageAlloc} {pdConfig : PageDirConfig} {q : MapRequest} {s s' : Machine}
  {ret : ℤ}

theorem Machine.translate_eq_of_translation {vaddr : ℕ}
    (h : s'.translation pdConfig vaddr = s.translation pdConfig vaddr) :
    s'.view.translate pdConfig vaddr = s.view.translate pdConfig vaddr := by
  rwa [Machine.translation_eq, Machine.translation_eq, Option.some.injEq] at h

/-- A successful run fills in the page, of which nothing was mapped. -/
theorem MapRun.remaps_of_eq_zero
    (hrun : MapRun q alloc (List.range 5) pdConfig.root s.view 0 s'.view)
    (haccepted : q.isAccepted = true) (hregular : s.view.Regular pdConfig.root)
    (hfresh : FreshPages alloc (List.range 5) s.view pdConfig.root)
    (hbus : ∀ level < 5, ∀ page, alloc level = .mapped page → page.bus < 2 ^ 36) :
    Remaps pdConfig q 0 s s' := by
  have hstate := mapState_root (q := q) hfresh
  have hnarrow' := hrun.narrow hstate hregular.narrow
    fun level hlevel => hbus level (List.mem_range.mp hlevel)
  have hpage {vaddr : ℕ} (halign : vaddr % 4096 = 0) (hle : q.vaddrToFind ≤ vaddr % 2 ^ 49)
      (hlt : vaddr % 2 ^ 49 < q.vaddrToFind + q.size) :
      s'.view.translate pdConfig vaddr =
          ⟨0, q.paddrToMap / 4096 % 2 ^ 24 * 4096, q.paddrTarget⟩ ∧
        s.view.translate pdConfig vaddr = .failed (-enxio) := by
    obtain ⟨off, hoff⟩ := Nat.exists_eq_add_of_le hle
    have hoffLt : off < q.size := by omega
    have hvaddr : q.vaddrToFind % 4096 = 0 := by
      simp only [MapRequest.isAccepted, Bool.and_eq_true, decide_eq_true_eq] at haccepted
      omega
    have hoffAlign : off % 4096 = 0 := by omega
    rw [← View.translate_mod, ← s.view.translate_mod, hoff]
    constructor
    · have hnew := hrun.translation_installed haccepted hfresh
        (hregular.narrow.narrowWay hbus) hoffAlign hoffLt
      rwa [Machine.translation_eq, Option.some.injEq] at hnew
    · obtain ⟨l, entry, hwalk⟩ := hrun.walk_absent hstate rfl (agrees_add haccepted hoffLt)
      have hsum : (q.vaddrToFind + off) % 4096 = 0 := by omega
      rw [View.translate, if_neg (not_not.mpr hsum), hregular.narrow.walk_addr_eq, View.walk,
        hwalk]
      rfl
  refine ⟨⟨hrun.isTree hstate hregular.isTree, hnarrow'⟩, ?_, ?_⟩
  · funext vaddr
    rw [MapRequest.remap]
    split_ifs with hcovers
    · obtain ⟨-, halign, hle, hlt⟩ := hcovers
      exact (hpage halign hle hlt).1
    · by_cases halign : vaddr % 4096 = 0
      · apply Machine.translate_eq_of_translation
        apply hrun.translation_eq haccepted hregular.isTree hregular.narrow hfresh hbus
        exact fun _ hin => hcovers ⟨rfl, halign, hin⟩
      · rw [View.translate, View.translate, if_pos halign, if_pos halign]
  · intro vaddr hne
    rw [MapRequest.remap] at hne
    split_ifs at hne with hcovers
    · obtain ⟨-, halign, hle, hlt⟩ := hcovers
      exact (hpage halign hle hlt).2
    · exact absurd rfl hne

theorem remap_of_ne_zero (hret : ret ≠ 0) (map : ℕ → Translation) : q.remap ret map = map := by
  funext vaddr
  exact if_neg fun h => hret h.1

theorem remaps_of_call (hregular : s.view.Regular pdConfig.root)
    (hfresh : FreshPages alloc (List.range 5) s.view pdConfig.root)
    (hbus : ∀ level < 5, ∀ page, alloc level = .mapped page → page.bus < 2 ^ 36)
    (hrun : mapPageDirectory alloc pdConfig q.vaddrToFind q.paddrToMap q.paddrTarget q.hugePage
      s = some (ret, s')) : Remaps pdConfig q ret s s' := by
  obtain ⟨ret', s'', hspec, -, hcases⟩ := mapPageDirectory_spec q alloc s pdConfig
  rw [hspec] at hrun
  cases hrun
  rcases hcases with ⟨-, hret, hview⟩ | ⟨haccepted, hmap⟩
  · have hne : ret ≠ 0 := by
      rw [hret]
      decide
    refine ⟨hview ▸ hregular, ?_, fun vaddr h => ?_⟩
    · rw [hview, remap_of_ne_zero hne]
    · rw [remap_of_ne_zero hne] at h
      exact absurd rfl h
  · by_cases hret : ret = 0
    · subst hret
      exact hmap.remaps_of_eq_zero haccepted hregular hfresh hbus
    · have hstate := mapState_root (q := q) hfresh
      refine ⟨⟨hmap.isTree hstate hregular.isTree, ?_⟩, ?_, fun vaddr h => ?_⟩
      · exact hmap.narrow hstate hregular.narrow
          fun level hlevel => hbus level (List.mem_range.mp hlevel)
      · rw [remap_of_ne_zero hret]
        funext vaddr
        apply Machine.translate_eq_of_translation
        exact hmap.translation_eq haccepted hregular.isTree hregular.narrow hfresh hbus
          fun h => absurd h hret
      · rw [remap_of_ne_zero hret] at h
        exact absurd rfl h

end Call

/-! ## Runs of calls -/

section Runs

variable {pdConfig : PageDirConfig} {s₀ s : Machine} {calls : List (MapRequest × ℤ)}

/-- The map that calls make of another one, the newest call last. -/
def remapAll (calls : List (MapRequest × ℤ)) (map : ℕ → Translation) : ℕ → Translation :=
  calls.foldr (fun call map => call.1.remap call.2 map) map

theorem MapsTo.regular (hrun : MapsTo pdConfig s₀ calls s)
    (hregular : s₀.view.Regular pdConfig.root) : s.view.Regular pdConfig.root := by
  induction hrun with
  | start => exact hregular
  | call _ fresh bus_lt run ih => exact (remaps_of_call ih fresh bus_lt run).regular

theorem MapsTo.translate_eq (hrun : MapsTo pdConfig s₀ calls s)
    (hregular : s₀.view.Regular pdConfig.root) :
    s.view.translate pdConfig = remapAll calls (s₀.view.translate pdConfig) := by
  induction hrun with
  | start => rfl
  | call before fresh bus_lt run ih =>
      rw [(remaps_of_call (before.regular hregular) fresh bus_lt run).translate, ih]
      rfl

/-- A call that changes the translation of an address found none. -/
theorem MapsTo.translate_of_ne (hrun : MapsTo pdConfig s₀ calls s)
    (hregular : s₀.view.Regular pdConfig.root) {vaddr : ℕ}
    (hmapped : s₀.view.translate pdConfig vaddr ≠ .failed (-enxio)) :
    s.view.translate pdConfig vaddr = s₀.view.translate pdConfig vaddr := by
  induction hrun with
  | start => rfl
  | call before fresh bus_lt run ih =>
      have hremaps := remaps_of_call (before.regular hregular) fresh bus_lt run
      rw [hremaps.translate]
      by_contra hne
      rw [← ih] at hne hmapped
      exact hmapped (hremaps.absent vaddr hne)

end Runs

/-- The page table that any number of calls leave behind is the map that they make of the first
one. -/
theorem mapCalls_translation (pdConfig : PageDirConfig) (s₀ s : Machine)
    (calls : List (MapRequest × ℤ)) (hregular : s₀.view.Regular pdConfig.root)
    (hrun : MapsTo pdConfig s₀ calls s) (vaddr : ℕ) :
    s.translation pdConfig vaddr =
      some (remapAll calls (s₀.view.translate pdConfig) vaddr) := by
  rw [Machine.translation_eq, hrun.translate_eq hregular]

/-- The table without entries is regular. -/
theorem regular_emptyTable : emptyTable.view.Regular (PageDirConfig.root ⟨0x1402⟩) where
  isTree := by
    refine isTree_of_page_ne rfl fun ks ks' n n' hn hn' _ => ?_
    rw [(hasTable_emptyTable hn).1, (hasTable_emptyTable hn').1]
  narrow := by
    intro ks n hn
    rw [(hasTable_emptyTable hn).2]
    decide

theorem exists_mapsTo_emptyTable :
    ∃ s, MapsTo ⟨0x1402⟩ emptyTable [(⟨0x3000, 0x7000, .vidMem, false⟩, 0)] s := by
  obtain ⟨s, hrun⟩ := Kernel.exists_of_map_fst
    (x := mapPageDirectory (allocFrom 16) ⟨0x1402⟩ 0x3000 0x7000 .vidMem false)
    (s := emptyTable) (a := 0) (by decide)
  refine ⟨s, .call .start freshPages_emptyTable ?_ hrun⟩
  rintro level hlevel page halloc
  cases halloc
  simp only
  omega

theorem mapCalls_translation_emptyTable :
    ∃ s, MapsTo ⟨0x1402⟩ emptyTable [(⟨0x3000, 0x7000, .vidMem, false⟩, 0)] s ∧
      s.translation ⟨0x1402⟩ 0x3000 = some ⟨0, 0x7000, .vidMem⟩ := by
  obtain ⟨s, hrun⟩ := exists_mapsTo_emptyTable
  refine ⟨s, hrun, ?_⟩
  rw [mapCalls_translation ⟨0x1402⟩ emptyTable s _ regular_emptyTable hrun]
  decide

/-- An address that is translated at some time is translated so at any later time. -/
theorem translation_stable (pdConfig : PageDirConfig) (s₀ s s' : Machine)
    (calls later : List (MapRequest × ℤ)) (hregular : s₀.view.Regular pdConfig.root)
    (hrun : MapsTo pdConfig s₀ calls s) (hlater : MapsTo pdConfig s later s') (vaddr : ℕ)
    (hmapped : s.translation pdConfig vaddr ≠ some (.failed (-enxio))) :
    s'.translation pdConfig vaddr = s.translation pdConfig vaddr := by
  rw [Machine.translation_eq, Machine.translation_eq, Option.some.injEq]
  apply hlater.translate_of_ne (hrun.regular hregular)
  rwa [Machine.translation_eq, ne_eq, Option.some.injEq] at hmapped

/-- A second call, without pages to hand out. -/
theorem translation_stable_emptyTable :
    ∃ s s' ret, MapsTo ⟨0x1402⟩ emptyTable [(⟨0x3000, 0x7000, .vidMem, false⟩, 0)] s ∧
      MapsTo ⟨0x1402⟩ s [(⟨0x4000, 0x9000, .vidMem, false⟩, ret)] s' ∧
      s'.translation ⟨0x1402⟩ 0x3000 = some ⟨0, 0x7000, .vidMem⟩ := by
  obtain ⟨s, hrun⟩ := exists_mapsTo_emptyTable
  obtain ⟨ret, s', hcall, -⟩ :=
    mapPageDirectory_spec ⟨0x4000, 0x9000, .vidMem, false⟩ (fun _ => .exhausted) s ⟨0x1402⟩
  have hlater : MapsTo ⟨0x1402⟩ s [(⟨0x4000, 0x9000, .vidMem, false⟩, ret)] s' :=
    .call .start (freshPages_exhausted _ _ _) (fun _ _ _ halloc => by cases halloc) hcall
  have hfirst : s.translation ⟨0x1402⟩ 0x3000 = some ⟨0, 0x7000, .vidMem⟩ := by
    rw [Machine.translation_eq, hrun.translate_eq regular_emptyTable]
    decide
  have hmapped : s.translation ⟨0x1402⟩ 0x3000 ≠ some (.failed (-enxio)) := by
    rw [hfirst]
    decide
  exact ⟨s, s', ret, hrun, hlater,
    (translation_stable ⟨0x1402⟩ emptyTable s s' _ _ regular_emptyTable hrun hlater 0x3000
      hmapped).trans hfirst⟩

end A100Partitioning.Nvdebug
