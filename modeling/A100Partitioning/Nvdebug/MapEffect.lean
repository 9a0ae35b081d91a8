import A100Partitioning.Nvdebug.MapFrame

/-!
# What a successful mapping achieves

A run that returns 0 installed one entry: every walk that shares the keys of the
request down to the final level now ends at it, whether or not the page table is
a tree.  What `translate_page_directory` makes of it depends on the width of the
addresses and on the size of the page.
-/

namespace A100Partitioning.Nvdebug

open Support RadixTable

/-! ## Sharing the final entry -/

/-- The keys agree with the request's down to the final level. -/
def MapRequest.Agrees (q : MapRequest) : List PtKey → List PtKey → Prop
  | k :: ks, k' :: ks' => k = k' ∧ (q.IsFinal k.level ∨ q.Agrees ks ks')
  | _, _ => False

/-- The location of the final entry, if all tables above it exist and the entry
is unpopulated. -/
structure View.FinalAbsent (v : View) (q : MapRequest) (levels : List ℕ)
    (n : Table) (l : Loc) : Prop where
  exists_path : ∃ mid level post m, levels = mid ++ level :: post ∧
    Path (v.slot PageDirEntry.addrW) n (keysOf mid q.vaddrToFind) m ∧
    v.entryLoc m ⟨level, ptIndex level q.vaddrToFind⟩ = .at l ∧
    q.IsFinal level
  invalid : (PageDirEntry.mk (v.mem l)).isInvalid = true

section FinalAbsent

variable {v : View} {q : MapRequest} {level : ℕ} {levels : List ℕ} {n m : Table}
variable {l l' : Loc}

/-- Below a directory entry, the final entry is the one below its table. -/
theorem finalAbsent_of_table
    (hslot : v.slot PageDirEntry.addrW n ⟨level, ptIndex level q.vaddrToFind⟩ =
      .table m) :
    v.FinalAbsent q (level :: levels) n l ↔ v.FinalAbsent q levels m l := by
  constructor
  · rintro ⟨⟨mid, level', post, m', hlevels, hpath, hloc, hfinal⟩, hinvalid⟩
    cases mid with
    | nil =>
        cases hlevels
        cases hpath
        rw [View.slot_of_loc hloc, slotOfEntry_of_invalid hinvalid] at hslot
        cases hslot
    | cons _ mid =>
        cases hlevels
        cases hpath with
        | cons step rest =>
            cases hslot.symm.trans step
            exact ⟨⟨mid, level', post, m', rfl, rest, hloc, hfinal⟩, hinvalid⟩
  · rintro ⟨⟨mid, level', post, m', rfl, hpath, hloc, hfinal⟩, hinvalid⟩
    exact ⟨⟨level :: mid, level', post, m', rfl, .cons hslot hpath, hloc, hfinal⟩,
      hinvalid⟩

/-- At an unpopulated entry, the final entry can only be that one. -/
theorem finalAbsent_of_absent
    (hloc : v.entryLoc n ⟨level, ptIndex level q.vaddrToFind⟩ = .at l)
    (hinvalid : (PageDirEntry.mk (v.mem l)).isInvalid = true) :
    v.FinalAbsent q (level :: levels) n l' ↔ l' = l ∧ q.IsFinal level := by
  constructor
  · rintro ⟨⟨mid, level', post, m', hlevels, hpath, hloc', hfinal⟩, -⟩
    cases mid with
    | nil =>
        cases hlevels
        cases hpath
        cases hloc.symm.trans hloc'
        exact ⟨rfl, hfinal⟩
    | cons _ mid =>
        cases hlevels
        cases hpath with
        | cons step rest =>
            rw [View.slot_of_loc hloc, slotOfEntry_of_invalid hinvalid] at step
            cases step
  · rintro ⟨rfl, hfinal⟩
    exact ⟨⟨[], level, levels, n, rfl, .nil n, hloc, hfinal⟩, hinvalid⟩

end FinalAbsent

/-! ## The installed entry -/

section Installed

variable {q : MapRequest} {alloc : ℕ → PageAlloc} {levels : List ℕ}
variable {n root : Table} {v v' : View} {ret : ℤ} {pre : List PtKey}

theorem MapRun.entryLoc_eq (hrun : MapRun q alloc levels n v ret v')
    (hstate : MapState q alloc levels root n v pre) {ks : List PtKey} {m : Table}
    (hm : v.HasTable root ks m) (k : PtKey) :
    v'.entryLoc m k = v.entryLoc m k := by
  induction hrun generalizing pre with
  | ranOut n v => rfl
  | unresolved bad => rfl
  | found loc valid stop => rfl
  | descend loc valid pde small rest ih =>
      exact ih (hstate.descend loc valid pde) hm
  | install loc invalid final => exact entryLoc_install _ _ _
  | exhausted loc invalid inner out => rfl
  | unmapped loc invalid inner out => rfl
  | @link level levels n v v' l page ret loc invalid inner out rest ih =>
      have hlink := hstate.linkStep loc invalid out
      rw [hstate.toPde_table out] at ih
      rw [ih (hstate.link loc invalid out) (hlink.hasTable_of hm)]
      exact entryLoc_link k (hlink.fresh.bus_ne _ hlink.mem page out ks m hm)

/-- What a run that returns 0 did: `entry` with the requested mapping filled in
is now where the walks that agree with the request end; words that were valid
are unchanged or hold it, too. -/
structure Installed (q : MapRequest) (alloc : ℕ → PageAlloc) (levels : List ℕ)
    (n : Table) (v v' : View) (entry : PageDirEntry) : Prop where
  mem_or : ∀ l, (PageDirEntry.mk (v.mem l)).isInvalid = false →
    (∀ level ∈ levels, ∀ frame, (alloc level).frame? = some frame →
      ¬ l.InFrame frame) →
    v'.mem l = v.mem l ∨
      v'.mem l = (entry.toPte q.paddrToMap q.paddrTarget).rawW
  eq_of_finalAbsent : ∀ l, v.FinalAbsent q levels n l → entry = ⟨v.mem l⟩
  eq_or : entry = ⟨0⟩ ∨ ∃ l, v.FinalAbsent q levels n l
  walk_eq : ∀ keys, q.Agrees (keysOf levels q.vaddrToFind) keys →
    ∃ level, RadixTable.walk (v'.slot PageDirEntry.addrW) .overrun keys n =
      .ok ⟨level, entry.toPte q.paddrToMap q.paddrTarget⟩

/-- A slot in use is unchanged, or holds the installed entry, too. -/
theorem Installed.slot_or {entry : PageDirEntry}
    (h : Installed q alloc levels n v v' entry)
    (hrun : MapRun q alloc levels n v ret v')
    (hstate : MapState q alloc levels root n v pre) {ks : List PtKey} {m : Table}
    {k : PtKey} {l : Loc} (hm : v.HasTable root ks m)
    (hk : Valid (ks ++ [k]) allKeys) (hloc : v.entryLoc m k = .at l)
    (hvalid : (PageDirEntry.mk (v.mem l)).isInvalid = false) :
    v'.slot PageDirEntry.addrW m k = v.slot PageDirEntry.addrW m k ∨
      v'.slot PageDirEntry.addrW m k =
        .leaf ⟨k.level, entry.toPte q.paddrToMap q.paddrTarget⟩ := by
  have hloc' := (hrun.entryLoc_eq hstate hm k).trans hloc
  rw [View.slot_of_loc hloc, View.slot_of_loc hloc']
  rcases h.mem_or l hvalid (fun level hlevel frame halloc =>
    hstate.fresh.frame_ne level hlevel frame halloc ks m k l hm hk hloc) with
    heq | heq
  · rw [heq]
    exact .inl rfl
  · rw [heq]
    exact .inr (slotOfEntry_of_pte (PageDirEntry.toPte_isPte _ _ _))

theorem installed_install {level : ℕ} {l : Loc}
    (hloc : v.entryLoc n ⟨level, ptIndex level q.vaddrToFind⟩ = .at l)
    (hinvalid : (PageDirEntry.mk (v.mem l)).isInvalid = true)
    (hfinal : q.IsFinal level) :
    Installed q alloc (level :: levels) n v (v.install q level l ⟨v.mem l⟩)
      ⟨v.mem l⟩ where
  mem_or l' _ _ := by
    rw [mem_install]
    split_ifs
    · exact .inr rfl
    · exact .inl rfl
  eq_of_finalAbsent l' hl' := by
    rw [((finalAbsent_of_absent hloc hinvalid).mp hl').1]
  eq_or := .inr ⟨l, (finalAbsent_of_absent hloc hinvalid).mpr ⟨rfl, hfinal⟩⟩
  walk_eq keys hkeys := by
    cases keys with
    | nil => cases hkeys
    | cons k keys =>
        obtain ⟨rfl, -⟩ := hkeys
        refine ⟨level, ?_⟩
        rw [RadixTable.walk, View.slot_of_loc (l := l) (by simpa using hloc),
          mem_install, if_pos (.inl rfl),
          slotOfEntry_of_pte (PageDirEntry.toPte_isPte _ _ _)]

/-- An entry installed below a directory entry is installed below its table. -/
theorem Installed.descend {entry : PageDirEntry} {level : ℕ} {l : Loc}
    (hrun : MapRun q alloc levels
      ⟨(PageDirEntry.mk (v.mem l)).addrW, (PageDirEntry.mk (v.mem l)).target⟩
      v ret v')
    (hstate : MapState q alloc (level :: levels) root n v pre)
    (hloc : v.entryLoc n ⟨level, ptIndex level q.vaddrToFind⟩ = .at l)
    (hvalid : (PageDirEntry.mk (v.mem l)).isInvalid = false)
    (hpte : (PageDirEntry.mk (v.mem l)).isPte = false)
    (hinner : ¬ q.IsFinal level)
    (h : Installed q alloc levels
      ⟨(PageDirEntry.mk (v.mem l)).addrW, (PageDirEntry.mk (v.mem l)).target⟩
      v v' entry) :
    Installed q alloc (level :: levels) n v v' entry := by
  have hslot := View.slot_of_loc hloc PageDirEntry.addrW
  rw [slotOfEntry_of_pde hvalid hpte] at hslot
  refine ⟨fun l' hl' hout => ?_, fun l' hl' => ?_, ?_, fun keys hkeys => ?_⟩
  · exact h.mem_or l' hl' fun level' hlevel => hout level' (by simp [hlevel])
  · exact h.eq_of_finalAbsent l' ((finalAbsent_of_table hslot).mp hl')
  · exact h.eq_or.imp_right fun ⟨l', hl'⟩ =>
      ⟨l', (finalAbsent_of_table hslot).mpr hl'⟩
  · cases keys with
    | nil => cases hkeys
    | cons k keys =>
        obtain ⟨rfl, hrest⟩ := hkeys
        rcases h.slot_or hrun (hstate.descend hloc hvalid hpte) hstate.hasTable
          hstate.valid_key hloc hvalid with hkeep | hleaf
        · rw [RadixTable.walk, hkeep, hslot]
          exact h.walk_eq keys (hrest.resolve_left hinner)
        · exact ⟨level, by rw [RadixTable.walk, hleaf]⟩

theorem Installed.link {entry : PageDirEntry} {level : ℕ} {l : Loc}
    {page : DmaPage}
    (hrun : MapRun q alloc levels page.table
      (v.link n ⟨level, ptIndex level q.vaddrToFind⟩ l ⟨v.mem l⟩ page) ret v')
    (hstate : MapState q alloc (level :: levels) root n v pre)
    (hloc : v.entryLoc n ⟨level, ptIndex level q.vaddrToFind⟩ = .at l)
    (hinvalid : (PageDirEntry.mk (v.mem l)).isInvalid = true)
    (hinner : ¬ q.IsFinal level) (halloc : alloc level = .mapped page)
    (h : Installed q alloc levels page.table
      (v.link n ⟨level, ptIndex level q.vaddrToFind⟩ l ⟨v.mem l⟩ page) v'
      entry) :
    Installed q alloc (level :: levels) n v v' entry := by
  have hlink := hstate.linkStep hloc hinvalid halloc
  have hnext := hstate.link hloc hinvalid halloc
  have hout := hlink.frame_ne hlink.hasTable hlink.valid hlink.loc
  refine ⟨fun l' hl' hout' => ?_, fun l' hl' => ?_, ?_, fun keys hkeys => ?_⟩
  · have hne : l' ≠ l := by
      rintro rfl
      rw [hinvalid] at hl'
      cases hl'
    have hkeep : (v.link n ⟨level, ptIndex level q.vaddrToFind⟩ l ⟨v.mem l⟩
        page).mem l' = v.mem l' := by
      rw [mem_link, if_neg hne,
        if_neg (hout' level (by simp) page.frame (by rw [halloc]; rfl))]
    rw [← hkeep]
    exact h.mem_or l' (by rw [hkeep]; exact hl')
      fun level' hlevel => hout' level' (by simp [hlevel])
  · exact absurd ((finalAbsent_of_absent hloc hinvalid).mp hl').2 hinner
  · left
    rcases h.eq_or with hzero | ⟨l', hl'⟩
    · exact hzero
    · -- The new table is zeroed.
      rw [h.eq_of_finalAbsent l' hl']
      obtain ⟨⟨mid, level', post, m, hlevels, hpath, hloc', -⟩, -⟩ := hl'
      subst hlevels
      obtain ⟨-, rfl⟩ := path_of_link hlink.wellFormed hout
        (fun k hk => hnext.inRange (by
          rw [keysOf, List.map_append]
          exact List.mem_append_left _ hk)) hpath
      have hin := inFrame_of_entryLoc_link hlink.wellFormed
        (hnext.inRange (by simp [keysOf])) hloc'
      have hne : l' ≠ l := by
        rintro rfl
        exact hout hin
      rw [mem_link, if_neg hne, if_pos hin]
  · cases keys with
    | nil => cases hkeys
    | cons k keys =>
        obtain ⟨rfl, hrest⟩ := hkeys
        obtain ⟨-, -, hslot⟩ := (hlink.slot_or hlink.hasTable
          hlink.valid).resolve_right fun hkeep => hkeep.1 hlink.loc
        obtain ⟨l', hloc', hvalid', -⟩ := View.exists_of_slot_table hslot
        rcases h.slot_or hrun hnext (hlink.hasTable_of hlink.hasTable)
          hlink.valid hloc' hvalid' with hkeep | hleaf
        · rw [RadixTable.walk, hkeep, hslot]
          exact h.walk_eq keys (hrest.resolve_left hinner)
        · exact ⟨level, by rw [RadixTable.walk, hleaf]⟩

theorem followEntry_ne_zero {level : ℕ} {entry : PageDirEntry} {ret : ℤ}
    (h : followEntry q level entry = .error ret) : ret ≠ 0 := by
  simp only [followEntry] at h
  split_ifs at h <;> cases h <;> decide

theorem not_isFinal_of_small {level : ℕ}
    (hstate : MapState q alloc (level :: levels) root n v pre)
    (hsmall : (q.hugePage && level == 3) = false) {m : Table}
    (hrun : MapRun q alloc levels m v ret v') (hret : ret = 0) :
    ¬ q.IsFinal level := by
  rintro (rfl | hhuge)
  · have hlevel := level_of_valid hstate.valid_key
    have hlen := hstate.valid.length_le
    simp [keysOf] at hlevel hlen
    have hnil : levels = [] := List.eq_nil_of_length_eq_zero (by omega)
    subst hnil
    cases hrun
    cases hret
  · simp [hhuge] at hsmall

theorem MapRun.installed (hrun : MapRun q alloc levels n v ret v')
    (hret : ret = 0) (hstate : MapState q alloc levels root n v pre) :
    ∃ entry, Installed q alloc levels n v v' entry := by
  induction hrun generalizing pre with
  | ranOut n v => cases hret
  | unresolved bad => cases hret
  | found loc valid stop => exact absurd hret (followEntry_ne_zero stop)
  | @descend level levels n v v' l ret loc valid pde small rest ih =>
      obtain ⟨entry, hentry⟩ := ih hret (hstate.descend loc valid pde)
      exact ⟨entry, hentry.descend rest hstate loc valid pde
        (not_isFinal_of_small hstate small rest hret)⟩
  | install loc invalid final => exact ⟨_, installed_install loc invalid final⟩
  | exhausted loc invalid inner out => cases hret
  | unmapped loc invalid inner out => cases hret
  | @link level levels n v v' l page ret loc invalid inner out rest ih =>
      rw [hstate.toPde_table out] at ih rest
      obtain ⟨entry, hentry⟩ := ih hret (hstate.link loc invalid out)
      exact ⟨entry, hentry.link rest hstate loc invalid inner out⟩

end Installed

/-! ## Translating the mapped page -/

/-- Offsets in the page do not change the keys down to the final level. -/
theorem agrees_add {q : MapRequest} (haccepted : q.isAccepted = true) {off : ℕ}
    (hoff : off < q.size) :
    q.Agrees (keysOf (List.range 5) q.vaddrToFind)
      (keysOf (List.range 5) (q.vaddrToFind + off)) := by
  simp only [MapRequest.isAccepted, Bool.and_eq_true, decide_eq_true_eq,
    Bool.or_eq_true, Bool.not_eq_true'] at haccepted
  obtain ⟨⟨⟨⟨⟨⟨halign, -⟩, hhugeAlign⟩, -⟩, -⟩, -⟩, -⟩ := haccepted
  simp only [MapRequest.size] at hoff
  have hindex : ∀ level < 5, (q.hugePage = true → level < 4) →
      ptIndex level (q.vaddrToFind + off) = ptIndex level q.vaddrToFind := by
    intro level hlevel hsmall
    cases hhuge : q.hugePage with
    | true =>
        rw [hhuge, if_pos rfl] at hoff
        have hlevel4 := hsmall hhuge
        have halign2 := (hhugeAlign.resolve_left (by simp [hhuge])).1
        interval_cases level <;>
          simp only [ptIndex, ptLsb, nvMmuPtV2Lsb, List.getD_cons_zero,
            List.getD_cons_succ] <;>
          congr 1 <;> omega
    | false =>
        rw [hhuge, if_neg Bool.false_ne_true] at hoff
        interval_cases level <;>
          simp only [ptIndex, ptLsb, nvMmuPtV2Lsb, List.getD_cons_zero,
            List.getD_cons_succ] <;>
          congr 1 <;> omega
  have hkey : ∀ level < 4, (⟨level, ptIndex level q.vaddrToFind⟩ : PtKey) =
      ⟨level, ptIndex level (q.vaddrToFind + off)⟩ := fun level hlevel => by
    rw [hindex level (by omega) fun _ => hlevel]
  refine ⟨hkey 0 (by decide), .inr ⟨hkey 1 (by decide), .inr
    ⟨hkey 2 (by decide), .inr ⟨hkey 3 (by decide), ?_⟩⟩⟩⟩
  cases hhuge : q.hugePage with
  | true => exact .inl (.inr ⟨hhuge, rfl⟩)
  | false =>
      refine .inr ⟨?_, .inl (.inl rfl)⟩
      simp only [hindex 4 (by decide) (by simp [hhuge])]

/-- The directory pointers on the request's way below `n` are below `2 ^ 36`:
those that exist, and those to the pages that are linked in. -/
structure View.NarrowWay (v : View) (q : MapRequest) (alloc : ℕ → PageAlloc)
    (levels : List ℕ) (n : Table) : Prop where
  tables : ∀ ks m, ks ≠ [] → ks <+: keysOf levels q.vaddrToFind →
    Path (v.slot PageDirEntry.addrW) n ks m → m.page < 2 ^ 24
  pages : ∀ mid level post, levels = mid ++ level :: post → ¬ q.IsFinal level →
    (∀ m, ¬ Path (v.slot PageDirEntry.addrW) n
      (keysOf (mid ++ [level]) q.vaddrToFind) m) →
    ∀ page, alloc level = .mapped page → page.bus < 2 ^ 36

section NarrowWay

variable {q : MapRequest} {alloc : ℕ → PageAlloc} {levels : List ℕ} {level : ℕ}
variable {n m root : Table} {v v' : View} {ret : ℤ} {pre : List PtKey}

theorem View.NarrowWay.table_lt
    (h : v.NarrowWay q alloc (level :: levels) n)
    (hslot : v.slot PageDirEntry.addrW n ⟨level, ptIndex level q.vaddrToFind⟩ =
      .table m) : m.page < 2 ^ 24 :=
  h.tables [⟨level, ptIndex level q.vaddrToFind⟩] m (by simp)
    ⟨keysOf levels q.vaddrToFind, rfl⟩ (.cons hslot (.nil m))

theorem View.NarrowWay.descend (h : v.NarrowWay q alloc (level :: levels) n)
    (hslot : v.slot PageDirEntry.addrW n ⟨level, ptIndex level q.vaddrToFind⟩ =
      .table m) : v.NarrowWay q alloc levels m where
  tables ks p _ hks hpath := by
    refine h.tables (⟨level, ptIndex level q.vaddrToFind⟩ :: ks) p (by simp) ?_
      (.cons hslot hpath)
    exact (List.prefix_cons_inj _).mpr hks
  pages mid level' post hlevels hinner hnone := by
    refine h.pages (level :: mid) level' post (by rw [hlevels]; rfl) hinner ?_
    intro p hpath
    cases hpath with
    | cons step rest =>
        cases hslot.symm.trans step
        exact hnone p rest

theorem View.NarrowWay.bus_lt {page : DmaPage} {r : Miss}
    (h : v.NarrowWay q alloc (level :: levels) n)
    (hslot : v.slot PageDirEntry.addrW n ⟨level, ptIndex level q.vaddrToFind⟩ =
      .miss r) (hinner : ¬ q.IsFinal level)
    (halloc : alloc level = .mapped page) : page.bus < 2 ^ 36 := by
  refine h.pages [] level levels rfl hinner ?_ page halloc
  intro p hpath
  cases hpath with
  | cons step rest => cases hslot.symm.trans step

theorem View.NarrowWay.link {page : DmaPage} {l : Loc}
    (h : v.NarrowWay q alloc (level :: levels) n)
    (hstate : MapState q alloc (level :: levels) root n v pre)
    (hloc : v.entryLoc n ⟨level, ptIndex level q.vaddrToFind⟩ = .at l)
    (hinvalid : (PageDirEntry.mk (v.mem l)).isInvalid = true)
    (halloc : alloc level = .mapped page) :
    (v.link n ⟨level, ptIndex level q.vaddrToFind⟩ l ⟨v.mem l⟩ page).NarrowWay q
      alloc levels page.table where
  tables ks p hne hks hpath := by
    have hlink := hstate.linkStep hloc hinvalid halloc
    have hkeys : ∀ k ∈ ks, k.InRange := fun k hk =>
      (hstate.link hloc hinvalid halloc).inRange (hks.subset hk)
    exact absurd (path_of_link hlink.wellFormed
      (hlink.frame_ne hlink.hasTable hlink.valid hlink.loc) hkeys hpath).1 hne
  pages mid level' post hlevels hinner _ := by
    refine h.pages (level :: mid) level' post (by rw [hlevels]; rfl) hinner ?_
    intro p hpath
    cases hpath with
    | cons step rest =>
        rw [View.slot_of_loc hloc, slotOfEntry_of_invalid hinvalid] at step
        cases step

/-- After a successful run, the tables on the way to the page are narrow. -/
theorem MapRun.page_lt (hrun : MapRun q alloc levels n v ret v') (hret : ret = 0)
    (hstate : MapState q alloc levels root n v pre)
    (hnarrow : v.NarrowWay q alloc levels n) {keys ks : List PtKey}
    (hkeys : q.Agrees (keysOf levels q.vaddrToFind) keys) (hks : ks <+: keys)
    (hne : ks ≠ []) (hpath : Path (v'.slot PageDirEntry.addrW) n ks m) :
    m.page < 2 ^ 24 := by
  induction hrun generalizing pre keys ks with
  | ranOut n v => cases hret
  | unresolved bad => cases hret
  | found loc valid stop => exact absurd hret (followEntry_ne_zero stop)
  | @descend level levels n v v' l ret loc valid pde small rest ih =>
      have hnext := hstate.descend loc valid pde
      obtain ⟨entry, hentry⟩ := rest.installed hret hnext
      have hslot := View.slot_of_loc loc PageDirEntry.addrW
      rw [slotOfEntry_of_pde valid pde] at hslot
      obtain ⟨k, ks, rfl⟩ := List.exists_cons_of_ne_nil hne
      cases keys with
      | nil => cases hkeys
      | cons k' keys =>
          obtain ⟨rfl, hagrees⟩ := hkeys
          obtain ⟨rfl, htail⟩ := List.cons_prefix_cons.mp hks
          have hagrees := hagrees.resolve_left
            (not_isFinal_of_small hstate small rest hret)
          cases hpath with
          | cons step tail =>
              rcases hentry.slot_or rest hnext hstate.hasTable hstate.valid_key
                loc valid with hkeep | hleaf
              · cases (hkeep.trans hslot).symm.trans step
                by_cases hnil : ks = []
                · subst hnil
                  cases tail
                  exact hnarrow.table_lt hslot
                · exact ih hret hnext (hnarrow.descend hslot) hagrees htail hnil
                    tail
              · cases hleaf.symm.trans step
  | @install level levels n v l loc invalid final =>
      obtain ⟨k, ks, rfl⟩ := List.exists_cons_of_ne_nil hne
      cases keys with
      | nil => cases hkeys
      | cons k' keys =>
          obtain ⟨rfl, -⟩ := hkeys
          obtain ⟨rfl, -⟩ := List.cons_prefix_cons.mp hks
          cases hpath with
          | cons step tail =>
              have hslot := slot_of_slot_install step
              rw [View.slot_of_loc loc, slotOfEntry_of_invalid invalid] at hslot
              cases hslot
  | exhausted loc invalid inner out => cases hret
  | unmapped loc invalid inner out => cases hret
  | @link level levels n v v' l page ret loc invalid inner out rest ih =>
      have hlink := hstate.linkStep loc invalid out
      have hnext := hstate.link loc invalid out
      rw [hstate.toPde_table out] at ih rest
      obtain ⟨entry, hentry⟩ := rest.installed hret hnext
      obtain ⟨-, hmiss, hslot⟩ := (hlink.slot_or hlink.hasTable
        hlink.valid).resolve_right fun hkeep => hkeep.1 hlink.loc
      obtain ⟨l', hloc', hvalid', -⟩ := View.exists_of_slot_table hslot
      obtain ⟨k, ks, rfl⟩ := List.exists_cons_of_ne_nil hne
      cases keys with
      | nil => cases hkeys
      | cons k' keys =>
          obtain ⟨rfl, hagrees⟩ := hkeys
          obtain ⟨rfl, htail⟩ := List.cons_prefix_cons.mp hks
          have hagrees := hagrees.resolve_left inner
          cases hpath with
          | cons step tail =>
              rcases hentry.slot_or rest hnext (hlink.hasTable_of hlink.hasTable)
                hlink.valid hloc' hvalid' with hkeep | hleaf
              · cases (hkeep.trans hslot).symm.trans step
                by_cases hnil : ks = []
                · subst hnil
                  cases tail
                  have hlt := hnarrow.bus_lt hmiss inner out
                  simp only [DmaPage.table]
                  omega
                · exact ih hret hnext (hnarrow.link hstate loc invalid out)
                    hagrees htail hnil tail
              · cases hleaf.symm.trans step

end NarrowWay

/-! ## When a mapping is seen -/

/-- What a call that returned 0 should achieve: every 4 KiB page in the mapped
page is translated to the right address, and the installed PTE is unencrypted,
unprivileged, read/write and has atomics enabled. -/
structure MapRequest.Mapped (q : MapRequest) (pdConfig : PageDirConfig)
    (s' : Machine) : Prop where
  translated : ∀ off, off % 4096 = 0 → off < q.size →
    s'.translation pdConfig (q.vaddrToFind + off) =
      some ⟨0, q.paddrToMap + off, q.paddrTarget⟩
  plain : ∃ pte, s'.view.walk PageDirEntry.addrW (List.range 5) q.vaddrToFind
    pdConfig.root = .ok pte ∧ pte.entry.isPlain = true

/-- The unpopulated entry that the PTE goes to has its access bits clear. -/
def View.CleanSlot (v : View) (q : MapRequest) (root : Table) : Prop :=
  ∀ l, v.FinalAbsent q (List.range 5) root l → Bitfield.get 4 4 (v.mem l) = 0

theorem View.translate_foundAddr_lt (v : View) (pdConfig : PageDirConfig)
    (vaddr : ℕ) : (v.translate pdConfig vaddr).foundAddr < 2 ^ 36 := by
  rw [View.translate]
  split_ifs
  · decide
  · cases v.walk PageDirEntry.addr (List.range 5) vaddr pdConfig.root with
    | ok pte =>
        have hlt := pte.entry.addr_lt
        simp only [translationOf]
        omega
    | error r => cases r <;> simp [translationOf, Translation.failed]

/-- The access bits of the installed entry are those that were there before. -/
theorem Installed.isPlain_iff {q : MapRequest} {alloc : ℕ → PageAlloc}
    {root : Table} {v v' : View} {entry : PageDirEntry}
    (h : Installed q alloc (List.range 5) root v v' entry) :
    (entry.toPte q.paddrToMap q.paddrTarget).isPlain = true ↔
      v.CleanSlot q root := by
  rw [PageDirEntry.isPlain_iff, PageDirEntry.toPte_flags]
  constructor
  · intro hflags l hl
    rw [h.eq_of_finalAbsent l hl] at hflags
    exact hflags
  · intro hclean
    rcases h.eq_or with rfl | ⟨l, hl⟩
    · decide
    · rw [h.eq_of_finalAbsent l hl]
      exact hclean l hl

/-- With narrow pointers, the whole page is translated to the start of what was
to be mapped, cut to 36 bits. -/
theorem MapRun.translation_installed {q : MapRequest} {alloc : ℕ → PageAlloc}
    {pdConfig : PageDirConfig} {s s' : Machine}
    (hrun : MapRun q alloc (List.range 5) pdConfig.root s.view 0 s'.view)
    (haccepted : q.isAccepted = true)
    (hfresh : FreshPages alloc (List.range 5) s.view pdConfig.root)
    (hnarrow : s.view.NarrowWay q alloc (List.range 5) pdConfig.root) {off : ℕ}
    (halign : off % 4096 = 0) (hoff : off < q.size) :
    s'.translation pdConfig (q.vaddrToFind + off) =
      some ⟨0, q.paddrToMap / 4096 % 2 ^ 24 * 4096, q.paddrTarget⟩ := by
  have hstate := mapState_root (q := q) hfresh
  obtain ⟨entry, hentry⟩ := hrun.installed rfl hstate
  have hagrees := agrees_add haccepted hoff
  obtain ⟨level, hwalk⟩ := hentry.walk_eq _ hagrees
  have hvaddr : (q.vaddrToFind + off) % 4096 = 0 := by
    simp only [MapRequest.isAccepted, Bool.and_eq_true, decide_eq_true_eq]
      at haccepted
    omega
  have haddr : s'.view.walk PageDirEntry.addr (List.range 5)
      (q.vaddrToFind + off) pdConfig.root =
        .ok ⟨level, entry.toPte q.paddrToMap q.paddrTarget⟩ := by
    rw [← hwalk]
    refine walk_congr ?_ (.nil pdConfig.root)
    intro p k pre hinitial hpath
    exact slot_addr_eq_addrW fun m hm => hrun.page_lt rfl hstate hnarrow hagrees
      hinitial (by simp) (hpath.snoc hm)
  rw [Machine.translation_eq, View.translate, if_neg (by simp [hvaddr]), haddr]
  simp [translationOf, PageDirEntry.toPte_addr]

theorem mapRun_of_eq_zero {alloc : ℕ → PageAlloc} {pdConfig : PageDirConfig}
    {q : MapRequest} {s s' : Machine}
    (hrun : mapPageDirectory alloc pdConfig q.vaddrToFind q.paddrToMap
      q.paddrTarget q.hugePage s = some (0, s')) :
    q.isAccepted = true ∧
      MapRun q alloc (List.range 5) pdConfig.root s.view 0 s'.view := by
  obtain ⟨ret, s'', hspec, -, hcases⟩ := mapPageDirectory_spec q alloc s pdConfig
  rw [hspec] at hrun
  cases hrun
  rcases hcases with ⟨-, hret, -⟩ | hran
  · cases hret
  · exact hran

/-- A mapping is only ever seen below `2 ^ 36` and with its access bits right if
they were clear; and if all pointers on its way are narrow, it is seen exactly
if it is a small page, besides. -/
theorem mapped_iff (alloc : ℕ → PageAlloc) (pdConfig : PageDirConfig)
    (q : MapRequest) (s s' : Machine)
    (hrun : mapPageDirectory alloc pdConfig q.vaddrToFind q.paddrToMap
      q.paddrTarget q.hugePage s = some (0, s'))
    (hfresh : FreshPages alloc (List.range 5) s.view pdConfig.root) :
    (q.Mapped pdConfig s' →
      q.paddrToMap < 2 ^ 36 ∧ s.view.CleanSlot q pdConfig.root) ∧
    (s.view.NarrowWay q alloc (List.range 5) pdConfig.root →
      (q.Mapped pdConfig s' ↔ q.hugePage = false ∧ q.paddrToMap < 2 ^ 36 ∧
        s.view.CleanSlot q pdConfig.root)) := by
  obtain ⟨haccepted, hmap⟩ := mapRun_of_eq_zero hrun
  have hstate := mapState_root (q := q) hfresh
  obtain ⟨entry, hentry⟩ := hmap.installed rfl hstate
  have hpos : 0 < q.size := by
    rw [MapRequest.size]
    split_ifs <;> decide
  obtain ⟨level, hwalk⟩ := hentry.walk_eq _ (agrees_add haccepted hpos)
  rw [Nat.add_zero] at hwalk
  have hneeds : q.Mapped pdConfig s' →
      q.paddrToMap < 2 ^ 36 ∧ s.view.CleanSlot q pdConfig.root := by
    rintro ⟨htranslated, pte, hpte, hplain⟩
    constructor
    · have hzero := htranslated 0 rfl hpos
      rw [Machine.translation_eq, Option.some.injEq] at hzero
      have hlt := s'.view.translate_foundAddr_lt pdConfig (q.vaddrToFind + 0)
      rw [hzero] at hlt
      exact hlt
    · rw [View.walk, hwalk] at hpte
      cases hpte
      exact hentry.isPlain_iff.mp hplain
  refine ⟨hneeds, fun hnarrow => ⟨fun hmapped => ?_, ?_⟩⟩
  · refine ⟨?_, hneeds hmapped⟩
    by_contra hhuge
    -- The second page of a huge page is translated to the first page's address.
    have hsize : 4096 < q.size := by
      rw [MapRequest.size, if_pos (by simpa using hhuge)]
      decide
    have hfirst := hmapped.translated 0 rfl hpos
    have hsecond := hmapped.translated 4096 rfl hsize
    rw [hmap.translation_installed haccepted hfresh hnarrow rfl hpos] at hfirst
    rw [hmap.translation_installed haccepted hfresh hnarrow rfl hsize] at hsecond
    simp only [Option.some.injEq, Translation.mk.injEq] at hfirst hsecond
    omega
  · rintro ⟨hsmall, hlt, hclean⟩
    refine ⟨fun off halign hoff => ?_,
      ⟨level, entry.toPte q.paddrToMap q.paddrTarget⟩, hwalk,
      hentry.isPlain_iff.mpr hclean⟩
    rw [hmap.translation_installed haccepted hfresh hnarrow halign hoff]
    simp only [MapRequest.isAccepted, Bool.and_eq_true, decide_eq_true_eq]
      at haccepted
    rw [MapRequest.size, hsmall, if_neg Bool.false_ne_true] at hoff
    simp only [Option.some.injEq, Translation.mk.injEq, true_and, and_true]
    omega

theorem mapped_iff_emptyTable :
    ∃ s', mapPageDirectory (allocFrom 16) ⟨0x1402⟩ 0x3000 0x7000 .vidMem
        false emptyTable = some (0, s') ∧
      (⟨0x3000, 0x7000, .vidMem, false⟩ : MapRequest).Mapped ⟨0x1402⟩ s' := by
  let q : MapRequest := ⟨0x3000, 0x7000, .vidMem, false⟩
  obtain ⟨s', hrun⟩ := Kernel.exists_of_map_fst
    (x := mapPageDirectory (allocFrom 16) ⟨0x1402⟩ 0x3000 0x7000 .vidMem false)
    (s := emptyTable) (a := 0) (by decide)
  refine ⟨s', hrun, ((mapped_iff (allocFrom 16) ⟨0x1402⟩ q emptyTable s' hrun
    freshPages_emptyTable).2 ?_).mpr ⟨rfl, by decide, fun _ _ =>
      (by decide : Bitfield.get 4 4 (0 : BitVec 64) = 0)⟩⟩
  constructor
  · intro ks m hne hks hpath
    have hvalid := (valid_keysOf (List.range 5) 0x3000).of_initial hks
    exact absurd (hasTable_emptyTable ⟨hvalid, hpath⟩).1 hne
  · rintro mid level post hlevels - - page halloc
    have hlevel : level ∈ List.range 5 := by simp [hlevels]
    rw [List.mem_range] at hlevel
    cases halloc
    simp only
    omega

/-- All of a huge page is translated to the address of its first page. -/
theorem not_mapped_emptyTable :
    FreshPages (allocFrom 16) (List.range 5) emptyTable.view
      (PageDirConfig.root ⟨0x1402⟩) ∧
    ∃ s', mapPageDirectory (allocFrom 16) ⟨0x1402⟩ 0 0x200000 .vidMem true
        emptyTable = some (0, s') ∧
      ¬ (⟨0, 0x200000, .vidMem, true⟩ : MapRequest).Mapped ⟨0x1402⟩ s' := by
  refine ⟨freshPages_emptyTable, ?_⟩
  have hrun : (mapPageDirectory (allocFrom 16) ⟨0x1402⟩ 0 0x200000 .vidMem true
      emptyTable).map (fun r => (r.1, r.2.translation ⟨0x1402⟩ 0x1000)) =
      some (0, some ⟨0, 0x200000, .vidMem⟩) := by
    decide +kernel
  rw [Option.map_eq_some_iff] at hrun
  obtain ⟨⟨ret, s'⟩, hrun, heq⟩ := hrun
  obtain ⟨rfl, htranslation⟩ := Prod.mk.injEq .. ▸ heq
  refine ⟨s', hrun, fun hmapped => ?_⟩
  have hsecond := hmapped.translated 0x1000 rfl (by decide)
  rw [show 0 + 0x1000 = 0x1000 from rfl, htranslation] at hsecond
  exact absurd hsecond (by decide)

end A100Partitioning.Nvdebug
