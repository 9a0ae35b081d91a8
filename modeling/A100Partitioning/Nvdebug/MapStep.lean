import A100Partitioning.Nvdebug.Map
import A100Partitioning.Nvdebug.Search

/-!
# What one step of mapping changes

Linking in a fresh table changes one slot of the page table, from unpopulated to
an empty table; filling in a PTE changes one slot, and for huge pages the unread
half next to it.  Both facts rest on the pages from the allocator being fresh.
-/

namespace A100Partitioning.Nvdebug

open Support RadixTable

/-! ## Tables and fresh pages -/

/-- The keys of all levels. -/
abbrev allKeys : List (List PtKey) := (List.range 5).map keysAt

/-- Following the wide addresses of directory entries along `ks` leads from the
top-level directory to the table `n`. -/
def View.HasTable (v : View) (root : Table) (ks : List PtKey) (n : Table) :
    Prop :=
  Valid ks allKeys ∧ Path (v.slot PageDirEntry.addrW) root ks n

/-- What `dma_map_page` promises about a page: an aligned bus address of at most
58 bits, which is the physical address if there is no I/O MMU. -/
structure DmaPage.WellFormed (page : DmaPage) (v : View) : Prop where
  bus_aligned : page.bus % 4096 = 0
  bus_pos : 0 < page.bus
  bus_lt : page.bus < 2 ^ 58
  frame_pos : 0 < page.frame
  direct : v.iommu = none → page.bus = page.frame * 4096

/-- The table that a new directory entry points to. -/
def DmaPage.table (page : DmaPage) : Table :=
  ⟨page.bus / 4096, .pdSysMemCoherent⟩

/-- The frame that an allocation hands out. -/
def PageAlloc.frame? : PageAlloc → Option ℕ
  | .exhausted => none
  | .unmapped frame => some frame
  | .mapped page => some page.frame

/-- The pages handed out for the given levels are well formed, distinct, and
neither hold nor have the bus address of a table in use. -/
structure FreshPages (alloc : ℕ → PageAlloc) (levels : List ℕ) (v : View)
    (root : Table) : Prop where
  wellFormed : ∀ level ∈ levels, ∀ page, alloc level = .mapped page →
    page.WellFormed v
  bus_ne : ∀ level ∈ levels, ∀ page, alloc level = .mapped page →
    ∀ ks n, v.HasTable root ks n →
      n.target = .pdVidMem ∨ n.page ≠ page.bus / 4096
  frame_ne : ∀ level ∈ levels, ∀ frame, (alloc level).frame? = some frame →
    ∀ ks n k l, v.HasTable root ks n → Valid (ks ++ [k]) allKeys →
      v.entryLoc n k = .at l → ¬ l.InFrame frame
  bus_inj : levels.Pairwise fun a b => ∀ page page', alloc a = .mapped page →
    alloc b = .mapped page' → page.bus ≠ page'.bus
  frame_inj : levels.Pairwise fun a b => ∀ frame frame',
    (alloc a).frame? = some frame → (alloc b).frame? = some frame' →
      frame ≠ frame'

/-! ## Keys of a level -/

theorem key_of_valid {level m : ℕ} {ks : List PtKey} {k : PtKey}
    (h : Valid (ks ++ [k]) ((List.range' level m).map keysAt)) :
    k.level = level + ks.length ∧ k.level < level + m ∧ k.idx < ptSz k.level := by
  induction ks generalizing level m with
  | nil =>
      cases m with
      | zero => cases h
      | succ m =>
          cases h with
          | cons mem rest =>
              obtain ⟨hlevel, hidx⟩ := mem_keysAt.mp mem
              rw [hlevel]
              exact ⟨rfl, by omega, hidx⟩
  | cons k' ks ih =>
      cases m with
      | zero => cases h
      | succ m =>
          cases h with
          | cons mem rest =>
              obtain ⟨hlevel, hlt, hidx⟩ := ih rest
              rw [List.length_cons]
              exact ⟨by omega, by omega, hidx⟩

/-- A key after a path belongs to the level that the path ends at. -/
theorem level_of_valid {ks : List PtKey} {k : PtKey}
    (h : Valid (ks ++ [k]) allKeys) : k.level = ks.length := by
  rw [allKeys, List.range_eq_range'] at h
  simpa using (key_of_valid h).1

theorem inRange_of_valid {ks : List PtKey} {k : PtKey}
    (h : Valid (ks ++ [k]) allKeys) : k.InRange := by
  rw [allKeys, List.range_eq_range'] at h
  obtain ⟨-, hlt, hidx⟩ := key_of_valid h
  exact ⟨by simpa using hlt, hidx⟩

/-! ## Linking in a table -/

theorem ptHalf_le (level : ℕ) : ptHalf level ≤ 8 := by
  rw [ptHalf]
  split <;> omega

section LinkView

variable {v : View} {n : Table} {k : PtKey} {l : Loc} {entry : PageDirEntry}
variable {page : DmaPage}

/-- Linking does not change dereferences outside the new page's bus address. -/
theorem deref_link {addr : ℕ} {pdAp : PdTarget}
    (hne : pdAp = .pdVidMem ∨ addr / 4096 ≠ page.bus / 4096) :
    (v.link n k l entry page).deref addr pdAp = v.deref addr pdAp := by
  by_cases hvid : pdAp = .pdVidMem
  · simp only [View.deref, hvid, if_true]
    rfl
  have hpage := hne.resolve_left hvid
  have hbus : (v.link n k l entry page).busLoc addr = v.busLoc addr := by
    simp only [Core.busLoc, View.link, View.write, Core.track, Core.dmaMap,
      Core.zeroFrame]
    cases v.iommu with
    | none => rfl
    | some dom =>
        simp only [Option.map_some, iommuIovaToPhys,
          Function.update_of_ne hpage]
  simp only [View.deref, hbus, if_neg hvid]

/-- Linking does not move the entries of a table with another bus address. -/
theorem entryLoc_link {m : Table} (k' : PtKey)
    (hne : m.target = .pdVidMem ∨ m.page ≠ page.bus / 4096) :
    (v.link n k l entry page).entryLoc m k' = v.entryLoc m k' := by
  have hhalf := ptHalf_le k'.level
  have hdiv : (m.base + ptHalf k'.level) / 4096 = m.page := by
    simp only [Table.base]
    omega
  rw [View.entryLoc, View.entryLoc, deref_link (by rwa [hdiv])]

theorem busLoc_link_self (hpage : page.WellFormed v) {addr : ℕ}
    (heq : addr / 4096 = page.bus / 4096) :
    (v.link n k l entry page).busLoc addr =
      ⟨.sysmem, page.frame * 4096 + addr % 4096⟩ := by
  have halign := hpage.bus_aligned
  have hdirect := hpage.direct
  simp only [Core.busLoc, View.link, View.write, Core.track, Core.dmaMap,
    Core.zeroFrame]
  cases hdom : v.iommu with
  | none =>
      have hbus := hdirect hdom
      simp only [Option.map_none, Loc.mk.injEq, true_and]
      omega
  | some dom =>
      simp only [Option.map_some, iommuIovaToPhys, heq, Function.update_self,
        if_neg hpage.frame_pos.ne']

theorem entryLoc_link_new (hpage : page.WellFormed v) (k' : PtKey) :
    (v.link n k l entry page).entryLoc page.table k' =
      .at ⟨.sysmem, page.frame * 4096 + ptHalf k'.level + k'.offset⟩ := by
  have hhalf := ptHalf_le k'.level
  have halign := hpage.bus_aligned
  have hpos := hpage.bus_pos
  have hframe := hpage.frame_pos
  have hbase : page.bus / 4096 * 4096 = page.bus := by omega
  have hdiv : (page.bus + ptHalf k'.level) / 4096 = page.bus / 4096 := by omega
  have hmod : (page.bus + ptHalf k'.level) % 4096 = ptHalf k'.level := by omega
  have hbus : (v.link n k l entry page).busLoc (page.bus + ptHalf k'.level) =
      ⟨.sysmem, page.frame * 4096 + ptHalf k'.level⟩ := by
    rw [busLoc_link_self hpage hdiv, hmod]
  have hderef : (v.link n k l entry page).deref (page.bus + ptHalf k'.level)
      .pdSysMemCoherent =
      .at ⟨.sysmem, page.frame * 4096 + ptHalf k'.level⟩ := by
    have hne : page.bus + ptHalf k'.level ≠ 0 := by omega
    have haddr : page.frame * 4096 + ptHalf k'.level ≠ 0 := by omega
    have hguard : (!PdTarget.pdSysMemCoherent.isPdTarget ||
        PdTarget.pdSysMemCoherent == .pdInvalid ||
        page.bus + ptHalf k'.level == 0) = false := by
      rw [beq_eq_false_iff_ne.mpr hne]
      rfl
    rw [View.deref, hguard, if_neg Bool.false_ne_true, if_neg (by decide), hbus,
      if_neg haddr]
  rw [View.entryLoc]
  simp only [DmaPage.table, Table.base, hbase, hderef, Loc.add]

theorem mem_link (l' : Loc) :
    (v.link n k l entry page).mem l' =
      if l' = l then (entry.toPde page.bus).rawW
      else if l'.InFrame page.frame then 0 else v.mem l' := by
  by_cases h : l' = l
  · rw [if_pos h, h]
    exact View.write_mem_self _ _ _
  · rw [if_neg h]
    exact View.write_mem_of_ne _ _ h

theorem toPde_addrW_of_wellFormed (hpage : page.WellFormed v) :
    (entry.toPde page.bus).addrW = page.bus / 4096 := by
  have hlt := hpage.bus_lt
  rw [PageDirEntry.toPde_addrW]
  omega

theorem inFrame_of_entryLoc_link {k' : PtKey} {l' : Loc}
    (hpage : page.WellFormed v) (hk' : k'.InRange)
    (hl' : (v.link n k l entry page).entryLoc page.table k' = .at l') :
    l'.InFrame page.frame := by
  have hoff := offset_lt hk'
  rw [entryLoc_link_new hpage] at hl'
  cases hl'
  refine ⟨rfl, ?_⟩
  simp only
  omega

theorem slot_link_new (k' : PtKey) (hpage : page.WellFormed v)
    (hk' : k'.InRange) (hout : ¬ l.InFrame page.frame) :
    ∃ l', l'.InFrame page.frame ∧
      (v.link n k l entry page).slot PageDirEntry.addrW page.table k' =
        .miss (.absent l' ⟨0⟩) := by
  obtain ⟨l', hnew⟩ : ∃ l', (v.link n k l entry page).entryLoc page.table k' =
      .at l' := ⟨_, entryLoc_link_new hpage k'⟩
  have hin := inFrame_of_entryLoc_link hpage hk' hnew
  have hne : l' ≠ l := by
    rintro rfl
    exact hout hin
  refine ⟨l', hin, ?_⟩
  simp only [View.slot, hnew, mem_link]
  rw [if_neg hne, if_pos hin]
  exact slotOfEntry_of_invalid PageDirEntry.isInvalid_zero

theorem slot_link {m : Table} {k' : PtKey} (hpage : page.WellFormed v)
    (hne : m.target = .pdVidMem ∨ m.page ≠ page.bus / 4096)
    (hout : ∀ l', v.entryLoc m k' = .at l' → ¬ l'.InFrame page.frame) :
    v.entryLoc m k' = .at l ∧
        (v.link n k l entry page).slot PageDirEntry.addrW m k' =
          .table page.table ∨
      v.entryLoc m k' ≠ .at l ∧
        (v.link n k l entry page).slot PageDirEntry.addrW m k' =
          v.slot PageDirEntry.addrW m k' := by
  simp only [View.slot, entryLoc_link k' hne]
  cases hloc : v.entryLoc m k' with
  | null => exact .inr ⟨by simp, rfl⟩
  | err e => exact .inr ⟨by simp, rfl⟩
  | «at» l' =>
      simp only [mem_link]
      by_cases hl : l' = l
      · subst hl
        refine .inl ⟨rfl, ?_⟩
        rw [if_pos rfl, slotOfEntry_of_pde (PageDirEntry.toPde_isInvalid _ _)
          (PageDirEntry.toPde_isPte _ _), toPde_addrW_of_wellFormed hpage,
          PageDirEntry.toPde_target, DmaPage.table]
      · refine .inr ⟨by simpa using hl, ?_⟩
        rw [if_neg hl, if_neg (hout l' hloc)]

end LinkView

/-- A step of the loop that links in a fresh table. -/
structure LinkStep (alloc : ℕ → PageAlloc) (levels : List ℕ) (v : View)
    (root n : Table) (pre : List PtKey) (k : PtKey) (l : Loc)
    (page : DmaPage) : Prop where
  fresh : FreshPages alloc levels v root
  mem : k.level ∈ levels
  alloc_eq : alloc k.level = .mapped page
  hasTable : v.HasTable root pre n
  valid : Valid (pre ++ [k]) allKeys
  loc : v.entryLoc n k = .at l
  invalid : (PageDirEntry.mk (v.mem l)).isInvalid = true

namespace LinkStep

variable {alloc : ℕ → PageAlloc} {levels : List ℕ} {v : View} {root n : Table}
variable {pre : List PtKey} {k : PtKey} {l : Loc} {page : DmaPage}

theorem wellFormed (h : LinkStep alloc levels v root n pre k l page) :
    page.WellFormed v :=
  h.fresh.wellFormed k.level h.mem page h.alloc_eq

theorem frame_ne (h : LinkStep alloc levels v root n pre k l page)
    {ks : List PtKey} {m : Table} {k' : PtKey} {l' : Loc}
    (hm : v.HasTable root ks m) (hk' : Valid (ks ++ [k']) allKeys)
    (hl' : v.entryLoc m k' = .at l') : ¬ l'.InFrame page.frame :=
  h.fresh.frame_ne k.level h.mem page.frame (by rw [h.alloc_eq]; rfl) ks m k' l'
    hm hk' hl'

theorem slot_or (h : LinkStep alloc levels v root n pre k l page)
    {ks : List PtKey} {m : Table} {k' : PtKey} (hm : v.HasTable root ks m)
    (hk' : Valid (ks ++ [k']) allKeys) :
    v.entryLoc m k' = .at l ∧
        v.slot PageDirEntry.addrW m k' = .miss (.absent l ⟨v.mem l⟩) ∧
        (v.link n k l ⟨v.mem l⟩ page).slot PageDirEntry.addrW m k' =
          .table page.table ∨
      v.entryLoc m k' ≠ .at l ∧
        (v.link n k l ⟨v.mem l⟩ page).slot PageDirEntry.addrW m k' =
          v.slot PageDirEntry.addrW m k' := by
  rcases slot_link (n := n) (k := k) (l := l) h.wellFormed
    (h.fresh.bus_ne k.level h.mem page h.alloc_eq ks m hm)
    (fun l' => h.frame_ne hm hk') with ⟨hl, hslot⟩ | hkeep
  · refine .inl ⟨hl, ?_, hslot⟩
    simp only [View.slot, hl]
    exact slotOfEntry_of_invalid h.invalid
  · exact .inr hkeep

/-- Linking in a fresh page at an unpopulated entry changes that slot only. -/
theorem linkedIn (h : LinkStep alloc levels v root n pre k l page) :
    LinkedIn (v.slot PageDirEntry.addrW)
      ((v.link n k l ⟨v.mem l⟩ page).slot PageDirEntry.addrW) allKeys root
      page.table where
  keep ks m k' hvalid hpath := by
    rcases h.slot_or ⟨hvalid.of_initial (List.prefix_append _ _), hpath⟩ hvalid
      with ⟨-, hmiss, hlink⟩ | ⟨-, hkeep⟩
    · exact .inr ⟨hlink, _, hmiss⟩
    · exact .inl hkeep
  empty ks k' hvalid := by
    obtain ⟨l', -, hslot⟩ := @slot_link_new _ n k _ _ _ _
      h.wellFormed (inRange_of_valid hvalid)
      (h.frame_ne h.hasTable h.valid h.loc)
    exact ⟨_, hslot⟩

/-- The tables after linking: those in use before, and the new one at entries
that were unpopulated. -/
theorem hasTable_or (h : LinkStep alloc levels v root n pre k l page)
    {ks : List PtKey} {m : Table}
    (hm : (v.link n k l ⟨v.mem l⟩ page).HasTable root ks m) :
    v.HasTable root ks m ∨ m = page.table ∧ ∃ pre' p k', ks = pre' ++ [k'] ∧
      v.HasTable root pre' p ∧ v.entryLoc p k' = .at l := by
  obtain ⟨hvalid, hpath⟩ := hm
  rcases h.linkedIn.path_or hvalid hpath with
    hold | ⟨rfl, pre', p, k', r, rfl, hp, hlink, hmiss⟩
  · exact .inl ⟨hvalid, hold⟩
  · have hp' : v.HasTable root pre' p :=
      ⟨hvalid.of_initial (List.prefix_append _ _), hp⟩
    refine .inr ⟨rfl, pre', p, k', rfl, hp', ?_⟩
    rcases h.slot_or hp' hvalid with ⟨hl, -⟩ | ⟨-, hkeep⟩
    · exact hl
    · rw [hlink, hmiss] at hkeep
      cases hkeep

theorem hasTable_of (h : LinkStep alloc levels v root n pre k l page)
    {ks : List PtKey} {m : Table} (hm : v.HasTable root ks m) :
    (v.link n k l ⟨v.mem l⟩ page).HasTable root ks m :=
  ⟨hm.1, h.linkedIn.path hm.1 hm.2⟩

theorem hasTable_new (h : LinkStep alloc levels v root n pre k l page) :
    (v.link n k l ⟨v.mem l⟩ page).HasTable root (pre ++ [k]) page.table := by
  refine ⟨h.valid, (h.hasTable_of h.hasTable).2.snoc ?_⟩
  rcases h.slot_or h.hasTable h.valid with ⟨-, -, hlink⟩ | ⟨hne, -⟩
  · exact hlink
  · exact absurd h.loc hne

theorem entryLoc_or (h : LinkStep alloc levels v root n pre k l page)
    {ks : List PtKey} {m : Table} {k' : PtKey} {l' : Loc}
    (hm : (v.link n k l ⟨v.mem l⟩ page).HasTable root ks m)
    (hk' : Valid (ks ++ [k']) allKeys)
    (hl' : (v.link n k l ⟨v.mem l⟩ page).entryLoc m k' = .at l') :
    v.HasTable root ks m ∧ v.entryLoc m k' = .at l' ∨
      m = page.table ∧ l'.InFrame page.frame := by
  rcases h.hasTable_or hm with hold | ⟨rfl, -⟩
  · refine .inl ⟨hold, ?_⟩
    rwa [entryLoc_link k'
      (h.fresh.bus_ne k.level h.mem page h.alloc_eq ks m hold)] at hl'
  · exact .inr ⟨rfl, inFrame_of_entryLoc_link h.wellFormed
      (inRange_of_valid hk') hl'⟩

end LinkStep

theorem FreshPages.tail {alloc : ℕ → PageAlloc} {level : ℕ} {levels : List ℕ}
    {v : View} {root : Table} (h : FreshPages alloc (level :: levels) v root) :
    FreshPages alloc levels v root where
  wellFormed level' hlevel := h.wellFormed level' (by simp [hlevel])
  bus_ne level' hlevel := h.bus_ne level' (by simp [hlevel])
  frame_ne level' hlevel := h.frame_ne level' (by simp [hlevel])
  bus_inj := (List.pairwise_cons.mp h.bus_inj).2
  frame_inj := (List.pairwise_cons.mp h.frame_inj).2

theorem LinkStep.fresh_rest {alloc : ℕ → PageAlloc} {level : ℕ}
    {levels : List ℕ} {v : View} {root n : Table} {pre : List PtKey} {i : ℕ}
    {l : Loc} {page : DmaPage}
    (h : LinkStep alloc (level :: levels) v root n pre ⟨level, i⟩ l page) :
    FreshPages alloc levels (v.link n ⟨level, i⟩ l ⟨v.mem l⟩ page) root where
  wellFormed level' hlevel page' halloc := by
    obtain ⟨halign, hpos, hlt, hframe, hdirect⟩ :=
      h.fresh.wellFormed level' (by simp [hlevel]) page' halloc
    refine ⟨halign, hpos, hlt, hframe, fun hnone => hdirect ?_⟩
    exact Option.map_eq_none_iff.mp hnone
  bus_ne level' hlevel page' halloc ks m hm := by
    rcases h.hasTable_or hm with hold | ⟨rfl, -⟩
    · exact h.fresh.bus_ne level' (by simp [hlevel]) page' halloc ks m hold
    · have hne := (List.pairwise_cons.mp h.fresh.bus_inj).1 level' hlevel page
        page' h.alloc_eq halloc
      have halign := h.wellFormed.bus_aligned
      have halign' := (h.fresh.wellFormed level' (by simp [hlevel]) page'
        halloc).bus_aligned
      right
      simp only [DmaPage.table]
      omega
  frame_ne level' hlevel frame halloc ks m k' l' hm hk' hl' := by
    rcases h.entryLoc_or hm hk' hl' with ⟨hold, hloc⟩ | ⟨rfl, hin⟩
    · exact h.fresh.frame_ne level' (by simp [hlevel]) frame halloc ks m k' l'
        hold hk' hloc
    · have hne := (List.pairwise_cons.mp h.fresh.frame_inj).1 level' hlevel
        page.frame frame (by rw [h.alloc_eq]; rfl) halloc
      rintro ⟨-, hdiv⟩
      exact hne (hin.2.symm.trans hdiv)
  bus_inj := (List.pairwise_cons.mp h.fresh.bus_inj).2
  frame_inj := (List.pairwise_cons.mp h.fresh.frame_inj).2

end A100Partitioning.Nvdebug
