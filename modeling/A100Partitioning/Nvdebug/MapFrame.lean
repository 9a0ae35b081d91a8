import A100Partitioning.Nvdebug.MapStep

/-!
# What mapping a page leaves alone

In a page table that is a tree, the location of an entry determines its table
and index.  A run of `map_page_directory` then changes the translation of the
requested page only, and of no page if it fails.  The one thing it does not
leave alone is the first half of a level-3 entry, which huge mappings overwrite
unread.
-/

namespace A100Partitioning.Nvdebug

open Support RadixTable

/-! ## Trees -/

/-- No directory page is reached by two index paths. -/
def View.IsTree (v : View) (root : Table) : Prop :=
  ∀ ks ks' n n' k k' l l', v.HasTable root ks n → v.HasTable root ks' n' →
    Valid (ks ++ [k]) allKeys → Valid (ks' ++ [k']) allKeys →
    v.entryLoc n k = .at l → v.entryLoc n' k' = .at l' →
    l.space = l'.space → l.addr / 4096 = l'.addr / 4096 → ks = ks'

/-- All directory pages have addresses below `2 ^ 36`. -/
def View.Narrow (v : View) (root : Table) : Prop :=
  ∀ ks n, v.HasTable root ks n → n.page < 2 ^ 24

theorem View.exists_of_entryLoc {v : View} {n : Table} {k : PtKey} {l : Loc}
    (h : v.entryLoc n k = .at l) :
    ∃ l₀, v.deref (n.base + ptHalf k.level) n.target = .at l₀ ∧
      l = l₀.add k.offset ∧ l₀.addr % 4096 = ptHalf k.level := by
  rw [View.entryLoc] at h
  cases hd : v.deref (n.base + ptHalf k.level) n.target with
  | null => simp [hd] at h
  | err e => simp [hd] at h
  | «at» l₀ =>
      rw [hd] at h
      cases h
      refine ⟨l₀, rfl, rfl, ?_⟩
      have hhalf := ptHalf_le k.level
      rw [View.addr_mod_of_deref hd, Table.base]
      omega

theorem PtKey.eq_of_offset_eq {k k' : PtKey} (hlevel : k.level = k'.level)
    (hoffset : k.offset = k'.offset) : k = k' := by
  obtain ⟨level, i⟩ := k
  obtain ⟨level', i'⟩ := k'
  simp only at hlevel
  subst hlevel
  have hpos : 0 < ptEntrySz level := by
    rcases level with _ | _ | _ | _ | _ | level <;>
      simp [ptEntrySz, nvMmuPtV2EntrySz]
  simpa [PtKey.offset, hpos.ne'] using hoffset

/-- In a tree, tables whose entries share a page are the same table. -/
theorem View.IsTree.eq_of_page {v : View} {root n n' : Table}
    {ks ks' : List PtKey} {k k' : PtKey} {l l' : Loc} (htree : v.IsTree root)
    (hn : v.HasTable root ks n) (hn' : v.HasTable root ks' n')
    (hk : Valid (ks ++ [k]) allKeys) (hk' : Valid (ks' ++ [k']) allKeys)
    (hl : v.entryLoc n k = .at l) (hl' : v.entryLoc n' k' = .at l')
    (hspace : l.space = l'.space) (hpage : l.addr / 4096 = l'.addr / 4096) :
    ks = ks' ∧ n = n' ∧ k.level = k'.level := by
  have hks := htree ks ks' n n' k k' l l' hn hn' hk hk' hl hl' hspace hpage
  subst hks
  exact ⟨rfl, hn.2.unique hn'.2,
    (level_of_valid hk).trans (level_of_valid hk').symm⟩

/-- In a tree, the location of an entry determines table and index. -/
theorem View.IsTree.eq_of_loc {v : View} {root n n' : Table}
    {ks ks' : List PtKey} {k k' : PtKey} {l : Loc} (htree : v.IsTree root)
    (hn : v.HasTable root ks n) (hn' : v.HasTable root ks' n')
    (hk : Valid (ks ++ [k]) allKeys) (hk' : Valid (ks' ++ [k']) allKeys)
    (hl : v.entryLoc n k = .at l) (hl' : v.entryLoc n' k' = .at l) :
    ks = ks' ∧ n = n' ∧ k = k' := by
  obtain ⟨rfl, rfl, hlevel⟩ := htree.eq_of_page hn hn' hk hk' hl hl' rfl rfl
  refine ⟨rfl, rfl, PtKey.eq_of_offset_eq hlevel ?_⟩
  obtain ⟨l₀, hd, rfl, -⟩ := View.exists_of_entryLoc hl
  obtain ⟨l₁, hd', heq, -⟩ := View.exists_of_entryLoc hl'
  rw [hlevel, hd'] at hd
  cases hd
  simpa [Loc.add] using heq

/-- A narrow pointer leads the same way in both address fields. -/
theorem slot_addr_eq_addrW {v : View} {n : Table} {k : PtKey}
    (hnarrow : ∀ m, v.slot PageDirEntry.addrW n k = .table m →
      m.page < 2 ^ 24) :
    v.slot PageDirEntry.addr n k = v.slot PageDirEntry.addrW n k := by
  revert hnarrow
  simp only [View.slot]
  cases v.entryLoc n k with
  | null => exact fun _ => rfl
  | err e => exact fun _ => rfl
  | «at» l =>
      simp only [slotOfEntry]
      split_ifs
      · exact fun _ => rfl
      · exact fun _ => rfl
      · intro hnarrow
        have hlt := hnarrow _ rfl
        simp only at hlt
        rw [PageDirEntry.addr_eq_addrW_mod, Nat.mod_eq_of_lt hlt]

theorem View.Narrow.walk_addr_eq {v : View} {root : Table}
    (hnarrow : v.Narrow root) (vaddr : ℕ) :
    v.walk PageDirEntry.addr (List.range 5) vaddr root =
      v.walk PageDirEntry.addrW (List.range 5) vaddr root := by
  have hvalid := valid_keysOf (List.range 5) vaddr
  refine walk_congr ?_ (.nil root)
  intro p k pre hinitial hpath
  exact slot_addr_eq_addrW fun m hm =>
    hnarrow (pre ++ [k]) m ⟨hvalid.of_initial hinitial, hpath.snoc hm⟩

/-! ## Steps in a tree -/

namespace LinkStep

variable {alloc : ℕ → PageAlloc} {levels : List ℕ} {v : View} {root n : Table}
variable {pre : List PtKey} {k : PtKey} {l : Loc} {page : DmaPage}

/-- Where the entries of a table lie after linking, in a tree. -/
theorem entryLoc_or_of_isTree
    (h : LinkStep alloc levels v root n pre k l page) (htree : v.IsTree root)
    {ks : List PtKey} {m : Table} {k' : PtKey} {l' : Loc}
    (hm : (v.link n k l ⟨v.mem l⟩ page).HasTable root ks m)
    (hk' : Valid (ks ++ [k']) allKeys)
    (hl' : (v.link n k l ⟨v.mem l⟩ page).entryLoc m k' = .at l') :
    v.HasTable root ks m ∧ v.entryLoc m k' = .at l' ∨
      ks = pre ++ [k] ∧ l'.InFrame page.frame := by
  rcases h.hasTable_or hm with hold | ⟨rfl, pre', p, k₀, rfl, hp, hl⟩
  · refine .inl ⟨hold, ?_⟩
    rwa [entryLoc_link k'
      (h.fresh.bus_ne k.level h.mem page h.alloc_eq ks m hold)] at hl'
  · obtain ⟨rfl, -, rfl⟩ := htree.eq_of_loc hp h.hasTable hm.1 h.valid hl h.loc
    exact .inr ⟨rfl, inFrame_of_entryLoc_link h.wellFormed
      (inRange_of_valid hk') hl'⟩

theorem isTree (h : LinkStep alloc levels v root n pre k l page)
    (htree : v.IsTree root) : (v.link n k l ⟨v.mem l⟩ page).IsTree root := by
  intro ks ks' m m' i i' l₁ l₂ hm hm' hi hi' hl₁ hl₂ hspace hpage
  rcases h.entryLoc_or_of_isTree htree hm hi hl₁ with ⟨hold, hloc⟩ | ⟨hks, hin⟩ <;>
    rcases h.entryLoc_or_of_isTree htree hm' hi' hl₂ with
      ⟨hold', hloc'⟩ | ⟨hks', hin'⟩
  · exact htree ks ks' m m' i i' l₁ l₂ hold hold' hi hi' hloc hloc' hspace hpage
  · exact absurd ⟨hspace.trans hin'.1, hpage.trans hin'.2⟩
      (h.frame_ne hold hi hloc)
  · exact absurd ⟨hspace.symm.trans hin.1, hpage.symm.trans hin.2⟩
      (h.frame_ne hold' hi' hloc')
  · rw [hks, hks']

theorem narrow (h : LinkStep alloc levels v root n pre k l page)
    (hnarrow : v.Narrow root) (hbus : page.bus < 2 ^ 36) :
    (v.link n k l ⟨v.mem l⟩ page).Narrow root := by
  intro ks m hm
  rcases h.hasTable_or hm with hold | ⟨rfl, -⟩
  · exact hnarrow ks m hold
  · simp only [DmaPage.table]
    omega

/-- Linking in an empty table above the last level changes no translation. -/
theorem translationOf_walk (h : LinkStep alloc levels v root n pre k l page)
    (htree : v.IsTree root) (hinner : k.level ≠ 4) {keys : List PtKey}
    (hkeys : Valid keys allKeys) (hlen : keys.length = 5) :
    translationOf (RadixTable.walk
        ((v.link n k l ⟨v.mem l⟩ page).slot PageDirEntry.addrW) .overrun keys
        root) =
      translationOf (RadixTable.walk (v.slot PageDirEntry.addrW) .overrun keys
        root) := by
  rcases h.linkedIn.walk_or hkeys with
    heq | ⟨pre', k', post, p, r, rfl, hwalk, hp, hmiss, hlink, hwalk'⟩
  · rw [heq]
  have hk' : Valid (pre' ++ [k']) allKeys :=
    hkeys.of_initial ⟨post, by simp⟩
  have hp' : v.HasTable root pre' p :=
    ⟨hk'.of_initial (List.prefix_append _ _), hp⟩
  rcases h.slot_or hp' hk' with ⟨hl, habsent, -⟩ | ⟨-, hkeep⟩
  · obtain ⟨rfl, rfl, rfl⟩ := htree.eq_of_loc hp' h.hasTable hk' h.valid hl h.loc
    rw [habsent] at hmiss
    cases hmiss
    have hlevel := level_of_valid hk'
    cases post with
    | nil =>
        simp at hlen
        omega
    | cons k'' post =>
        obtain ⟨l', -, hnew⟩ := slot_link_new (n := p) (k := k') k''
          h.wellFormed
          (inRange_of_valid (@Valid.of_initial _ (pre' ++ [k'] ++ [k'']) _ _ hkeys
            ⟨post, by simp⟩))
          (h.frame_ne h.hasTable h.valid h.loc)
        rw [hwalk, hwalk', RadixTable.walk, hnew]
        rfl
  · rw [hlink, hmiss] at hkeep
    cases hkeep

end LinkStep

/-- Zeroing a frame that holds no table in use changes no walk. -/
theorem walk_zeroFrame {alloc : ℕ → PageAlloc} {levels : List ℕ} {v : View}
    {root : Table} {level frame : ℕ} (hfresh : FreshPages alloc levels v root)
    (hlevel : level ∈ levels) (halloc : (alloc level).frame? = some frame)
    {keys : List PtKey} (hkeys : Valid keys allKeys) :
    RadixTable.walk ((v.zeroFrame frame).slot PageDirEntry.addrW) .overrun keys
        root =
      RadixTable.walk (v.slot PageDirEntry.addrW) .overrun keys root := by
  refine walk_congr ?_ (.nil root)
  intro p k pre hinitial hpath
  have hk := hkeys.of_initial hinitial
  have hp : v.HasTable root pre p :=
    ⟨hk.of_initial (List.prefix_append _ _), hpath⟩
  have hloc : (v.zeroFrame frame).entryLoc p k = v.entryLoc p k := rfl
  simp only [View.slot, hloc]
  cases hl : v.entryLoc p k with
  | null => rfl
  | err e => rfl
  | «at» l =>
      have hout := hfresh.frame_ne level hlevel frame halloc pre p k l hp hk hl
      have hmem : (v.zeroFrame frame).mem l = v.mem l := if_neg hout
      simp only [hmem]

/-! ## Filling in a PTE -/

section Install

variable {v : View} {q : MapRequest} {l : Loc} {entry : PageDirEntry}

theorem mem_install (level : ℕ) (l' : Loc) :
    (v.install q level l entry).mem l' =
      if l' = l ∨ level = 3 ∧ l' = { l with addr := l.addr - 8 } then
        (entry.toPte q.paddrToMap q.paddrTarget).rawW
      else v.mem l' := by
  by_cases hl : l' = l
  · subst hl
    simp [View.install]
  rw [View.install, View.write_mem_of_ne _ _ hl]
  by_cases hthree : level = 3
  · by_cases hhalf : l' = { l with addr := l.addr - 8 }
    · rw [if_pos hthree, if_pos (.inr ⟨hthree, hhalf⟩), hhalf,
        View.write_mem_self]
    · rw [if_pos hthree, View.write_mem_of_ne _ _ hhalf,
        if_neg (by simp [hl, hhalf])]
  · rw [if_neg hthree, if_neg (by simp [hl, hthree])]

@[simp] theorem entryLoc_install (level : ℕ) (n : Table) (k : PtKey) :
    (v.install q level l entry).entryLoc n k = v.entryLoc n k := by
  rw [View.install]
  split <;> rfl

end Install

/-- The half in front of a level-3 entry is no entry of a tree. -/
theorem View.IsTree.half_ne {v : View} {root n n' : Table} {ks ks' : List PtKey}
    {k k' : PtKey} {l l' : Loc} (htree : v.IsTree root)
    (hn : v.HasTable root ks n) (hn' : v.HasTable root ks' n')
    (hk : Valid (ks ++ [k]) allKeys) (hk' : Valid (ks' ++ [k']) allKeys)
    (hl : v.entryLoc n k = .at l) (hl' : v.entryLoc n' k' = .at l')
    (hthree : k.level = 3) : l' ≠ { l with addr := l.addr - 8 } := by
  rintro rfl
  obtain ⟨l₀, hd, rfl, hmod⟩ := View.exists_of_entryLoc hl
  have hoff := offset_lt (inRange_of_valid hk)
  have hhalf : ptHalf k.level = 8 := by rw [hthree]; rfl
  obtain ⟨rfl, rfl, hlevel⟩ := htree.eq_of_page hn' hn hk' hk hl' hl rfl
    (by simp only [Loc.add]; omega)
  obtain ⟨l₁, hd', heq, -⟩ := View.exists_of_entryLoc hl'
  rw [hlevel, hd] at hd'
  cases hd'
  simp only [Loc.add, Loc.mk.injEq, true_and, PtKey.offset, hlevel, hthree] at heq
  simp only [show ptEntrySz 3 = 16 from rfl] at heq
  omega

/-- In a tree, filling in a PTE changes the walks through its entry only. -/
theorem walk_install {v : View} {root n : Table} {pre : List PtKey} {k : PtKey}
    {l : Loc} {q : MapRequest} {entry : PageDirEntry} (htree : v.IsTree root)
    (hn : v.HasTable root pre n) (hk : Valid (pre ++ [k]) allKeys)
    (hl : v.entryLoc n k = .at l) {keys : List PtKey}
    (hkeys : Valid keys allKeys) (hout : ¬ pre ++ [k] <+: keys) :
    RadixTable.walk ((v.install q k.level l entry).slot PageDirEntry.addrW)
        .overrun keys root =
      RadixTable.walk (v.slot PageDirEntry.addrW) .overrun keys root := by
  refine walk_congr ?_ (.nil root)
  intro p k' pre' hinitial hpath
  have hk' := hkeys.of_initial hinitial
  have hp : v.HasTable root pre' p :=
    ⟨hk'.of_initial (List.prefix_append _ _), hpath⟩
  simp only [View.slot, entryLoc_install]
  cases hl' : v.entryLoc p k' with
  | null => rfl
  | err e => rfl
  | «at» l' =>
      have hne : l' ≠ l := by
        rintro rfl
        obtain ⟨rfl, -, rfl⟩ := htree.eq_of_loc hp hn hk' hk hl' hl
        exact hout hinitial
      have hhalf : ¬ (k.level = 3 ∧ l' = { l with addr := l.addr - 8 }) :=
        fun h => htree.half_ne hn hp hk hk' hl hl' h.1 h.2
      simp only [mem_install, if_neg (not_or.mpr ⟨hne, hhalf⟩)]

/-! ## Runs in a tree -/

theorem View.HasTable.step {v : View} {root n : Table} {pre : List PtKey}
    {k : PtKey} {l : Loc} (hn : v.HasTable root pre n)
    (hk : Valid (pre ++ [k]) allKeys) (hloc : v.entryLoc n k = .at l)
    (hvalid : (PageDirEntry.mk (v.mem l)).isInvalid = false)
    (hpte : (PageDirEntry.mk (v.mem l)).isPte = false) :
    v.HasTable root (pre ++ [k])
      ⟨(PageDirEntry.mk (v.mem l)).addrW, (PageDirEntry.mk (v.mem l)).target⟩ := by
  refine ⟨hk, hn.2.snoc ?_⟩
  rw [View.slot_of_loc hloc, slotOfEntry_of_pde hvalid hpte]

/-- A change that creates no directory entry creates no table. -/
theorem View.HasTable.of_slot {v v' : View} {root m : Table} {ks : List PtKey}
    (hslot : ∀ p k p', v'.slot PageDirEntry.addrW p k = .table p' →
      v.slot PageDirEntry.addrW p k = .table p')
    (hm : v'.HasTable root ks m) : v.HasTable root ks m :=
  ⟨hm.1, Path.mono
    (fun p k p' _ _ _ hstep => hslot p k p' hstep) (.nil root) hm.2⟩

theorem slot_of_slot_zeroFrame {v : View} {frame : ℕ} {p p' : Table} {k : PtKey}
    (h : (v.zeroFrame frame).slot PageDirEntry.addrW p k = .table p') :
    v.slot PageDirEntry.addrW p k = .table p' := by
  have hloc : (v.zeroFrame frame).entryLoc p k = v.entryLoc p k := rfl
  simp only [View.slot, hloc] at h ⊢
  cases hl : v.entryLoc p k with
  | null => simp [hl] at h
  | err e => simp [hl] at h
  | «at» l =>
      simp only [hl] at h ⊢
      by_cases hin : l.InFrame frame
      · have hmem : (v.zeroFrame frame).mem l = 0 := if_pos hin
        rw [hmem, slotOfEntry_of_invalid PageDirEntry.isInvalid_zero] at h
        cases h
      · have hmem : (v.zeroFrame frame).mem l = v.mem l := if_neg hin
        rwa [hmem] at h

theorem slot_of_slot_install {v : View} {q : MapRequest} {level : ℕ} {l : Loc}
    {entry : PageDirEntry} {p p' : Table} {k : PtKey}
    (h : (v.install q level l entry).slot PageDirEntry.addrW p k = .table p') :
    v.slot PageDirEntry.addrW p k = .table p' := by
  simp only [View.slot, entryLoc_install] at h ⊢
  cases hl : v.entryLoc p k with
  | null => simp [hl] at h
  | err e => simp [hl] at h
  | «at» l' =>
      simp only [hl, mem_install] at h ⊢
      split_ifs at h
      · rw [slotOfEntry_of_pte (PageDirEntry.toPte_isPte _ _ _)] at h
        cases h
      · exact h

section Run

variable {q : MapRequest} {alloc : ℕ → PageAlloc} {levels : List ℕ}
variable {n root : Table} {v v' : View} {ret : ℤ} {pre : List PtKey}

/-- The state in which the loop reaches the table `n` for the levels left. -/
structure MapState (q : MapRequest) (alloc : ℕ → PageAlloc) (levels : List ℕ)
    (root n : Table) (v : View) (pre : List PtKey) : Prop where
  hasTable : v.HasTable root pre n
  valid : Valid (pre ++ keysOf levels q.vaddrToFind) allKeys
  fresh : FreshPages alloc levels v root

namespace MapState

variable {level : ℕ} {l : Loc}

theorem valid_key
    (h : MapState q alloc (level :: levels) root n v pre) :
    Valid (pre ++ [⟨level, ptIndex level q.vaddrToFind⟩]) allKeys :=
  h.valid.of_initial ⟨keysOf levels q.vaddrToFind, by simp [keysOf]⟩

theorem inRange (h : MapState q alloc levels root n v pre) {k : PtKey}
    (hk : k ∈ keysOf levels q.vaddrToFind) : k.InRange := by
  obtain ⟨before, after, hsplit⟩ := List.append_of_mem hk
  refine @inRange_of_valid (pre ++ before) _ (h.valid.of_initial ⟨after, ?_⟩)
  simp [hsplit]

theorem descend (h : MapState q alloc (level :: levels) root n v pre)
    (hloc : v.entryLoc n ⟨level, ptIndex level q.vaddrToFind⟩ = .at l)
    (hvalid : (PageDirEntry.mk (v.mem l)).isInvalid = false)
    (hpte : (PageDirEntry.mk (v.mem l)).isPte = false) :
    MapState q alloc levels root
      ⟨(PageDirEntry.mk (v.mem l)).addrW, (PageDirEntry.mk (v.mem l)).target⟩ v
      (pre ++ [⟨level, ptIndex level q.vaddrToFind⟩]) where
  hasTable := h.hasTable.step h.valid_key hloc hvalid hpte
  valid := by simpa [keysOf] using h.valid
  fresh := h.fresh.tail

theorem linkStep {page : DmaPage}
    (h : MapState q alloc (level :: levels) root n v pre)
    (hloc : v.entryLoc n ⟨level, ptIndex level q.vaddrToFind⟩ = .at l)
    (hinvalid : (PageDirEntry.mk (v.mem l)).isInvalid = true)
    (halloc : alloc level = .mapped page) :
    LinkStep alloc (level :: levels) v root n pre
      ⟨level, ptIndex level q.vaddrToFind⟩ l page where
  fresh := h.fresh
  mem := by simp
  alloc_eq := halloc
  hasTable := h.hasTable
  valid := h.valid_key
  loc := hloc
  invalid := hinvalid

theorem link {page : DmaPage}
    (h : MapState q alloc (level :: levels) root n v pre)
    (hloc : v.entryLoc n ⟨level, ptIndex level q.vaddrToFind⟩ = .at l)
    (hinvalid : (PageDirEntry.mk (v.mem l)).isInvalid = true)
    (halloc : alloc level = .mapped page) :
    MapState q alloc levels root page.table
      (v.link n ⟨level, ptIndex level q.vaddrToFind⟩ l ⟨v.mem l⟩ page)
      (pre ++ [⟨level, ptIndex level q.vaddrToFind⟩]) where
  hasTable := (h.linkStep hloc hinvalid halloc).hasTable_new
  valid := by simpa [keysOf] using h.valid
  fresh := (h.linkStep hloc hinvalid halloc).fresh_rest

theorem toPde_table {page : DmaPage}
    (h : MapState q alloc (level :: levels) root n v pre)
    (halloc : alloc level = .mapped page) (entry : PageDirEntry) :
    (⟨(entry.toPde page.bus).addrW, .pdSysMemCoherent⟩ : Table) = page.table := by
  rw [toPde_addrW_of_wellFormed
    (h.fresh.wellFormed level (by simp) page halloc)]
  rfl

end MapState

/-- A run changes the translation of no walk that parts from the request's keys
above the final level, and of no walk at all if it fails. -/
theorem MapRun.translationOf_walk (hrun : MapRun q alloc levels n v ret v')
    (hstate : MapState q alloc levels root n v pre) (htree : v.IsTree root)
    {keys : List PtKey} (hkeys : Valid keys allKeys) (hlen : keys.length = 5)
    (hout : ret = 0 → ∀ ks k, ks ++ [k] <+: keys →
      ks ++ [k] <+: pre ++ keysOf levels q.vaddrToFind → ¬ q.IsFinal k.level) :
    translationOf (RadixTable.walk (v'.slot PageDirEntry.addrW) .overrun keys
        root) =
      translationOf (RadixTable.walk (v.slot PageDirEntry.addrW) .overrun keys
        root) := by
  induction hrun generalizing pre with
  | ranOut n v => rfl
  | unresolved bad => rfl
  | found loc valid stop => rfl
  | descend loc valid pde small rest ih =>
      apply ih (hstate.descend loc valid pde) htree
      simpa [keysOf] using hout
  | @install level levels n v l loc invalid final =>
      have hnot : ¬ pre ++ [⟨level, ptIndex level q.vaddrToFind⟩] <+: keys := by
        intro hinitial
        refine hout rfl _ _ hinitial ?_ final
        exact ⟨keysOf levels q.vaddrToFind, by simp [keysOf]⟩
      rw [walk_install htree hstate.hasTable hstate.valid_key loc hkeys hnot]
  | exhausted loc invalid inner out => rfl
  | @unmapped level levels n v l frame loc invalid inner out =>
      rw [walk_zeroFrame hstate.fresh (show level ∈ level :: levels by simp)
        (by rw [out]; rfl) hkeys]
  | @link level levels n v v' l page ret loc invalid inner out rest ih =>
      have hlink := hstate.linkStep loc invalid out
      have hfour : level ≠ 4 := fun h => inner (.inl h)
      rw [hstate.toPde_table out] at ih
      rw [ih (hstate.link loc invalid out) (hlink.isTree htree)
        (by simpa [keysOf] using hout)]
      exact hlink.translationOf_walk htree hfour hkeys hlen

/-- A run keeps the pointers narrow if the new pages are below `2 ^ 36`. -/
theorem MapRun.narrow (hrun : MapRun q alloc levels n v ret v')
    (hstate : MapState q alloc levels root n v pre) (hnarrow : v.Narrow root)
    (hbus : ∀ level ∈ levels, ∀ page, alloc level = .mapped page →
      page.bus < 2 ^ 36) : v'.Narrow root := by
  induction hrun generalizing pre with
  | ranOut n v => exact hnarrow
  | unresolved bad => exact hnarrow
  | found loc valid stop => exact hnarrow
  | descend loc valid pde small rest ih =>
      exact ih (hstate.descend loc valid pde) hnarrow
        fun level hlevel => hbus level (by simp [hlevel])
  | install loc invalid final =>
      exact fun ks m hm =>
        hnarrow ks m (hm.of_slot fun _ _ _ h => slot_of_slot_install h)
  | exhausted loc invalid inner out => exact hnarrow
  | unmapped loc invalid inner out =>
      exact fun ks m hm =>
        hnarrow ks m (hm.of_slot fun _ _ _ h => slot_of_slot_zeroFrame h)
  | @link level levels n v v' l page ret loc invalid inner out rest ih =>
      rw [hstate.toPde_table out] at ih
      exact ih (hstate.link loc invalid out)
        ((hstate.linkStep loc invalid out).narrow hnarrow
          (hbus level (by simp) page out))
        fun level hlevel => hbus level (by simp [hlevel])

theorem path_of_link {page : DmaPage} {m p : Table} {k : PtKey} {l : Loc}
    {entry : PageDirEntry} (hpage : page.WellFormed v)
    (hout : ¬ l.InFrame page.frame) {keys : List PtKey}
    (hkeys : ∀ k' ∈ keys, k'.InRange)
    (hpath : Path ((v.link p k l entry page).slot PageDirEntry.addrW)
      page.table keys m) : keys = [] ∧ m = page.table := by
  cases hpath with
  | nil => exact ⟨rfl, rfl⟩
  | @cons _ _ _ k' _ step rest =>
      obtain ⟨l', -, hnew⟩ := slot_link_new (n := p) (k := k) _
        hpage (hkeys k' (by simp)) hout
      rw [hnew] at step
      cases step

/-- The first half of the level-3 entry that a huge mapping fills in, below the
table `n`; the loop does not read it. -/
structure View.UnreadHalf (v : View) (q : MapRequest) (levels : List ℕ)
    (n : Table) (half : Loc) (word : BitVec 64) : Prop where
  huge : q.hugePage = true
  exists_path : ∃ mid post m l, levels = mid ++ 3 :: post ∧
    Path (v.slot PageDirEntry.addrW) n (keysOf mid q.vaddrToFind) m ∧
    v.entryLoc m ⟨3, ptIndex 3 q.vaddrToFind⟩ = .at l ∧
    (PageDirEntry.mk (v.mem l)).isInvalid = true ∧
    half = { l with addr := l.addr - 8 } ∧
    word = ((PageDirEntry.mk (v.mem l)).toPte q.paddrToMap q.paddrTarget).rawW

/-- A valid word outside the new pages keeps its value, unless it is the unread
half. -/
theorem MapRun.mem_or (hrun : MapRun q alloc levels n v ret v')
    (hstate : MapState q alloc levels root n v pre) {l' : Loc}
    (hold : (PageDirEntry.mk (v.mem l')).isInvalid = false)
    (hout : ∀ level ∈ levels, ∀ frame, (alloc level).frame? = some frame →
      ¬ l'.InFrame frame) :
    v'.mem l' = v.mem l' ∨
      v.UnreadHalf q levels n l' (v'.mem l') := by
  induction hrun generalizing pre with
  | ranOut n v => exact .inl rfl
  | unresolved bad => exact .inl rfl
  | found loc valid stop => exact .inl rfl
  | @descend level levels n v v' l ret loc valid pde small rest ih =>
      rcases ih (hstate.descend loc valid pde) hold
        (fun level hlevel => hout level (by simp [hlevel])) with heq | hhalf
      · exact .inl heq
      · obtain ⟨hhuge, mid, post, m, l₁, rfl, hpath, hrest⟩ := hhalf
        refine .inr ⟨hhuge, level :: mid, post, m, l₁, rfl, ?_, hrest⟩
        refine .cons ?_ hpath
        rw [View.slot_of_loc loc, slotOfEntry_of_pde valid pde]
  | @install level levels n v l loc invalid final =>
      have hne : l' ≠ l := by
        rintro rfl
        rw [invalid] at hold
        cases hold
      rw [mem_install]
      by_cases hhalf : level = 3 ∧ l' = { l with addr := l.addr - 8 }
      · rw [if_pos (.inr hhalf)]
        obtain ⟨rfl, rfl⟩ := hhalf
        have hhuge : q.hugePage = true := by simpa [MapRequest.IsFinal] using final
        exact .inr ⟨hhuge, [], levels, n, l, rfl, .nil n, loc, invalid, rfl, rfl⟩
      · rw [if_neg (by simp [hne, hhalf])]
        exact .inl rfl
  | exhausted loc invalid inner out => exact .inl rfl
  | @unmapped level levels n v l frame loc invalid inner out =>
      exact .inl (if_neg (hout level (by simp) frame (by rw [out]; rfl)))
  | @link level levels n v v' l page ret loc invalid inner out rest ih =>
      have hlink := hstate.linkStep loc invalid out
      have hframe := hout level (by simp) page.frame (by rw [out]; rfl)
      have hne : l' ≠ l := by
        rintro rfl
        rw [invalid] at hold
        cases hold
      have hkeep : (v.link n ⟨level, ptIndex level q.vaddrToFind⟩ l ⟨v.mem l⟩
          page).mem l' = v.mem l' := by
        rw [mem_link, if_neg hne, if_neg hframe]
      have hnext := hstate.link loc invalid out
      rw [hstate.toPde_table out] at ih
      rcases ih hnext (by rw [hkeep]; exact hold)
        (fun level hlevel => hout level (by simp [hlevel])) with
        heq | ⟨-, mid, post, m, l₁, rfl, hpath, hloc, -, rfl, -⟩
      · exact .inl (heq.trans hkeep)
      · -- The unread half would lie in the new page.
        exfalso
        apply hframe
        have hkeys : ∀ k ∈ keysOf mid q.vaddrToFind, k.InRange := by
          intro k hk
          apply hnext.inRange
          rw [keysOf, List.map_append]
          exact List.mem_append_left _ hk
        obtain ⟨hmid, rfl⟩ := path_of_link hlink.wellFormed
          (hlink.frame_ne hlink.hasTable hlink.valid hlink.loc) hkeys hpath
        rw [entryLoc_link_new hlink.wellFormed] at hloc
        cases hloc
        have hoff := offset_lt (k := ⟨3, ptIndex 3 q.vaddrToFind⟩)
          ⟨by simp, ptIndex_lt _ _⟩
        refine ⟨rfl, ?_⟩
        simp only [ptHalf] at hoff ⊢
        simp only [show ptEntrySz 3 = 16 from rfl, if_true] at hoff ⊢
        omega

theorem View.exists_of_slot_table {follow : PageDirEntry → ℕ} {m : Table}
    {k : PtKey} (h : v.slot follow n k = .table m) :
    ∃ l, v.entryLoc n k = .at l ∧
      (PageDirEntry.mk (v.mem l)).isInvalid = false ∧
      (PageDirEntry.mk (v.mem l)).isPte = false ∧
      m = ⟨follow ⟨v.mem l⟩, (PageDirEntry.mk (v.mem l)).target⟩ := by
  rw [View.slot] at h
  cases hl : v.entryLoc n k with
  | null => simp [hl] at h
  | err e => simp [hl] at h
  | «at» l =>
      simp only [hl, slotOfEntry] at h
      split_ifs at h with hinvalid hpte
      cases h
      exact ⟨l, rfl, Bool.eq_false_of_not_eq_true hinvalid,
        Bool.eq_false_of_not_eq_true hpte, rfl⟩

theorem MapRun.of_path {mid : List ℕ} {m : Table}
    (hrun : MapRun q alloc (mid ++ levels) n v ret v')
    (hpath : Path (v.slot PageDirEntry.addrW) n (keysOf mid q.vaddrToFind) m)
    (hsmall : ∀ level ∈ mid, (q.hugePage && level == 3) = false) :
    MapRun q alloc levels m v ret v' := by
  induction mid generalizing n with
  | nil =>
      cases hpath
      exact hrun
  | cons level mid ih =>
      cases hpath with
      | cons step rest =>
          obtain ⟨l, hl, hvalid, hpte, rfl⟩ := View.exists_of_slot_table step
          have hfollow := followEntry_of_pde (q := q) hvalid hpte
            (hsmall level (by simp))
          cases hrun with
          | unresolved bad => exact absurd hl (bad l)
          | found loc valid stop =>
              cases hl.symm.trans loc
              rw [hfollow] at stop
              cases stop
          | descend loc valid pde small hrest =>
              cases hl.symm.trans loc
              exact ih hrest rest fun level hlevel =>
                hsmall level (by simp [hlevel])
          | install loc invalid final =>
              cases hl.symm.trans loc
              rw [hvalid] at invalid
              cases invalid
          | exhausted loc invalid inner out =>
              cases hl.symm.trans loc
              rw [hvalid] at invalid
              cases invalid
          | unmapped loc invalid inner out =>
              cases hl.symm.trans loc
              rw [hvalid] at invalid
              cases invalid
          | link loc invalid inner out hrest =>
              cases hl.symm.trans loc
              rw [hvalid] at invalid
              cases invalid

theorem MapRun.mem_half (hrun : MapRun q alloc levels n v ret v')
    (hlevels : levels.Nodup) {half : Loc} {word : BitVec 64}
    (hhalf : v.UnreadHalf q levels n half word) : v'.mem half = word := by
  obtain ⟨hhuge, mid, post, m, l, rfl, hpath, hloc, hinvalid, rfl, rfl⟩ := hhalf
  have hsmall : ∀ level ∈ mid, (q.hugePage && level == 3) = false := by
    intro level hlevel
    have hne : level ≠ 3 := by
      rintro rfl
      exact (List.nodup_append.mp hlevels).2.2 3 hlevel 3 (by simp) rfl
    simp [hne]
  cases hrun.of_path hpath hsmall with
  | unresolved bad => exact absurd hloc (bad l)
  | found loc valid stop =>
      cases hloc.symm.trans loc
      rw [hinvalid] at valid
      cases valid
  | descend loc valid pde small rest =>
      cases hloc.symm.trans loc
      rw [hinvalid] at valid
      cases valid
  | install loc invalid final =>
      cases hloc.symm.trans loc
      rw [mem_install, if_pos (.inr ⟨rfl, rfl⟩)]
  | exhausted loc invalid inner out => exact absurd (.inr ⟨hhuge, rfl⟩) inner
  | unmapped loc invalid inner out => exact absurd (.inr ⟨hhuge, rfl⟩) inner
  | link loc invalid inner out rest => exact absurd (.inr ⟨hhuge, rfl⟩) inner

end Run

/-! ## Frame of a call -/

/-- The bytes to map. -/
def MapRequest.size (q : MapRequest) : ℕ :=
  if q.hugePage then 2 ^ 21 else 4096

/-- The address lies in the page to map. -/
def MapRequest.Covers (q : MapRequest) (vaddr : ℕ) : Prop :=
  q.vaddrToFind ≤ vaddr ∧ vaddr < q.vaddrToFind + q.size

theorem covers_of_initial {q : MapRequest} (haccepted : q.isAccepted = true)
    {vaddr : ℕ} {ks : List PtKey} {k : PtKey}
    (h : ks ++ [k] <+: keysOf (List.range 5) vaddr)
    (h' : ks ++ [k] <+: keysOf (List.range 5) q.vaddrToFind)
    (hfinal : q.IsFinal k.level) : q.Covers (vaddr % 2 ^ 49) := by
  simp only [MapRequest.isAccepted, Bool.and_eq_true, decide_eq_true_eq,
    Bool.or_eq_true, Bool.not_eq_true'] at haccepted
  have hlevel := level_of_valid ((valid_keysOf (List.range 5) vaddr).of_initial h)
  have heq := (List.prefix_iff_eq_take.mp h).symm.trans
    (List.prefix_iff_eq_take.mp h')
  rw [List.length_append, List.length_singleton, ← hlevel] at heq
  simp only [MapRequest.Covers, MapRequest.size]
  obtain ⟨⟨⟨⟨⟨⟨halign, -⟩, hhugeAlign⟩, hlt⟩, -⟩, -⟩, -⟩ := haccepted
  rcases hfinal with hfour | ⟨hhuge, hthree⟩
  · rw [hfour] at heq
    simp [keysOf, List.range_succ, ptIndex, ptLsb, nvMmuPtV2Lsb, ptSz,
      nvMmuPtV2Sz] at heq
    split_ifs <;> omega
  · rw [hthree] at heq
    simp [keysOf, List.range_succ, ptIndex, ptLsb, nvMmuPtV2Lsb, ptSz,
      nvMmuPtV2Sz] at heq
    rw [if_pos hhuge]
    have halign2 := (hhugeAlign.resolve_left (by simp [hhuge])).1
    omega

/-- The result of `translate_page_directory`. -/
def Machine.translation (s : Machine) (pdConfig : PageDirConfig) (vaddr : ℕ) :
    Option Translation :=
  (translatePageDirectory pdConfig vaddr s).map Prod.fst

theorem Machine.translation_eq (s : Machine) (pdConfig : PageDirConfig)
    (vaddr : ℕ) :
    s.translation pdConfig vaddr = some (s.view.translate pdConfig vaddr) := by
  obtain ⟨s', hrun, -⟩ := translatePageDirectory_spec s pdConfig vaddr
  rw [Machine.translation, hrun]
  rfl

/-- What a call from `s` to `s'` that returns `ret` leaves alone: valid words
outside the pages it got from the allocator, the translation of addresses
outside the page to map, and every translation if it fails.  Translation reads
the low 49 bits of an address. -/
structure MapRequest.FrameHolds (q : MapRequest) (alloc : ℕ → PageAlloc)
    (pdConfig : PageDirConfig) (s s' : Machine) (ret : ℤ) : Prop where
  words : ∀ l, (∀ level < 5, ∀ frame, (alloc level).frame? = some frame →
      ¬ l.InFrame frame) →
    (PageDirEntry.mk (s.mem l)).isInvalid = false → s'.mem l = s.mem l
  outside : ∀ vaddr, ¬ q.Covers (vaddr % 2 ^ 49) →
    s'.translation pdConfig vaddr = s.translation pdConfig vaddr
  failed : ret ≠ 0 → ∀ vaddr,
    s'.translation pdConfig vaddr = s.translation pdConfig vaddr

/-- A huge mapping would overwrite a first half that is in use. -/
def View.HalfInUse (v : View) (q : MapRequest) (root : Table) : Prop :=
  ∃ half word, v.UnreadHalf q (List.range 5) root half word ∧
    (PageDirEntry.mk (v.mem half)).isInvalid = false ∧ v.mem half ≠ word

theorem mapState_root {q : MapRequest} {alloc : ℕ → PageAlloc} {v : View}
    {root : Table} (hfresh : FreshPages alloc (List.range 5) v root) :
    MapState q alloc (List.range 5) root root v [] where
  hasTable := ⟨.nil _, .nil root⟩
  valid := valid_keysOf (List.range 5) q.vaddrToFind
  fresh := hfresh

/-- A run leaves translations alone outside the page, and all if it fails. -/
theorem MapRun.translation_eq {q : MapRequest} {alloc : ℕ → PageAlloc}
    {pdConfig : PageDirConfig} {s s' : Machine} {ret : ℤ}
    (hrun : MapRun q alloc (List.range 5) pdConfig.root s.view ret s'.view)
    (haccepted : q.isAccepted = true) (htree : s.view.IsTree pdConfig.root)
    (hnarrow : s.view.Narrow pdConfig.root)
    (hfresh : FreshPages alloc (List.range 5) s.view pdConfig.root)
    (hbus : ∀ level < 5, ∀ page, alloc level = .mapped page →
      page.bus < 2 ^ 36)
    {vaddr : ℕ} (hout : ret = 0 → ¬ q.Covers (vaddr % 2 ^ 49)) :
    s'.translation pdConfig vaddr = s.translation pdConfig vaddr := by
  have hstate := mapState_root (q := q) hfresh
  have hnarrow' := hrun.narrow hstate hnarrow
    fun level hlevel => hbus level (List.mem_range.mp hlevel)
  rw [Machine.translation_eq, Machine.translation_eq, View.translate,
    View.translate, hnarrow.walk_addr_eq, hnarrow'.walk_addr_eq]
  split_ifs with halign
  · rfl
  · rw [View.walk, hrun.translationOf_walk hstate htree
      (valid_keysOf (List.range 5) vaddr) (by simp [keysOf])]
    · rfl
    · intro hret ks k hks hks' hfinal
      exact hout hret (covers_of_initial haccepted hks hks' hfinal)

/-- A call leaves alone what it should, except that a huge mapping overwrites
the first half of a level-3 entry that is in use. -/
theorem frameHolds_iff (alloc : ℕ → PageAlloc) (pdConfig : PageDirConfig)
    (q : MapRequest) (s s' : Machine) (ret : ℤ)
    (hrun : mapPageDirectory alloc pdConfig q.vaddrToFind q.paddrToMap
      q.paddrTarget q.hugePage s = some (ret, s'))
    (htree : s.view.IsTree pdConfig.root)
    (hnarrow : s.view.Narrow pdConfig.root)
    (hfresh : FreshPages alloc (List.range 5) s.view pdConfig.root)
    (hbus : ∀ level < 5, ∀ page, alloc level = .mapped page →
      page.bus < 2 ^ 36) :
    q.FrameHolds alloc pdConfig s s' ret ↔
      ¬ (q.isAccepted = true ∧ s.view.HalfInUse q pdConfig.root) := by
  obtain ⟨ret', s'', hspec, -, hcases⟩ := mapPageDirectory_spec q alloc s pdConfig
  rw [hspec] at hrun
  cases hrun
  have hstate := mapState_root (q := q) hfresh
  rcases hcases with ⟨hrejected, rfl, hview⟩ | ⟨haccepted, hmap⟩
  · have htrans : ∀ vaddr,
        s'.translation pdConfig vaddr = s.translation pdConfig vaddr := by
      intro vaddr
      rw [Machine.translation_eq, Machine.translation_eq, hview]
    refine ⟨fun _ h => ?_, fun _ => ⟨?_, fun vaddr _ => htrans vaddr,
      fun _ => htrans⟩⟩
    · rw [hrejected] at h
      exact absurd h.1 Bool.false_ne_true
    · exact fun l _ _ => congrFun (congrArg (·.mem) hview) l
  · constructor
    · rintro hframe ⟨-, half, word, hhalf, hvalid, hne⟩
      apply hne
      rw [← hmap.mem_half List.nodup_range hhalf]
      refine (hframe.words half ?_ hvalid).symm
      obtain ⟨-, mid, post, m, l, hlevels, hpath, hloc, -, rfl, -⟩ := hhalf
      intro level hlevel frame halloc hin
      have hkeys := hstate.valid
      rw [hlevels, keysOf, List.map_append, List.map_cons, List.nil_append]
        at hkeys
      have hk := @Valid.of_initial _
        (mid.map (fun i => ⟨i, ptIndex i q.vaddrToFind⟩) ++
          [⟨3, ptIndex 3 q.vaddrToFind⟩]) _ _ hkeys
        ⟨post.map fun i => ⟨i, ptIndex i q.vaddrToFind⟩, by simp⟩
      refine hfresh.frame_ne level (List.mem_range.mpr hlevel) frame halloc _ m _
        l ⟨hk.of_initial (List.prefix_append _ _), hpath⟩ hk hloc ⟨hin.1, ?_⟩
      obtain ⟨l₀, -, rfl, hmod⟩ := View.exists_of_entryLoc hloc
      have hoff := offset_lt (inRange_of_valid hk)
      have hdiv := hin.2
      have hhalf : ptHalf 3 = 8 := rfl
      simp only [Loc.add, hhalf] at hdiv hmod hoff ⊢
      omega
    · intro hfree
      refine ⟨fun l hout hvalid => ?_, fun vaddr hcovers => ?_,
        fun hret vaddr => ?_⟩
      · rcases hmap.mem_or hstate hvalid
          (fun level hlevel => hout level (List.mem_range.mp hlevel)) with
          heq | hhalf
        · exact heq
        · by_contra hne
          exact hfree ⟨haccepted, l, _, hhalf, hvalid, fun h => hne h.symm⟩
      · exact hmap.translation_eq haccepted htree hnarrow hfresh hbus
          fun _ => hcovers
      · exact hmap.translation_eq haccepted htree hnarrow hfresh hbus
          fun h => absurd h hret

/-! ## Without an I/O MMU -/

/-- Without an I/O MMU, entries lie where their table's address says. -/
theorem View.loc_of_entryLoc {v : View} {n : Table} {k : PtKey} {l : Loc}
    (hiommu : v.iommu = none) (h : v.entryLoc n k = .at l) :
    l = ⟨if n.target = .pdVidMem then .vram else .sysmem,
      n.base + ptHalf k.level + k.offset⟩ := by
  obtain ⟨l₀, hd, rfl, -⟩ := View.exists_of_entryLoc h
  simp only [View.deref, Core.busLoc, hiommu] at hd
  split_ifs at hd with _ hvid <;> cases hd
  · rw [if_pos hvid, Loc.add]
  · rw [if_neg hvid, Loc.add]

theorem View.page_of_entryLoc {v : View} {n : Table} {k : PtKey} {l : Loc}
    (hiommu : v.iommu = none) (hk : k.InRange) (h : v.entryLoc n k = .at l) :
    l.addr / 4096 = n.page := by
  have hoff := offset_lt hk
  rw [View.loc_of_entryLoc hiommu h, Table.base]
  simp only
  omega

theorem isTree_of_page_ne {v : View} {root : Table} (hiommu : v.iommu = none)
    (h : ∀ ks ks' n n', v.HasTable root ks n → v.HasTable root ks' n' →
      n.page = n'.page → ks = ks') : v.IsTree root := by
  intro ks ks' n n' k k' l l' hn hn' hk hk' hl hl' _ hpage
  apply h ks ks' n n' hn hn'
  rw [← View.page_of_entryLoc hiommu (inRange_of_valid hk) hl,
    ← View.page_of_entryLoc hiommu (inRange_of_valid hk') hl', hpage]

/-- An allocator that hands out consecutive page frames, one for each level. -/
def allocFrom (frame level : ℕ) : PageAlloc :=
  .mapped ⟨frame + level, (frame + level) * 4096⟩

/-- Consecutive page frames behind all tables in use are fresh. -/
theorem freshPages_allocFrom {v : View} {root : Table} {frame : ℕ}
    (hiommu : v.iommu = none) (hpos : 0 < frame) (hlt : frame + 5 ≤ 2 ^ 46)
    (h : ∀ ks n, v.HasTable root ks n → n.page < frame) :
    FreshPages (allocFrom frame) (List.range 5) v root where
  wellFormed level hlevel page halloc := by
    rw [List.mem_range] at hlevel
    cases halloc
    exact ⟨by simp, by simp only; omega, by simp only; omega,
      by simp only; omega, fun _ => rfl⟩
  bus_ne level hlevel page halloc ks n hn := by
    have hpage := h ks n hn
    cases halloc
    right
    simp only
    omega
  frame_ne level hlevel frame' halloc ks n k l hn hk hl hin := by
    have hpage := h ks n hn
    rw [← View.page_of_entryLoc hiommu (inRange_of_valid hk) hl, hin.2] at hpage
    cases halloc
    simp only at hpage
    omega
  bus_inj := List.pairwise_lt_range.imp fun {a b} hab page page' ha hb => by
    cases ha
    cases hb
    simp only
    omega
  frame_inj := List.pairwise_lt_range.imp fun {a b} hab frame₁ frame₂ ha hb => by
    cases ha
    cases hb
    simp only
    omega

theorem freshPages_exhausted (levels : List ℕ) (v : View) (root : Table) :
    FreshPages (fun _ => .exhausted) levels v root where
  wellFormed _ _ _ halloc := by cases halloc
  bus_ne _ _ _ halloc := by cases halloc
  frame_ne _ _ _ halloc := by cases halloc
  bus_inj :=
    List.pairwise_of_forall fun _ _ _ _ halloc => by cases halloc
  frame_inj :=
    List.pairwise_of_forall fun _ _ _ _ halloc => by cases halloc

theorem hasTable_of_page_eq_zero {v : View} {root n : Table} {ks : List PtKey}
    (hiommu : v.iommu = none) (hmem : ∀ l, l.addr / 4096 = root.page → v.mem l = 0)
    (hn : v.HasTable root ks n) : ks = [] ∧ n = root := by
  obtain ⟨hvalid, hpath⟩ := hn
  cases hpath with
  | nil => exact ⟨rfl, rfl⟩
  | @cons _ m _ k ks step rest =>
      have hk : Valid ([] ++ [k]) allKeys :=
        hvalid.of_initial (List.prefix_append [k] ks)
      obtain ⟨l, hl, hword, -⟩ := View.exists_of_slot_table step
      rw [hmem l (View.page_of_entryLoc hiommu (inRange_of_valid hk) hl),
        PageDirEntry.isInvalid_zero] at hword
      cases hword

/-- A top-level directory without entries, on page 1 of system memory. -/
def emptyTable : Machine := .ofWords []

theorem hasTable_emptyTable {ks : List PtKey} {n : Table}
    (hn : emptyTable.view.HasTable (PageDirConfig.root ⟨0x1402⟩) ks n) :
    ks = [] ∧ n = ⟨1, .pdSysMemCoherent⟩ :=
  hasTable_of_page_eq_zero rfl (fun _ _ => rfl) hn

theorem freshPages_emptyTable : FreshPages (allocFrom 16) (List.range 5)
    emptyTable.view (PageDirConfig.root ⟨0x1402⟩) := by
  refine freshPages_allocFrom rfl (by decide) (by decide) fun ks n hn => ?_
  rw [(hasTable_emptyTable hn).2]
  decide

theorem frameHolds_iff_emptyTable :
    ∃ ret s', mapPageDirectory (allocFrom 16) ⟨0x1402⟩ 0x3000 0x7000 .vidMem
        false emptyTable = some (ret, s') ∧
      (⟨0x3000, 0x7000, .vidMem, false⟩ : MapRequest).FrameHolds (allocFrom 16)
        ⟨0x1402⟩ emptyTable s' ret := by
  let q : MapRequest := ⟨0x3000, 0x7000, .vidMem, false⟩
  obtain ⟨ret, s', hrun, -⟩ := mapPageDirectory_spec q (allocFrom 16)
    emptyTable ⟨0x1402⟩
  refine ⟨ret, s', hrun, (frameHolds_iff (allocFrom 16) ⟨0x1402⟩ q emptyTable
    s' ret hrun ?_ ?_ freshPages_emptyTable ?_).mpr ?_⟩
  · refine isTree_of_page_ne rfl fun ks ks' n n' hn hn' _ => ?_
    rw [(hasTable_emptyTable hn).1, (hasTable_emptyTable hn').1]
  · intro ks n hn
    rw [(hasTable_emptyTable hn).2]
    decide
  · intro level hlevel page halloc
    cases halloc
    simp only
    omega
  · rintro ⟨-, half, word, hhalf, -⟩
    exact absurd hhalf.huge Bool.false_ne_true

/-- Page tables on pages 1 to 4, each with its first entry populated; the
level-3 entry only has a first half, which points to a table of big pages. -/
def bigPageHalf : Machine :=
  .ofWords [(⟨.sysmem, 0x1000⟩, 0x204), (⟨.sysmem, 0x2000⟩, 0x304),
    (⟨.sysmem, 0x3000⟩, 0x404), (⟨.sysmem, 0x4000⟩, 0x504)]

theorem hasTable_bigPageHalf {ks : List PtKey} {n : Table}
    (hn : bigPageHalf.view.HasTable (PageDirConfig.root ⟨0x1402⟩) ks n) :
    ks = (keysOf [0, 1, 2] 0).take ks.length ∧
      n = ⟨ks.length + 1, .pdSysMemCoherent⟩ := by
  induction ks using List.reverseRecOn generalizing n with
  | nil =>
      obtain ⟨-, hpath⟩ := hn
      cases hpath
      decide
  | append_singleton ks k ih =>
      obtain ⟨p, hp, hstep⟩ := path_snoc_iff.mp hn.2
      obtain ⟨hks, rfl⟩ := ih ⟨hn.1.of_initial (List.prefix_append _ _), hp⟩
      obtain ⟨hlt, hidx⟩ := inRange_of_valid hn.1
      rw [level_of_valid hn.1] at hlt
      obtain ⟨l, hl, hvalid, -, rfl⟩ := View.exists_of_slot_table hstep
      have hloc := View.loc_of_entryLoc rfl hl
      obtain ⟨j, hj, rfl⟩ : ∃ j < 4, l = ⟨.sysmem, (j + 1) * 4096⟩ := by
        by_contra hnot
        have hzero : bigPageHalf.view.mem l = 0 := by
          apply Machine.mem_ofWords_of_notMem
          intro hmem
          simp only [List.map_cons, List.map_nil, List.mem_cons,
            List.not_mem_nil, or_false] at hmem
          rcases hmem with rfl | rfl | rfl | rfl
          · exact hnot ⟨0, by decide, rfl⟩
          · exact hnot ⟨1, by decide, rfl⟩
          · exact hnot ⟨2, by decide, rfl⟩
          · exact hnot ⟨3, by decide, rfl⟩
        rw [hzero, PageDirEntry.isInvalid_zero] at hvalid
        cases hvalid
      have hoff := offset_lt (inRange_of_valid hn.1)
      have hlevel := level_of_valid hn.1
      obtain ⟨level, i⟩ := k
      simp only at hlevel
      subst hlevel
      simp only [PtKey.offset, Table.base, Loc.mk.injEq] at hloc hoff
      have hlen : ks.length = j := by omega
      rw [List.length_append, List.length_singleton]
      rw [hlen] at hks hloc hoff ⊢
      interval_cases j <;>
        simp [ptHalf, ptEntrySz, nvMmuPtV2EntrySz] at hloc
      · subst hloc
        rw [hks]
        decide
      · subst hloc
        rw [hks]
        decide
      · subst hloc
        rw [hks]
        decide
      · omega

/-- A huge mapping overwrites the pointer to a table of big pages. -/
theorem not_frameHolds_bigPageHalf :
    bigPageHalf.view.IsTree (PageDirConfig.root ⟨0x1402⟩) ∧
    bigPageHalf.view.Narrow (PageDirConfig.root ⟨0x1402⟩) ∧
    FreshPages (allocFrom 16) (List.range 5) bigPageHalf.view
      (PageDirConfig.root ⟨0x1402⟩) ∧
    ∃ s', mapPageDirectory (allocFrom 16) ⟨0x1402⟩ 0 0x200000 .vidMem true
        bigPageHalf = some (0, s') ∧
      ¬ (⟨0, 0x200000, .vidMem, true⟩ : MapRequest).FrameHolds (allocFrom 16)
        ⟨0x1402⟩ bigPageHalf s' 0 := by
  have hpage : ∀ ks n, bigPageHalf.view.HasTable
      (PageDirConfig.root ⟨0x1402⟩) ks n → n.page < 16 := by
    intro ks n hn
    obtain ⟨hks, rfl⟩ := hasTable_bigPageHalf hn
    have hlen := congrArg List.length hks
    rw [List.length_take] at hlen
    simp [keysOf] at hlen ⊢
    omega
  refine ⟨isTree_of_page_ne rfl ?_, ?_,
    freshPages_allocFrom rfl (by decide) (by decide) hpage, ?_⟩
  · intro ks ks' n n' hn hn' heq
    obtain ⟨hks, rfl⟩ := hasTable_bigPageHalf hn
    obtain ⟨hks', rfl⟩ := hasTable_bigPageHalf hn'
    simp only [Nat.add_right_cancel_iff] at heq
    rw [hks, hks', heq]
  · intro ks n hn
    exact (hpage ks n hn).trans (by decide)
  · obtain ⟨s', hrun, hword⟩ : ∃ s', mapPageDirectory (allocFrom 16) ⟨0x1402⟩ 0
        0x200000 .vidMem true bigPageHalf = some (0, s') ∧
        s'.mem ⟨.sysmem, 0x4000⟩ = 0x20009 := by
      have hrun : (mapPageDirectory (allocFrom 16) ⟨0x1402⟩ 0 0x200000 .vidMem
          true bigPageHalf).map (fun r => (r.1, r.2.mem ⟨.sysmem, 0x4000⟩)) =
          some (0, 0x20009) := by
        decide
      rw [Option.map_eq_some_iff] at hrun
      obtain ⟨⟨ret, s'⟩, hrun, heq⟩ := hrun
      obtain ⟨rfl, hword⟩ := Prod.mk.injEq .. ▸ heq
      exact ⟨s', hrun, hword⟩
    refine ⟨s', hrun, fun hframe => ?_⟩
    have hkeep := hframe.words ⟨.sysmem, 0x4000⟩ ?_ (by decide)
    · rw [hword] at hkeep
      exact absurd hkeep (by decide)
    · intro level _ frame halloc hin
      cases halloc
      have hdiv := hin.2
      simp only at hdiv
      omega

end A100Partitioning.Nvdebug
