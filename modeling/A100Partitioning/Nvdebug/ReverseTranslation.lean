import A100Partitioning.Nvdebug.PageTableV1

/-!
# Reverse translation against forward translation

The reverse search and the forward walk slice virtual addresses independently.
This file proves that slicing undoes the search's assembly of an address, and
from it when a result of the search is translated back, and when a translatable
address is found.
-/

namespace A100Partitioning.Nvdebug

open Support RadixTable

/-! ## Slicing addresses -/

/-- The keys of an address, read back as an address, lose only low bits. -/
theorem vaddrOf_keysOf_le (m : ℕ) {level : ℕ} (hlevel : level + m = 5) (a : ℕ) :
    vaddrOf (keysOf (List.range' level m) a) ≤ a % ptSpan level := by
  induction m generalizing level with
  | zero => exact Nat.zero_le _
  | succ m ih =>
      have hih := @ih (level + 1) (by omega)
      have hsplit : a % ptSpan level =
          ptIndex level a * 2 ^ ptLsb level + a % ptSpan (level + 1) := by
        rw [ptSpan_succ (by omega), ptSpan, Nat.mul_comm (ptSz _),
          Nat.mod_mul, Nat.add_comm, Nat.mul_comm, ptIndex]
      rw [hsplit, List.range'_succ, keysOf, List.map_cons, vaddrOf_cons rfl]
      exact Nat.add_le_add_left hih _

/-- The index of a virtual address at the level that the address is put together
at. -/
theorem ptIndex_add {level idx low : ℕ} (hi : ℕ) (hidx : idx < ptSz level)
    (hlow : low < 2 ^ ptLsb level) :
    ptIndex level ((hi * ptSz level + idx) * 2 ^ ptLsb level + low) = idx := by
  have hdiv : ((hi * ptSz level + idx) * 2 ^ ptLsb level + low) /
      2 ^ ptLsb level = hi * ptSz level + idx := by
    rw [Nat.mul_comm, Nat.mul_add_div (Nat.two_pow_pos _),
      Nat.div_eq_of_lt hlow, Nat.add_zero]
  rw [ptIndex, hdiv, Nat.add_comm, Nat.add_mul_mod_self_right,
    Nat.mod_eq_of_lt hidx]

/-- A path is a prefix of the keys of its address, whatever the bits above. -/
theorem prefix_keysOf_vaddrOf (m : ℕ) {level : ℕ} (hlevel : level + m = 5)
    {path : List PtKey} (hi : ℕ)
    (hpath : Valid path ((List.range' level m).map keysAt)) :
    path <+: keysOf (List.range' level m) (hi * ptSpan level + vaddrOf path) := by
  induction m generalizing level path hi with
  | zero =>
      cases hpath
      exact List.nil_prefix
  | succ m ih =>
      rw [List.range'_succ, List.map_cons] at hpath
      cases hpath with
      | nil => exact List.nil_prefix
      | @cons k _ below _ hk hbelow =>
          obtain ⟨hklevel, hkidx⟩ := mem_keysAt.mp hk
          have hlt := vaddrOf_lt_of_valid (by omega) hbelow
          have hsum : hi * ptSpan level + vaddrOf (k :: below) =
              (hi * ptSz level + k.idx) * 2 ^ ptLsb level + vaddrOf below := by
            rw [vaddrOf_cons hklevel, ptSpan]
            ring
          have hhead : (⟨level, ptIndex level ((hi * ptSz level + k.idx) *
              2 ^ ptLsb level + vaddrOf below)⟩ : PtKey) = k := by
            rw [ptIndex_add hi hkidx hlt, ← hklevel]
          rw [hsum, List.range'_succ, keysOf, List.map_cons, hhead]
          refine (List.prefix_cons_inj k).mpr ?_
          rw [← ptSpan_succ (by omega)]
          exact ih (by omega) _ hbelow

theorem graded_top :
    Graded PtKey.weight PtKey.idx ((List.range 5).map keysAt) := by
  rw [List.range_eq_range']
  exact (graded_keysAt 5 rfl).1

/-- Slicing a virtual address over all levels undoes `vaddrOf`. -/
theorem digits_top :
    Digits PtKey.weight ((List.range 5).map keysAt) (keysOf (List.range 5)) where
  valid a := valid_keysOf _ a
  length_eq a := length_keysOf _ a
  address_le a := by
    rw [List.range_eq_range']
    exact (vaddrOf_keysOf_le 5 rfl a).trans (Nat.mod_le _ _)
  extends_path path hpath := by
    rw [List.range_eq_range'] at hpath ⊢
    have hinitial := prefix_keysOf_vaddrOf 5 rfl 0 hpath
    rwa [Nat.zero_mul, Nat.zero_add] at hinitial

/-! ## The two ways of dereferencing -/

/-- No table that the search can reach lies at address 0. -/
def View.NoTableAtZero (v : View) (pdConfig : PageDirConfig) : Prop :=
  ∀ ks n, Valid ks ((List.range 5).map keysAt) →
    Path v.searchSlot pdConfig.root ks n → n.page ≠ 0

/-- Dereferencing an entry and indexing a dereferenced table reach the same
word, unless the dereferenced address of the table is 0. -/
theorem searchSlot_eq_slot {v : View} {n : Table} {k : PtKey}
    (hk : k.InRange) (hbase : n.base + ptHalf k.level ≠ 0) :
    v.searchSlot n k = v.slot PageDirEntry.addr n k := by
  have hoff := offset_lt hk
  have hderef := @View.deref_add v _ n.target k.offset hbase
    (by simp only [Table.base]; omega)
  have hsum : n.base + k.offset + ptHalf k.level =
      n.base + ptHalf k.level + k.offset := by omega
  cases hd : v.deref (n.base + ptHalf k.level) n.target <;>
    simp only [View.searchSlot, View.slot, View.entryLoc, hsum, hderef, hd]

theorem inRange_of_mem_keysOf {k : PtKey} {a : ℕ}
    (hk : k ∈ keysOf (List.range 5) a) : k.InRange := by
  simp only [keysOf, List.mem_map, List.mem_range] at hk
  obtain ⟨level, hlevel, rfl⟩ := hk
  exact ⟨hlevel, ptIndex_lt level a⟩

/-- Without a table at address 0 both directions walk alike. -/
theorem walk_eq_walk_searchSlot {v : View} {pdConfig : PageDirConfig}
    (hzero : v.NoTableAtZero pdConfig) (a : ℕ) :
    v.walk PageDirEntry.addr (List.range 5) a pdConfig.root =
      RadixTable.walk v.searchSlot .overrun (keysOf (List.range 5) a)
        pdConfig.root := by
  refine walk_congr ?_ (.nil _)
  intro n k ks hinitial hpath
  have hvalid : Valid ks ((List.range 5).map keysAt) :=
    (valid_keysOf _ a).of_initial ((List.prefix_append ks [k]).trans hinitial)
  have hpage := hzero ks n hvalid hpath
  have hk := inRange_of_mem_keysOf
    (hinitial.subset (List.mem_append_right ks (List.mem_singleton_self k)))
  refine (searchSlot_eq_slot hk ?_).symm
  simp only [Table.base]
  omega

/-! ## Slicing V1 addresses -/

theorem mem_keysV1At {level : ℕ} {k : PtKey} :
    k ∈ keysV1At level ↔ k.level = level ∧ k.idx < ptV1Sz level := by
  obtain ⟨l, i⟩ := k
  simp only [keysV1At, List.mem_map, List.mem_range, PtKey.mk.injEq]
  constructor
  · rintro ⟨j, hj, rfl, rfl⟩
    exact ⟨rfl, hj⟩
  · rintro ⟨rfl, hi⟩
    exact ⟨i, hi, rfl, rfl⟩

/-- The keys of both levels. -/
def kssV1 : List (List PtKey) := [keysV1At 0, keysV1At 1]

theorem kssV1_sorted : ∀ ks ∈ kssV1, ks.Pairwise (PtKey.idx · < PtKey.idx ·) := by
  have hsorted : ∀ level,
      (keysV1At level).Pairwise (PtKey.idx · < PtKey.idx ·) := by
    intro level
    rw [keysV1At, List.pairwise_map]
    exact List.pairwise_lt_range
  intro ks hks
  simp only [kssV1, List.mem_cons, List.not_mem_nil, or_false] at hks
  rcases hks with rfl | rfl
  · exact hsorted 0
  · exact hsorted 1

theorem vaddrOfV1_cons {level : ℕ} {k : PtKey} (hk : k.level = level)
    (path : List PtKey) :
    vaddrOfV1 (k :: path) = k.idx * 2 ^ ptV1Lsb level + vaddrOfV1 path := by
  simp only [vaddrOfV1, address, List.map_cons, List.sum_cons, PtKey.weightV1,
    hk]

/-- The small-page tables cover 26 bits; bit 26 is never used. -/
theorem vaddrOfV1_lt {path : List PtKey}
    (hpath : Valid path [keysV1At 1]) : vaddrOfV1 path < 2 ^ 26 := by
  cases hpath with
  | nil => exact Nat.two_pow_pos _
  | cons hk hrest =>
      cases hrest
      obtain ⟨hklevel, hkidx⟩ := mem_keysV1At.mp hk
      have hsz : ptV1Sz 1 = 16384 := rfl
      have hlsb : ptV1Lsb 1 = 12 := rfl
      have hnil : vaddrOfV1 [] = 0 := rfl
      rw [vaddrOfV1_cons hklevel, hlsb, hnil]
      omega

theorem gradedV1 :
    Graded PtKey.weightV1 PtKey.idx kssV1 := by
  rw [kssV1]
  refine .cons (2 ^ ptV1Lsb 0) ?_ ?_ (.cons (2 ^ ptV1Lsb 1) ?_ ?_ .nil)
  · intro k hk
    rw [PtKey.weightV1, (mem_keysV1At.mp hk).1]
  · intro path hpath
    refine (vaddrOfV1_lt hpath).trans ?_
    decide
  · intro k hk
    rw [PtKey.weightV1, (mem_keysV1At.mp hk).1]
  · intro path hpath
    cases hpath
    exact Nat.two_pow_pos _

theorem digitsV1 :
    Digits PtKey.weightV1 kssV1 keysV1 where
  valid a := .cons (mem_keysV1At.mpr ⟨rfl, ptV1Index_lt 0 a⟩)
    (.cons (mem_keysV1At.mpr ⟨rfl, ptV1Index_lt 1 a⟩) (.nil []))
  length_eq a := rfl
  address_le a := by
    have hlsb : ptV1Lsb 1 = 12 ∧ ptV1Lsb 0 = 27 := ⟨rfl, rfl⟩
    have hsz : ptV1Sz 1 = 16384 ∧ ptV1Sz 0 = 4096 := ⟨rfl, rfl⟩
    change vaddrOfV1 _ ≤ a
    rw [keysV1, vaddrOfV1_cons rfl, vaddrOfV1_singleton, PtKey.weightV1]
    simp only [ptV1Index, hlsb, hsz]
    omega
  extends_path path hpath := by
    have hlsb : ptV1Lsb 1 = 12 ∧ ptV1Lsb 0 = 27 := ⟨rfl, rfl⟩
    have hsz : ptV1Sz 1 = 16384 ∧ ptV1Sz 0 = 4096 := ⟨rfl, rfl⟩
    cases hpath with
    | nil => exact List.nil_prefix
    | @cons k _ below _ hk hbelow =>
        have hlt := vaddrOfV1_lt hbelow
        obtain ⟨hklevel, hkidx⟩ := mem_keysV1At.mp hk
        change k :: below <+: keysV1 (vaddrOfV1 (k :: below))
        rw [vaddrOfV1_cons hklevel, keysV1]
        have hidx : ptV1Index 0 (k.idx * 2 ^ ptV1Lsb 0 + vaddrOfV1 below) =
            k.idx := by
          rw [hsz.2] at hkidx
          rw [ptV1Index, hlsb.2, hsz.2]
          omega
        have hhead : (⟨0, k.idx⟩ : PtKey) = k := by rw [← hklevel]
        rw [hidx, hhead]
        refine (List.prefix_cons_inj k).mpr ?_
        cases hbelow with
        | nil => exact List.nil_prefix
        | @cons j _ _ _ hj hrest =>
            cases hrest
            obtain ⟨hjlevel, hjidx⟩ := mem_keysV1At.mp hj
            have hnil : vaddrOfV1 [] = 0 := rfl
            have hlast : ptV1Index 1 (k.idx * 2 ^ ptV1Lsb 0 +
                vaddrOfV1 [j]) = j.idx := by
              rw [hsz.1] at hjidx
              rw [vaddrOfV1_cons hjlevel, hnil, ptV1Index, hlsb.1, hlsb.2, hsz.1]
              omega
            have htail : (⟨1, j.idx⟩ : PtKey) = j := by rw [← hjlevel]
            rw [hlast, htail]

theorem vaddrOfV1_mod (path : List PtKey) : vaddrOfV1 path % 4096 = 0 := by
  have hunit : ∀ level, 2 ^ ptV1Lsb level % 4096 = 0 := by
    intro level
    simp only [ptV1Lsb, nvMmuPtV1Lsb]
    rcases level with _ | _ | level <;> simp
  induction path with
  | nil => rfl
  | cons k path ih =>
      rw [vaddrOfV1_cons rfl, Nat.add_mod, ih, Nat.mul_mod, hunit k.level]
      simp

/-! ## Soundness -/

theorem acceptsPte_iff {p : ℕ} {ap : InstTarget} {pte : Pte} :
    acceptsPte p ap pte = true ↔
      pte.entry.addr * 4096 = p ∧ pte.entry.aperture = ap := by
  simp [acceptsPte]

theorem acceptsPteV1_iff {p : ℕ} {ap : InstTarget} {pte : PageTblEntryV1} :
    acceptsPteV1 p ap pte = true ↔ pte.addr * 4096 = p ∧ pte.target = ap := by
  simp [acceptsPteV1]

theorem View.search_eq_some {v : View} {pdConfig : PageDirConfig} {p a : ℕ}
    {ap : InstTarget} (h : v.search pdConfig p ap = some a) (ha : a ≠ 0) :
    ∃ path pte, v.findBelow p ap (List.range 5) pdConfig.root = .hit path pte ∧
      vaddrOf path = a := by
  rw [View.search] at h
  split at h
  · cases h
    exact absurd rfl ha
  · cases hfind : v.findBelow p ap (List.range 5) pdConfig.root with
    | hit path pte =>
        rw [hfind] at h
        cases h
        exact ⟨path, pte, rfl, rfl⟩
    | none =>
        rw [hfind] at h
        cases h
        exact absurd rfl ha
    | blocked r =>
        rw [hfind] at h
        cases h

theorem View.translate_of_search {v : View} {pdConfig : PageDirConfig} {p a : ℕ}
    {ap : InstTarget} (hzero : v.NoTableAtZero pdConfig)
    (h : v.search pdConfig p ap = some a) (ha : a ≠ 0) :
    v.translate pdConfig a = ⟨0, p, ap⟩ := by
  obtain ⟨path, pte, hfind, rfl⟩ := View.search_eq_some h ha
  obtain ⟨haccept, hwalk⟩ := walk_of_find_eq_hit (kss_sorted _) digits_top hfind
  obtain ⟨rfl, rfl⟩ := acceptsPte_iff.mp haccept
  have hforward := (walk_eq_walk_searchSlot hzero (vaddrOf path)).trans hwalk
  have hmod := vaddrOf_mod path
  rw [View.translate, if_neg (by omega), hforward]
  rfl

theorem View.translateV1_of_searchV1 {v : View} {pdConfig : PageDirConfig}
    {p : ℕ} {ap : InstTarget} (ha : v.searchV1 pdConfig p ap ≠ 0) :
    v.translateV1 pdConfig (v.searchV1 pdConfig p ap) = some ⟨0, p, ap⟩ := by
  rw [View.searchV1] at ha ⊢
  by_cases hconfig : (pdConfig.isVer2 || pdConfig.is64kBigPage) = true
  · simp [hconfig] at ha
  rw [if_neg hconfig] at ha ⊢
  cases hfind : v.findBelowV1 p ap [0, 1] pdConfig.root with
  | none => simp [hfind] at ha
  | blocked r => simp [hfind] at ha
  | hit path pte =>
      obtain ⟨haccept, hwalk⟩ := walk_of_find_eq_hit kssV1_sorted
        digitsV1 hfind
      obtain ⟨rfl, rfl⟩ := acceptsPteV1_iff.mp haccept
      have haccepts : acceptsV1 pdConfig (vaddrOfV1 path) = true := by
        simp only [Bool.or_eq_true, not_or, Bool.not_eq_true] at hconfig
        simp [acceptsV1, vaddrOfV1_mod path, hconfig]
      have hwalk' : v.walkV1 pdConfig (vaddrOfV1 path) = .ok pte := hwalk
      simp only [View.translateV1, if_pos haccepts, hwalk']
      rfl

/-- Reverse translation is sound, for V2 page tables with no table at address 0
and for V1 page tables: an address that the search returns is translated to what
was searched for. -/
theorem search_sound :
    (∀ (s s' : Machine) (pdConfig : PageDirConfig) (p v : ℕ) (ap : InstTarget),
      s.view.NoTableAtZero pdConfig →
      searchPageDirectory pdConfig p ap s = some (v, s') → v ≠ 0 →
      ∃ s'', translatePageDirectory pdConfig v s' = some (⟨0, p, ap⟩, s'')) ∧
    (∀ (s s' : Machine) (pdConfig : PageDirConfig) (p v : ℕ) (ap : InstTarget),
      searchV1PageDirectory pdConfig p ap s = some (v, s') → v ≠ 0 →
      ∃ s'', translateV1PageDirectory pdConfig v s' =
        some (⟨0, p, ap⟩, s'')) := by
  constructor
  · intro s s' pdConfig p v ap hzero hsearch hv
    obtain ⟨s₁, hview, -, hrun⟩ := searchPageDirectory_spec p ap s pdConfig
    rw [hrun, Option.map_eq_some_iff] at hsearch
    obtain ⟨a, hfound, heq⟩ := hsearch
    cases heq
    obtain ⟨s₂, htranslate, -⟩ := translatePageDirectory_spec s' pdConfig v
    rw [hview, View.translate_of_search hzero hfound hv] at htranslate
    exact ⟨s₂, htranslate⟩
  · intro s s' pdConfig p v ap hsearch hv
    obtain ⟨s₁, hview, -, hrun⟩ := searchV1PageDirectory_spec p ap s pdConfig
    rw [hrun] at hsearch
    cases hsearch
    obtain ⟨s₂, -, -, htranslate⟩ := translateV1PageDirectory_spec s' pdConfig
      (s.view.searchV1 pdConfig p ap)
    rw [hview, View.translateV1_of_searchV1 hv] at htranslate
    exact ⟨s₂, htranslate⟩

/-- A V2 page table in video memory that maps the second virtual page. -/
def secondPage : Machine :=
  .ofWords [(⟨.vram, 0x1000⟩, 0x202), (⟨.vram, 0x2000⟩, 0x302),
    (⟨.vram, 0x3000⟩, 0x402), (⟨.vram, 0x4008⟩, 0x502), (⟨.vram, 0x5008⟩, 0x701)]

/-- A V1 page table in video memory that maps the second virtual page. -/
def secondPageV1 : Machine :=
  .ofWords [(⟨.vram, 0x1000⟩, 0x2100000000), (⟨.vram, 0x2008⟩, 0x71)]

/-- Where every populated entry points above page 0, no table lies there. -/
theorem noTableAtZero_of_addr_ne_zero {v : View} {pdConfig : PageDirConfig}
    (hroot : pdConfig.pageDir ≠ 0)
    (hentry : ∀ l, (PageDirEntry.mk (v.mem l)).isInvalid = true ∨
      (PageDirEntry.mk (v.mem l)).addr ≠ 0) : v.NoTableAtZero pdConfig := by
  have hslot : ∀ n k m, v.searchSlot n k = .table m → m.page ≠ 0 := by
    intro n k m h
    rw [View.searchSlot] at h
    cases hd : v.deref (n.base + k.offset + ptHalf k.level) n.target with
    | null => simp [hd] at h
    | err e => simp [hd] at h
    | «at» l =>
        simp only [hd, slotOfEntry] at h
        split_ifs at h with hinvalid
        cases h
        exact (hentry l).resolve_left hinvalid
  have hpath : ∀ ks n m, Path v.searchSlot n ks m → n.page ≠ 0 →
      m.page ≠ 0 := by
    intro ks n m h hn
    induction h with
    | nil n => exact hn
    | cons step rest ih => exact ih (hslot _ _ _ step)
  exact fun ks n _ h => hpath ks _ n h hroot

theorem noTableAtZero_secondPage : secondPage.view.NoTableAtZero ⟨0x1400⟩ := by
  refine noTableAtZero_of_addr_ne_zero (by decide) ?_
  intro l
  rcases Machine.mem_ofWords _ l with hword | hword
  · exact .inl (by rw [show secondPage.view.mem l = 0 from hword]; decide)
  · simp only [List.map_cons, List.map_nil, List.mem_cons, List.not_mem_nil,
      or_false] at hword
    right
    rcases hword with hword | hword | hword | hword | hword <;>
      (rw [show secondPage.view.mem l = _ from hword]; decide)

set_option maxRecDepth 30000 in
/-- Both searches find the second page, and both translations lead back. -/
theorem runs_secondPage :
    ((∃ s', searchPageDirectory ⟨0x1400⟩ 0x7000 .vidMem secondPage = some (4096, s')) ∧
      ∃ s', translatePageDirectory ⟨0x1400⟩ 4096 secondPage =
        some (⟨0, 0x7000, .vidMem⟩, s')) ∧
    (∃ s', searchV1PageDirectory ⟨0x1000⟩ 0x7000 .vidMem secondPageV1 =
        some (4096, s')) ∧
      ∃ s', translateV1PageDirectory ⟨0x1000⟩ 4096 secondPageV1 =
        some (⟨0, 0x7000, .vidMem⟩, s') := by
  refine ⟨⟨Kernel.exists_of_map_fst ?_, Kernel.exists_of_map_fst ?_⟩,
    Kernel.exists_of_map_fst ?_, Kernel.exists_of_map_fst ?_⟩ <;> decide

theorem search_sound_secondPage :
    (∃ s' s'', searchPageDirectory ⟨0x1400⟩ 0x7000 .vidMem secondPage =
        some (4096, s') ∧
      translatePageDirectory ⟨0x1400⟩ 4096 s' =
        some (⟨0, 0x7000, .vidMem⟩, s'')) ∧
    (∃ s' s'', searchV1PageDirectory ⟨0x1000⟩ 0x7000 .vidMem secondPageV1 =
        some (4096, s') ∧
      translateV1PageDirectory ⟨0x1000⟩ 4096 s' =
        some (⟨0, 0x7000, .vidMem⟩, s'')) := by
  constructor
  · obtain ⟨s', hsearch⟩ := runs_secondPage.1.1
    obtain ⟨s'', htranslate⟩ := search_sound.1 secondPage s' ⟨0x1400⟩ 0x7000
      4096 .vidMem noTableAtZero_secondPage hsearch (by decide)
    exact ⟨s', s'', hsearch, htranslate⟩
  · obtain ⟨s', hsearch⟩ := runs_secondPage.2.1
    obtain ⟨s'', htranslate⟩ := search_sound.2 secondPageV1 s' ⟨0x1000⟩ 0x7000
      4096 .vidMem hsearch (by decide)
    exact ⟨s', s'', hsearch, htranslate⟩

/-! ## Completeness -/

/-- The search's own walk for `a` reaches a PTE that maps `p` in `ap`. -/
def View.ReachesPte (v : View) (pdConfig : PageDirConfig) (p : ℕ)
    (ap : InstTarget) (a : ℕ) : Prop :=
  Matches v.searchSlot .overrun (acceptsPte p ap) (keysOf (List.range 5))
    pdConfig.root a

/-- The walk for `a` finds a directory entry at the last level. -/
def View.RunsOver (v : View) (pdConfig : PageDirConfig) (a : ℕ) : Prop :=
  Blocks v.searchSlot .overrun skipsMiss (keysOf (List.range 5))
    pdConfig.root a

/-- The V1 walk for `a` reaches a PTE that maps `p` in `ap`. -/
def View.ReachesPteV1 (v : View) (pdConfig : PageDirConfig) (p : ℕ)
    (ap : InstTarget) (a : ℕ) : Prop :=
  Matches v.slotV1 .overrun (acceptsPteV1 p ap) keysV1 pdConfig.root a

/-- The V1 walk for `a` meets an entry that cannot be dereferenced. -/
def View.Unresolvable (v : View) (pdConfig : PageDirConfig) (a : ℕ) : Prop :=
  Blocks v.slotV1 .overrun skipsMissV1 keysV1 pdConfig.root a

theorem View.search_ne_zero_iff (v : View) (pdConfig : PageDirConfig) {p : ℕ}
    (hp : p % 4096 = 0) (ap : InstTarget) :
    (∃ a, v.search pdConfig p ap = some a ∧ a ≠ 0) ↔
      ¬ v.ReachesPte pdConfig p ap 0 ∧ ∃ a, v.ReachesPte pdConfig p ap a ∧
        ∀ b < a, ¬ v.RunsOver pdConfig b := by
  refine Iff.trans ?_ (exists_hit_address_ne_zero_iff graded_top (kss_sorted _)
    digits_top)
  constructor
  · rintro ⟨a, hsearch, ha⟩
    obtain ⟨path, pte, hfind, rfl⟩ := View.search_eq_some hsearch ha
    exact ⟨path, pte, hfind, ha⟩
  · rintro ⟨path, pte, hfind, ha⟩
    refine ⟨vaddrOf path, ?_, ha⟩
    have hfind' : v.findBelow p ap (List.range 5) pdConfig.root =
        .hit path pte := hfind
    rw [View.search, if_neg (by omega), hfind']

theorem View.searchV1_ne_zero_iff (v : View) {pdConfig : PageDirConfig}
    (hver : pdConfig.isVer2 = false) (hbig : pdConfig.is64kBigPage = false)
    (p : ℕ) (ap : InstTarget) :
    v.searchV1 pdConfig p ap ≠ 0 ↔
      ¬ v.ReachesPteV1 pdConfig p ap 0 ∧ ∃ a, v.ReachesPteV1 pdConfig p ap a ∧
        ∀ b < a, ¬ v.Unresolvable pdConfig b := by
  refine Iff.trans ?_ (exists_hit_address_ne_zero_iff gradedV1 kssV1_sorted
    digitsV1)
  have hfind : RadixTable.find v.slotV1 .overrun (acceptsPteV1 p ap)
      skipsMissV1 kssV1 pdConfig.root =
      v.findBelowV1 p ap [0, 1] pdConfig.root := rfl
  rw [View.searchV1, hver, hbig, hfind]
  simp only [Bool.or_self, Bool.false_eq_true, if_false]
  cases v.findBelowV1 p ap [0, 1] pdConfig.root with
  | none => simp
  | blocked r => simp
  | hit path pte =>
      simp only [Found.hit.injEq]
      constructor
      · intro ha
        exact ⟨path, pte, ⟨rfl, rfl⟩, ha⟩
      · rintro ⟨_, _, ⟨rfl, rfl⟩, ha⟩
        exact ha

theorem View.mod_of_translate {v : View} {pdConfig : PageDirConfig} {a p : ℕ}
    {ret : ℤ} {ap : InstTarget} (h : v.translate pdConfig a = ⟨ret, p, ap⟩) :
    p % 4096 = 0 := by
  have hfailed : ∀ e : ℤ, Translation.failed e = ⟨ret, p, ap⟩ →
      p % 4096 = 0 := by
    intro e he
    cases he
    rfl
  rw [View.translate] at h
  split at h
  · exact hfailed _ h
  · generalize v.walk PageDirEntry.addr (List.range 5) a pdConfig.root = r at h
    cases r with
    | ok pte =>
        cases h
        omega
    | error r => cases r <;> exact hfailed _ h

/-- When some virtual address is translated to `(p, ap)`, the search finds a
nonzero address for `(p, ap)` exactly if address 0 is not mapped to it as well
and some address mapped to it is preceded by nothing that stops the search: for
V2 tables a directory entry at the last level, for V1 tables an entry that
cannot be dereferenced. -/
theorem search_complete_iff (s : Machine) (pdConfig : PageDirConfig) (p v : ℕ)
    (ap : InstTarget) :
    ((∃ s', translatePageDirectory pdConfig v s = some (⟨0, p, ap⟩, s')) →
      ((∃ a s', searchPageDirectory pdConfig p ap s = some (a, s') ∧ a ≠ 0) ↔
        ¬ s.view.ReachesPte pdConfig p ap 0 ∧
          ∃ a, s.view.ReachesPte pdConfig p ap a ∧
            ∀ b < a, ¬ s.view.RunsOver pdConfig b)) ∧
    ((∃ s', translateV1PageDirectory pdConfig v s = some (⟨0, p, ap⟩, s')) →
      ((∃ a s', searchV1PageDirectory pdConfig p ap s = some (a, s') ∧ a ≠ 0) ↔
        ¬ s.view.ReachesPteV1 pdConfig p ap 0 ∧
          ∃ a, s.view.ReachesPteV1 pdConfig p ap a ∧
            ∀ b < a, ¬ s.view.Unresolvable pdConfig b)) := by
  constructor
  · rintro ⟨s', htranslate⟩
    obtain ⟨s₁, hrun, -⟩ := translatePageDirectory_spec s pdConfig v
    rw [hrun, Option.some.injEq, Prod.mk.injEq] at htranslate
    have hp := View.mod_of_translate htranslate.1
    rw [← s.view.search_ne_zero_iff pdConfig hp ap]
    obtain ⟨s₂, -, -, hsearch⟩ := searchPageDirectory_spec p ap s pdConfig
    rw [hsearch]
    constructor
    · rintro ⟨a, s'', hfound, ha⟩
      rw [Option.map_eq_some_iff] at hfound
      obtain ⟨a', hfound, heq⟩ := hfound
      cases heq
      exact ⟨a, hfound, ha⟩
    · rintro ⟨a, hfound, ha⟩
      exact ⟨a, s₂, by rw [hfound, Option.map_some], ha⟩
  · rintro ⟨s', htranslate⟩
    obtain ⟨s₁, -, -, hrun⟩ := translateV1PageDirectory_spec s pdConfig v
    have haccepts : acceptsV1 pdConfig v = true := by
      by_contra hrejected
      rw [hrun, View.translateV1, if_neg hrejected] at htranslate
      cases htranslate
    simp only [acceptsV1, Bool.and_eq_true, Bool.not_eq_true'] at haccepts
    rw [← s.view.searchV1_ne_zero_iff haccepts.1.2 haccepts.2 p ap]
    obtain ⟨s₂, -, -, hsearch⟩ := searchV1PageDirectory_spec p ap s pdConfig
    rw [hsearch]
    constructor
    · rintro ⟨a, s'', hfound, ha⟩
      cases hfound
      exact ha
    · intro ha
      exact ⟨_, s₂, rfl, ha⟩

theorem search_complete_secondPage :
    (¬ secondPage.view.ReachesPte ⟨0x1400⟩ 0x7000 .vidMem 0 ∧
      ∃ a, secondPage.view.ReachesPte ⟨0x1400⟩ 0x7000 .vidMem a ∧
        ∀ b < a, ¬ secondPage.view.RunsOver ⟨0x1400⟩ b) ∧
    (¬ secondPageV1.view.ReachesPteV1 ⟨0x1000⟩ 0x7000 .vidMem 0 ∧
      ∃ a, secondPageV1.view.ReachesPteV1 ⟨0x1000⟩ 0x7000 .vidMem a ∧
        ∀ b < a, ¬ secondPageV1.view.Unresolvable ⟨0x1000⟩ b) := by
  constructor
  · obtain ⟨⟨s', hsearch⟩, htranslate⟩ := runs_secondPage.1
    exact ((search_complete_iff secondPage ⟨0x1400⟩ 0x7000 4096 .vidMem).1
      htranslate).mp ⟨4096, s', hsearch, by decide⟩
  · obtain ⟨⟨s', hsearch⟩, htranslate⟩ := runs_secondPage.2
    exact ((search_complete_iff secondPageV1 ⟨0x1000⟩ 0x7000 4096 .vidMem).2
      htranslate).mp ⟨4096, s', hsearch, by decide⟩

/-- The first two virtual pages map the same physical page. -/
def firstTwoPages : Machine :=
  .ofWords [(⟨.vram, 0x1000⟩, 0x202), (⟨.vram, 0x2000⟩, 0x302),
    (⟨.vram, 0x3000⟩, 0x402), (⟨.vram, 0x4008⟩, 0x502),
    (⟨.vram, 0x5000⟩, 0x701), (⟨.vram, 0x5008⟩, 0x701)]

/-- The first V1 directory entry has a big-page table only. -/
def bigPagesFirst : Machine :=
  .ofWords [(⟨.vram, 0x1000⟩, 0x201), (⟨.vram, 0x1008⟩, 0x2100000000),
    (⟨.vram, 0x2008⟩, 0x71)]

set_option maxRecDepth 30000 in
/-- Address 0 hides the second page of the V2 table, and the big-page table
hides what comes after it in the V1 table. -/
theorem not_search_complete :
    ((translatePageDirectory ⟨0x1400⟩ 4096 firstTwoPages).map Prod.fst =
        some ⟨0, 0x7000, .vidMem⟩ ∧
      (searchPageDirectory ⟨0x1400⟩ 0x7000 .vidMem firstTwoPages).map Prod.fst =
        some 0) ∧
    ((translateV1PageDirectory ⟨0x1000⟩ 0x8001000 bigPagesFirst).map Prod.fst =
        some ⟨0, 0x7000, .vidMem⟩ ∧
      (searchV1PageDirectory ⟨0x1000⟩ 0x7000 .vidMem bigPagesFirst).map Prod.fst =
        some 0) := by
  refine ⟨⟨?_, ?_⟩, ?_, ?_⟩ <;> decide

end A100Partitioning.Nvdebug
