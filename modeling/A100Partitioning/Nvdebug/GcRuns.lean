import A100Partitioning.Nvdebug.Gc
import A100Partitioning.Nvdebug.MapFrame

/-!
# Garbage collection after any sequence of mappings

Mapping pages, in any page tables, and zeroing of entries from outside keep the
tracked pages in an order in which parents are older than their children, and
every directory entry that was written is the parent entry of a tracked page.
From this follows what `gc_page_directory` frees.
-/

namespace A100Partitioning.Nvdebug

open Support RadixTable

/-! ## Runs -/

/-- The pages handed out for the given levels are not tracked already, and
neither hold nor have the bus address of a parent entry of a tracked page. -/
structure UntrackedPages (alloc : ℕ → PageAlloc) (levels : List ℕ) (v : View) :
    Prop where
  frame_ne : ∀ level ∈ levels, ∀ frame, (alloc level).frame? = some frame →
    ∀ p ∈ v.pdAllocs, frame ≠ p.frame ∧
      ∀ l, v.parent p = .at l → ¬ l.InFrame frame
  bus_ne : ∀ level ∈ levels, ∀ page, alloc level = .mapped page →
    ∀ p ∈ v.pdAllocs, page.bus ≠ p.dmaAddr ∧
      (p.parentAperture = .pdVidMem ∨ p.parentAddr / 4096 ≠ page.bus / 4096)

/-- `PdRun s₀ requests s`: calls of `map_page_directory` with the given requests,
newest first, and zeroing of single entries lead from `s₀` to `s`. -/
inductive PdRun (s₀ : Machine) : List MapRequest → Machine → Prop where
  | start : PdRun s₀ [] s₀
  | map {requests : List MapRequest} {s s' : Machine} {alloc : ℕ → PageAlloc}
      {pdConfig : PageDirConfig} {q : MapRequest} {ret : ℤ}
      (before : PdRun s₀ requests s)
      (fresh : FreshPages alloc (List.range 5) s.view pdConfig.root)
      (untracked : UntrackedPages alloc (List.range 5) s.view)
      (run : mapPageDirectory alloc pdConfig q.vaddrToFind q.paddrToMap
        q.paddrTarget q.hugePage s = some (ret, s')) :
      PdRun s₀ (q :: requests) s'
  | zero {requests : List MapRequest} {s : Machine}
      (before : PdRun s₀ requests s) (l : Loc) :
      PdRun s₀ requests { s with toCore := s.toCore.write l 0 }

/-- What the words of memory can be after mappings started from `m₀`: unchanged,
unpopulated, a PTE as requested, or the parent entry of a tracked page. -/
def View.WordsFrom (v : View) (m₀ : Loc → BitVec 64)
    (requests : List MapRequest) : Prop :=
  ∀ l, v.mem l = m₀ l ∨ (PageDirEntry.mk (v.mem l)).isInvalid = true ∨
    (∃ q ∈ requests, (PageDirEntry.mk (v.mem l)).isPte = true ∧
      (PageDirEntry.mk (v.mem l)).aperture = q.paddrTarget ∧
      (q.paddrTarget ≠ .vidMem →
        (PageDirEntry.mk (v.mem l)).addrW = q.paddrToMap / 4096)) ∨
    ∃ p ∈ v.pdAllocs, v.parent p = .at l ∧
      (PageDirEntry.mk (v.mem l)).addrW = p.dmaAddr / 4096

/-! ## Steps -/

theorem View.Tracked.congr {v v' : View} (h : v.Tracked)
    (hallocs : v'.pdAllocs = v.pdAllocs)
    (hderef : ∀ addr pdAp, v'.deref addr pdAp = v.deref addr pdAp)
    (hbus : ∀ addr, v'.busLoc addr = v.busLoc addr) : v'.Tracked := by
  have hparent : ∀ p, v'.parent p = v.parent p := fun p => hderef _ _
  constructor <;> simp only [hallocs, hparent, hbus]
  · exact h.aligned
  · exact h.pos
  · exact h.lt
  · exact h.resolves
  · exact h.frames
  · exact h.buses
  · exact h.order
  · exact h.noLoop

theorem View.deref_install (v : View) (q : MapRequest) (level : ℕ) (l : Loc)
    (entry : PageDirEntry) (addr : ℕ) (pdAp : PdTarget) :
    (v.install q level l entry).deref addr pdAp = v.deref addr pdAp := by
  rw [View.install]
  split <;> rfl

theorem View.Tracked.install {v : View} (h : v.Tracked) (q : MapRequest)
    (level : ℕ) (l : Loc) (entry : PageDirEntry) :
    (v.install q level l entry).Tracked := by
  apply h.congr
  · rw [View.install]
    split <;> rfl
  · exact v.deref_install q level l entry
  · rw [View.install]
    split <;> exact fun _ => rfl

section LinkTracked

variable {alloc : ℕ → PageAlloc} {levels : List ℕ} {v : View} {root n : Table}
variable {pre : List PtKey} {k : PtKey} {l : Loc} {page : DmaPage}

/-- The record of a new page. -/
def DmaPage.record (page : DmaPage) (n : Table) (k : PtKey) : NvdebugPdPage :=
  ⟨page.frame, n.base + ptHalf k.level + k.offset, n.target, page.bus⟩

theorem pdAllocs_link (entry : PageDirEntry) :
    (v.link n k l entry page).pdAllocs = page.record n k :: v.pdAllocs := rfl

/-- A new page's parent entry is the one that it was linked in at. -/
theorem LinkStep.parent_record (h : LinkStep alloc levels v root n pre k l page) :
    (v.link n k l ⟨v.mem l⟩ page).parent (page.record n k) = .at l := by
  have hoff := offset_lt (inRange_of_valid h.valid)
  have hdiv : (n.base + ptHalf k.level + k.offset) / 4096 = n.page := by
    rw [Table.base]
    omega
  have hne := h.fresh.bus_ne k.level h.mem page h.alloc_eq pre n h.hasTable
  have hbase : n.base + ptHalf k.level ≠ 0 := by
    intro hzero
    obtain ⟨l₀, hd, -⟩ := View.exists_of_entryLoc h.loc
    rw [hzero] at hd
    simp [View.deref] at hd
  rw [View.parent]
  simp only [DmaPage.record]
  rw [deref_link (by rwa [hdiv]), View.deref_add hbase
    (by rw [Table.base]; omega)]
  exact h.loc

theorem parent_link (huntracked : UntrackedPages alloc levels v) {level : ℕ}
    (hlevel : level ∈ levels) (halloc : alloc level = .mapped page)
    {p : NvdebugPdPage} (hp : p ∈ v.pdAllocs) (entry : PageDirEntry) :
    (v.link n k l entry page).parent p = v.parent p :=
  deref_link (huntracked.bus_ne level hlevel page halloc p hp).2

theorem busLoc_link_of_ne {addr : ℕ} (hne : addr / 4096 ≠ page.bus / 4096)
    (entry : PageDirEntry) :
    (v.link n k l entry page).busLoc addr = v.busLoc addr := by
  simp only [Core.busLoc, View.link, View.write, Core.track, Core.dmaMap,
    Core.zeroFrame]
  cases v.iommu with
  | none => rfl
  | some dom =>
      simp only [Option.map_some, iommuIovaToPhys, Function.update_of_ne hne]

/-- Linking in an untracked page keeps the tracked pages in order. -/
theorem LinkStep.tracked (h : LinkStep alloc levels v root n pre k l page)
    (huntracked : UntrackedPages alloc levels v) (htracked : v.Tracked) :
    (v.link n k l ⟨v.mem l⟩ page).Tracked := by
  have hparent := fun p hp => parent_link (n := n) (k := k) (l := l) huntracked
    h.mem h.alloc_eq (p := p) hp ⟨v.mem l⟩
  have hself := h.parent_record
  have hframe := h.frame_ne h.hasTable h.valid h.loc
  have hnew := huntracked.frame_ne k.level h.mem page.frame
    (by rw [h.alloc_eq]; rfl)
  have hbus := huntracked.bus_ne k.level h.mem page h.alloc_eq
  have hwf := h.wellFormed
  constructor <;> simp only [pdAllocs_link, List.mem_cons, forall_eq_or_imp,
    List.pairwise_cons]
  · exact ⟨hwf.bus_aligned, htracked.aligned⟩
  · exact ⟨hwf.bus_pos, htracked.pos⟩
  · exact ⟨hwf.bus_lt, htracked.lt⟩
  · refine ⟨fun a ha => busLoc_link_self hwf ha, fun p hp a ha => ?_⟩
    have hne := (hbus p hp).1
    have haligned := htracked.aligned p hp
    have hbusAligned := hwf.bus_aligned
    rw [busLoc_link_of_ne (by omega)]
    exact htracked.resolves p hp a ha
  · exact ⟨fun p hp => (hnew p hp).1, htracked.frames⟩
  · exact ⟨fun p hp => (hbus p hp).1, htracked.buses⟩
  · refine ⟨fun p hp l' hl' => ?_, htracked.order.imp_of_mem ?_⟩
    · rw [hparent p hp] at hl'
      exact (hnew p hp).2 l' hl'
    · intro p p' _ hp' hpair l' hl'
      rw [hparent p' hp'] at hl'
      exact hpair l' hl'
  · refine ⟨fun l' hl' => ?_, fun p hp l' hl' => ?_⟩
    · cases hself.symm.trans hl'
      exact hframe
    · rw [hparent p hp] at hl'
      exact htracked.noLoop p hp l' hl'

theorem LinkStep.wordsFrom {m₀ : Loc → BitVec 64} {requests : List MapRequest}
    (h : LinkStep alloc levels v root n pre k l page)
    (huntracked : UntrackedPages alloc levels v)
    (hwords : v.WordsFrom m₀ requests) :
    (v.link n k l ⟨v.mem l⟩ page).WordsFrom m₀ requests := by
  intro l'
  rw [mem_link]
  split_ifs with hl hin
  · subst hl
    refine .inr (.inr (.inr ⟨page.record n k, by simp [pdAllocs_link],
      h.parent_record, ?_⟩))
    rw [toPde_addrW_of_wellFormed h.wellFormed]
    rfl
  · exact .inr (.inl PageDirEntry.isInvalid_zero)
  · refine (hwords l').imp_right (.imp_right (.imp_right ?_))
    rintro ⟨p, hp, hparent, hpoints⟩
    refine ⟨p, by simp [pdAllocs_link, hp], ?_, hpoints⟩
    rw [parent_link huntracked h.mem h.alloc_eq hp, hparent]

end LinkTracked

theorem LinkStep.untracked_rest {alloc : ℕ → PageAlloc} {level i : ℕ}
    {levels : List ℕ} {v : View} {root n : Table} {pre : List PtKey} {l : Loc}
    {page : DmaPage}
    (h : LinkStep alloc (level :: levels) v root n pre ⟨level, i⟩ l page)
    (huntracked : UntrackedPages alloc (level :: levels) v) :
    UntrackedPages alloc levels
      (v.link n ⟨level, i⟩ l ⟨v.mem l⟩ page) where
  frame_ne level' hlevel frame halloc := by
    have hframes := (List.pairwise_cons.mp h.fresh.frame_inj).1 level' hlevel
      page.frame frame (by rw [h.alloc_eq]; rfl) halloc
    have hself := h.parent_record
    simp only [pdAllocs_link, List.mem_cons, forall_eq_or_imp]
    refine ⟨⟨hframes.symm, fun l' hl' => ?_⟩, fun p hp => ?_⟩
    · cases hself.symm.trans hl'
      exact h.fresh.frame_ne level' (by simp [hlevel]) frame halloc pre n _ l
        h.hasTable h.valid h.loc
    · rw [parent_link huntracked (by simp) h.alloc_eq hp]
      exact huntracked.frame_ne level' (by simp [hlevel]) frame halloc p hp
  bus_ne level' hlevel page' halloc := by
    have hbuses := (List.pairwise_cons.mp h.fresh.bus_inj).1 level' hlevel page
      page' h.alloc_eq halloc
    have hoff := offset_lt (inRange_of_valid h.valid)
    have hdiv : (n.base + ptHalf level + PtKey.offset ⟨level, i⟩) / 4096 =
        n.page := by
      simp only at hoff
      rw [Table.base]
      omega
    simp only [pdAllocs_link, List.mem_cons, forall_eq_or_imp]
    refine ⟨⟨fun heq => hbuses heq.symm, ?_⟩, fun p hp => ?_⟩
    · simp only [DmaPage.record, hdiv]
      exact h.fresh.bus_ne level' (by simp [hlevel]) page' halloc pre n
        h.hasTable
    · exact huntracked.bus_ne level' (by simp [hlevel]) page' halloc p hp

theorem UntrackedPages.tail {alloc : ℕ → PageAlloc} {level : ℕ}
    {levels : List ℕ} {v : View} (h : UntrackedPages alloc (level :: levels) v) :
    UntrackedPages alloc levels v where
  frame_ne level' hlevel := h.frame_ne level' (by simp [hlevel])
  bus_ne level' hlevel := h.bus_ne level' (by simp [hlevel])

theorem View.WordsFrom.install {v : View} {m₀ : Loc → BitVec 64}
    {requests : List MapRequest} (h : v.WordsFrom m₀ requests) {q : MapRequest}
    (hq : q ∈ requests) (haccepted : q.isAccepted = true) (level : ℕ) (l : Loc)
    (entry : PageDirEntry) :
    (v.install q level l entry).WordsFrom m₀ requests := by
  intro l'
  rw [mem_install]
  split_ifs
  · refine .inr (.inr (.inl ⟨q, hq, PageDirEntry.toPte_isPte _ _ _,
      PageDirEntry.toPte_aperture _ _ _, fun hvid => ?_⟩))
    simp only [MapRequest.isAccepted, Bool.and_eq_true, decide_eq_true_eq]
      at haccepted
    have hlt : q.paddrToMap < 2 ^ 58 := by
      apply haccepted.1.2
      cases htarget : q.paddrTarget <;> simp_all
    rw [PageDirEntry.toPte_addrW _ _ _ hvid]
    omega
  · refine (h l').imp_right (.imp_right (.imp_right ?_))
    rintro ⟨p, hp, hparent, hpoints⟩
    refine ⟨p, ?_, ?_, hpoints⟩
    · rw [View.install]
      split <;> exact hp
    · exact (v.deref_install q level l entry _ _).trans hparent

theorem View.WordsFrom.zeroFrame {v : View} {m₀ : Loc → BitVec 64}
    {requests : List MapRequest} (h : v.WordsFrom m₀ requests) (frame : ℕ) :
    (v.zeroFrame frame).WordsFrom m₀ requests := by
  intro l
  by_cases hin : l.InFrame frame
  · have hzero : (v.zeroFrame frame).mem l = 0 := if_pos hin
    rw [hzero]
    exact .inr (.inl PageDirEntry.isInvalid_zero)
  · have hkeep : (v.zeroFrame frame).mem l = v.mem l := if_neg hin
    rw [hkeep]
    exact h l

theorem MapRun.tracked {q : MapRequest} {alloc : ℕ → PageAlloc} {levels : List ℕ}
    {n root : Table} {v v' : View} {ret : ℤ} {pre : List PtKey}
    {m₀ : Loc → BitVec 64} {requests : List MapRequest}
    (hrun : MapRun q alloc levels n v ret v') (hq : q ∈ requests)
    (haccepted : q.isAccepted = true)
    (hstate : MapState q alloc levels root n v pre)
    (huntracked : UntrackedPages alloc levels v) (htracked : v.Tracked)
    (hwords : v.WordsFrom m₀ requests) :
    v'.Tracked ∧ v'.WordsFrom m₀ requests := by
  induction hrun generalizing pre with
  | ranOut n v => exact ⟨htracked, hwords⟩
  | unresolved bad => exact ⟨htracked, hwords⟩
  | found loc valid stop => exact ⟨htracked, hwords⟩
  | descend loc valid pde small rest ih =>
      exact ih (hstate.descend loc valid pde) huntracked.tail htracked hwords
  | install loc invalid final =>
      exact ⟨htracked.install _ _ _ _, hwords.install hq haccepted _ _ _⟩
  | exhausted loc invalid inner out => exact ⟨htracked, hwords⟩
  | unmapped loc invalid inner out =>
      exact ⟨htracked.congr rfl (fun _ _ => rfl) fun _ => rfl,
        hwords.zeroFrame _⟩
  | @link level levels n v v' l page ret loc invalid inner out rest ih =>
      have hlink := hstate.linkStep loc invalid out
      rw [hstate.toPde_table out] at ih
      exact ih (hstate.link loc invalid out) (hlink.untracked_rest huntracked)
        (hlink.tracked huntracked htracked) (hlink.wordsFrom huntracked hwords)

theorem PdRun.tracked {s₀ s : Machine} {requests : List MapRequest}
    (hrun : PdRun s₀ requests s) (hstart : s₀.pdAllocs = []) :
    s.view.Tracked ∧ s.view.WordsFrom s₀.mem requests := by
  induction hrun with
  | start =>
      have hnil : s₀.view.pdAllocs = [] := hstart
      refine ⟨?_, fun l => .inl rfl⟩
      constructor <;> simp [hnil]
  | @map requests s s' alloc pdConfig q ret before fresh untracked run ih =>
      obtain ⟨htracked, hwords⟩ := ih
      have hmore : s.view.WordsFrom s₀.mem (q :: requests) := fun l =>
        (hwords l).imp_right (.imp_right (.imp_left fun ⟨q', hq', h⟩ =>
          ⟨q', by simp [hq'], h⟩))
      obtain ⟨ret', s'', hspec, -, hcases⟩ :=
        mapPageDirectory_spec q alloc s pdConfig
      rw [hspec] at run
      cases run
      rcases hcases with ⟨-, -, hview⟩ | ⟨haccepted, hmap⟩
      · rw [hview]
        exact ⟨htracked, hmore⟩
      · exact hmap.tracked (by simp) haccepted (mapState_root fresh) untracked
          htracked hmore
  | @zero requests s before l ih =>
      obtain ⟨htracked, hwords⟩ := ih
      refine ⟨htracked.congr rfl (fun _ _ => rfl) fun _ => rfl, fun l' => ?_⟩
      by_cases hl : l' = l
      · right; left
        rw [hl]
        exact (congrArg (fun w => (PageDirEntry.mk w).isInvalid)
          (s.view.write_mem_self l 0)).trans PageDirEntry.isInvalid_zero
      · have hkeep : ({ s with toCore := s.toCore.write l 0 } : Machine).view.mem
            l' = s.view.mem l' := s.view.write_mem_of_ne 0 hl
        rw [hkeep]
        exact hwords l'

/-! ## What a pass achieves -/

/-- What an unforced pass from `s` to `s'` that returns `ret` should do: free
the pages without an intact chain, return their number and leave everything else
alone, so that another pass finds nothing to free. -/
structure GcFrees (s s' : Machine) (ret : ℤ) : Prop where
  mem_iff : ∀ p, p ∈ s'.pdAllocs ↔ p ∈ s.pdAllocs ∧ s.view.Intact p
  count : ret = (s.pdAllocs.filter fun p => p ∉ s'.pdAllocs).length
  words : ∀ l, (∀ p ∈ s.pdAllocs, ¬ s.view.Intact p → ¬ l.InFrame p.frame) →
    s'.mem l = s.mem l
  buses : ∀ a, (∀ p ∈ s.pdAllocs, ¬ s.view.Intact p →
    a / 4096 ≠ p.dmaAddr / 4096) → s'.busLoc a = s.busLoc a
  again : ∃ s'', gcPageDirectory false s' = some (0, s'') ∧ s''.view = s'.view

/-- What a forced pass from `s` to `s'` should do, after a run from `s₀` with
the given requests: track no page any more and leave no pointer to a freed page
behind, other than words that nobody wrote and PTEs that map the freed page
because they were requested to. -/
structure GcDeletes (s₀ : Machine) (requests : List MapRequest) (s s' : Machine) :
    Prop where
  empty : s'.pdAllocs = []
  parents : ∀ p ∈ s.pdAllocs, ∀ l, s.view.parent p = .at l →
    s.view.Survives l →
    (PageDirEntry.mk (s'.mem l)).addrW ≠ p.dmaAddr / 4096
  words : ∀ l, s.view.Survives l → ∀ p ∈ s.pdAllocs,
    (PageDirEntry.mk (s'.mem l)).isInvalid = false →
    (PageDirEntry.mk (s'.mem l)).aperture.isSysMem = true →
    (PageDirEntry.mk (s'.mem l)).addrW = p.dmaAddr / 4096 →
    s'.mem l = s₀.mem l ∨ (PageDirEntry.mk (s'.mem l)).isPte = true ∧
      ∃ q ∈ requests, q.paddrToMap / 4096 = p.dmaAddr / 4096

theorem View.busLoc_freeAll {v : View} {pages : List NvdebugPdPage} {a : ℕ}
    (h : ∀ p ∈ pages, a / 4096 ≠ p.dmaAddr / 4096) :
    (v.freeAll pages).busLoc a = v.busLoc a := by
  induction pages using List.reverseRecOn with
  | nil => rfl
  | append_singleton pages page ih =>
      rw [View.freeAll_append]
      rcases (v.freeAll pages).busLoc_freePage page a with heq | ⟨-, hpage⟩
      · rw [heq]
        exact ih fun p hp => h p (by simp [hp])
      · exact absurd hpage (h page (by simp))

/-- The call goes through the tracked pages from the oldest to the newest. -/
theorem gcPageDirectory_spec (force : Bool) {s : Machine}
    (htracked : s.view.Tracked) :
    ∃ ret s', gcPageDirectory force s = some (ret, s') ∧
      GcRun force s.pdAllocs.reverse s.view 0 ret s'.view ∧ s.FreshSince s' :=
  gcPages_spec force (fun _ hp => htracked.page_ge (List.mem_reverse.mp hp)) s 0

/-- An unforced pass over tracked pages frees those without an intact chain. -/
theorem gcFrees_of_tracked {s s' : Machine} {ret : ℤ} (htracked : s.view.Tracked)
    (hgc : gcPageDirectory false s = some (ret, s')) (hret : 0 ≤ ret) :
    GcFrees s s' ret := by
  obtain ⟨ret', s₁, hspec, hrun, -⟩ := gcPageDirectory_spec false htracked
  rw [hspec] at hgc
  cases hgc
  obtain ⟨freed, hview, hfreed, hnodup, hlen⟩ := @GcRun.frees s.view _ [] _ _ _ _ htracked hrun
    (by simp; rfl) (by simp) List.nodup_nil rfl hret
  have hallocs : s'.pdAllocs = s.pdAllocs.diff freed :=
    (congrArg (·.pdAllocs) hview).trans (s.view.pdAllocs_freeAll freed)
  have hpages : s.pdAllocs.Nodup := htracked.nodup
  have hmem : ∀ p, p ∈ s'.pdAllocs ↔ p ∈ s.pdAllocs ∧ s.view.Intact p := by
    intro p
    rw [hallocs, hpages.mem_sdiff_iff, hfreed]
    constructor
    · rintro ⟨hp, hnot⟩
      exact ⟨hp, by_contra fun hbroken => hnot ⟨hp, hbroken⟩⟩
    · rintro ⟨hp, hintact⟩
      exact ⟨hp, fun h => h.2 hintact⟩
  have hsub : ∀ p ∈ freed, p ∈ s.view.pdAllocs := fun p hp => ((hfreed p).mp hp).1
  have hbroken : ∀ p ∈ freed, ¬ s.view.Intact p := fun p hp =>
    ((hfreed p).mp hp).2
  refine ⟨hmem, ?_, fun l hl => ?_, fun a ha => ?_, ?_⟩
  · have hperm : freed.Perm (s.pdAllocs.filter fun p => p ∉ s'.pdAllocs) := by
      refine (List.perm_ext_iff_of_nodup hnodup (hpages.filter _)).mpr fun p => ?_
      rw [hfreed, List.mem_filter, decide_eq_true_eq, hmem]
      exact ⟨fun h => ⟨h.1, fun h' => h.2 h'.2⟩, fun h => ⟨h.1, fun h' => h.2 ⟨h.1, h'⟩⟩⟩
    rw [hlen, hperm.length_eq]
  · refine (congrFun (congrArg (·.mem) hview) l).trans
      (View.mem_freeAll_of_not fun p hp => ?_)
    exact hl p (hsub p hp) (hbroken p hp)
  · have hbus : s'.busLoc a = (s.view.freeAll freed).busLoc a :=
      congrArg (fun v : View => v.busLoc a) hview
    rw [hbus]
    exact View.busLoc_freeAll fun p hp => ha p (hsub p hp) (hbroken p hp)
  · have hge : ∀ p ∈ s'.pdAllocs.reverse, 4096 ≤ p.dmaAddr := fun p hp =>
      htracked.page_ge ((hmem p).mp (List.mem_reverse.mp hp)).1
    obtain ⟨ret, s'', hagain, hrun', -⟩ := gcPages_spec false hge s' 0
    obtain ⟨rfl, hsame⟩ := hrun'.eq_of_pointsTo fun p hp => by
      rw [hview]
      exact htracked.pointsTo_freeAll hsub hbroken
        ((hmem p).mp (List.mem_reverse.mp hp)).2
    exact ⟨s'', hagain, hsame⟩

/-- A forced pass over tracked pages frees all and leaves no pointer to them. -/
theorem gcDeletes_of_tracked {s₀ s s' : Machine} {requests : List MapRequest}
    {ret : ℤ} (htracked : s.view.Tracked)
    (hwords : s.view.WordsFrom s₀.mem requests)
    (hgc : gcPageDirectory true s = some (ret, s')) (hret : 0 ≤ ret) :
    GcDeletes s₀ requests s s' := by
  obtain ⟨ret', s₁, hspec, hrun, -⟩ := gcPageDirectory_spec true htracked
  rw [hspec] at hgc
  cases hgc
  have hstart : Deleting s.view [] s.pdAllocs.reverse s.view :=
    ⟨rfl, fun p => List.mem_reverse.symm, htracked.nodup, fun l => .inr rfl,
      fun p _ l hloc _ => hloc, by simp⟩
  have hdone := hrun.deletes htracked hstart hret
  have hparents : ∀ p ∈ s.pdAllocs, ∀ l, s.view.parent p = .at l →
      s.view.Survives l → (PageDirEntry.mk (s'.mem l)).addrW ≠ p.dmaAddr / 4096 :=
    fun p hp l hloc hsurvives =>
      hdone.cleared p (List.mem_reverse.mpr hp) l hloc hsurvives
  refine ⟨?_, hparents, fun l hsurvives p hp hvalid hsys hpoints => ?_⟩
  · exact List.eq_nil_iff_forall_not_mem.mpr fun p hp =>
      absurd ((hdone.mem_allocs p).mp hp) (by simp)
  · have hkept : s'.mem l = s.mem l := by
      rcases hdone.mem_or l with hzero | hkept
      · have hinvalid := PageDirEntry.isInvalid_zero
        rw [← hzero] at hinvalid
        exact absurd (hinvalid.symm.trans hvalid) (by decide)
      · exact hkept
    rw [hkept] at hvalid hsys hpoints ⊢
    rcases hwords l with hsame | hinvalid | hpte | ⟨p', hp', hparent, hpoints'⟩
    · exact .inl hsame
    · exact absurd (hinvalid.symm.trans hvalid) (by decide)
    · obtain ⟨q, hq, hpte, hap, haddr⟩ := hpte
      have hvid : q.paddrTarget ≠ .vidMem := by
        rintro hvid
        rw [show (PageDirEntry.mk (s.mem l)).aperture = _ from hap, hvid] at hsys
        exact absurd hsys (by decide)
      exact .inr ⟨hpte, q, hq, (haddr hvid).symm.trans hpoints⟩
    · have hcleared := hparents p' hp' l hparent hsurvives
      rw [hkept] at hcleared
      exact absurd hpoints' hcleared

/-- After any mappings and any zeroing of entries, an unforced pass frees the
pages without an intact chain, and a forced one frees all pages and leaves no
pointer to them. -/
theorem gc_of_pdRun (s₀ s : Machine) (requests : List MapRequest)
    (hstart : s₀.pdAllocs = []) (hrun : PdRun s₀ requests s) :
    (∀ ret s', gcPageDirectory false s = some (ret, s') → 0 ≤ ret →
      GcFrees s s' ret) ∧
    ∀ ret s', gcPageDirectory true s = some (ret, s') → 0 ≤ ret →
      GcDeletes s₀ requests s s' := by
  obtain ⟨htracked, hwords⟩ := hrun.tracked hstart
  exact ⟨fun ret s' hgc hret => gcFrees_of_tracked htracked hgc hret,
    fun ret s' hgc hret => gcDeletes_of_tracked htracked hwords hgc hret⟩

theorem untrackedPages_exhausted (levels : List ℕ) (v : View) :
    UntrackedPages (fun _ => .exhausted) levels v where
  frame_ne _ _ _ halloc := by cases halloc
  bus_ne _ _ _ halloc := by cases halloc

theorem untrackedPages_of_nil {alloc : ℕ → PageAlloc} {levels : List ℕ} {v : View}
    (h : v.pdAllocs = []) : UntrackedPages alloc levels v := by
  constructor <;> simp [h]

/-- One mapping, whose top-level entry is then zeroed: all four pages go. -/
theorem gc_of_pdRun_emptyTable :
    ∃ s s', PdRun emptyTable [⟨0x3000, 0x7000, .vidMem, false⟩] s ∧
      gcPageDirectory false s = some (4, s') ∧ GcFrees s s' 4 := by
  have hcode : ((mapPageDirectory (allocFrom 16) ⟨0x1402⟩ 0x3000 0x7000 .vidMem
      false emptyTable).bind fun r => (gcPageDirectory false
        { r.2 with toCore := r.2.toCore.write ⟨.sysmem, 0x1000⟩ 0 }).map
          Prod.fst) = some 4 := by
    decide +kernel
  obtain ⟨⟨ret, s⟩, hmap, hgc⟩ := Option.bind_eq_some_iff.mp hcode
  obtain ⟨s', hgc⟩ := Kernel.exists_of_map_fst hgc
  have hrun := (PdRun.map (q := ⟨0x3000, 0x7000, .vidMem, false⟩)
    (@PdRun.start emptyTable) freshPages_emptyTable
    (untrackedPages_of_nil rfl) hmap).zero ⟨.sysmem, 0x1000⟩
  exact ⟨_, s', hrun, hgc,
    (gc_of_pdRun emptyTable _ _ rfl hrun).1 4 s' hgc (by decide)⟩

/-- Page tables on pages 1, 2, 3 and 5; there is an empty directory on page 6. -/
def fullTable : Machine :=
  .ofWords [(⟨.sysmem, 0x1000⟩, 0x204), (⟨.sysmem, 0x2000⟩, 0x304),
    (⟨.sysmem, 0x3000⟩, 0x404), (⟨.sysmem, 0x4008⟩, 0x504)]

theorem freshPages_fullTable : FreshPages (allocFrom 16) (List.range 5)
    fullTable.view (PageDirConfig.root ⟨0x6402⟩) := by
  refine freshPages_allocFrom rfl (by decide) (by decide) fun ks n hn => ?_
  rw [(hasTable_of_page_eq_zero rfl (fun l hl => ?_) hn).2]
  · decide
  · apply Machine.mem_ofWords_of_notMem
    intro hmem
    simp only [List.map_cons, List.map_nil, List.mem_cons, List.not_mem_nil,
      or_false] at hmem
    rcases hmem with rfl | rfl | rfl | rfl <;> exact absurd hl (by decide)

/-- A PTE that was requested to map a page of the driver still maps it after a
forced pass has freed it. -/
theorem not_gc_of_pdRun_fullTable :
    ∃ s s' p, PdRun fullTable [⟨0, 0x10000, .sysMemCoherent, false⟩,
        ⟨0, 0x7000, .vidMem, false⟩] s ∧
      gcPageDirectory true s = some (4, s') ∧ p ∈ s.pdAllocs ∧
      s.view.Survives ⟨.sysmem, 0x5000⟩ ∧
      fullTable.mem ⟨.sysmem, 0x5000⟩ = 0 ∧
      (PageDirEntry.mk (s'.mem ⟨.sysmem, 0x5000⟩)).isInvalid = false ∧
      (PageDirEntry.mk (s'.mem ⟨.sysmem, 0x5000⟩)).aperture.isSysMem = true ∧
      (PageDirEntry.mk (s'.mem ⟨.sysmem, 0x5000⟩)).addrW = p.dmaAddr / 4096 := by
  have hcode : ((mapPageDirectory (allocFrom 16) ⟨0x6402⟩ 0 0x7000 .vidMem
      false fullTable).bind fun r => (mapPageDirectory (fun _ => .exhausted)
        ⟨0x1402⟩ 0 0x10000 .sysMemCoherent false r.2).bind fun r' =>
          (gcPageDirectory true r'.2).map fun r'' =>
            (r''.1, r'.2.pdAllocs.map fun p => (p.frame, p.dmaAddr),
              r''.2.mem ⟨.sysmem, 0x5000⟩)) =
      some (4, [(19, 0x13000), (18, 0x12000), (17, 0x11000), (16, 0x10000)],
        0x100d) := by
    decide +kernel
  obtain ⟨⟨ret, s₁⟩, hmap, hcode⟩ := Option.bind_eq_some_iff.mp hcode
  obtain ⟨⟨ret', s⟩, hmap', hcode⟩ := Option.bind_eq_some_iff.mp hcode
  obtain ⟨⟨freed, s'⟩, hgc, heq⟩ := Option.map_eq_some_iff.mp hcode
  simp only [Prod.mk.injEq] at heq
  obtain ⟨rfl, hpages, hword⟩ := heq
  have hrun := (PdRun.map (q := ⟨0, 0x7000, .vidMem, false⟩)
    (@PdRun.start fullTable) freshPages_fullTable
    (untrackedPages_of_nil rfl) hmap).map
    (q := ⟨0, 0x10000, .sysMemCoherent, false⟩) (freshPages_exhausted _ _ _)
    (untrackedPages_exhausted _ _) hmap'
  have hmem : (16, 0x10000) ∈ s.pdAllocs.map fun p => (p.frame, p.dmaAddr) := by
    rw [hpages]
    simp
  obtain ⟨p, hp, hbus⟩ := List.mem_map.mp hmem
  refine ⟨s, s', p, hrun, hgc, hp, fun p' hp' hin => ?_, by decide, ?_⟩
  · have hframe := List.mem_map_of_mem (f := fun p => (p.frame, p.dmaAddr)) hp'
    rw [show s.view.pdAllocs = s.pdAllocs from rfl, hpages] at hframe
    have hdiv : 5 = p'.frame := hin.2
    rw [← hdiv] at hframe
    simp at hframe
  · rw [hword, (Prod.mk.inj hbus).2]
    decide

end A100Partitioning.Nvdebug
