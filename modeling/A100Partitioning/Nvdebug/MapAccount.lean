import A100Partitioning.Nvdebug.GcRuns

/-!
# Accounting for the pages of page tables (`map_page_directory`)

Every page that `map_page_directory` gets from `alloc_pages` should be tracked when the call
returns, with the parent entry that points to it, so that it can be collected later.  This
module follows the pages through any sequence of calls.
-/

namespace A100Partitioning.Nvdebug

open Support RadixTable

/-! ## What a call does -/

/-- A step of the loop that changes something: a page is asked for, or a PTE is filled in. -/
inductive MapEvent where
  | alloc (out : PageAlloc)
  | install (v : View) (level : ℕ) (l : Loc)

/-- The steps of the loop over `levels` that change something, in order. -/
def MapRequest.events (q : MapRequest) (alloc : ℕ → PageAlloc) :
    List ℕ → Table → View → List MapEvent
  | [], _, _ => []
  | level :: levels, n, v =>
      let k : PtKey := ⟨level, ptIndex level q.vaddrToFind⟩
      match v.entryLoc n k with
      | .at l =>
          let entry : PageDirEntry := ⟨v.mem l⟩
          if entry.isInvalid then
            if q.IsFinal level then [.install v level l]
            else
              match alloc level with
              | .mapped page =>
                  .alloc (alloc level) :: q.events alloc levels
                    ⟨(entry.toPde page.bus).addrW, .pdSysMemCoherent⟩ (v.link n k l entry page)
              | _ => [.alloc (alloc level)]
          else
            match followEntry q level entry with
            | .ok _ => q.events alloc levels ⟨entry.addrW, entry.target⟩ v
            | .error _ => []
      | _ => []

/-- The page frame that was obtained. -/
def MapEvent.frame? : MapEvent → Option ℕ
  | .alloc out => out.frame?
  | .install _ _ _ => none

/-- The page could be mapped for DMA; a huge page is not filled in next to the parent entry
of a page that is tracked. -/
def MapEvent.KeepsAccount : MapEvent → Prop
  | .alloc out => ∀ frame, out ≠ .unmapped frame
  | .install v level l =>
      level = 3 → ∀ p ∈ v.pdAllocs, v.parent p ≠ .at { l with addr := l.addr - 8 }

section Events

variable {q : MapRequest} {alloc : ℕ → PageAlloc} {level : ℕ} {levels : List ℕ} {n : Table}
  {v : View} {l : Loc}

theorem events_install (loc : v.entryLoc n ⟨level, ptIndex level q.vaddrToFind⟩ = .at l)
    (invalid : (PageDirEntry.mk (v.mem l)).isInvalid = true) (final : q.IsFinal level) :
    q.events alloc (level :: levels) n v = [.install v level l] := by
  rw [MapRequest.events]
  simp only [loc, invalid, if_true, if_pos final]

theorem events_descend (loc : v.entryLoc n ⟨level, ptIndex level q.vaddrToFind⟩ = .at l)
    (valid : (PageDirEntry.mk (v.mem l)).isInvalid = false)
    (pde : (PageDirEntry.mk (v.mem l)).isPte = false)
    (small : (q.hugePage && level == 3) = false) :
    q.events alloc (level :: levels) n v = q.events alloc levels
      ⟨(PageDirEntry.mk (v.mem l)).addrW, (PageDirEntry.mk (v.mem l)).target⟩ v := by
  rw [MapRequest.events]
  simp only [loc, valid, Bool.false_eq_true, if_false, followEntry_of_pde valid pde small]

theorem events_found {ret : ℤ}
    (loc : v.entryLoc n ⟨level, ptIndex level q.vaddrToFind⟩ = .at l)
    (valid : (PageDirEntry.mk (v.mem l)).isInvalid = false)
    (stop : followEntry q level ⟨v.mem l⟩ = .error ret) :
    q.events alloc (level :: levels) n v = [] := by
  rw [MapRequest.events]
  simp only [loc, valid, Bool.false_eq_true, if_false, stop]

theorem events_unresolved
    (bad : ∀ l, v.entryLoc n ⟨level, ptIndex level q.vaddrToFind⟩ ≠ .at l) :
    q.events alloc (level :: levels) n v = [] := by
  rw [MapRequest.events]
  cases hloc : v.entryLoc n ⟨level, ptIndex level q.vaddrToFind⟩ with
  | «at» l => exact absurd hloc (bad l)
  | null => rfl
  | err e => rfl

theorem events_failed (loc : v.entryLoc n ⟨level, ptIndex level q.vaddrToFind⟩ = .at l)
    (invalid : (PageDirEntry.mk (v.mem l)).isInvalid = true) (inner : ¬ q.IsFinal level)
    (out : ∀ page, alloc level ≠ .mapped page) :
    q.events alloc (level :: levels) n v = [.alloc (alloc level)] := by
  rw [MapRequest.events]
  simp only [loc, invalid, if_true, if_neg inner]

theorem events_link {page : DmaPage}
    (loc : v.entryLoc n ⟨level, ptIndex level q.vaddrToFind⟩ = .at l)
    (invalid : (PageDirEntry.mk (v.mem l)).isInvalid = true) (inner : ¬ q.IsFinal level)
    (out : alloc level = .mapped page) :
    q.events alloc (level :: levels) n v = .alloc (.mapped page) :: q.events alloc levels
      ⟨((PageDirEntry.mk (v.mem l)).toPde page.bus).addrW, .pdSysMemCoherent⟩
      (v.link n ⟨level, ptIndex level q.vaddrToFind⟩ l ⟨v.mem l⟩ page) := by
  rw [MapRequest.events]
  simp only [loc, invalid, if_true, if_neg inner, out]

end Events

/-! ## Calls -/

/-- A call of `map_page_directory`, with the state that it starts from. -/
structure MapCall where
  before : View
  alloc : ℕ → PageAlloc
  root : Table
  request : MapRequest

/-- What the call does. -/
def MapCall.events (c : MapCall) : List MapEvent :=
  if c.request.isAccepted then c.request.events c.alloc (List.range 5) c.root c.before else []

/-- `MapCalls s₀ calls s`: these calls, newest first, lead from `s₀` to `s`.  Pages that are
handed out are not in use. -/
inductive MapCalls (s₀ : Machine) : List MapCall → Machine → Prop where
  | start : MapCalls s₀ [] s₀
  | call {calls : List MapCall} {s s' : Machine} {alloc : ℕ → PageAlloc}
      {pdConfig : PageDirConfig} {q : MapRequest} {ret : ℤ} (before : MapCalls s₀ calls s)
      (fresh : FreshPages alloc (List.range 5) s.view pdConfig.root)
      (untracked : UntrackedPages alloc (List.range 5) s.view)
      (run : mapPageDirectory alloc pdConfig q.vaddrToFind q.paddrToMap q.paddrTarget
        q.hugePage s = some (ret, s')) :
      MapCalls s₀ (⟨s.view, alloc, pdConfig.root, q⟩ :: calls) s'

/-- Every page that the call obtained is tracked, with the entry that points to it. -/
def MapCall.Accounted (c : MapCall) (v : View) : Prop :=
  ∀ e ∈ c.events, ∀ frame, e.frame? = some frame →
    ∃ p ∈ v.pdAllocs, p.frame = frame ∧ v.PointsTo p

/-! ## Tracked pages stay linked -/

/-- The parent entry of every tracked page is valid and points to the page. -/
def View.Linked (v : View) : Prop :=
  ∀ p ∈ v.pdAllocs, ∃ l, v.parent p = .at l ∧
    (PageDirEntry.mk (v.mem l)).isInvalid = false ∧
    (PageDirEntry.mk (v.mem l)).addrW = p.dmaAddr / 4096

theorem View.Linked.pointsTo {v : View} (h : v.Linked) {p : NvdebugPdPage}
    (hp : p ∈ v.pdAllocs) : v.PointsTo p := by
  obtain ⟨l, hl, -, haddr⟩ := h p hp
  exact ⟨l, hl, haddr⟩

section Steps

variable {q : MapRequest} {alloc : ℕ → PageAlloc} {levels : List ℕ} {v v' : View}
  {root n : Table} {pre : List PtKey} {k : PtKey} {l : Loc} {page : DmaPage}

theorem pdAllocs_install (level : ℕ) (entry : PageDirEntry) :
    (v.install q level l entry).pdAllocs = v.pdAllocs := by
  rw [View.install]
  split <;> rfl

/-- A PTE is filled in at an unpopulated entry, so not at a parent entry. -/
theorem View.Linked.install {level : ℕ} (h : v.Linked)
    (invalid : (PageDirEntry.mk (v.mem l)).isInvalid = true)
    (spares : (MapEvent.install v level l).KeepsAccount) (entry : PageDirEntry) :
    (v.install q level l entry).Linked := by
  intro p hp
  rw [pdAllocs_install] at hp
  obtain ⟨l', hparent, hvalid, haddr⟩ := h p hp
  have hsame : (v.install q level l entry).mem l' = v.mem l' := by
    rw [mem_install, if_neg]
    rintro (rfl | ⟨hthree, rfl⟩)
    · rw [hvalid] at invalid
      cases invalid
    · exact spares hthree p hp hparent
  refine ⟨l', (v.deref_install q level l entry _ _).trans hparent, ?_, ?_⟩
  · rw [hsame]
    exact hvalid
  · rw [hsame]
    exact haddr

/-- A new page is linked to by the entry that it is tracked with. -/
theorem LinkStep.linked (h : LinkStep alloc levels v root n pre k l page)
    (huntracked : UntrackedPages alloc levels v) (hlinked : v.Linked) :
    (v.link n k l ⟨v.mem l⟩ page).Linked := by
  intro p hp
  rw [pdAllocs_link, List.mem_cons] at hp
  rcases hp with rfl | hp
  · refine ⟨l, h.parent_record, ?_, ?_⟩
    · rw [mem_link, if_pos rfl]
      exact PageDirEntry.toPde_isInvalid _ _
    · rw [mem_link, if_pos rfl]
      exact toPde_addrW_of_wellFormed h.wellFormed
  · obtain ⟨l', hparent, hvalid, haddr⟩ := hlinked p hp
    have hne : l' ≠ l := by
      rintro rfl
      have hinvalid := h.invalid
      rw [hvalid] at hinvalid
      cases hinvalid
    have hout := (huntracked.frame_ne k.level h.mem page.frame (by rw [h.alloc_eq]; rfl)
      p hp).2 l' hparent
    have hsame : (v.link n k l ⟨v.mem l⟩ page).mem l' = v.mem l' := by
      rw [mem_link, if_neg hne, if_neg hout]
    refine ⟨l', (parent_link huntracked h.mem h.alloc_eq hp _).trans hparent, ?_, ?_⟩
    · rw [hsame]
      exact hvalid
    · rw [hsame]
      exact haddr

/-- A run of the loop, all of whose pages could be mapped: it tracks what it obtained. -/
theorem MapRun.linked {ret : ℤ} (hrun : MapRun q alloc levels n v ret v')
    (hstate : MapState q alloc levels root n v pre)
    (huntracked : UntrackedPages alloc levels v) (hlinked : v.Linked)
    (hkeeps : ∀ e ∈ q.events alloc levels n v, e.KeepsAccount) :
    v'.Linked ∧ (∀ p ∈ v.pdAllocs, p ∈ v'.pdAllocs) ∧
      ∀ e ∈ q.events alloc levels n v, ∀ frame, e.frame? = some frame →
        ∃ p ∈ v'.pdAllocs, p.frame = frame := by
  induction hrun generalizing pre with
  | ranOut n v => exact ⟨hlinked, fun p hp => hp, fun e he => absurd he List.not_mem_nil⟩
  | unresolved bad =>
      rw [events_unresolved bad]
      exact ⟨hlinked, fun p hp => hp, fun e he => absurd he List.not_mem_nil⟩
  | found loc valid stop =>
      rw [events_found loc valid stop]
      exact ⟨hlinked, fun p hp => hp, fun e he => absurd he List.not_mem_nil⟩
  | descend loc valid pde small rest ih =>
      rw [events_descend loc valid pde small] at hkeeps ⊢
      exact ih (hstate.descend loc valid pde) huntracked.tail hlinked hkeeps
  | install loc invalid final =>
      rw [events_install loc invalid final] at hkeeps ⊢
      refine ⟨hlinked.install invalid (hkeeps _ List.mem_cons_self) _, ?_, ?_⟩
      · intro p hp
        rw [pdAllocs_install]
        exact hp
      · intro e he frame hframe
        rw [List.mem_singleton.mp he] at hframe
        cases hframe
  | exhausted loc invalid inner out =>
      have hnot : ∀ page, alloc _ ≠ .mapped page := fun page heq => by
        rw [out] at heq
        cases heq
      rw [events_failed loc invalid inner hnot, out]
      refine ⟨hlinked, fun p hp => hp, ?_⟩
      intro e he frame hframe
      rw [List.mem_singleton.mp he] at hframe
      cases hframe
  | unmapped loc invalid inner out =>
      have hnot : ∀ page, alloc _ ≠ .mapped page := fun page heq => by
        rw [out] at heq
        cases heq
      rw [events_failed loc invalid inner hnot, out] at hkeeps
      exact absurd rfl (hkeeps _ List.mem_cons_self _)
  | @link level levels n v v' l page ret loc invalid inner out rest ih =>
      have hlink := hstate.linkStep loc invalid out
      rw [events_link loc invalid inner out] at hkeeps ⊢
      rw [hstate.toPde_table out] at ih hkeeps ⊢
      obtain ⟨hlinked', hallocs, hframes⟩ := ih (hstate.link loc invalid out)
        (hlink.untracked_rest huntracked) (hlink.linked huntracked hlinked)
        (fun e he => hkeeps e (List.mem_cons_of_mem _ he))
      refine ⟨hlinked', ?_, ?_⟩
      · intro p hp
        exact hallocs p (List.mem_cons_of_mem _ hp)
      · intro e he frame hframe
        rcases List.mem_cons.mp he with rfl | he
        · cases hframe
          exact ⟨_, hallocs _ List.mem_cons_self, rfl⟩
        · exact hframes e he frame hframe

end Steps

/-! ## Runs -/

/-- Calls all of whose pages could be mapped: they track what they obtained. -/
theorem MapCalls.linked {s₀ s : Machine} {calls : List MapCall}
    (hrun : MapCalls s₀ calls s) (hstart : s₀.pdAllocs = [])
    (hkeeps : ∀ c ∈ calls, ∀ e ∈ c.events, e.KeepsAccount) :
    s.view.Linked ∧ ∀ c ∈ calls, ∀ e ∈ c.events, ∀ frame, e.frame? = some frame →
      ∃ p ∈ s.pdAllocs, p.frame = frame := by
  induction hrun with
  | start =>
      refine ⟨?_, fun c hc => absurd hc List.not_mem_nil⟩
      intro p hp
      have hnil : s₀.view.pdAllocs = [] := hstart
      rw [hnil] at hp
      exact absurd hp List.not_mem_nil
  | @call calls s s' alloc pdConfig q ret before fresh untracked run ih =>
      obtain ⟨hlinked, hframes⟩ := ih fun c hc => hkeeps c (List.mem_cons_of_mem _ hc)
      have hevents := hkeeps _ List.mem_cons_self
      obtain ⟨ret', s'', hspec, -, hcases⟩ := mapPageDirectory_spec q alloc s pdConfig
      rw [hspec] at run
      cases run
      rcases hcases with ⟨hrejected, -, hview⟩ | ⟨haccepted, hmap⟩
      · -- a rejected request does nothing
        have hnone : MapCall.events ⟨s.view, alloc, pdConfig.root, q⟩ = [] := by
          rw [MapCall.events, hrejected, if_neg Bool.false_ne_true]
        refine ⟨by rw [hview]; exact hlinked, ?_⟩
        intro c hc e he frame hframe
        rcases List.mem_cons.mp hc with rfl | hc
        · rw [hnone] at he
          exact absurd he List.not_mem_nil
        · obtain ⟨p, hp, hpframe⟩ := hframes c hc e he frame hframe
          have hallocs : s'.view.pdAllocs = s.view.pdAllocs := by rw [hview]
          exact ⟨p, hallocs ▸ hp, hpframe⟩
      · have hall : MapCall.events ⟨s.view, alloc, pdConfig.root, q⟩ =
            q.events alloc (List.range 5) pdConfig.root s.view := by
          rw [MapCall.events, if_pos haccepted]
        rw [hall] at hevents
        obtain ⟨hlinked', hallocs, hnew⟩ :=
          hmap.linked (mapState_root fresh) untracked hlinked hevents
        refine ⟨hlinked', ?_⟩
        intro c hc e he frame hframe
        rcases List.mem_cons.mp hc with rfl | hc
        · rw [hall] at he
          exact hnew e he frame hframe
        · obtain ⟨p, hp, hpframe⟩ := hframes c hc e he frame hframe
          exact ⟨p, hallocs p hp, hpframe⟩

/-- If every page that any call obtains can be mapped for DMA, and no call fills in a huge
page next to the parent entry of a tracked page, then every page that was obtained is
tracked, with the entry that points to it. -/
theorem mapCalls_accounted (s₀ s : Machine) (calls : List MapCall)
    (hstart : s₀.pdAllocs = []) (hrun : MapCalls s₀ calls s)
    (hkeeps : ∀ c ∈ calls, ∀ e ∈ c.events, e.KeepsAccount) :
    ∀ c ∈ calls, c.Accounted s.view := by
  obtain ⟨hlinked, hframes⟩ := hrun.linked hstart hkeeps
  intro c hc e he frame hframe
  obtain ⟨p, hp, hpframe⟩ := hframes c hc e he frame hframe
  exact ⟨p, hp, hpframe, hlinked.pointsTo hp⟩

/-- A simple case of `KeepsAccount` that can be evaluated. -/
def MapEvent.isSimple : MapEvent → Bool
  | .alloc (.unmapped _) => false
  | .alloc _ => true
  | .install _ level _ => level != 3

theorem MapEvent.keepsAccount_of_isSimple {e : MapEvent} (h : e.isSimple = true) :
    e.KeepsAccount := by
  cases e with
  | alloc out =>
      rintro frame rfl
      cases h
  | install v level l =>
      rintro rfl
      cases h

/-- A mapping in an empty table obtains four pages. -/
theorem mapCalls_accounted_emptyTable :
    ∃ s, MapCalls emptyTable [⟨emptyTable.view, allocFrom 16, PageDirConfig.root ⟨0x1402⟩,
        ⟨0x3000, 0x7000, .vidMem, false⟩⟩] s ∧
      ∀ c ∈ [(⟨emptyTable.view, allocFrom 16, PageDirConfig.root ⟨0x1402⟩,
        ⟨0x3000, 0x7000, .vidMem, false⟩⟩ : MapCall)], c.Accounted s.view := by
  obtain ⟨ret, s, hspec, -⟩ := mapPageDirectory_spec ⟨0x3000, 0x7000, .vidMem, false⟩
    (allocFrom 16) emptyTable ⟨0x1402⟩
  have hrun := MapCalls.call (q := ⟨0x3000, 0x7000, .vidMem, false⟩)
    (@MapCalls.start emptyTable) freshPages_emptyTable (untrackedPages_of_nil rfl) hspec
  have hsimple : (MapCall.events ⟨emptyTable.view, allocFrom 16,
      PageDirConfig.root ⟨0x1402⟩, ⟨0x3000, 0x7000, .vidMem, false⟩⟩).all
        MapEvent.isSimple = true := by
    decide +kernel
  refine ⟨s, hrun, mapCalls_accounted emptyTable s _ rfl hrun ?_⟩
  intro c hc e he
  cases List.mem_singleton.mp hc
  exact MapEvent.keepsAccount_of_isSimple (List.all_eq_true.mp hsimple e he)

/-- The first page that is handed out cannot be mapped for DMA; there is no other. -/
def allocUnmapped (level : ℕ) : PageAlloc :=
  if level = 0 then .unmapped 16 else .exhausted

theorem freshPages_allocUnmapped : FreshPages allocUnmapped (List.range 5)
    emptyTable.view (PageDirConfig.root ⟨0x1402⟩) := by
  have hmapped : ∀ level page, allocUnmapped level ≠ .mapped page := by
    intro level page heq
    rw [allocUnmapped] at heq
    split at heq <;> cases heq
  have hframe : ∀ level frame, (allocUnmapped level).frame? = some frame →
      level = 0 ∧ frame = 16 := by
    intro level frame heq
    rw [allocUnmapped] at heq
    split at heq
    · next hlevel => exact ⟨hlevel, (Option.some.inj heq).symm⟩
    · cases heq
  constructor
  · intro level _ page halloc
    exact absurd halloc (hmapped level page)
  · intro level _ page halloc
    exact absurd halloc (hmapped level page)
  · intro level _ frame halloc ks n k l hn hvalid hloc hin
    have hk : k.InRange := inRange_of_valid hvalid
    have hpage := View.page_of_entryLoc (v := emptyTable.view) rfl hk hloc
    rw [(hasTable_emptyTable hn).2, hin.2, (hframe level frame halloc).2] at hpage
    cases hpage
  · refine List.pairwise_iff_forall_sublist.mpr fun _ page _ halloc => ?_
    exact absurd halloc (hmapped _ page)
  · refine (List.pairwise_lt_range (n := 5)).imp fun {a b} hlt frame frame' hframe' hframe'' => ?_
    have ha := (hframe a frame hframe').1
    have hb := (hframe b frame' hframe'').1
    omega

/-- A page that cannot be mapped for DMA is neither tracked nor freed. -/
theorem unmapped_lost :
    FreshPages allocUnmapped (List.range 5) emptyTable.view (PageDirConfig.root ⟨0x1402⟩) ∧
    ∃ s, MapCalls emptyTable [⟨emptyTable.view, allocUnmapped, PageDirConfig.root ⟨0x1402⟩,
        ⟨0x3000, 0x7000, .vidMem, false⟩⟩] s ∧
      ¬ (⟨emptyTable.view, allocUnmapped, PageDirConfig.root ⟨0x1402⟩,
        ⟨0x3000, 0x7000, .vidMem, false⟩⟩ : MapCall).Accounted s.view := by
  have hcode : (mapPageDirectory allocUnmapped ⟨0x1402⟩ 0x3000 0x7000 .vidMem false
      emptyTable).map (fun r => (r.1, r.2.pdAllocs)) = some (-enomem, []) := by
    decide
  obtain ⟨⟨ret, s⟩, hmap, heq⟩ := Option.map_eq_some_iff.mp hcode
  have hallocs : s.view.pdAllocs = [] := (Prod.mk.inj heq).2
  have hobtained : (MapCall.events ⟨emptyTable.view, allocUnmapped,
      PageDirConfig.root ⟨0x1402⟩, ⟨0x3000, 0x7000, .vidMem, false⟩⟩).map
        MapEvent.frame? = [some 16] := by
    decide
  refine ⟨freshPages_allocUnmapped, s, MapCalls.call (q := ⟨0x3000, 0x7000, .vidMem, false⟩)
    .start freshPages_allocUnmapped (untrackedPages_of_nil rfl) hmap, ?_⟩
  intro haccounted
  have hmem : some 16 ∈ [some 16] := List.mem_singleton_self _
  rw [← hobtained] at hmem
  obtain ⟨e, he, hframe⟩ := List.mem_map.mp hmem
  obtain ⟨p, hp, -⟩ := haccounted e he 16 hframe
  rw [hallocs] at hp
  exact absurd hp List.not_mem_nil

end A100Partitioning.Nvdebug
