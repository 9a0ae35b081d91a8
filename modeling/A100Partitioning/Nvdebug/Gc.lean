import A100Partitioning.Nvdebug.Map
import A100Partitioning.Nvdebug.Search

/-!
# Collecting unused page directories (`gc_page_directory`)

`gc_page_directory` goes through the driver's pages once, oldest first, and
frees those whose parent entry no longer points at them.  `GcRun` describes its
runs on views.  One pass is enough, because the tracked pages are in an order in
which parents are older than their children, and a freed page is zeroed.
-/

namespace A100Partitioning.Nvdebug

/-! ## The code -/

/-- `dma_unmap_page`. -/
def Core.dmaUnmap (c : Core) (dmaAddr : ℕ) : Core :=
  { c with
    iommu := c.iommu.map fun dom => Function.update dom (dmaAddr / 4096) 0 }

/-- Unmap, zero, untrack and free a page. -/
def Core.freePage (c : Core) (page : NvdebugPdPage) : Core :=
  { (c.dmaUnmap page.dmaAddr).zeroFrame page.frame with
    pdAllocs := c.pdAllocs.erase page }

/-- The loop of `gc_page_directory` over the remaining pages. -/
def gcPages (force : Bool) : List NvdebugPdPage → ℕ → Kernel ℤ
  | [], freedPages => return freedPages
  | page :: pages, freedPages => do
      let parentKva ← pdDeref page.parentAddr page.parentAperture
      if parentKva.isErr then return -enotrecoverable
      -- `NULL` means that the parent no longer exists.
      let word ← if parentKva = .null then pure 0 else readq parentKva
      let parentEntry : PageDirEntry := ⟨word⟩
      if parentEntry.addrW = page.dmaAddr / 4096 ∧ force = false then
        gcPages force pages freedPages
      else do
        if parentEntry.addrW = page.dmaAddr / 4096 then writeq parentKva 0
        modify fun s => { s with toCore := s.toCore.freePage page }
        gcPages force pages (freedPages + 1)

/-- `gc_page_directory`. -/
def gcPageDirectory (force : Bool) : Kernel ℤ := do
  gcPages force (← get).pdAllocs.reverse 0

/-! ## Runs on views -/

/-- Where a page's parent entry lies. -/
def View.parent (v : View) (page : NvdebugPdPage) : Deref :=
  v.deref page.parentAddr page.parentAperture

/-- The page's parent entry still points at it. -/
def View.PointsTo (v : View) (page : NvdebugPdPage) : Prop :=
  ∃ l, v.parent page = .at l ∧
    (PageDirEntry.mk (v.mem l)).addrW = page.dmaAddr / 4096

/-- Unmap, zero, untrack and free a page. -/
def View.freePage (v : View) (page : NvdebugPdPage) : View :=
  { v with toCore := v.toCore.freePage page }

/-- `GcRun force pages v freed ret v'`: the loop runs over `pages` from the view
`v` with `freed` pages freed so far, returns `ret` and leaves `v'`. -/
inductive GcRun (force : Bool) :
    List NvdebugPdPage → View → ℕ → ℤ → View → Prop where
  | done (v : View) (freed : ℕ) : GcRun force [] v freed freed v
  | unresolved {page : NvdebugPdPage} {pages : List NvdebugPdPage} {v : View}
      {freed : ℕ} {e : ℤ} (err : v.parent page = .err e) :
      GcRun force (page :: pages) v freed (-enotrecoverable) v
  | keep {page : NvdebugPdPage} {pages : List NvdebugPdPage} {v v' : View}
      {freed : ℕ} {ret : ℤ} (points : v.PointsTo page) (unforced : force = false)
      (rest : GcRun force pages v freed ret v') :
      GcRun force (page :: pages) v freed ret v'
  | delete {page : NvdebugPdPage} {pages : List NvdebugPdPage} {v v' : View}
      {freed : ℕ} {ret : ℤ} {l : Loc} (loc : v.parent page = .at l)
      (points : (PageDirEntry.mk (v.mem l)).addrW = page.dmaAddr / 4096)
      (forced : force = true)
      (rest : GcRun force pages ((v.write l 0).freePage page) (freed + 1) ret
        v') :
      GcRun force (page :: pages) v freed ret v'
  | free {page : NvdebugPdPage} {pages : List NvdebugPdPage} {v v' : View}
      {freed : ℕ} {ret : ℤ} (resolved : ∀ e, v.parent page ≠ .err e)
      (broken : ¬ v.PointsTo page)
      (rest : GcRun force pages (v.freePage page) (freed + 1) ret v') :
      GcRun force (page :: pages) v freed ret v'

theorem addrW_zero : (PageDirEntry.mk 0).addrW = 0 := by decide

/-- Writing through a pointer, without an offset. -/
theorem writeq_of_points {s : Machine} {k : Kva} {l : Loc} (h : Points s k l)
    (w : BitVec 64) :
    ∃ s', writeq k w s = some ((), s') ∧ s'.view = s.view.write l w ∧
      s.FreshSince s' := by
  obtain ⟨s', hwrite, hview, -, hfresh⟩ := h.writeq 0 l (by omega)
    (by omega) (by simp) w
  rw [show (0 : ℤ) = ((0 : ℕ) : ℤ) from rfl, Kva.add_zero] at hwrite
  exact ⟨s', hwrite, hview, hfresh⟩

theorem gcPages_spec (force : Bool) {pages : List NvdebugPdPage}
    (hpages : ∀ page ∈ pages, 4096 ≤ page.dmaAddr) (s : Machine) (freed : ℕ) :
    ∃ ret s', gcPages force pages freed s = some (ret, s') ∧
      GcRun force pages s.view freed ret s'.view ∧ s.FreshSince s' := by
  induction pages generalizing s freed with
  | nil => exact ⟨freed, s, rfl, .done s.view freed, .refl s⟩
  | cons page pages ih =>
      have hpos := hpages page (by simp)
      have ih := ih fun p hp => hpages p (by simp [hp])
      obtain ⟨k, s₁, hderef, hview, hlog, hres⟩ :=
        pdDeref_spec s page.parentAddr page.parentAperture
      have hfresh : s.FreshSince s₁ := .of_eq hlog
      have hzero : (PageDirEntry.mk 0).addrW ≠ page.dmaAddr / 4096 := by
        rw [addrW_zero]
        omega
      rw [gcPages, Kernel.bind_eq_of_eq hderef]
      cases hparent : s.view.parent page with
      | err e =>
          rw [show s.view.deref _ _ = _ from hparent] at hres
          subst hres
          exact ⟨_, s₁, rfl, by rw [hview]; exact .unresolved hparent, hfresh⟩
      | null =>
          rw [show s.view.deref _ _ = _ from hparent] at hres
          subst hres
          have hbroken : ¬ s.view.PointsTo page := by
            rintro ⟨l, hl, -⟩
            cases hparent.symm.trans hl
          obtain ⟨ret, s₂, hrun, hgc, hfresh₂⟩ :=
            ih { s₁ with toCore := s₁.toCore.freePage page } (freed + 1)
          refine ⟨ret, s₂, ?_, .free (by simp [hparent]) hbroken ?_,
            hfresh.trans (.trans (.of_eq rfl) hfresh₂)⟩
          · have hcode : ∀ f : BitVec 64 → Kernel ℤ,
                (do if Kva.null.isErr then return -enotrecoverable
                    let word ←
                      if Kva.null = Kva.null then pure 0 else readq Kva.null
                    f word) s₁ = f 0 s₁ := fun f => rfl
            refine (hcode _).trans ?_
            rw [if_neg (fun h => hzero h.1), if_neg hzero, ← hrun]
            rfl
          · rw [← hview]
            exact hgc
      | «at» l =>
          rw [show s.view.deref _ _ = _ from hparent] at hres
          obtain ⟨hok, herr, hpoints⟩ := hres
          have hnull : k ≠ .null := by
            rintro rfl
            cases hok
          have hread := (hpoints.shows (n := 0) (by omega)).readq_eq
          have hfresh₁ := (hpoints.shows (n := 0) (by omega)).fresh
          rw [Kva.add_zero] at hread hfresh₁
          have hmem : s₁.mem (l.add 0) = s.mem l := congrFun
            (congrArg (·.mem) hview) l
          rw [hmem] at hread
          have hcode : ∀ f : BitVec 64 → Kernel ℤ,
              (do if k.isErr then return -enotrecoverable
                  let word ← if k = Kva.null then pure 0 else readq k
                  f word) s₁ = f (s.mem l) (s₁.logAccess k) := by
            intro f
            simp [herr, hnull, hread]
          have hfresh := hfresh.trans hfresh₁
          have hview' : (s₁.logAccess k).view = s.view := by
            rw [Machine.view_logAccess, hview]
          by_cases hpts : (PageDirEntry.mk (s.mem l)).addrW = page.dmaAddr / 4096
          · cases force with
            | false =>
                obtain ⟨ret, s₂, hrun, hgc, hfresh₂⟩ :=
                  ih (s₁.logAccess k) freed
                rw [hview'] at hgc
                refine ⟨ret, s₂, ?_, .keep ⟨l, hparent, hpts⟩ rfl hgc,
                  hfresh.trans hfresh₂⟩
                refine (hcode _).trans ?_
                rw [if_pos ⟨hpts, rfl⟩, hrun]
            | true =>
                obtain ⟨s₂, hwrite, hview₂, hfresh₂⟩ :=
                  writeq_of_points (hpoints.logAccess k) 0
                obtain ⟨ret, s₃, hrun, hgc, hfresh₃⟩ :=
                  ih { s₂ with toCore := s₂.toCore.freePage page } (freed + 1)
                refine ⟨ret, s₃, ?_, .delete hparent hpts rfl ?_,
                  (hfresh.trans hfresh₂).trans (.trans (.of_eq rfl) hfresh₃)⟩
                · refine (hcode _).trans ?_
                  rw [if_neg (by simp), if_pos hpts, Kernel.bind_eq_of_eq hwrite,
                    ← hrun]
                  rfl
                · rw [← hview', ← hview₂]
                  exact hgc
          · have hbroken : ¬ s.view.PointsTo page := by
              rintro ⟨l', hl', hpts'⟩
              cases hparent.symm.trans hl'
              exact hpts hpts'
            obtain ⟨ret, s₂, hrun, hgc, hfresh₂⟩ := ih
              { s₁.logAccess k with
                toCore := (s₁.logAccess k).toCore.freePage page } (freed + 1)
            refine ⟨ret, s₂, ?_, .free (by simp [hparent]) hbroken ?_,
              hfresh.trans (.trans (.of_eq rfl) hfresh₂)⟩
            · refine (hcode _).trans ?_
              rw [if_neg (fun h => hpts h.1), if_neg hpts, ← hrun]
              rfl
            · rw [← hview']
              exact hgc

/-! ## Tracked pages -/

/-- The page has an intact chain of parent entries up to a page that the driver
does not track. -/
inductive View.Intact (v : View) : NvdebugPdPage → Prop where
  | intro {page : NvdebugPdPage} {l : Loc} (mem : page ∈ v.pdAllocs)
      (loc : v.parent page = .at l)
      (points : (PageDirEntry.mk (v.mem l)).addrW = page.dmaAddr / 4096)
      (up : ∀ p ∈ v.pdAllocs, l.InFrame p.frame → v.Intact p) : v.Intact page

/-- What holds of the tracked pages at any time: bus addresses are aligned,
within 58 bits and lead to the pages' frames, frames and bus addresses are
distinct, and no page holds the parent entry of an older page or its own. -/
structure View.Tracked (v : View) : Prop where
  aligned : ∀ p ∈ v.pdAllocs, p.dmaAddr % 4096 = 0
  pos : ∀ p ∈ v.pdAllocs, 0 < p.dmaAddr
  lt : ∀ p ∈ v.pdAllocs, p.dmaAddr < 2 ^ 58
  resolves : ∀ p ∈ v.pdAllocs, ∀ a, a / 4096 = p.dmaAddr / 4096 →
    v.busLoc a = ⟨.sysmem, p.frame * 4096 + a % 4096⟩
  frames : v.pdAllocs.Pairwise (·.frame ≠ ·.frame)
  buses : v.pdAllocs.Pairwise (·.dmaAddr ≠ ·.dmaAddr)
  order : v.pdAllocs.Pairwise fun newer older =>
    ∀ l, v.parent older = .at l → ¬ l.InFrame newer.frame
  noLoop : ∀ p ∈ v.pdAllocs, ∀ l, v.parent p = .at l → ¬ l.InFrame p.frame

theorem View.Tracked.page_ge {v : View} (h : v.Tracked) {p : NvdebugPdPage}
    (hp : p ∈ v.pdAllocs) : 4096 ≤ p.dmaAddr := by
  have haligned := h.aligned p hp
  have hpos := h.pos p hp
  omega

theorem View.Tracked.nodup {v : View} (h : v.Tracked) : v.pdAllocs.Nodup :=
  h.frames.imp fun hne heq => hne (congrArg _ heq)

/-! ## Freeing pages -/

/-- Free several pages, one after the other. -/
def View.freeAll (v : View) (pages : List NvdebugPdPage) : View :=
  pages.foldl View.freePage v

theorem View.freeAll_append (v : View) (pages : List NvdebugPdPage)
    (page : NvdebugPdPage) :
    v.freeAll (pages ++ [page]) = (v.freeAll pages).freePage page := by
  simp [View.freeAll]

theorem View.mem_freeAll_of_inFrame {v : View} {pages : List NvdebugPdPage}
    {l : Loc} (h : ∃ p ∈ pages, l.InFrame p.frame) :
    (v.freeAll pages).mem l = 0 := by
  induction pages using List.reverseRecOn with
  | nil => simp at h
  | append_singleton pages page ih =>
      rw [View.freeAll_append]
      by_cases hin : l.InFrame page.frame
      · exact if_pos hin
      · refine (if_neg hin).trans (ih ?_)
        obtain ⟨p, hp, hl⟩ := h
        rcases List.mem_append.mp hp with hp | hp
        · exact ⟨p, hp, hl⟩
        · rw [List.mem_singleton.mp hp] at hl
          exact absurd hl hin

theorem View.mem_freeAll_of_not {v : View} {pages : List NvdebugPdPage}
    {l : Loc} (h : ∀ p ∈ pages, ¬ l.InFrame p.frame) :
    (v.freeAll pages).mem l = v.mem l := by
  induction pages using List.reverseRecOn with
  | nil => rfl
  | append_singleton pages page ih =>
      rw [View.freeAll_append]
      refine (if_neg (h page (by simp))).trans (ih ?_)
      exact fun p hp => h p (by simp [hp])

theorem View.pdAllocs_freeAll (v : View) (pages : List NvdebugPdPage) :
    (v.freeAll pages).pdAllocs = v.pdAllocs.diff pages := by
  induction pages generalizing v with
  | nil => simp [View.freeAll]
  | cons page pages ih =>
      rw [List.diff_cons]
      exact ih (v.freePage page)

/-- Freeing pages only makes bus addresses of the freed pages unmapped. -/
theorem View.busLoc_freePage (v : View) (page : NvdebugPdPage) (addr : ℕ) :
    (v.freePage page).busLoc addr = v.busLoc addr ∨
      ((v.freePage page).busLoc addr).addr = 0 ∧
        addr / 4096 = page.dmaAddr / 4096 := by
  simp only [Core.busLoc, View.freePage, Core.freePage, Core.zeroFrame,
    Core.dmaUnmap]
  cases v.iommu with
  | none => exact .inl rfl
  | some dom =>
      simp only [Option.map_some, iommuIovaToPhys]
      by_cases hpage : addr / 4096 = page.dmaAddr / 4096
      · refine .inr ⟨?_, hpage⟩
        rw [hpage, Function.update_self, if_pos rfl]
      · rw [Function.update_of_ne hpage]
        exact .inl rfl

/-- A dereference after pages were freed is as before, or `NULL` in one of the
freed pages. -/
theorem View.deref_freePage (v : View) (page : NvdebugPdPage) (addr : ℕ)
    (pdAp : PdTarget) :
    (v.freePage page).deref addr pdAp = v.deref addr pdAp ∨
      (v.freePage page).deref addr pdAp = .null ∧ pdAp ≠ .pdVidMem ∧
        (∀ e, v.deref addr pdAp ≠ .err e) ∧
        addr / 4096 = page.dmaAddr / 4096 := by
  have hvid : (v.freePage page).vidOk = v.vidOk := rfl
  simp only [View.deref, hvid]
  rcases v.busLoc_freePage page addr with heq | ⟨hzero, hpage⟩
  · rw [heq]
    exact .inl rfl
  · rw [if_pos hzero]
    by_cases hguard : (!pdAp.isPdTarget || pdAp == .pdInvalid || addr == 0) = true
    · rw [if_pos hguard, if_pos hguard]
      exact .inl rfl
    by_cases hvidMem : pdAp = .pdVidMem
    · rw [if_pos hvidMem, if_pos hvidMem]
      exact .inl rfl
    · refine .inr ⟨?_, hvidMem, ?_, hpage⟩
      · rw [if_neg hguard, if_neg hvidMem]
      · rw [if_neg hguard, if_neg hvidMem]
        split_ifs <;> simp

theorem View.deref_freeAll (v : View) (pages : List NvdebugPdPage) (addr : ℕ)
    (pdAp : PdTarget) :
    (v.freeAll pages).deref addr pdAp = v.deref addr pdAp ∨
      (v.freeAll pages).deref addr pdAp = .null ∧ pdAp ≠ .pdVidMem ∧
        (∀ e, v.deref addr pdAp ≠ .err e) ∧
        ∃ p ∈ pages, addr / 4096 = p.dmaAddr / 4096 := by
  induction pages using List.reverseRecOn with
  | nil => exact .inl rfl
  | append_singleton pages page ih =>
      rw [View.freeAll_append]
      rcases (v.freeAll pages).deref_freePage page addr pdAp with
        heq | ⟨hnull, hvid, herr, hpage⟩
      · rw [heq]
        refine ih.imp_right fun ⟨hnull, hvid, herr, p, hp, hpage⟩ => ?_
        exact ⟨hnull, hvid, herr, p, by simp [hp], hpage⟩
      · refine .inr ⟨hnull, hvid, ?_, page, by simp, hpage⟩
        rcases ih with heq | ⟨-, -, herr', -⟩
        · rwa [heq] at herr
        · exact herr'

theorem View.parent_of_freeAll {v : View} {pages : List NvdebugPdPage}
    {page : NvdebugPdPage} {l : Loc}
    (h : (v.freeAll pages).parent page = .at l) : v.parent page = .at l := by
  rcases v.deref_freeAll pages page.parentAddr page.parentAperture with
    heq | ⟨hnull, -⟩
  · exact heq.symm.trans h
  · cases hnull.symm.trans h

/-- A parent entry at a tracked page's bus address lies in that page. -/
theorem View.Tracked.inFrame_of_parent {v : View} (htracked : v.Tracked)
    {p page : NvdebugPdPage} (hp : p ∈ v.pdAllocs) {l : Loc}
    (hloc : v.parent page = .at l) (hvid : page.parentAperture ≠ .pdVidMem)
    (hpage : page.parentAddr / 4096 = p.dmaAddr / 4096) : l.InFrame p.frame := by
  have hbus := htracked.resolves p hp page.parentAddr hpage
  rw [View.parent, View.deref, if_neg hvid] at hloc
  split_ifs at hloc
  cases hloc
  rw [hbus]
  refine ⟨rfl, ?_⟩
  simp only
  omega

theorem View.Tracked.parent_freeAll {v : View} (htracked : v.Tracked)
    {pages : List NvdebugPdPage} (hpages : ∀ p ∈ pages, p ∈ v.pdAllocs)
    {page : NvdebugPdPage} {l : Loc} (h : v.parent page = .at l)
    (hout : ∀ p ∈ pages, ¬ l.InFrame p.frame) :
    (v.freeAll pages).parent page = .at l := by
  rcases v.deref_freeAll pages page.parentAddr page.parentAperture with
    heq | ⟨-, hvid, -, p, hp, hpage⟩
  · exact heq.trans h
  · exact absurd (htracked.inFrame_of_parent (hpages p hp) h hvid hpage)
      (hout p hp)

/-! ## One pass -/

section Pass

variable {v v' : View} {done todo freed : List NvdebugPdPage}
variable {page : NvdebugPdPage} {n : ℕ} {ret : ℤ}

/-- A tracked page that holds the parent entry of the next page was processed
before it. -/
theorem View.Tracked.mem_done (htracked : v.Tracked)
    (hsplit : v.pdAllocs.reverse = done ++ page :: todo) {l : Loc}
    (hloc : v.parent page = .at l) {p : NvdebugPdPage} (hp : p ∈ v.pdAllocs)
    (hin : l.InFrame p.frame) : p ∈ done := by
  have hmem : page ∈ v.pdAllocs := by
    rw [← List.mem_reverse, hsplit]
    simp
  rw [← List.mem_reverse, hsplit] at hp
  rcases List.mem_append.mp hp with hdone | htodo
  · exact hdone
  · exfalso
    rcases List.mem_cons.mp htodo with rfl | htodo
    · exact htracked.noLoop p hmem l hloc hin
    · have horder := List.pairwise_reverse.mpr htracked.order
      rw [hsplit] at horder
      have htail := (List.pairwise_append.mp horder).2.1
      exact (List.pairwise_cons.mp htail).1 p htodo l hloc hin

/-- Freeing pages without an intact chain leaves an intact chain alone. -/
theorem View.Tracked.pointsTo_freeAll (htracked : v.Tracked)
    (hsub : ∀ p ∈ freed, p ∈ v.pdAllocs) (hbroken : ∀ p ∈ freed, ¬ v.Intact p)
    (hintact : v.Intact page) : (v.freeAll freed).PointsTo page := by
  obtain ⟨-, hloc, hpoints, hup⟩ := hintact
  have hout : ∀ p ∈ freed, ¬ Loc.InFrame _ p.frame := fun p hp hin =>
    hbroken p hp (hup p (hsub p hp) hin)
  refine ⟨_, htracked.parent_freeAll hsub hloc hout, ?_⟩
  rw [View.mem_freeAll_of_not hout]
  exact hpoints

/-- When a page's turn comes, its parent entry points at it exactly if its chain
of parent entries was intact at the start of the pass. -/
theorem View.Tracked.pointsTo_iff (htracked : v.Tracked)
    (hsplit : v.pdAllocs.reverse = done ++ page :: todo)
    (hfreed : ∀ p, p ∈ freed ↔ p ∈ done ∧ ¬ v.Intact p) :
    (v.freeAll freed).PointsTo page ↔ v.Intact page := by
  have hmem : page ∈ v.pdAllocs := by
    rw [← List.mem_reverse, hsplit]
    simp
  have hsub : ∀ p ∈ freed, p ∈ v.pdAllocs := by
    intro p hp
    rw [← List.mem_reverse, hsplit]
    exact List.mem_append_left _ ((hfreed p).mp hp).1
  constructor
  · rintro ⟨l, hloc, hpoints⟩
    have hout : ∀ p ∈ freed, ¬ l.InFrame p.frame := by
      intro p hp hin
      rw [View.mem_freeAll_of_inFrame ⟨p, hp, hin⟩, addrW_zero] at hpoints
      have hge := htracked.page_ge hmem
      omega
    have hloc := View.parent_of_freeAll hloc
    rw [View.mem_freeAll_of_not hout] at hpoints
    refine .intro hmem hloc hpoints fun p hp hin => ?_
    by_contra hbroken
    exact hout p ((hfreed p).mpr
      ⟨htracked.mem_done hsplit hloc hp hin, hbroken⟩) hin
  · exact htracked.pointsTo_freeAll hsub fun p hp => ((hfreed p).mp hp).2

/-- An unforced pass frees the pages without an intact chain. -/
theorem GcRun.frees (htracked : v.Tracked)
    (hrun : GcRun false todo (v.freeAll freed) n ret v')
    (hsplit : v.pdAllocs.reverse = done ++ todo)
    (hfreed : ∀ p, p ∈ freed ↔ p ∈ done ∧ ¬ v.Intact p)
    (hnodup : freed.Nodup) (hn : n = freed.length) (hret : 0 ≤ ret) :
    ∃ all, v' = v.freeAll all ∧
      (∀ p, p ∈ all ↔ p ∈ v.pdAllocs ∧ ¬ v.Intact p) ∧ all.Nodup ∧
      ret = all.length := by
  generalize hw : v.freeAll freed = w at hrun
  induction hrun generalizing done freed with
  | done w n =>
      subst hw hn
      refine ⟨freed, rfl, fun p => ?_, hnodup, rfl⟩
      rw [List.append_nil] at hsplit
      rw [hfreed, ← hsplit, List.mem_reverse]
  | unresolved err => exact absurd hret (by decide)
  | @keep page pages w v' n ret points unforced rest ih =>
      subst hw
      have hintact := (htracked.pointsTo_iff hsplit hfreed).mp points
      refine @ih (done ++ [page]) freed (by simpa using hsplit) (fun p => ?_)
        hnodup hn hret rfl
      rw [hfreed, List.mem_append, List.mem_singleton]
      constructor
      · exact fun h => ⟨.inl h.1, h.2⟩
      · rintro ⟨hdone | rfl, hbroken⟩
        · exact ⟨hdone, hbroken⟩
        · exact absurd hintact hbroken
  | delete loc points forced rest ih => cases forced
  | @free page pages w v' n ret resolved broken rest ih =>
      subst hw
      have hbroken := mt (htracked.pointsTo_iff hsplit hfreed).mpr broken
      have hnew : page ∉ freed := by
        intro hmem
        have hrev := List.nodup_reverse.mpr htracked.nodup
        rw [hsplit] at hrev
        exact (List.nodup_append.mp hrev).2.2 page ((hfreed page).mp hmem).1 page
          (by simp) rfl
      refine @ih (done ++ [page]) (freed ++ [page])
        (by simpa using hsplit) (fun p => ?_) ?_ (by simp [hn]) hret
        (View.freeAll_append v freed page)
      · simp only [List.mem_append, List.mem_singleton, hfreed]
        constructor
        · rintro (⟨hdone, hp⟩ | rfl)
          · exact ⟨.inl hdone, hp⟩
          · exact ⟨.inr rfl, hbroken⟩
        · rintro ⟨hdone | rfl, hp⟩
          · exact .inl ⟨hdone, hp⟩
          · exact .inr rfl
      · exact List.nodup_append.mpr ⟨hnodup, List.nodup_singleton page, by
          rintro a ha b hb rfl
          rw [List.mem_singleton] at hb
          exact hnew (hb ▸ ha)⟩

theorem GcRun.eq_of_pointsTo (hrun : GcRun false todo v n ret v')
    (hpoints : ∀ p ∈ todo, v.PointsTo p) : ret = n ∧ v' = v := by
  induction hrun with
  | done v n => exact ⟨rfl, rfl⟩
  | @unresolved page pages v n e err =>
      obtain ⟨l, hloc, -⟩ := hpoints page (by simp)
      cases err.symm.trans hloc
  | keep points unforced rest ih => exact ih fun p hp => hpoints p (by simp [hp])
  | delete loc points forced rest ih => cases forced
  | @free page pages v v' n ret resolved broken rest ih =>
      exact absurd (hpoints page (by simp)) broken

/-- The location is on no tracked page. -/
def View.Survives (v : View) (l : Loc) : Prop :=
  ∀ p ∈ v.pdAllocs, ¬ l.InFrame p.frame

/-- A forced pass over the pages tracked in `v` that has come to `w`, with the
pages `done` processed and `todo` left. -/
structure Deleting (v : View) (done todo : List NvdebugPdPage) (w : View) :
    Prop where
  split : v.pdAllocs.reverse = done ++ todo
  mem_allocs : ∀ p, p ∈ w.pdAllocs ↔ p ∈ todo
  nodup : w.pdAllocs.Nodup
  mem_or : ∀ l, w.mem l = 0 ∨ w.mem l = v.mem l
  parent_eq : ∀ p ∈ v.pdAllocs, ∀ l, v.parent p = .at l → v.Survives l →
    w.parent p = .at l
  cleared : ∀ p ∈ done, ∀ l, v.parent p = .at l → v.Survives l →
    (PageDirEntry.mk (w.mem l)).addrW ≠ p.dmaAddr / 4096

theorem Deleting.mem_of_mem_done {w : View} (h : Deleting v done todo w)
    {p : NvdebugPdPage} (hp : p ∈ done) : p ∈ v.pdAllocs := by
  rw [← List.mem_reverse, h.split]
  exact List.mem_append_left _ hp

theorem Deleting.mem_page {w : View} (h : Deleting v done (page :: todo) w) :
    page ∈ v.pdAllocs := by
  rw [← List.mem_reverse, h.split]
  simp

theorem View.mem_freePage_or (w : View) (page : NvdebugPdPage) (l : Loc) :
    (w.freePage page).mem l = 0 ∨ (w.freePage page).mem l = w.mem l := by
  by_cases hin : l.InFrame page.frame
  · exact .inl (if_pos hin)
  · exact .inr (if_neg hin)

theorem Deleting.write {w : View} (htracked : v.Tracked)
    (h : Deleting v done todo w) (l' : Loc) :
    Deleting v done todo (w.write l' 0) where
  split := h.split
  mem_allocs := h.mem_allocs
  nodup := h.nodup
  mem_or l := by
    by_cases hl : l = l'
    · rw [hl]
      exact .inl (View.write_mem_self _ _ _)
    · rw [View.write_mem_of_ne _ _ hl]
      exact h.mem_or l
  parent_eq p hp l hloc hsurvives := h.parent_eq p hp l hloc hsurvives
  cleared p hp l hloc hsurvives := by
    by_cases hl : l = l'
    · have hge := htracked.page_ge (h.mem_of_mem_done hp)
      rw [hl, View.write_mem_self, addrW_zero]
      omega
    · rw [View.write_mem_of_ne _ _ hl]
      exact h.cleared p hp l hloc hsurvives

/-- Freeing the next page, whose parent entry does not point at it any more. -/
theorem Deleting.freePage {w : View} (htracked : v.Tracked)
    (h : Deleting v done (page :: todo) w)
    (hcleared : ∀ l, v.parent page = .at l → v.Survives l →
      (PageDirEntry.mk (w.mem l)).addrW ≠ page.dmaAddr / 4096) :
    Deleting v (done ++ [page]) todo (w.freePage page) where
  split := by simpa using h.split
  mem_allocs p := by
    have hnew : page ∉ todo := by
      have hrev := List.nodup_reverse.mpr htracked.nodup
      rw [h.split] at hrev
      exact (List.nodup_cons.mp (List.nodup_append.mp hrev).2.1).1
    have hmem : (w.freePage page).pdAllocs = w.pdAllocs.erase page := rfl
    rw [hmem, h.nodup.mem_erase_iff, h.mem_allocs, List.mem_cons]
    constructor
    · rintro ⟨hne, rfl | htodo⟩
      · exact absurd rfl hne
      · exact htodo
    · intro htodo
      refine ⟨?_, .inr htodo⟩
      rintro rfl
      exact hnew htodo
  nodup := h.nodup.erase page
  mem_or l := by
    rcases w.mem_freePage_or page l with hzero | heq
    · exact .inl hzero
    · rw [heq]
      exact h.mem_or l
  parent_eq p hp l hloc hsurvives := by
    rcases w.deref_freePage page p.parentAddr p.parentAperture with
      heq | ⟨-, hvid, -, hsame⟩
    · exact heq.trans (h.parent_eq p hp l hloc hsurvives)
    · exact absurd (htracked.inFrame_of_parent h.mem_page hloc hvid hsame)
        (hsurvives page h.mem_page)
  cleared p hp l hloc hsurvives := by
    rcases w.mem_freePage_or page l with hzero | heq
    · have hge : 4096 ≤ p.dmaAddr := by
        apply htracked.page_ge
        rcases List.mem_append.mp hp with hp | hp
        · exact h.mem_of_mem_done hp
        · rw [List.mem_singleton.mp hp]
          exact h.mem_page
      rw [hzero, addrW_zero]
      omega
    · rw [heq]
      rcases List.mem_append.mp hp with hp | hp
      · exact h.cleared p hp l hloc hsurvives
      · rw [List.mem_singleton.mp hp] at hloc ⊢
        exact hcleared l hloc hsurvives

theorem GcRun.deletes {w : View} (htracked : v.Tracked)
    (hrun : GcRun true todo w n ret v') (h : Deleting v done todo w)
    (hret : 0 ≤ ret) : Deleting v v.pdAllocs.reverse [] v' := by
  induction hrun generalizing done with
  | done w n =>
      have hdone : done = v.pdAllocs.reverse := by
        simpa using h.split.symm
      rwa [hdone] at h
  | unresolved err => exact absurd hret (by decide)
  | keep points unforced rest ih => cases unforced
  | @delete page pages w v' n ret l loc points forced rest ih =>
      refine ih ((h.write htracked l).freePage htracked ?_) hret
      intro l' hloc hsurvives
      have heq := (h.parent_eq page h.mem_page l' hloc hsurvives).symm.trans loc
      cases heq
      have hge := htracked.page_ge h.mem_page
      rw [View.write_mem_self, addrW_zero]
      omega
  | @free page pages w v' n ret resolved broken rest ih =>
      refine ih (h.freePage htracked ?_) hret
      intro l hloc hsurvives hpoints
      exact broken ⟨l, h.parent_eq page h.mem_page l hloc hsurvives, hpoints⟩

end Pass

end A100Partitioning.Nvdebug
