import A100Partitioning.Nvdebug.Translate

/-!
# Mapping a page (`map_page_directory`)

`map_page_directory` walks the page table, creates missing directories and
tables, and fills in a PTE.  `MapRun` describes its runs on views, with one
constructor for each way a step can go; the specification connects the two.

The kernel's page allocator and DMA mapping are parameters: `alloc level` says
what they do for the table that the entry at `level` will point to.
-/

namespace A100Partitioning.Nvdebug

open Support RadixTable

/-! ## Allocation -/

/-- A page from `alloc_pages` with its bus address from `dma_map_page`. -/
structure DmaPage where
  frame : ℕ
  bus : ℕ
  deriving DecidableEq, Repr

/-- Outcome of `alloc_pages` and then `dma_map_page`. -/
inductive PageAlloc where
  | exhausted
  | unmapped (frame : ℕ)
  | mapped (page : DmaPage)
  deriving DecidableEq, Repr

/-- The location lies in this page frame of system memory. -/
def Loc.InFrame (l : Loc) (frame : ℕ) : Prop :=
  l.space = .sysmem ∧ l.addr / 4096 = frame

instance (l : Loc) (frame : ℕ) : Decidable (l.InFrame frame) :=
  inferInstanceAs (Decidable (_ ∧ _))

/-- Memory after a page frame was zeroed. -/
def Core.zeroFrame (c : Core) (frame : ℕ) : Core :=
  { c with mem := fun l => if l.InFrame frame then 0 else c.mem l }

/-- The I/O MMU after `dma_map_page`. -/
def Core.dmaMap (c : Core) (page : DmaPage) : Core :=
  { c with
    iommu := c.iommu.map fun dom =>
      Function.update dom (page.bus / 4096) page.frame }

/-- `list_add` at the head of `g->pd_allocs`. -/
def Core.track (c : Core) (page : NvdebugPdPage) : Core :=
  { c with pdAllocs := page :: c.pdAllocs }

/-- Allocate and map one zeroed page; `dma_mapping_error` is `-ENOMEM`. -/
def allocPageDir : PageAlloc → Kernel (Except ℤ DmaPage)
  | .exhausted => return .error (-enomem)
  | .unmapped frame => do
      modify fun s => { s with toCore := s.toCore.zeroFrame frame }
      return .error (-enomem)
  | .mapped page => do
      modify fun s =>
        { s with toCore := (s.toCore.zeroFrame page.frame).dmaMap page }
      return .ok page

/-! ## The code -/

/-- The arguments that describe what to map where. -/
structure MapRequest where
  vaddrToFind : ℕ
  paddrToMap : ℕ
  paddrTarget : InstTarget
  hugePage : Bool
  deriving DecidableEq, Repr

/-- The level whose entry becomes the PTE. -/
def MapRequest.IsFinal (q : MapRequest) (level : ℕ) : Prop :=
  level = 4 ∨ q.hugePage = true ∧ level = 3

instance (q : MapRequest) (level : ℕ) : Decidable (q.IsFinal level) :=
  inferInstanceAs (Decidable (_ ∨ _))

/-- The creation branch: fill in the unpopulated `entry`, `off` bytes behind
`nextKva`.  Returns the code to return, or the new directory entry. -/
def createEntry (q : MapRequest) (alloc : PageAlloc) (level : ℕ) (next : ℕ)
    (nextTarget : PdTarget) (nextKva : Kva) (off : ℕ) (entry : PageDirEntry) :
    Kernel (Except ℤ PageDirEntry) := do
  if q.IsFinal level then
    let entry := entry.toPte q.paddrToMap q.paddrTarget
    -- Huge pages fault unless both halves of the level-3 entry are filled in.
    if level = 3 then writeq (nextKva.add (-8 + off)) entry.rawW
    writeq (nextKva.add off) entry.rawW
    return .error 0
  match ← allocPageDir alloc with
  | .error ret => return .error ret
  | .ok pageDir =>
      modify fun s =>
        { s with
          toCore := s.toCore.track
            ⟨pageDir.frame, next + off, nextTarget, pageDir.bus⟩ }
      let entry := entry.toPde pageDir.bus
      writeq (nextKva.add off) entry.rawW
      return .ok entry

/-- The rest of the loop body: the code to return at a PTE or for a huge page
over a small-page table, or the next table. -/
def followEntry (q : MapRequest) (level : ℕ) (entry : PageDirEntry) :
    Except ℤ (ℕ × PdTarget) :=
  if entry.isPte then
    if entry.aperture ≠ q.paddrTarget then .error (-eaddrinuse)
    else if entry.aperture = .vidMem then
      .error (if entry.addr = q.paddrToMap / 4096 then 1 else -eaddrinuse)
    else
      .error (if entry.addrW = q.paddrToMap / 4096 then 1 else -eaddrinuse)
  else if q.hugePage && level == 3 then .error (-eaddrinuse)
  else if entry.aperture = .vidMem then .ok (entry.addr * 4096, entry.target)
  else .ok (entry.addrW * 4096, entry.target)

/-- The entry that the loop body goes on with, after creating it if needed. -/
def reachEntry (q : MapRequest) (alloc : PageAlloc) (level : ℕ) (next : ℕ)
    (nextTarget : PdTarget) (nextKva : Kva) (off : ℕ) (entry : PageDirEntry) :
    Kernel (Except ℤ PageDirEntry) :=
  if entry.isInvalid then
    createEntry q alloc level next nextTarget nextKva off entry
  else return .ok entry

/-- The loop of `map_page_directory` over the remaining levels. -/
def mapLevels (q : MapRequest) (alloc : ℕ → PageAlloc) :
    List ℕ → ℕ → PdTarget → Kernel ℤ
  | [], _, _ => return -enotrecoverable
  | level :: levels, next, nextTarget => do
      let next := next + ptHalf level
      let nextKva ← pdDeref next nextTarget
      if nextKva.isErrOrNull then return -enotrecoverable
      let off := ptEntrySz level * ptIndex level q.vaddrToFind
      let word ← readq (nextKva.add off)
      match ← reachEntry q (alloc level) level next nextTarget nextKva off
        ⟨word⟩ with
      | .error ret => return ret
      | .ok entry =>
          match followEntry q level entry with
          | .error ret => return ret
          | .ok (next, nextTarget) => mapLevels q alloc levels next nextTarget

/-- The argument checks of `map_page_directory`. -/
def MapRequest.isAccepted (q : MapRequest) : Bool :=
  decide (q.vaddrToFind % 4096 = 0) && decide (q.paddrToMap % 4096 = 0) &&
    (!q.hugePage || decide (q.vaddrToFind % 2 ^ 21 = 0) &&
      decide (q.paddrToMap % 2 ^ 21 = 0)) &&
    decide (q.vaddrToFind < 2 ^ 49) &&
    decide (q.paddrTarget = .vidMem → q.paddrToMap < 2 ^ 36) &&
    decide ((q.paddrTarget = .sysMemCoherent ∨
      q.paddrTarget = .sysMemNoncoherent) → q.paddrToMap < 2 ^ 58) &&
    decide (q.paddrTarget ≠ .invalid)

/-- `map_page_directory`. -/
def mapPageDirectory (alloc : ℕ → PageAlloc) (pdConfig : PageDirConfig)
    (vaddrToFind paddrToMap : ℕ) (paddrTarget : InstTarget) (hugePage : Bool) :
    Kernel ℤ := do
  let q : MapRequest := ⟨vaddrToFind, paddrToMap, paddrTarget, hugePage⟩
  -- All five checks fail with the same code.
  if !q.isAccepted then return -einval
  mapLevels q alloc (List.range 5) (pdConfig.pageDir * 4096)
    (.ofInst pdConfig.target)

/-! ## Runs on views -/

/-- Zero a page frame. -/
def View.zeroFrame (v : View) (frame : ℕ) : View :=
  { v with toCore := v.toCore.zeroFrame frame }

/-- Link in a new table at the unpopulated `entry` at `l`. -/
def View.link (v : View) (n : Table) (k : PtKey) (l : Loc)
    (entry : PageDirEntry) (page : DmaPage) : View :=
  View.write
    { v with
      toCore := ((v.toCore.zeroFrame page.frame).dmaMap page).track
        ⟨page.frame, n.base + ptHalf k.level + k.offset, n.target, page.bus⟩ }
    l (entry.toPde page.bus).rawW

/-- Fill in the unpopulated `entry` at `l` as the requested PTE. -/
def View.install (v : View) (q : MapRequest) (level : ℕ) (l : Loc)
    (entry : PageDirEntry) : View :=
  (if level = 3 then v.write { l with addr := l.addr - 8 }
      (entry.toPte q.paddrToMap q.paddrTarget).rawW
    else v).write l (entry.toPte q.paddrToMap q.paddrTarget).rawW

/-- The entry's address field that the loop follows on a directory entry. -/
theorem followEntry_of_pde {q : MapRequest} {level : ℕ} {entry : PageDirEntry}
    (hvalid : entry.isInvalid = false) (hpte : entry.isPte = false)
    (hsmall : (q.hugePage && level == 3) = false) :
    followEntry q level entry = .ok (entry.addrW * 4096, entry.target) := by
  simp [followEntry, hpte, hsmall,
    PageDirEntry.aperture_ne_vidMem_of_pde hvalid hpte]

/-- `MapRun q alloc levels n v ret v'`: the loop runs over `levels` from the
table `n` in the view `v`, returns `ret` and leaves `v'`. -/
inductive MapRun (q : MapRequest) (alloc : ℕ → PageAlloc) :
    List ℕ → Table → View → ℤ → View → Prop where
  | ranOut (n : Table) (v : View) : MapRun q alloc [] n v (-enotrecoverable) v
  | unresolved {level : ℕ} {levels : List ℕ} {n : Table} {v : View}
      (bad : ∀ l, v.entryLoc n ⟨level, ptIndex level q.vaddrToFind⟩ ≠ .at l) :
      MapRun q alloc (level :: levels) n v (-enotrecoverable) v
  | found {level : ℕ} {levels : List ℕ} {n : Table} {v : View} {l : Loc}
      {ret : ℤ}
      (loc : v.entryLoc n ⟨level, ptIndex level q.vaddrToFind⟩ = .at l)
      (valid : (PageDirEntry.mk (v.mem l)).isInvalid = false)
      (stop : followEntry q level ⟨v.mem l⟩ = .error ret) :
      MapRun q alloc (level :: levels) n v ret v
  | descend {level : ℕ} {levels : List ℕ} {n : Table} {v v' : View} {l : Loc}
      {ret : ℤ}
      (loc : v.entryLoc n ⟨level, ptIndex level q.vaddrToFind⟩ = .at l)
      (valid : (PageDirEntry.mk (v.mem l)).isInvalid = false)
      (pde : (PageDirEntry.mk (v.mem l)).isPte = false)
      (small : (q.hugePage && level == 3) = false)
      (rest : MapRun q alloc levels
        ⟨(PageDirEntry.mk (v.mem l)).addrW, (PageDirEntry.mk (v.mem l)).target⟩
        v ret v') :
      MapRun q alloc (level :: levels) n v ret v'
  | install {level : ℕ} {levels : List ℕ} {n : Table} {v : View} {l : Loc}
      (loc : v.entryLoc n ⟨level, ptIndex level q.vaddrToFind⟩ = .at l)
      (invalid : (PageDirEntry.mk (v.mem l)).isInvalid = true)
      (final : q.IsFinal level) :
      MapRun q alloc (level :: levels) n v 0 (v.install q level l ⟨v.mem l⟩)
  | exhausted {level : ℕ} {levels : List ℕ} {n : Table} {v : View} {l : Loc}
      (loc : v.entryLoc n ⟨level, ptIndex level q.vaddrToFind⟩ = .at l)
      (invalid : (PageDirEntry.mk (v.mem l)).isInvalid = true)
      (inner : ¬ q.IsFinal level) (out : alloc level = .exhausted) :
      MapRun q alloc (level :: levels) n v (-enomem) v
  | unmapped {level : ℕ} {levels : List ℕ} {n : Table} {v : View} {l : Loc}
      {frame : ℕ}
      (loc : v.entryLoc n ⟨level, ptIndex level q.vaddrToFind⟩ = .at l)
      (invalid : (PageDirEntry.mk (v.mem l)).isInvalid = true)
      (inner : ¬ q.IsFinal level) (out : alloc level = .unmapped frame) :
      MapRun q alloc (level :: levels) n v (-enomem) (v.zeroFrame frame)
  | link {level : ℕ} {levels : List ℕ} {n : Table} {v v' : View} {l : Loc}
      {page : DmaPage} {ret : ℤ}
      (loc : v.entryLoc n ⟨level, ptIndex level q.vaddrToFind⟩ = .at l)
      (invalid : (PageDirEntry.mk (v.mem l)).isInvalid = true)
      (inner : ¬ q.IsFinal level) (out : alloc level = .mapped page)
      (rest : MapRun q alloc levels
        ⟨((PageDirEntry.mk (v.mem l)).toPde page.bus).addrW, .pdSysMemCoherent⟩
        (v.link n ⟨level, ptIndex level q.vaddrToFind⟩ l ⟨v.mem l⟩ page)
        ret v') :
      MapRun q alloc (level :: levels) n v ret v'

/-! ## The code follows the runs -/

theorem Points.writeq {s : Machine} {k : Kva} {l : Loc} (h : Points s k l)
    (n : ℤ) (l' : Loc) (hlo : 0 ≤ ((l.addr % 4096 : ℕ) : ℤ) + n)
    (hhi : ((l.addr % 4096 : ℕ) : ℤ) + n < 4096)
    (hl' : l' = ⟨l.space, (l.addr + n).toNat⟩) (w : BitVec 64) :
    ∃ s', writeq (k.add n) w s = some ((), s') ∧
      s'.view = s.view.write l' w ∧ s'.window = s.window ∧ s.FreshSince s' := by
  have hshows := h s rfl n hlo hhi
  rw [← hl'] at hshows
  refine ⟨_, hshows.writeq_eq w, ?_, ?_, ?_⟩
  · cases k.add n <;> rfl
  · cases k.add n <;> rfl
  · exact hshows.fresh

variable (q : MapRequest) (alloc : ℕ → PageAlloc)

section CreateEntry

variable {q alloc} {s : Machine} {n : Table} {k : PtKey} {kva : Kva} {l : Loc}

theorem createEntry_final (hk : k.InRange) (hpoints : Points s kva l)
    (hl : l.addr % 4096 = ptHalf k.level) (hfinal : q.IsFinal k.level)
    (page : PageAlloc) (entry : PageDirEntry) :
    ∃ s', createEntry q page k.level (n.base + ptHalf k.level) n.target kva
        k.offset entry s = some (.error 0, s') ∧
      s'.view = s.view.install q k.level (l.add k.offset) entry ∧
      s.FreshSince s' := by
  have hoff := offset_lt hk
  have hrun : ∀ s₁ : Machine, s₁.window = s.window → ∃ s',
      (do writeq (kva.add k.offset) (entry.toPte q.paddrToMap q.paddrTarget).rawW
          return .error 0 : Kernel (Except ℤ PageDirEntry)) s₁ =
        some (.error 0, s') ∧
      s'.view = s₁.view.write (l.add k.offset)
        (entry.toPte q.paddrToMap q.paddrTarget).rawW ∧ s₁.FreshSince s' := by
    intro s₁ hs₁
    obtain ⟨s', hwrite, hview, -, hfresh⟩ := (hpoints.congr hs₁).writeq
      k.offset (l.add k.offset) (by omega) (by omega)
      (by rw [Loc.add]; congr 1) (entry.toPte q.paddrToMap q.paddrTarget).rawW
    exact ⟨s', by rw [Kernel.bind_eq_of_eq hwrite]; rfl, hview, hfresh⟩
  simp only [createEntry, if_pos hfinal, View.install]
  by_cases hthree : k.level = 3
  · have hhalf : ptHalf k.level = 8 := by rw [hthree]; rfl
    obtain ⟨s₁, hwrite, hview, hwindow, hfresh⟩ := hpoints.writeq
      (-8 + k.offset) { l.add k.offset with addr := (l.add k.offset).addr - 8 }
      (by omega) (by omega)
      (by simp only [Loc.add, Loc.mk.injEq, true_and]; omega)
      (entry.toPte q.paddrToMap q.paddrTarget).rawW
    obtain ⟨s', hrest, hview', hfresh'⟩ := hrun s₁ hwindow
    refine ⟨s', ?_, ?_, hfresh.trans hfresh'⟩
    · rw [if_pos hthree, Kernel.bind_eq_of_eq hwrite]
      exact hrest
    · rw [hview', hview, if_pos hthree]
  · obtain ⟨s', hrest, hview', hfresh'⟩ := hrun s rfl
    refine ⟨s', ?_, ?_, hfresh'⟩
    · rw [if_neg hthree]
      exact hrest
    · rw [hview', if_neg hthree]

theorem createEntry_link (hk : k.InRange) (hpoints : Points s kva l)
    (hl : l.addr % 4096 = ptHalf k.level) (hinner : ¬ q.IsFinal k.level)
    (page : DmaPage) (entry : PageDirEntry) :
    ∃ s', createEntry q (.mapped page) k.level (n.base + ptHalf k.level)
        n.target kva k.offset entry s = some (.ok (entry.toPde page.bus), s') ∧
      s'.view = s.view.link n k (l.add k.offset) entry page ∧
      s.FreshSince s' := by
  have hoff := offset_lt hk
  let s₁ : Machine := { s with
    toCore := ((s.toCore.zeroFrame page.frame).dmaMap page).track
      ⟨page.frame, n.base + ptHalf k.level + k.offset, n.target, page.bus⟩ }
  have hpoints₁ : Points s₁ kva l := hpoints.congr rfl
  obtain ⟨s', hwrite, hview, -, hfresh⟩ := hpoints₁.writeq
    k.offset (l.add k.offset) (by omega) (by omega)
    (by rw [Loc.add]; congr 1) (entry.toPde page.bus).rawW
  refine ⟨s', ?_, hview, hfresh⟩
  simp only [createEntry, if_neg hinner, allocPageDir, Kernel.bind_apply,
    Kernel.modify_apply, Option.bind_some, Kernel.pure_apply]
  change (writeq (kva.add k.offset) (entry.toPde page.bus).rawW s₁).bind _ = _
  rw [hwrite]
  rfl

end CreateEntry

/-- The code of `mapLevels` after an entry was reached. -/
def continueMap (levels : List ℕ) (level : ℕ) :
    Except ℤ PageDirEntry → Kernel ℤ
  | .error ret => return ret
  | .ok entry =>
      match followEntry q level entry with
      | .error ret => return ret
      | .ok (next, nextTarget) => mapLevels q alloc levels next nextTarget

theorem continueMap_of_pde {levels : List ℕ} {level : ℕ} {entry : PageDirEntry}
    (hvalid : entry.isInvalid = false) (hpte : entry.isPte = false)
    (hsmall : (q.hugePage && level == 3) = false) :
    continueMap q alloc levels level (.ok entry) =
      mapLevels q alloc levels (Table.mk entry.addrW entry.target).base
        entry.target := by
  rw [continueMap, followEntry_of_pde hvalid hpte hsmall]
  rfl

/-- An entry that does not stop the loop is a directory entry. -/
theorem followEntry_ok {q : MapRequest} {level : ℕ} {entry : PageDirEntry}
    {r : ℕ × PdTarget} (h : followEntry q level entry = .ok r) :
    entry.isPte = false ∧ (q.hugePage && level == 3) = false := by
  rw [followEntry] at h
  by_cases hpte : entry.isPte = true
  · rw [if_pos hpte] at h
    split_ifs at h
  rw [if_neg hpte] at h
  by_cases hsmall : (q.hugePage && level == 3) = true
  · rw [if_pos hsmall] at h
    cases h
  · exact ⟨Bool.eq_false_of_not_eq_true hpte,
      Bool.eq_false_of_not_eq_true hsmall⟩

/-- Every run of the loop is a run on views, with fresh window accesses only. -/
theorem mapLevels_spec {levels : List ℕ} (hlevels : ∀ level ∈ levels, level < 5)
    (s : Machine) (n : Table) :
    ∃ ret s', mapLevels q alloc levels n.base n.target s = some (ret, s') ∧
      MapRun q alloc levels n s.view ret s'.view ∧ s.FreshSince s' := by
  induction levels generalizing s n with
  | nil => exact ⟨_, s, rfl, .ranOut n s.view, .refl s⟩
  | cons level levels ih =>
      let k : PtKey := ⟨level, ptIndex level q.vaddrToFind⟩
      have hk : k.InRange := ⟨hlevels level (by simp), ptIndex_lt _ _⟩
      have hoff := offset_lt hk
      have ih := fun s n => ih (fun l hl => hlevels l (by simp [hl])) s n
      obtain ⟨s₁, hview, hfresh, hrun⟩ := @derefReadq_spec _ s
        (n.base + ptHalf k.level) k.offset n.target
        (by simp only [Table.base] at hoff ⊢; omega)
        (fun _ => pure (-enotrecoverable))
        (fun kva word => reachEntry q (alloc level) level
          (n.base + ptHalf level) n.target kva k.offset ⟨word⟩ >>=
            continueMap q alloc levels level)
      have hcode : mapLevels q alloc (level :: levels) n.base n.target s =
          derefReadq (n.base + ptHalf k.level) n.target k.offset
            (fun _ => pure (-enotrecoverable))
            (fun kva word => reachEntry q (alloc level) level
              (n.base + ptHalf level) n.target kva k.offset ⟨word⟩ >>=
                continueMap q alloc levels level) s := rfl
      rw [hcode]
      have hmem : s.mem = s₁.view.mem := by
        rw [hview]
        rfl
      rw [← hview] at hrun ⊢
      cases hd : s₁.view.deref (n.base + ptHalf k.level) n.target with
      | null =>
          have hloc : s₁.view.entryLoc n k = .null := by rw [View.entryLoc, hd]
          rw [hd] at hrun
          refine ⟨_, s₁, hrun, .unresolved ?_, hfresh⟩
          intro l hl
          cases hloc.symm.trans hl
      | err e =>
          have hloc : s₁.view.entryLoc n k = .err e := by rw [View.entryLoc, hd]
          rw [hd] at hrun
          refine ⟨_, s₁, hrun, .unresolved ?_, hfresh⟩
          intro l hl
          cases hloc.symm.trans hl
      | «at» l =>
          have hloc : s₁.view.entryLoc n k = .at (l.add k.offset) := by
            rw [View.entryLoc, hd]
          rw [hd] at hrun
          obtain ⟨kva, hpoints, hrun⟩ := hrun
          have hmod : l.addr % 4096 = ptHalf k.level := by
            rw [View.addr_mod_of_deref hd]
            simp only [Table.base] at hoff ⊢
            omega
          rw [hrun, hmem]
          by_cases hinvalid :
              (PageDirEntry.mk (s₁.view.mem (l.add k.offset))).isInvalid = true
          · rw [reachEntry, if_pos hinvalid]
            by_cases hfinal : q.IsFinal level
            · obtain ⟨s₂, hcreate, hview₂, hfresh₂⟩ := createEntry_final
                (n := n) hk hpoints hmod hfinal (alloc level)
                ⟨s₁.view.mem (l.add k.offset)⟩
              refine ⟨0, s₂, ?_, ?_, hfresh.trans hfresh₂⟩
              · rw [Kernel.bind_eq_of_eq hcreate]
                rfl
              · rw [hview₂]
                exact .install hloc hinvalid hfinal
            · cases halloc : alloc level with
              | exhausted =>
                  refine ⟨-enomem, s₁, ?_, .exhausted hloc hinvalid hfinal halloc,
                    hfresh⟩
                  simp [createEntry, hfinal, allocPageDir, continueMap]
              | unmapped frame =>
                  refine ⟨-enomem,
                    { s₁ with toCore := s₁.toCore.zeroFrame frame }, ?_,
                    .unmapped hloc hinvalid hfinal halloc,
                    hfresh.trans (.of_eq rfl)⟩
                  simp [createEntry, hfinal, allocPageDir, continueMap]
              | mapped page =>
                  obtain ⟨s₂, hcreate, hview₂, hfresh₂⟩ := createEntry_link
                    (n := n) hk hpoints hmod hfinal page
                    ⟨s₁.view.mem (l.add k.offset)⟩
                  have hsmall : (q.hugePage && level == 3) = false := by
                    by_contra hsmall
                    simp only [Bool.not_eq_false, Bool.and_eq_true, beq_iff_eq]
                      at hsmall
                    exact hfinal (.inr hsmall)
                  obtain ⟨ret, s₃, hrest, hmap, hfresh₃⟩ := ih s₂
                    ⟨((PageDirEntry.mk (s₁.view.mem (l.add k.offset))).toPde
                      page.bus).addrW, .pdSysMemCoherent⟩
                  rw [hview₂] at hmap
                  refine ⟨ret, s₃, ?_, .link hloc hinvalid hfinal halloc hmap,
                    (hfresh.trans hfresh₂).trans hfresh₃⟩
                  rw [Kernel.bind_eq_of_eq hcreate, continueMap_of_pde _ _
                    (PageDirEntry.toPde_isInvalid _ _)
                    (PageDirEntry.toPde_isPte _ _) hsmall,
                    PageDirEntry.toPde_target]
                  exact hrest
          · rw [reachEntry, if_neg hinvalid]
            have hvalid := Bool.eq_false_of_not_eq_true hinvalid
            cases hfollow : followEntry q level
                ⟨s₁.view.mem (l.add k.offset)⟩ with
            | error ret =>
                refine ⟨ret, s₁, ?_, .found hloc hvalid hfollow, hfresh⟩
                simp [continueMap, hfollow]
            | ok r =>
                obtain ⟨hpte, hsmall⟩ := followEntry_ok hfollow
                obtain ⟨ret, s₂, hrest, hmap, hfresh₂⟩ := ih s₁
                  ⟨(PageDirEntry.mk (s₁.view.mem (l.add k.offset))).addrW,
                    (PageDirEntry.mk (s₁.view.mem (l.add k.offset))).target⟩
                refine ⟨ret, s₂, ?_, .descend hloc hvalid hpte hsmall hmap,
                  hfresh.trans hfresh₂⟩
                rw [Kernel.bind_apply, Kernel.pure_apply, Option.bind_some,
                  continueMap_of_pde _ _ hvalid hpte hsmall]
                exact hrest

/-- A call of `map_page_directory` is rejected or runs from the top level. -/
theorem mapPageDirectory_spec (s : Machine) (pdConfig : PageDirConfig) :
    ∃ ret s', mapPageDirectory alloc pdConfig q.vaddrToFind q.paddrToMap
        q.paddrTarget q.hugePage s = some (ret, s') ∧ s.FreshSince s' ∧
      (q.isAccepted = false ∧ ret = -einval ∧ s'.view = s.view ∨
        q.isAccepted = true ∧
          MapRun q alloc (List.range 5) pdConfig.root s.view ret s'.view) := by
  cases haccepted : q.isAccepted with
  | false =>
      refine ⟨-einval, s, ?_, .refl s, .inl ⟨rfl, rfl, rfl⟩⟩
      simp [mapPageDirectory, haccepted]
  | true =>
      obtain ⟨ret, s', hrun, hmap, hfresh⟩ := @mapLevels_spec q alloc
        (List.range 5) (by simp) s pdConfig.root
      refine ⟨ret, s', ?_, hfresh, .inr ⟨rfl, hmap⟩⟩
      simp only [mapPageDirectory, haccepted]
      exact hrun

end A100Partitioning.Nvdebug
