import A100Partitioning.Nvdebug.Ctxsw

/-!
# Errors of forward translation

A translation should return 0 exactly when its walk ends in a present PTE, and
it should never read through a bad pointer.  This file determines when the two
translation functions, and the lookups of `get_ctxsw` that rely on them, keep to
that.
-/

namespace A100Partitioning.Nvdebug

open Support RadixTable

/-- What a translation should return, given the address and aperture of the
present PTE at the end of its walk, if there is one; the outer `none` is a read
through a bad pointer. -/
def Translation.IsRight (present : Option (ℕ × InstTarget)) :
    Option Translation → Prop
  | none => False
  | some t =>
      match present with
      | some (addr, aperture) => t = ⟨0, addr, aperture⟩
      | none => t.ret ≠ 0 ∧ t.foundAddr = 0 ∧ t.foundAperture = .invalid

/-- Address and aperture of the PTE at the end of a V2 walk. -/
def View.presentPte (v : View) (pdConfig : PageDirConfig) (vaddr : ℕ) :
    Option (ℕ × InstTarget) :=
  if vaddr % 4096 ≠ 0 then none
  else
    match v.walk PageDirEntry.addr (List.range 5) vaddr pdConfig.root with
    | .ok pte => some (pte.entry.addr * 4096, pte.entry.aperture)
    | .error _ => none

/-- Address and aperture of the PTE at the end of a V1 walk. -/
def View.presentPteV1 (v : View) (pdConfig : PageDirConfig) (vaddr : ℕ) :
    Option (ℕ × InstTarget) :=
  if acceptsV1 pdConfig vaddr then
    match v.walkV1 pdConfig vaddr with
    | .ok pte => some (pte.addr * 4096, pte.target)
    | .error _ => none
  else none

/-- A V2 walk meets a directory that the I/O MMU does not map, or a directory
entry at the last level. -/
def View.EndsSilently (v : View) (pdConfig : PageDirConfig) (vaddr : ℕ) : Prop :=
  vaddr % 4096 = 0 ∧
    (v.walk PageDirEntry.addr (List.range 5) vaddr pdConfig.root = .error .null ∨
      v.walk PageDirEntry.addr (List.range 5) vaddr pdConfig.root =
        .error .overrun)

/-- The I/O MMU does not map the directory entry of a V1 walk. -/
def View.EndsSilentlyV1 (v : View) (pdConfig : PageDirConfig) (vaddr : ℕ) :
    Prop :=
  acceptsV1 pdConfig vaddr = true ∧
    v.walkV1 pdConfig vaddr = .error (.null 0)

/-- The table entry of a V1 walk cannot be dereferenced. -/
def View.ReadsBadPointerV1 (v : View) (pdConfig : PageDirConfig) (vaddr : ℕ) :
    Prop :=
  acceptsV1 pdConfig vaddr = true ∧
    (v.walkV1 pdConfig vaddr = .error (.null 1) ∨
      ∃ e, v.walkV1 pdConfig vaddr = .error (.err 1 e))

/-! ## Codes of failed walks -/

theorem View.errno_neg_of_walk {v : View} {follow : PageDirEntry → ℕ}
    {levels : List ℕ} {vaddr : ℕ} {n : Table} {e : ℤ}
    (h : v.walk follow levels vaddr n = .error (.err e)) : e < 0 := by
  rcases exists_path_of_walk_error h with ⟨-, k, -, m, -, -, hmiss⟩ | ⟨h, -⟩
  · rw [View.slot, View.entryLoc] at hmiss
    cases hd : v.deref (m.base + ptHalf k.level) m.target with
    | null => simp [hd] at hmiss
    | err e' =>
        simp only [hd, Slot.miss.injEq, Miss.err.injEq] at hmiss
        exact hmiss ▸ View.deref_err_neg hd
    | «at» l =>
        simp only [hd, slotOfEntry] at hmiss
        split_ifs at hmiss
        cases hmiss
  · cases h

theorem View.walkV1_cases (v : View) (pdConfig : PageDirConfig) (vaddr : ℕ) :
    (∃ pte, v.walkV1 pdConfig vaddr = .ok pte) ∨
      v.walkV1 pdConfig vaddr = .error .absent ∨
      v.walkV1 pdConfig vaddr = .error (.null 0) ∨
      (∃ e < 0, v.walkV1 pdConfig vaddr = .error (.err 0 e)) ∨
      v.walkV1 pdConfig vaddr = .error (.null 1) ∨
      ∃ e, v.walkV1 pdConfig vaddr = .error (.err 1 e) := by
  have hmiss : ∀ n (k : PtKey) r, v.slotV1 n k = .miss r →
      r = .absent ∨ r = .null k.level ∨ ∃ e < 0, r = .err k.level e := by
    intro n k r h
    rw [View.slotV1] at h
    cases hd : v.deref ((n.base + k.idx * 8) % 2 ^ 64) n.target with
    | null =>
        simp only [hd, Slot.miss.injEq] at h
        exact .inr (.inl h.symm)
    | err e =>
        simp only [hd, Slot.miss.injEq] at h
        exact .inr (.inr ⟨e, View.deref_err_neg hd, h.symm⟩)
    | «at» l =>
        simp only [hd, slotOfPdeV1, slotOfPteV1] at h
        split_ifs at h
        · cases h
          exact .inl rfl
        · cases h
          exact .inl rfl
  have htable : ∀ n j m, v.slotV1 n ⟨1, j⟩ ≠ .table m := by
    intro n j m h
    rw [View.slotV1] at h
    cases hd : v.deref ((n.base + j * 8) % 2 ^ 64) n.target with
    | null =>
        simp only [hd] at h
        cases h
    | err e =>
        simp only [hd] at h
        cases h
    | «at» l =>
        simp only [hd, Nat.one_ne_zero, if_false, slotOfPteV1] at h
        split_ifs at h
  rw [View.walkV1, keysV1, RadixTable.walk]
  cases hpde : v.slotV1 pdConfig.root ⟨0, ptV1Index 0 vaddr⟩ with
  | leaf pte => exact .inl ⟨pte, rfl⟩
  | miss r =>
      rcases hmiss _ _ _ hpde with rfl | rfl | ⟨e, he, rfl⟩
      · exact .inr (.inl rfl)
      · exact .inr (.inr (.inl rfl))
      · exact .inr (.inr (.inr (.inl ⟨e, he, rfl⟩)))
  | table m =>
      simp only [RadixTable.walk]
      cases hpte : v.slotV1 m ⟨1, ptV1Index 1 vaddr⟩ with
      | table n => exact absurd hpte (htable _ _ _)
      | leaf pte => exact .inl ⟨pte, rfl⟩
      | miss r =>
          rcases hmiss _ _ _ hpte with rfl | rfl | ⟨e, -, rfl⟩
          · exact .inr (.inl rfl)
          · exact .inr (.inr (.inr (.inr (.inl rfl))))
          · exact .inr (.inr (.inr (.inr (.inr ⟨e, rfl⟩))))

/-! ## When a translation is right -/

theorem isRight_failed {e : ℤ} :
    Translation.IsRight none (some (.failed e)) ↔ e ≠ 0 := by
  simp [Translation.IsRight, Translation.failed]

theorem View.isRight_translate_iff (v : View) (pdConfig : PageDirConfig)
    (vaddr : ℕ) :
    Translation.IsRight (v.presentPte pdConfig vaddr)
        (some (v.translate pdConfig vaddr)) ↔
      ¬ v.EndsSilently pdConfig vaddr := by
  rw [View.presentPte, View.translate, View.EndsSilently]
  by_cases halign : vaddr % 4096 ≠ 0
  · rw [if_pos halign, if_pos halign, isRight_failed]
    simp [halign, einval]
  rw [if_neg halign, if_neg halign]
  rw [not_not] at halign
  cases hwalk : v.walk PageDirEntry.addr (List.range 5) vaddr
    pdConfig.root with
  | ok pte => simp [Translation.IsRight, translationOf]
  | error r =>
      cases r with
      | absent => simp [translationOf, isRight_failed, enxio]
      | null => simp [translationOf, isRight_failed, halign]
      | err e =>
          have he := View.errno_neg_of_walk hwalk
          simp [translationOf, isRight_failed, he.ne]
      | overrun => simp [translationOf, isRight_failed, halign]

theorem View.isRight_translateV1_iff (v : View) (pdConfig : PageDirConfig)
    (vaddr : ℕ) :
    Translation.IsRight (v.presentPteV1 pdConfig vaddr)
        (v.translateV1 pdConfig vaddr) ↔
      ¬ v.EndsSilentlyV1 pdConfig vaddr ∧
        ¬ v.ReadsBadPointerV1 pdConfig vaddr := by
  rw [View.presentPteV1, View.translateV1, View.EndsSilentlyV1,
    View.ReadsBadPointerV1]
  by_cases haccepts : acceptsV1 pdConfig vaddr = true
  swap
  · rw [if_neg haccepts, if_neg haccepts, isRight_failed]
    simp [haccepts, einval]
  rw [if_pos haccepts, if_pos haccepts]
  rcases v.walkV1_cases pdConfig vaddr with
    ⟨pte, h⟩ | h | h | ⟨e, he, h⟩ | h | ⟨e, h⟩
  · simp [h, Translation.IsRight, translationOfV1]
  · simp [h, translationOfV1, isRight_failed, enxio]
  · simp [h, translationOfV1, isRight_failed, haccepts]
  · simp [h, translationOfV1, isRight_failed, he.ne]
  · simp [h, translationOfV1, Translation.IsRight, haccepts]
  · simp [h, translationOfV1, Translation.IsRight, haccepts]

/-! ## The lookups of `get_ctxsw` -/

/-- The PTE at the end of the walk that `lookupVirt` makes. -/
def View.presentFor (v : View) (pdb : PageDirConfig) (virt : ℕ) :
    Option (ℕ × InstTarget) :=
  if pdb.isVer2 then v.presentPte pdb virt else v.presentPteV1 pdb virt

/-- A right translation is continued with exactly at a present PTE. -/
theorem accepted_of_isRight {present : Option (ℕ × InstTarget)}
    {t : Translation} (h : Translation.IsRight present (some t)) :
    t.accepted = present := by
  match present with
  | some (addr, aperture) =>
      have ht : t = ⟨0, addr, aperture⟩ := h
      rw [ht]
      rfl
  | none => exact if_pos h.1

theorem View.accepted_of_endsSilently {v : View} {pdb : PageDirConfig}
    {virt : ℕ} (h : v.EndsSilently pdb virt) :
    (v.translate pdb virt).accepted = some (0, .invalid) ∧
      v.presentPte pdb virt = none := by
  obtain ⟨halign, hwalk⟩ := h
  rw [View.translate, View.presentPte, if_neg (not_not.mpr halign),
    if_neg (not_not.mpr halign)]
  rcases hwalk with hwalk | hwalk <;> rw [hwalk] <;> exact ⟨rfl, rfl⟩

theorem View.accepted_of_endsSilentlyV1 {v : View} {pdb : PageDirConfig}
    {virt : ℕ} (h : v.EndsSilentlyV1 pdb virt) :
    v.translateV1 pdb virt = some (.failed 0) ∧
      v.presentPteV1 pdb virt = none := by
  obtain ⟨haccepts, hwalk⟩ := h
  rw [View.translateV1, View.presentPteV1, if_pos haccepts, if_pos haccepts,
    hwalk]
  exact ⟨rfl, rfl⟩

theorem View.translateV1_of_readsBadPointerV1 {v : View} {pdb : PageDirConfig}
    {virt : ℕ} (h : v.ReadsBadPointerV1 pdb virt) :
    v.translateV1 pdb virt = none := by
  obtain ⟨haccepts, hwalk⟩ := h
  rw [View.translateV1, if_pos haccepts]
  rcases hwalk with hwalk | ⟨e, hwalk⟩ <;> rw [hwalk] <;> rfl

theorem lookupVirt_sound_iff (s : Machine) (pdb : PageDirConfig) (virt : ℕ) :
    (∀ addr aperture s',
        lookupVirt pdb virt s = some (some (addr, aperture), s') →
        s.view.presentFor pdb virt = some (addr, aperture)) ↔
      ¬ (if pdb.isVer2 then s.view.EndsSilently pdb virt
        else s.view.EndsSilentlyV1 pdb virt) := by
  rw [View.presentFor, lookupVirt]
  cases hver : pdb.isVer2 with
  | true =>
      obtain ⟨s₁, hrun, -⟩ := translatePageDirectory_spec s pdb virt
      simp only [if_true, Kernel.map_apply, hrun, Option.map_some,
        Option.some.injEq, Prod.mk.injEq]
      constructor
      · intro hsound hsilent
        obtain ⟨haccepted, hpresent⟩ := View.accepted_of_endsSilently hsilent
        have := hsound 0 .invalid s₁ ⟨haccepted, rfl⟩
        rw [hpresent] at this
        cases this
      · rintro hnot addr aperture s' ⟨haccepted, rfl⟩
        rw [← accepted_of_isRight
          ((s.view.isRight_translate_iff pdb virt).mpr hnot)]
        exact haccepted
  | false =>
      obtain ⟨s₁, -, -, hrun⟩ := translateV1PageDirectory_spec s pdb virt
      simp only [Bool.false_eq_true, if_false, Kernel.map_apply, hrun,
        Option.map_map]
      constructor
      · intro hsound hsilent
        obtain ⟨haccepted, hpresent⟩ := View.accepted_of_endsSilentlyV1 hsilent
        have := hsound 0 .invalid s₁ (by rw [haccepted]; rfl)
        rw [hpresent] at this
        cases this
      · intro hnot addr aperture s' haccepted
        by_cases hbad : s.view.ReadsBadPointerV1 pdb virt
        · rw [View.translateV1_of_readsBadPointerV1 hbad] at haccepted
          cases haccepted
        · have hright := (s.view.isRight_translateV1_iff pdb virt).mpr
            ⟨hnot, hbad⟩
          cases ht : s.view.translateV1 pdb virt with
          | none =>
              rw [ht] at hright
              exact hright.elim
          | some t =>
              rw [ht] at hright haccepted
              simp only [Option.map_some, Function.comp, Option.some.injEq,
                Prod.mk.injEq] at haccepted
              rw [← accepted_of_isRight hright]
              exact haccepted.1

/-- The translations are right, except where a walk ends at a `NULL` pointer or
past the last level, or a V1 table entry cannot be dereferenced; and the lookups
of `get_ctxsw` only ever continue with an address that was translated, except
where a walk ends silently. -/
theorem translation_isRight_iff (s : Machine) (pdConfig : PageDirConfig)
    (vaddr : ℕ) :
    (Translation.IsRight (s.view.presentPte pdConfig vaddr)
        ((translatePageDirectory pdConfig vaddr s).map Prod.fst) ↔
      ¬ s.view.EndsSilently pdConfig vaddr) ∧
    (Translation.IsRight (s.view.presentPteV1 pdConfig vaddr)
        ((translateV1PageDirectory pdConfig vaddr s).map Prod.fst) ↔
      ¬ s.view.EndsSilentlyV1 pdConfig vaddr ∧
        ¬ s.view.ReadsBadPointerV1 pdConfig vaddr) ∧
    ((∀ addr aperture s',
        lookupVirt pdConfig vaddr s = some (some (addr, aperture), s') →
        s.view.presentFor pdConfig vaddr = some (addr, aperture)) ↔
      ¬ (if pdConfig.isVer2 then s.view.EndsSilently pdConfig vaddr
        else s.view.EndsSilentlyV1 pdConfig vaddr)) := by
  refine ⟨?_, ?_, ?_⟩
  · obtain ⟨s', hrun, -⟩ := translatePageDirectory_spec s pdConfig vaddr
    rw [hrun, ← s.view.isRight_translate_iff pdConfig vaddr]
    rfl
  · obtain ⟨s', -, -, hrun⟩ := translateV1PageDirectory_spec s pdConfig vaddr
    rw [hrun, ← s.view.isRight_translateV1_iff pdConfig vaddr, Option.map_map]
    have hfst : (Prod.fst ∘ fun t : Translation => (t, s')) = id := rfl
    rw [hfst, Option.map_id, id]
  · exact lookupVirt_sound_iff s pdConfig vaddr

/-- The I/O MMU maps nothing. -/
def nothingMapped : Machine :=
  { Machine.ofWords [] with iommu := some fun _ => 0 }

/-- A V1 directory entry that has a big-page table only. -/
def bigPagesOnly : Machine :=
  .ofWords [(⟨.vram, 0x1000⟩, 0x201)]

/-- An unmapped directory in system memory translates with success, also for
`get_ctxsw`; and a V1 directory entry without a small-page table makes the
translation read through an error pointer. -/
theorem not_translation_isRight :
    ((translatePageDirectory ⟨0x1402⟩ 0x1000 nothingMapped).map Prod.fst =
        some ⟨0, 0, .invalid⟩ ∧
      (lookupVirt ⟨0x1402⟩ 0x1000 nothingMapped).map Prod.fst =
        some (some (0, .invalid)) ∧
      nothingMapped.view.presentPte ⟨0x1402⟩ 0x1000 = none) ∧
    (translateV1PageDirectory ⟨0x1000⟩ 0x1000 bigPagesOnly).map Prod.fst =
      none := by
  refine ⟨⟨?_, ?_, ?_⟩, ?_⟩ <;> decide

end A100Partitioning.Nvdebug
