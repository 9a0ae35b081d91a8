import A100Partitioning.Nvdebug.Runlist
import A100Partitioning.Nvdebug.Ctxsw
import A100Partitioning.Support.Keeps

/-!
# Code that moves nothing but the window

Locating a runlist, an instance block or a context-switch block, and searching
page tables on the way, changes no register and no memory.  Only the PRAMIN
window moves.
-/

namespace A100Partitioning.Nvdebug

open Support Keeping

/-- The code leaves registers and memory as they are. -/
abbrev KeepsCore {α : Type} (x : Kernel α) : Prop := Keeps Machine.toCore x

theorem keepsCore_readq (k : Kva) : KeepsCore (readq k) := by
  intro s a s' h
  rw [readq] at h
  split at h
  · cases h
  all_goals
    cases h
    cases k <;> rfl

theorem keepsCore_readl (k : Kva) : KeepsCore (readl k) := by
  intro s a s' h
  rw [readl] at h
  split at h
  · cases h
  all_goals
    cases h
    cases k <;> rfl

theorem keepsCore_nvdebugReadl (r : ℕ) : KeepsCore (nvdebugReadl r) :=
  Keeps.get.bind fun _ => .pure _

theorem keepsCore_nvdebugReadq (r : ℕ) : KeepsCore (nvdebugReadq r) := by
  apply Keeps.get.bind
  intro s
  apply Keeps.ite
  · intro _
    exact .pure _
  · intro _
    dsimp only
    split
    · exact .pure _
    · exact .pure _

theorem keepsCore_addrToPraminMut (addr : ℕ) (target : InstTarget) :
    KeepsCore (addrToPraminMut addr target) := by
  apply Keeps.of_eq
  intro s
  rcases addrToPraminMut_cases s addr target with
    ⟨e, -, hrun, -⟩ | ⟨-, -, -, ⟨-, n, -, -, hrun⟩ | ⟨-, hrun⟩⟩
  · exact ⟨_, _, hrun, rfl⟩
  · exact ⟨_, _, hrun, rfl⟩
  · exact ⟨_, _, hrun, rfl⟩

theorem keepsCore_pdDeref (addr : ℕ) (pdAp : PdTarget) :
    KeepsCore (pdDeref addr pdAp) := by
  apply Keeps.ite
  · intro _
    exact .pure _
  · intro _
    apply Keeps.ite
    · intro _
      apply (keepsCore_addrToPraminMut addr .vidMem).bind
      intro off
      exact .ite (fun _ => .pure _) fun _ => .pure _
    · intro _
      apply Keeps.get.bind
      intro s
      dsimp only
      split
      · exact .pure _
      · exact .pure _

theorem keepsCore_forReturn {α : Type} {body : ℕ → Kernel (Option α)}
    (h : ∀ i, KeepsCore (body i)) (is : List ℕ) : KeepsCore (forReturn body is) := by
  induction is with
  | nil => exact .pure _
  | cons i is ih =>
      apply (h i).bind
      intro found
      cases found with
      | some res => exact .pure _
      | none => exact ih

/-! ## Searching page tables -/

theorem keepsCore_searchPageDirectorySubtree (addrToFind : ℕ)
    (addrToFindAperture : InstTarget) (levels : List ℕ) (pdeAddr : ℕ)
    (pdeTarget : PdTarget) :
    KeepsCore (searchPageDirectorySubtree addrToFind addrToFindAperture levels
      pdeAddr pdeTarget) := by
  induction levels generalizing pdeAddr pdeTarget with
  | nil => exact .fail
  | cons level levels ih =>
      rw [searchPageDirectorySubtree]
      apply Keeps.ite
      · intro _
        exact .pure _
      intro _
      apply (keepsCore_pdDeref _ _).bind
      intro pdeKern
      apply Keeps.ite
      · intro _
        exact .pure _
      intro _
      apply (keepsCore_readq _).bind
      intro word
      apply Keeps.ite
      · intro _
        exact .pure _
      intro _
      apply Keeps.ite
      · intro _
        exact .pure _
      intro _
      cases levels with
      | nil => exact .fail
      | cons next levels =>
          apply (keepsCore_forReturn _ _).bind
          · intro found
            exact .pure _
          · intro i
            apply (ih _ _).bind
            intro res
            exact .ite (fun _ => .pure _) fun _ => .pure _

theorem keepsCore_searchPageDirectory (pdConfig : PageDirConfig) (addrToFind : ℕ)
    (addrToFindAperture : InstTarget) :
    KeepsCore (searchPageDirectory pdConfig addrToFind addrToFindAperture) := by
  apply Keeps.ite
  · intro _
    exact .pure _
  intro _
  apply (keepsCore_forReturn _ _).bind
  · intro found
    exact .pure _
  · intro i
    apply (keepsCore_searchPageDirectorySubtree _ _ _ _ _).bind
    intro res
    exact .ite (fun _ => .pure _) fun _ => .pure _

theorem keepsCore_searchV1PageTable (addrToFind : ℕ) (addrToFindAperture : InstTarget)
    (i : ℕ) (pde : PageDirEntryV1) :
    KeepsCore (searchV1PageTable addrToFind addrToFindAperture i pde) := by
  apply keepsCore_forReturn
  intro j
  apply (keepsCore_pdDeref _ _).bind
  intro pteAddr
  apply Keeps.ite
  · intro _
    exact .pure _
  intro _
  apply (keepsCore_readl _).bind
  intro hi
  apply (keepsCore_readl _).bind
  intro lo
  apply Keeps.ite
  · intro _
    exact .pure _
  intro _
  exact .ite (fun _ => .pure _) fun _ => .pure _

theorem keepsCore_searchV1PageDirectory (pdConfig : PageDirConfig) (addrToFind : ℕ)
    (addrToFindAperture : InstTarget) :
    KeepsCore (searchV1PageDirectory pdConfig addrToFind addrToFindAperture) := by
  apply Keeps.ite
  · intro _
    exact .pure _
  intro _
  apply Keeps.ite
  · intro _
    exact .pure _
  intro _
  apply (keepsCore_forReturn _ _).bind
  · intro found
    exact .pure _
  intro i
  apply (keepsCore_pdDeref _ _).bind
  intro pdeAddr
  apply Keeps.ite
  · intro _
    exact .pure _
  intro _
  apply (keepsCore_readl _).bind
  intro hi
  apply (keepsCore_readl _).bind
  intro lo
  apply Keeps.ite
  · intro _
    exact .pure _
  intro _
  exact keepsCore_searchV1PageTable _ _ _ _

/-! ## Locating a runlist -/

theorem keepsCore_praminReadq (k : Kva) : KeepsCore (praminReadq k) := by
  apply Keeps.get.bind
  intro s
  apply Keeps.ite
  · intro _
    exact .pure _
  intro _
  apply (keepsCore_readq k).bind
  intro word
  exact .ite (fun _ => .pure _) fun _ => .pure _

theorem keepsCore_bar2PdbOfInst (bar2Ptr : ℕ) (bar2Target : InstTarget) :
    KeepsCore (bar2PdbOfInst bar2Ptr bar2Target) := by
  apply (keepsCore_addrToPraminMut _ _).bind
  intro off
  apply Keeps.ite
  · intro _
    exact .pure _
  intro _
  apply (keepsCore_praminReadq _).bind
  intro raw
  exact .ite (fun _ => .pure _) fun _ => .pure _

theorem keepsCore_getBar2Pdb : KeepsCore getBar2Pdb := by
  apply Keeps.get.bind
  intro s
  apply Keeps.ite
  · intro _
    exact .pure _
  intro _
  apply Keeps.ite
  · intro _
    apply (keepsCore_nvdebugReadq _).bind
    intro bar2Block
    exact .ite (fun _ => .pure _) fun _ => keepsCore_bar2PdbOfInst _ _
  · intro _
    apply (keepsCore_nvdebugReadl _).bind
    intro bar2Block
    exact .ite (fun _ => .pure _) fun _ => keepsCore_bar2PdbOfInst _ _

theorem keepsCore_readRunlistConfigTu102 (base submit priBase : ℕ) :
    KeepsCore (readRunlistConfigTu102 base submit priBase) := by
  apply (keepsCore_nvdebugReadq _).bind
  intro base
  apply Keeps.ite
  · intro _
    exact .pure _
  intro _
  apply (keepsCore_nvdebugReadq _).bind
  intro submit
  exact .ite (fun _ => .pure _) fun _ => .pure _

theorem keepsCore_readRunlistConfig (rlId : ℕ) :
    KeepsCore (readRunlistConfig rlId) := by
  apply Keeps.get.bind
  intro s
  apply Keeps.ite
  · intro _
    apply (keepsCore_nvdebugReadq _).bind
    intro rl
    exact .ite (fun _ => .pure _) fun _ => .pure _
  intro _
  apply Keeps.ite
  · intro _
    exact keepsCore_readRunlistConfigTu102 _ _ _
  intro _
  split
  · exact .pure _
  · exact keepsCore_readRunlistConfigTu102 _ _ _

theorem keepsCore_searchBar2 (rl : RunlistConfig) : KeepsCore (searchBar2 rl) := by
  apply keepsCore_getBar2Pdb.bind
  intro pdb
  cases pdb with
  | error e => exact .pure _
  | ok pdConfig =>
      apply Keeps.get.bind
      intro s
      apply Keeps.ite
      · intro _
        exact .pure _
      intro _
      have hfound : ∀ vaddr, KeepsCore
          (if vaddr = 0 then pure none else pure (some vaddr) : Kernel (Option ℕ)) :=
        fun vaddr => .ite (fun _ => .pure _) fun _ => .pure _
      apply Keeps.ite
      · intro _
        exact (keepsCore_searchPageDirectory _ _ _).bind hfound
      · intro _
        exact (keepsCore_searchV1PageDirectory _ _ _).bind hfound

/-- `get_runlist_iter` changes no register but that of the window. -/
theorem keepsCore_getRunlistIter (rlId : ℕ) : KeepsCore (getRunlistIter rlId) := by
  apply (keepsCore_readRunlistConfig rlId).bind
  intro config
  cases config with
  | error e => exact .pure _
  | ok rl =>
      apply Keeps.ite
      · intro _
        exact .pure _
      intro _
      apply Keeps.ite
      · intro _
        exact .pure _
      intro _
      apply (keepsCore_searchBar2 rl).bind
      intro found
      cases found with
      | some vaddr =>
          apply Keeps.get.bind
          intro s
          exact .ite (fun _ => .pure _) fun _ => .pure _
      | none =>
          apply (keepsCore_addrToPraminMut _ _).bind
          intro off
          exact .ite (fun _ => .pure _) fun _ => .pure _

end A100Partitioning.Nvdebug
