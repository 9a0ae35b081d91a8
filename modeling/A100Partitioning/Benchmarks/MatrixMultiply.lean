import A100Partitioning.Config.CJson
import A100Partitioning.Support.CheckedRuns

/-!
# Square matrices

`matrix_multiply` takes the width of its matrices from `additional_info`, and covers them with
blocks of the size that the configuration gives.
-/

namespace A100Partitioning.Benchmarks

open Config (CJson Double)
open Support (IsInt isInt_natCast Run)
open Support.Run

/-! ## The code -/

/-- `valuedouble >= 1.0`. -/
def atLeastOne : Double → Bool
  | .finite value => 1 ≤ value
  | .infinite negative => !negative

/-- `ParseAdditionalInfo`: the width, and whether copies are skipped. -/
def parseAdditionalInfo (root : CJson) : Option (Double × Bool) :=
  match root.getObjectItem "matrix_width" with
  | some (.number valuedouble) =>
      if atLeastOne valuedouble then
        match root.getObjectItem "skip_copy" with
        | none => some (valuedouble, false)
        | some (.bool skipCopy) => some (valuedouble, skipCopy)
        | some _ => none
      else none
  | _ => none

/-- The settings that are accepted.  The block dimensions are positive `int`s when the
configuration has been parsed. -/
structure PluginState where
  additionalInfo : CJson
  valuedouble : Double
  skipCopy : Bool
  blockDim : ℕ × ℕ
  accepted : parseAdditionalInfo additionalInfo = some (valuedouble, skipCopy)
  blockDim_pos : 0 < blockDim.1 ∧ 0 < blockDim.2
  blockDim_lt : blockDim.1 < 2 ^ 31 ∧ blockDim.2 < 2 ^ 31

/-- The buffers of the benchmark. -/
inductive PluginBuffer where
  | deviceBlockTimes
  | deviceBlockSmids
  | dA
  | dB
  | dC
  | hA
  | hB
  deriving DecidableEq, Repr

/-- `block_size`, as `Initialize` leaves it for one-dimensional blocks. -/
def PluginState.blockSize (state : PluginState) : ℕ × ℕ :=
  (if state.blockDim.2 = 1 then 32 else state.blockDim.1, state.blockDim.2)

/-- The blocks along one side of the matrix. -/
def blocksAlong (width blockSize : ℕ) : ℕ :=
  if width % blockSize ≠ 0 then width / blockSize + 1 else width / blockSize

/-- One thread of `MatrixMultiplyKernel`. -/
def matrixMultiplyKernel (width gridX gridY blockX blockY bx by' tx ty : ℕ) : Run PluginBuffer :=
  let blockCount : ℤ := gridX * gridY
  .int (by' * gridX + bx) fun blockIndex =>
  .int (blockIndex * 2) fun start =>
  .both (.access .deviceBlockTimes (blockCount * 2) start) <|
  .both (.access .deviceBlockSmids blockCount blockIndex) <|
  .int (bx * blockX + tx) fun col =>
  .int (by' * blockY + ty) fun row =>
  .both
    (if col < width ∧ row < width then
      .both
        (.each (List.range width) fun k =>
          .both (.element .dA width width row k) (.element .dB width width k col))
        (.element .dC width width row col)
    else .done) <|
  .int (start + 1) fun finish => .access .deviceBlockTimes (blockCount * 2) finish

/-- `AllocateMemory`, and a launch of the kernel. -/
def multiply (width : ℕ) (blockSize : ℕ × ℕ) : Run PluginBuffer :=
  let blocksWide := blocksAlong width blockSize.1
  let blocksTall := blocksAlong width blockSize.2
  .int (blocksWide * blocksTall) fun blockCount =>
  .int (blockCount * 2) fun _ =>
  .int (width * width) fun _ =>
  .both
    (.each (List.range width) fun i => .each (List.range width) fun j =>
      .both (.element .hA width width i j) (.element .hB width width i j)) <|
  .grid blocksWide blocksTall blockSize.1 blockSize.2
    (matrixMultiplyKernel width blocksWide blocksTall blockSize.1 blockSize.2)

/-- The benchmark.  The conversion of the width to `int` is undefined where it is none. -/
def PluginState.run (state : PluginState) : Run PluginBuffer :=
  match state.valuedouble.truncate with
  | some width => .int width fun width => multiply width.toNat state.blockSize
  | none => none

/-! ## What is needed -/

/-- The width is an `int`, and so are the sizes. -/
def MatrixFits (state : PluginState) : Prop :=
  ∃ width : ℕ, state.valuedouble.truncate = some ↑width ∧ width < 2 ^ 31 ∧
    width * width < 2 ^ 31 ∧
      blocksAlong width state.blockSize.1 * blocksAlong width state.blockSize.2 * 2 < 2 ^ 31

/-! ## Safety -/

section Safety

variable {width blockSize : ℕ}

/-- The blocks cover the side, and no more than a block too far. -/
theorem blocksAlong_bounds (hpos : 0 < blockSize) :
    width ≤ blocksAlong width blockSize * blockSize ∧
      blocksAlong width blockSize * blockSize < width + blockSize := by
  have hdiv := Nat.div_add_mod' width blockSize
  have hmod := Nat.mod_lt width hpos
  rw [blocksAlong]
  split_ifs with hrest
  · rw [Nat.add_mul, Nat.one_mul]
    omega
  · rw [not_not] at hrest
    omega

/-- The rows and columns of all blocks are `int`s where the index in the matrix is one. -/
theorem blocksAlong_mul_le (hpos : 0 < blockSize) (hblock : blockSize < 2 ^ 31)
    (hsquare : width * width < 2 ^ 31) : blocksAlong width blockSize * blockSize ≤ 2 ^ 31 := by
  have hwidth : width < 46341 := by
    by_contra! hle
    have hmul := Nat.mul_le_mul hle hle
    omega
  have hbound : blocksAlong width blockSize * blockSize < width + blockSize :=
    (blocksAlong_bounds hpos).2
  by_cases hle : blockSize ≤ width
  · omega
  · have hone : blocksAlong width blockSize ≤ 1 := by
      rw [blocksAlong, Nat.div_eq_of_lt (not_le.mp hle)]
      split_ifs <;> omega
    have hmul := Nat.mul_le_mul_right blockSize hone
    omega

variable {gridX gridY blockX blockY bx by' tx ty : ℕ}

theorem safe_matrixMultiplyKernel (hsquare : width * width < 2 ^ 31)
    (htotal : gridX * gridY * 2 < 2 ^ 31) (hcols : gridX * blockX ≤ 2 ^ 31)
    (hrows : gridY * blockY ≤ 2 ^ 31) (hbx : bx < gridX) (hby : by' < gridY) (htx : tx < blockX)
    (hty : ty < blockY) :
    Safe (matrixMultiplyKernel width gridX gridY blockX blockY bx by' tx ty) := by
  have hindex := block_index_lt hbx hby
  have hcol : bx * blockX + tx < 2 ^ 31 := by
    have hnext := Nat.mul_le_mul_right blockX hbx
    rw [Nat.succ_mul] at hnext
    omega
  have hrow : by' * blockY + ty < 2 ^ 31 := by
    have hnext := Nat.mul_le_mul_right blockY hby
    rw [Nat.succ_mul] at hnext
    omega
  have hindex' : (by' : ℤ) * gridX + bx = (by' * gridX + bx : ℕ) := by push_cast; rfl
  have hcol' : (bx : ℤ) * blockX + tx = (bx * blockX + tx : ℕ) := by push_cast; rfl
  have hrow' : (by' : ℤ) * blockY + ty = (by' * blockY + ty : ℕ) := by push_cast; rfl
  have hcount : (gridX : ℤ) * gridY = (gridX * gridY : ℕ) := by push_cast; rfl
  rw [matrixMultiplyKernel, hindex', hcol', hrow', hcount]
  generalize by' * gridX + bx = index at hindex ⊢
  generalize gridX * gridY = count at hindex htotal ⊢
  have hstart : IsInt ((index : ℤ) * 2) ∧ IsInt ((index : ℤ) * 2 + 1) := by
    rw [IsInt, IsInt]
    omega
  simp only [safe_int, safe_both, safe_access, safe_ite, safe_each, isInt_natCast, Nat.cast_lt,
    List.mem_range]
  refine ⟨by omega, hstart.1, by omega, by omega, hcol, hrow, ?_, hstart.2, by omega⟩
  rintro ⟨hin, hin'⟩
  refine ⟨fun k hk => ?_, ?_⟩
  · rw [safe_element_natCast hin' hk, safe_element_natCast hk hin]
    exact ⟨element_lt hsquare.le hin' hk, element_lt hsquare.le hk hin⟩
  · rw [safe_element_natCast hin' hin]
    exact element_lt hsquare.le hin' hin

theorem safe_multiply_iff {blockSize : ℕ × ℕ} (hpos : 0 < blockSize.1 ∧ 0 < blockSize.2)
    (hlt : blockSize.1 < 2 ^ 31 ∧ blockSize.2 < 2 ^ 31) :
    Safe (multiply width blockSize) ↔ width * width < 2 ^ 31 ∧
      blocksAlong width blockSize.1 * blocksAlong width blockSize.2 * 2 < 2 ^ 31 := by
  have hsquare : (width : ℤ) * width = (width * width : ℕ) := by push_cast; rfl
  have hcount : (blocksAlong width blockSize.1 : ℤ) * blocksAlong width blockSize.2 =
      (blocksAlong width blockSize.1 * blocksAlong width blockSize.2 : ℕ) := by push_cast; rfl
  rw [multiply, hcount, safe_int, safe_int, safe_int, safe_both, safe_grid, hsquare,
    isInt_natCast, isInt_natCast]
  constructor
  · rintro ⟨-, htotal, hwidth, -⟩
    rw [IsInt] at htotal
    exact ⟨hwidth, by omega⟩
  · rintro ⟨hwidth, htotal⟩
    have hcols := blocksAlong_mul_le hpos.1 hlt.1 hwidth
    have hrows := blocksAlong_mul_le hpos.2 hlt.2 hwidth
    refine ⟨by omega, ?_, hwidth, ?_, fun bx hbx by' hby tx htx ty hty => ?_⟩
    · rw [IsInt]
      omega
    · simp only [safe_each, safe_both, List.mem_range]
      intro i hi j hj
      rw [safe_element_natCast hi hj, safe_element_natCast hi hj]
      exact ⟨element_lt hwidth.le hi hj, element_lt hwidth.le hi hj⟩
    · exact safe_matrixMultiplyKernel hwidth htotal hcols hrows hbx hby htx hty

theorem atLeastOne_of_parseAdditionalInfo {root : CJson} {valuedouble : Double} {skipCopy : Bool}
    (h : parseAdditionalInfo root = some (valuedouble, skipCopy)) :
    atLeastOne valuedouble = true := by
  rw [parseAdditionalInfo] at h
  split at h
  · next value _ =>
      split_ifs at h with hone
      split at h
      · cases h
        exact hone
      · cases h
        exact hone
      · cases h
  · cases h

theorem PluginState.one_le_of_truncate (state : PluginState) {w : ℤ}
    (hw : state.valuedouble.truncate = some w) : 1 ≤ w := by
  have hone := atLeastOne_of_parseAdditionalInfo state.accepted
  cases hvalue : state.valuedouble with
  | infinite negative =>
      rw [hvalue] at hw
      cases hw
  | finite value =>
      rw [hvalue, atLeastOne, decide_eq_true_iff] at hone
      rw [hvalue, Double.truncate, if_pos (zero_le_one.trans hone), Option.some_inj] at hw
      rw [← hw, Int.le_floor]
      exact_mod_cast hone

theorem PluginState.safe_run_iff (state : PluginState) :
    Safe state.run ↔ MatrixFits state := by
  obtain ⟨hx, hy⟩ := state.blockDim_pos
  obtain ⟨hltx, hlty⟩ := state.blockDim_lt
  have hpos : 0 < state.blockSize.1 ∧ 0 < state.blockSize.2 := by
    rw [blockSize]
    refine ⟨?_, hy⟩
    dsimp only
    split_ifs <;> omega
  have hlt : state.blockSize.1 < 2 ^ 31 ∧ state.blockSize.2 < 2 ^ 31 := by
    rw [blockSize]
    refine ⟨?_, hlty⟩
    dsimp only
    split_ifs <;> omega
  rw [PluginState.run, MatrixFits]
  cases hw : state.valuedouble.truncate with
  | none =>
      refine iff_of_false (fun ⟨l, hl, _⟩ => (nomatch hl)) ?_
      rintro ⟨width, hwidth, -⟩
      cases hwidth
  | some w =>
      have hone := state.one_le_of_truncate hw
      obtain ⟨width, rfl⟩ := Int.eq_ofNat_of_zero_le (by omega : 0 ≤ w)
      dsimp only
      rw [safe_int, isInt_natCast, Int.toNat_natCast, safe_multiply_iff hpos hlt]
      constructor
      · intro h
        exact ⟨width, rfl, h⟩
      · rintro ⟨width', heq, h⟩
        obtain rfl := Int.ofNat.inj (Option.some_inj.mp heq)
        exact h

end Safety

end A100Partitioning.Benchmarks
