import A100Partitioning.Support.CheckedRuns
import Mathlib.Tactic.Positivity

/-!
# The kernel of a slice

The dynamic-mask demo multiplies matrices by slices of rows.  A slice is one launch, whose
threads compute the indices of the elements they read and write.
-/

namespace A100Partitioning.Demos

open Support (IsInt isInt_natCast Access Run)
open Support.Run

/-! ## The code -/

/-- What the command line sets, when it has been checked. -/
structure Config where
  maxSlices : ℕ
  warmup : ℕ
  holdIters : ℕ
  sampleEvery : ℕ
  sliceRows : ℕ
  maxInflight : ℕ
  m : ℕ
  n : ℕ
  k : ℕ
  pos : 0 < maxSlices ∧ 0 < holdIters ∧ 0 < sampleEvery ∧ 0 < sliceRows ∧ 0 < maxInflight ∧
    0 < m ∧ 0 < n ∧ 0 < k
  ints : ∀ x ∈ [maxSlices, warmup, holdIters, sampleEvery, sliceRows, maxInflight, m, n, k],
    x < 2 ^ 31

/-- The buffers on the device. -/
inductive Buffer where
  | a
  | b
  | c
  | blockSmid
  deriving DecidableEq, Repr

/-- The blocks of 16 that some rows or columns take. -/
def blocks (x : ℕ) : ℕ := (x + 15) / 16

section Code

variable (cfg : Config)

/-- One thread of `tiled_matmul_slice_with_smid`.  The unsigned sums of block and thread indices
become `int`s, which counts as an overflow where they are none. -/
def sliceThread (smid : Bool) (row0 mSlice bx by' tx ty : ℕ) : Run Buffer :=
  .int (row0 + by' * 16 + ty) fun row =>
  .int (bx * 16 + tx) fun col =>
  .both
    (if smid ∧ tx = 0 ∧ ty = 0 then
      .access .blockSmid (blocks cfg.n * blocks mSlice) (by' * blocks cfg.n + bx)
    else .done) <|
  .int (cfg.k + 15) fun _ =>
  .both
    (.each (List.range (blocks cfg.k)) fun tile =>
      .int (tile * 16 + tx) fun aCol =>
      .int (tile * 16 + ty) fun bRow =>
      .both (if row < cfg.m ∧ aCol < cfg.k then .element .a cfg.m cfg.k row aCol else .done)
        (if bRow < cfg.k ∧ col < cfg.n then .element .b cfg.k cfg.n bRow col else .done)) <|
  .int (row - row0) fun offset =>
  if offset < mSlice ∧ row < cfg.m ∧ col < cfg.n then .element .c cfg.m cfg.n row col else .done

/-- The launch of a slice. -/
def launchSlice (smid : Bool) (row0 mSlice : ℕ) : Run Buffer :=
  .int (mSlice + 15) fun _ =>
  .grid (blocks cfg.n) (blocks mSlice) 16 16 (sliceThread cfg smid row0 mSlice)

end Code

/-! ## What is needed -/

/-- The numbers of a slice are in range: the rows of its last blocks, and the indices in the
three matrices. -/
structure SliceFits (cfg : Config) (row0 mSlice : ℕ) : Prop where
  blocks : mSlice + 15 < 2 ^ 31
  tiles : cfg.k + 15 < 2 ^ 31
  rows : row0 + 16 * Demos.blocks mSlice ≤ 2 ^ 31
  a : min cfg.m (row0 + 16 * Demos.blocks mSlice) * cfg.k ≤ 2 ^ 31
  b : cfg.k * cfg.n ≤ 2 ^ 31
  c : (row0 + mSlice) * cfg.n ≤ 2 ^ 31

/-! ## Blocks -/

section Blocks

variable {x i : ℕ}

theorem blocks_pos (hx : 0 < x) : 0 < blocks x := by
  rw [blocks]
  omega

theorem le_blocks (x : ℕ) : x ≤ 16 * blocks x := by
  rw [blocks]
  omega

theorem blocks_le (x : ℕ) : 16 * blocks x ≤ x + 15 := by
  rw [blocks]
  omega

end Blocks

/-! ## Threads -/

section Threads

variable {cfg : Config} {smid : Bool} {row0 mSlice bx by' tx ty row col : ℕ}

theorem safe_sliceThread (hrow : row0 + by' * 16 + ty = row) (hcol : bx * 16 + tx = col)
    (hbx : bx < blocks cfg.n) (hby : by' < blocks mSlice) :
    Safe (sliceThread cfg smid row0 mSlice bx by' tx ty) ↔
      row < 2 ^ 31 ∧ col < 2 ^ 31 ∧ cfg.k + 15 < 2 ^ 31 ∧
        (∀ tile < blocks cfg.k, tile * 16 + tx < 2 ^ 31 ∧ tile * 16 + ty < 2 ^ 31 ∧
          (row < cfg.m ∧ tile * 16 + tx < cfg.k → row * cfg.k + (tile * 16 + tx) < 2 ^ 31) ∧
          (tile * 16 + ty < cfg.k ∧ col < cfg.n →
            (tile * 16 + ty) * cfg.n + col < 2 ^ 31)) ∧
        (row < row0 + mSlice ∧ row < cfg.m ∧ col < cfg.n → row * cfg.n + col < 2 ^ 31) := by
  have hrow' : (row0 : ℤ) + by' * 16 + ty = (row : ℕ) := by omega
  have hcol' : (bx : ℤ) * 16 + tx = (col : ℕ) := by omega
  have hk : (cfg.k : ℤ) + 15 = (cfg.k + 15 : ℕ) := by omega
  have htile (tile t : ℕ) : (tile : ℤ) * 16 + t = (tile * 16 + t : ℕ) := by omega
  have hoffset : (row : ℤ) - row0 = (row - row0 : ℕ) := by omega
  have hsmid : ((0 : ℤ) ≤ by' * blocks cfg.n + bx ∧
      (by' : ℤ) * blocks cfg.n + bx < blocks cfg.n * blocks mSlice) := by
    have hlt := block_index_lt hbx hby
    exact ⟨by positivity, by exact_mod_cast hlt⟩
  have helement {buffer : Buffer} {height width r c : ℕ} :
      (r < height ∧ c < width → Safe (.element buffer height width r c)) ↔
        (r < height ∧ c < width → r * width + c < 2 ^ 31) :=
    imp_congr_right fun h => safe_element_natCast h.1 h.2
  have hin : row - row0 < mSlice ↔ row < row0 + mSlice := by omega
  have hwrite : (row - row0 < mSlice ∧ row < cfg.m ∧ col < cfg.n →
      Safe (.element Buffer.c cfg.m cfg.n row col)) ↔
        (row < row0 + mSlice ∧ row < cfg.m ∧ col < cfg.n → row * cfg.n + col < 2 ^ 31) := by
    rw [hin]
    exact imp_congr_right fun h => safe_element_natCast h.2.1 h.2.2
  simp only [sliceThread, hrow', hcol', hk, htile, hoffset, safe_int, safe_both, safe_ite,
    safe_each, safe_access, List.mem_range, isInt_natCast, hsmid, Nat.cast_lt, helement, hwrite]
  constructor
  · rintro ⟨hrow, hcol, -, hk, htiles, -, hc⟩
    exact ⟨hrow, hcol, hk, htiles, hc⟩
  · rintro ⟨hrow, hcol, hk, htiles, hc⟩
    exact ⟨hrow, hcol, fun _ => ⟨trivial, trivial⟩, hk, htiles, by omega, hc⟩

theorem safe_launchSlice : Safe (launchSlice cfg smid row0 mSlice) ↔
    mSlice + 15 < 2 ^ 31 ∧ ∀ bx < blocks cfg.n, ∀ by' < blocks mSlice, ∀ tx < 16, ∀ ty < 16,
      Safe (sliceThread cfg smid row0 mSlice bx by' tx ty) := by
  have hm : (mSlice : ℤ) + 15 = (mSlice + 15 : ℕ) := by omega
  rw [launchSlice, safe_int, safe_grid, hm, isInt_natCast]

/-- The launch is safe exactly when the numbers of the slice are in range. -/
theorem safe_launchSlice_iff (smid : Bool) (hn : cfg.n + 15 < 2 ^ 31) (hpos : 0 < mSlice)
    (hle : row0 + mSlice ≤ cfg.m) :
    Safe (launchSlice cfg smid row0 mSlice) ↔ SliceFits cfg row0 mSlice := by
  obtain ⟨-, -, -, -, -, hmpos, hnpos, hkpos⟩ := cfg.pos
  have hreach := le_blocks mSlice
  have hwide := le_blocks cfg.n
  have hcols := blocks_le cfg.n
  have hblocks := blocks_pos hnpos
  have hrows := blocks_pos hpos
  rw [safe_launchSlice]
  constructor
  · rintro ⟨hup, hthreads⟩
    -- what is known of the thread for a row and a column
    have hthread (row col : ℕ) (hlo : row0 ≤ row) (hrow : row < row0 + 16 * blocks mSlice)
        (hcol : col < 16 * blocks cfg.n) := by
      have hsafe := hthreads (col / 16) (by omega) ((row - row0) / 16) (by omega) (col % 16)
        (by omega) ((row - row0) % 16) (by omega)
      rw [@safe_sliceThread _ _ _ _ _ _ _ _ row col (by omega) (by omega) (by omega)
        (by omega)] at hsafe
      exact hsafe
    have htile : (cfg.k - 1) / 16 < blocks cfg.k := by
      rw [blocks]
      omega
    refine ⟨hup, ?_, ?_, ?_, ?_, ?_⟩
    · obtain ⟨-, -, hk, -⟩ := hthread row0 0 le_rfl (by omega) (by omega)
      exact hk
    · obtain ⟨hrow, -⟩ := hthread (row0 + 16 * blocks mSlice - 1) 0 (by omega) (by omega)
        (by omega)
      omega
    · refine mul_le_of_last_lt (by omega) ?_
      obtain ⟨-, -, -, htiles, -⟩ := hthread (min cfg.m (row0 + 16 * blocks mSlice) - 1)
        ((cfg.k - 1) % 16) (by omega) (by omega) (by omega)
      have hlast := (htiles _ htile).2.2.1
      rw [Nat.mod_mod, Nat.div_add_mod'] at hlast
      exact hlast ⟨by omega, by omega⟩
    · refine mul_le_of_last_lt hkpos ?_
      obtain ⟨-, -, -, htiles, -⟩ := hthread (row0 + (cfg.k - 1) % 16) (cfg.n - 1) (by omega)
        (by omega) (by omega)
      have hlast := (htiles _ htile).2.2.2
      rw [Nat.add_sub_cancel_left, Nat.mod_mod, Nat.div_add_mod'] at hlast
      exact hlast ⟨by omega, by omega⟩
    · refine mul_le_of_last_lt (by omega) ?_
      obtain ⟨-, -, -, -, hwrite⟩ := hthread (row0 + mSlice - 1) (cfg.n - 1) (by omega)
        (by omega) (by omega)
      exact hwrite ⟨by omega, by omega, by omega⟩
  · intro h
    refine ⟨h.blocks, fun bx hbx by' hby tx htx ty hty => ?_⟩
    rw [safe_sliceThread rfl rfl hbx hby]
    refine ⟨?_, by omega, h.tiles, fun tile htile => ⟨?_, ?_, fun hin => ?_, fun hin => ?_⟩,
      fun hin => ?_⟩
    · have hlast := h.rows
      omega
    · have htiles := h.tiles
      rw [blocks] at htile
      omega
    · have htiles := h.tiles
      rw [blocks] at htile
      omega
    · exact element_lt h.a (lt_min hin.1 (by omega)) hin.2
    · exact element_lt h.b hin.1 hin.2
    · exact element_lt h.c hin.1 hin.2.2

theorem only_element {p : Access Buffer → Prop} {buffer : Buffer} {height width r c : ℤ}
    (h : ∀ index, p ⟨buffer, height * width, index⟩) :
    Only p (.element buffer height width r c) :=
  only_int (only_int (only_access (h _)))

theorem writes_sliceThread (hrow : row0 + by' * 16 + ty = row) (hcol : bx * 16 + tx = col)
    (hsafe : Safe (sliceThread cfg smid row0 mSlice bx by' tx ty)) {a : Access Buffer}
    (ha : a.buffer = .c) :
    a ∈ accesses (sliceThread cfg smid row0 mSlice bx by' tx ty) ↔
      (row < row0 + mSlice ∧ row < cfg.m ∧ col < cfg.n) ∧
        a = ⟨.c, cfg.m * cfg.n, row * cfg.n + col⟩ := by
  have hrow' : (row0 : ℤ) + by' * 16 + ty = (row : ℕ) := by omega
  have hcol' : (bx : ℤ) * 16 + tx = (col : ℕ) := by omega
  have hin : ((row : ℤ) - row0 < mSlice ∧ (row : ℤ) < cfg.m ∧ (col : ℤ) < cfg.n) ↔
      (row < row0 + mSlice ∧ row < cfg.m ∧ col < cfg.n) := by omega
  rw [sliceThread, hrow', hcol'] at hsafe ⊢
  obtain ⟨hint, hsafe⟩ := safe_int.mp hsafe
  rw [accesses_int hint]
  obtain ⟨hint, hsafe⟩ := safe_int.mp hsafe
  rw [accesses_int hint, mem_accesses_both hsafe]
  obtain ⟨-, hsafe⟩ := safe_both.mp hsafe
  obtain ⟨hint, hsafe⟩ := safe_int.mp hsafe
  rw [accesses_int hint, mem_accesses_both hsafe]
  obtain ⟨-, hsafe⟩ := safe_both.mp hsafe
  obtain ⟨hint, hsafe⟩ := safe_int.mp hsafe
  rw [accesses_int hint, or_iff_right, or_iff_right]
  · refine accesses_ite.trans (Iff.trans ?_ (and_congr_left fun _ => hin))
    exact and_congr_right fun hwrite => mem_accesses_element (safe_ite.mp hsafe hwrite)
  · intro hload
    refine only_each (p := fun a => a.buffer ≠ Buffer.c) (fun tile => ?_) a hload ha
    refine only_int (only_int (only_both (only_ite ?_) (only_ite ?_)))
    · exact only_element fun _ => Buffer.noConfusion
    · exact only_element fun _ => Buffer.noConfusion
  · intro hstamp
    refine only_ite (p := fun a => a.buffer ≠ Buffer.c) ?_ a hstamp ha
    exact only_access Buffer.noConfusion

/-- The elements that the launch writes are those of its rows. -/
theorem writes_launchSlice (hn : cfg.n + 15 < 2 ^ 31) (hpos : 0 < mSlice)
    (hle : row0 + mSlice ≤ cfg.m) (hfits : SliceFits cfg row0 mSlice) {a : Access Buffer}
    (ha : a.buffer = .c) :
    a ∈ accesses (launchSlice cfg smid row0 mSlice) ↔
      ∃ row col : ℕ, row0 ≤ row ∧ row < row0 + mSlice ∧ col < cfg.n ∧
        a = ⟨.c, cfg.m * cfg.n, row * cfg.n + col⟩ := by
  have hreach := le_blocks mSlice
  have hwide := le_blocks cfg.n
  have hsafe := (safe_launchSlice_iff smid hn hpos hle).mpr hfits
  rw [launchSlice] at hsafe ⊢
  obtain ⟨hint, hsafe⟩ := safe_int.mp hsafe
  rw [accesses_int hint, mem_accesses_grid hsafe]
  have hthread := safe_grid.mp hsafe
  constructor
  · rintro ⟨bx, hbx, by', hby, tx, htx, ty, hty, hmem⟩
    obtain ⟨⟨hrow, -, hcol⟩, rfl⟩ :=
      (writes_sliceThread rfl rfl (hthread bx hbx by' hby tx htx ty hty) ha).mp hmem
    exact ⟨_, _, by omega, hrow, hcol, rfl⟩
  · rintro ⟨row, col, hlo, hrow, hcol, rfl⟩
    refine ⟨col / 16, by omega, (row - row0) / 16, by omega, col % 16, by omega,
      (row - row0) % 16, by omega, ?_⟩
    have hsafe := hthread (col / 16) (by omega) ((row - row0) / 16) (by omega) (col % 16)
      (by omega) ((row - row0) % 16) (by omega)
    exact (writes_sliceThread (by omega) (by omega) hsafe rfl).mpr
      ⟨⟨hrow, by omega, hcol⟩, rfl⟩

end Threads

end A100Partitioning.Demos
