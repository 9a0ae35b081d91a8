import A100Partitioning.Benchmarks.MatrixMultiply
import A100Partitioning.Demos.SlicedGemm

/-!
# The sizes of the multiplications

The dual-TPC demo computes the sizes of its matrices in `int`, where the dynamic-mask demo has
`size_t`; `matrix_multiply` does so, too.  Here is which sizes all three of them can work with.
-/

namespace A100Partitioning.Demos

open Support (IsInt isInt_natCast Run)
open Support.Run

/-! ## The code -/

/-- What the command line of the dual-TPC demo sets, when it has been checked. -/
structure DualConfig where
  m : ℕ
  n : ℕ
  k : ℕ
  iters : ℕ
  warmup : ℕ
  repeat' : ℕ
  pos : 0 < m ∧ 0 < n ∧ 0 < k ∧ 0 < iters ∧ 0 < repeat'
  ints : ∀ x ∈ [m, n, k, iters, warmup, repeat'], x < 2 ^ 31

/-- The buffers of one of the two workloads. -/
inductive DualBuffer where
  | a
  | b
  | c
  | smidPerBlock
  deriving DecidableEq, Repr

section Code

variable (cfg : DualConfig)

/-- One thread of `init_vec`, which sets an element of a vector of `n` elements. -/
def initVec (buffer : DualBuffer) (n bx tx : ℕ) : Run DualBuffer :=
  .int (bx * 256 + tx) fun i => if i < n then .access buffer n i else .done

/-- The launch of `init_vec`, with 256 threads in a block. -/
def launchInitVec (buffer : DualBuffer) (size : ℕ) : Run DualBuffer :=
  .int (size + 256) fun _ => .int (size + 256 - 1) fun _ =>
  .grid ((size + 255) / 256) 1 256 1 fun bx _ tx _ => initVec buffer size bx tx

/-- One thread of `gemm_probe_kernel`. -/
def gemmProbeKernel (bx by' tx ty : ℕ) : Run DualBuffer :=
  .int (by' * 16 + ty) fun row =>
  .int (bx * 16 + tx) fun col =>
  .both
    (if tx = 0 ∧ ty = 0 then
      .access .smidPerBlock (blocks cfg.n * blocks cfg.m) (by' * blocks cfg.n + bx)
    else .done) <|
  if row < cfg.m ∧ col < cfg.n then
    .both
      (.each (List.range cfg.repeat') fun _ => .each (List.range cfg.k) fun kk =>
        .both (.element .a cfg.m cfg.k row kk) (.element .b cfg.k cfg.n kk col))
      (.element .c cfg.m cfg.n row col)
  else .done

/-- One workload: its setup, and the launches of the kernel. -/
def workload : Run DualBuffer :=
  .both (launchInitVec .a (cfg.m * cfg.k)) <|
  .both (launchInitVec .b (cfg.k * cfg.n)) <|
  .each (List.range (cfg.warmup + cfg.iters)) fun _ =>
    .grid (blocks cfg.n) (blocks cfg.m) 16 16 (gemmProbeKernel cfg)

/-- The demo, with the sizes of the matrices and the number of blocks. -/
def dualDemo : Run DualBuffer :=
  .int (cfg.m * cfg.k) fun _ => .int (cfg.k * cfg.n) fun _ => .int (cfg.m * cfg.n) fun _ =>
  .int (blocks cfg.n * blocks cfg.m) fun _ =>
  .both (workload cfg) (workload cfg)

end Code

/-! ## What is needed -/

/-- The sizes are `int`s, those that `init_vec` gets also when they are rounded up. -/
structure DualFits (cfg : DualConfig) : Prop where
  a : cfg.m * cfg.k + 256 < 2 ^ 31
  b : cfg.k * cfg.n + 256 < 2 ^ 31
  c : cfg.m * cfg.n < 2 ^ 31

/-! ## Safety -/

section Safety

variable {cfg : DualConfig} {buffer : DualBuffer} {size : ℕ}

theorem safe_launchInitVec_iff :
    Safe (launchInitVec buffer size) ↔ size + 256 < 2 ^ 31 := by
  have hup : (size : ℤ) + 256 = (size + 256 : ℕ) := by push_cast; rfl
  rw [launchInitVec, hup, safe_int, safe_int, isInt_natCast]
  refine and_iff_left_of_imp fun hlt => ⟨?_, ?_⟩
  · rw [IsInt]
    omega
  · rw [safe_grid]
    intro bx hbx _ _ tx htx _ _
    have hi : (bx : ℤ) * 256 + tx = (bx * 256 + tx : ℕ) := by push_cast; rfl
    rw [initVec, hi, safe_int, isInt_natCast, safe_ite, safe_access, Nat.cast_lt]
    exact ⟨by omega, fun hin => ⟨Nat.cast_nonneg _, hin⟩⟩

/-- The blocks of rows and columns are few when the matrix is small enough. -/
theorem DualFits.blocks_lt (h : DualFits cfg) :
    16 * blocks cfg.n ≤ 2 ^ 31 ∧ 16 * blocks cfg.m ≤ 2 ^ 31 ∧
      blocks cfg.n * blocks cfg.m < 2 ^ 31 := by
  obtain ⟨hm, hn, hk, -, -⟩ := cfg.pos
  have ha := h.a
  have hb := h.b
  have hcols := Nat.le_mul_of_pos_left cfg.n hk
  have hrows := Nat.le_mul_of_pos_right cfg.m hk
  have hgridX : blocks cfg.n ≤ cfg.n := by
    rw [blocks]
    omega
  have hgridY : blocks cfg.m ≤ cfg.m := by
    rw [blocks]
    omega
  have hcount := (Nat.mul_le_mul hgridX hgridY).trans_lt ((mul_comm _ _).trans_lt h.c)
  refine ⟨?_, ?_, hcount⟩
  · have hup := blocks_le cfg.n
    omega
  · have hup := blocks_le cfg.m
    omega

theorem safe_gemmProbeKernel (h : DualFits cfg) {bx by' tx ty : ℕ} (hbx : bx < blocks cfg.n)
    (hby : by' < blocks cfg.m) (htx : tx < 16) (hty : ty < 16) :
    Safe (gemmProbeKernel cfg bx by' tx ty) := by
  obtain ⟨hcols, hrows, -⟩ := h.blocks_lt
  have hindex := block_index_lt hbx hby
  have ha := h.a
  have hb := h.b
  have hrow : (by' : ℤ) * 16 + ty = (by' * 16 + ty : ℕ) := by push_cast; rfl
  have hcol : (bx : ℤ) * 16 + tx = (bx * 16 + tx : ℕ) := by push_cast; rfl
  have hstamp : (by' : ℤ) * blocks cfg.n + bx = (by' * blocks cfg.n + bx : ℕ) := by push_cast; rfl
  rw [gemmProbeKernel, hrow, hcol, hstamp, ← Nat.cast_mul]
  simp only [safe_int, safe_both, safe_access, safe_ite, safe_each, isInt_natCast, Nat.cast_lt,
    List.mem_range]
  refine ⟨by omega, by omega, fun _ => ⟨Nat.cast_nonneg _, hindex⟩, ?_⟩
  rintro ⟨hin, hin'⟩
  refine ⟨fun _ _ kk hkk => ?_, ?_⟩
  · rw [safe_element_natCast hin hkk, safe_element_natCast hkk hin']
    exact ⟨element_lt (by omega) hin hkk, element_lt (by omega) hkk hin'⟩
  · rw [safe_element_natCast hin hin']
    exact element_lt h.c.le hin hin'

theorem safe_dualDemo_iff : Safe (dualDemo cfg) ↔ DualFits cfg := by
  rw [dualDemo, workload, safe_int, safe_int, safe_int, safe_int, safe_both, safe_both, safe_both,
    safe_launchInitVec_iff, safe_launchInitVec_iff, ← Nat.cast_mul, ← Nat.cast_mul,
    ← Nat.cast_mul, ← Nat.cast_mul, isInt_natCast, isInt_natCast, isInt_natCast, isInt_natCast]
  constructor
  · rintro ⟨-, -, hc, -, ⟨ha, hb, -⟩, -⟩
    exact ⟨ha, hb, hc⟩
  · intro h
    have ha := h.a
    have hb := h.b
    have hlaunches : Safe (.each (List.range (cfg.warmup + cfg.iters)) fun _ =>
        .grid (blocks cfg.n) (blocks cfg.m) 16 16 (gemmProbeKernel cfg)) := by
      rw [safe_each]
      intro _ _
      rw [safe_grid]
      intro bx hbx by' hby tx htx ty hty
      exact safe_gemmProbeKernel h hbx hby htx hty
    exact ⟨by omega, by omega, h.c, h.blocks_lt.2.2, ⟨ha, hb, hlaunches⟩, ha, hb, hlaunches⟩

end Safety

/-- In each program, all numbers are `int`s and all accesses are in their buffers exactly when its
sizes are in range. -/
theorem sizes_safe_iff (e : Experiment) (dual : DualConfig)
    (state : Benchmarks.PluginState) :
    (LaunchesSafe e ↔ LaunchesFit e.cfg) ∧ (Safe (dualDemo dual) ↔ DualFits dual) ∧
      (Safe state.run ↔ Benchmarks.MatrixFits state) :=
  ⟨launchesSafe_iff, safe_dualDemo_iff, state.safe_run_iff⟩

/-- Accepted sizes, the product of which is no `int`. -/
def wideConfig : DualConfig where
  m := 65536
  n := 65536
  k := 1
  iters := 1
  warmup := 0
  repeat' := 1
  pos := by decide
  ints := by decide

/-- The dual-TPC demo overflows on a matrix of 65536 rows and columns. -/
theorem exists_not_safe_dualDemo : ∃ dual : DualConfig, ¬ Safe (dualDemo dual) := by
  refine ⟨wideConfig, fun h => ?_⟩
  have hfits := (safe_dualDemo_iff.mp h).c
  exact absurd hfits (by decide)

end A100Partitioning.Demos
