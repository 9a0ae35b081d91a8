import A100Partitioning.Demos.SliceKernel
import A100Partitioning.Demos.SmPlacement

/-!
# The sliced multiplication

The dynamic-mask demo launches one slice of rows after the other, each with the next mask.
Some slices may be in flight; when there are too many of them, the oldest one is finished and
recorded first.
-/

namespace A100Partitioning.Demos

open Support (IsInt isInt_natCast Access Run)
open Support.Run

/-! ## The code -/

/-- What a measured run starts from: the configuration, the device, the schedule of SM ranges
that has been parsed, and the SMs that the blocks of each slice will run on. -/
structure Experiment where
  cfg : Config
  device : Topology
  schedule : List SmRange
  schedule_ne : schedule ≠ []
  smids : ℕ → List ℤ

/-- A slice in flight. -/
structure InflightSlice where
  deployIdx : ℕ
  scheduleIdx : ℕ
  expectedLo : ℤ
  expectedHi : ℤ
  row0 : ℕ
  mSlice : ℕ
  blocksTotal : ℕ
  sampled : Bool
  deriving DecidableEq, Repr

/-- The record of a slice. -/
structure IterRow where
  iter : ℕ
  maskId : ℕ
  expectedSmLo : ℤ
  expectedSmHi : ℤ
  sampled : Bool
  blocksTotal : ℕ
  insideBlocks : ℕ
  outsideBlocks : ℕ
  invalidBlocks : ℕ
  deriving DecidableEq, Repr

namespace Experiment

variable (e : Experiment)

/-- The row that `finish_inflight_slice` records. -/
def finishInflightSlice (w : InflightSlice) : IterRow :=
  let row : IterRow :=
    ⟨w.deployIdx, w.scheduleIdx, w.expectedLo, w.expectedHi, w.sampled, 0, 0, 0, 0⟩
  if w.sampled then
    let t := tally e.device w.expectedLo w.expectedHi (e.smids w.deployIdx)
    { row with
      blocksTotal := w.blocksTotal
      insideBlocks := t.inside
      outsideBlocks := t.outside
      invalidBlocks := t.invalid }
  else row

/-- The place of a slice's range in the schedule. -/
def scheduleIdx (deployIdx : ℕ) : ℕ := deployIdx / e.cfg.holdIters % e.schedule.length

/-- The range for a slice. -/
def req (deployIdx : ℕ) : SmRange :=
  e.schedule.get ⟨e.scheduleIdx deployIdx, Nat.mod_lt _ (List.length_pos_iff.mpr e.schedule_ne)⟩

/-- The slice that is launched from a row on. -/
def slice (deployIdx row0 : ℕ) : InflightSlice where
  deployIdx := deployIdx
  scheduleIdx := e.scheduleIdx deployIdx
  expectedLo := (e.req deployIdx).lo
  expectedHi := (e.req deployIdx).hi
  row0 := row0
  mSlice := min e.cfg.sliceRows (e.cfg.m - row0)
  blocksTotal := blocks e.cfg.n * blocks (min e.cfg.sliceRows (e.cfg.m - row0))
  sampled := deployIdx % e.cfg.sampleEvery = 0

end Experiment

/-- The variables of the measured loop, and the slices that have been launched. -/
structure Loop where
  row0 : ℕ := 0
  deployIdx : ℕ := 0
  inflight : List InflightSlice := []
  rows : List IterRow := []
  launched : List InflightSlice := []

/-- The oldest slice is finished. -/
def Loop.finish (e : Experiment) (s : Loop) : Loop :=
  match s.inflight with
  | [] => s
  | w :: inflight => { s with inflight, rows := s.rows ++ [e.finishInflightSlice w] }

/-- The next slice is launched. -/
def Loop.launch (e : Experiment) (s : Loop) : Loop :=
  let w := e.slice s.deployIdx s.row0
  { s with
    inflight := s.inflight ++ [w]
    launched := s.launched ++ [w]
    row0 := s.row0 + w.mSlice
    deployIdx := s.deployIdx + 1 }

/-- What the loops do next, until all slices are finished. -/
def Loop.next (e : Experiment) (s : Loop) : Option Loop :=
  if s.row0 < e.cfg.m ∧ s.deployIdx < e.cfg.maxSlices then
    if e.cfg.maxInflight ≤ s.inflight.length then some (s.finish e) else some (s.launch e)
  else if s.inflight ≠ [] then some (s.finish e)
  else none

/-- The states of the measured loop, when all launches succeed. -/
inductive Reachable (e : Experiment) : Loop → Prop where
  | start : Reachable e {}
  | step {s s' : Loop} (before : Reachable e s) (next : s.next e = some s') : Reachable e s'

/-- The most blocks that a grid may have in its second dimension; in the first one, it may
have as many as an `int` counts. -/
def maxGridY : ℕ := 65535

/-- The launch of a slice succeeds. -/
def Launches (mSlice : ℕ) : Prop := blocks mSlice ≤ maxGridY

instance (mSlice : ℕ) : Decidable (Launches mSlice) := inferInstanceAs (Decidable (_ ≤ _))

/-- The program: its measured loop, and whether `cuda_check` has ended it. -/
structure Program where
  loop : Loop := {}
  exited : Bool := false

/-- Warmup and priming launch slices of the size of the first one. -/
def Program.start (e : Experiment) : Program :=
  { exited := decide (¬ Launches (min e.cfg.sliceRows e.cfg.m)) }

/-- What the program does next: a launch that is due and fails ends it. -/
def Program.next (e : Experiment) (p : Program) : Option Program :=
  if p.exited then none
  else if p.loop.row0 < e.cfg.m ∧ p.loop.deployIdx < e.cfg.maxSlices ∧
      p.loop.inflight.length < e.cfg.maxInflight ∧
      ¬ Launches (e.slice p.loop.deployIdx p.loop.row0).mSlice then
    some { p with exited := true }
  else (p.loop.next e).map fun s => { p with loop := s }

/-- The states of a run of the program. -/
inductive Program.Reachable (e : Experiment) : Program → Prop where
  | start : Program.Reachable e (.start e)
  | step {p p' : Program} (before : Program.Reachable e p) (next : p.next e = some p') :
      Program.Reachable e p'

/-- A launch with its number of blocks. -/
def launchCounted (cfg : Config) (smid : Bool) (row0 mSlice : ℕ) : Run Buffer :=
  .int (blocks cfg.n * blocks mSlice) fun _ => launchSlice cfg smid row0 mSlice

/-- The geometry, and the slices for warmup and priming. -/
def prepareLaunches (cfg : Config) : Run Buffer :=
  .int (cfg.n + 15) fun _ => .int (cfg.sliceRows + 15) fun _ =>
  .int (blocks cfg.n * blocks cfg.sliceRows) fun _ =>
  .both (.each (List.range cfg.warmup) fun _ =>
    launchSlice cfg false 0 (min cfg.sliceRows cfg.m)) <|
  launchCounted cfg true 0 (min cfg.sliceRows cfg.m)

/-- How many rows may be recorded. -/
def reserveRows (cfg : Config) : Run Buffer :=
  .int (cfg.m + cfg.sliceRows) fun _ => .int (cfg.m + cfg.sliceRows - 1) fun _ => .done

/-! ## What is meant -/

/-- The slice writes an element. -/
def Writes (cfg : Config) (w : InflightSlice) (row col : ℕ) : Prop :=
  ⟨.c, cfg.m * cfg.n, row * cfg.n + col⟩ ∈
    accesses (launchSlice cfg w.sampled w.row0 w.mSlice)

/-- All launches of a run are safe, when they all take place. -/
structure LaunchesSafe (e : Experiment) : Prop where
  prepared : Safe (prepareLaunches e.cfg)
  measured : ∀ s, Reachable e s → ∀ w ∈ s.launched,
    Safe (launchCounted e.cfg w.sampled w.row0 w.mSlice)

/-- The run is defined and ends; there are never too many slices in flight; in the end, each
slice has been recorded once, and each element has been written by one slice. -/
structure MeasuresAll (e : Experiment) : Prop where
  launches : LaunchesSafe e
  reserved : Safe (reserveRows e.cfg)
  ends : ∃ p, Program.Reachable e p ∧ p.next e = none
  inflight : ∀ p, Program.Reachable e p → p.loop.inflight.length ≤ e.cfg.maxInflight
  recorded : ∀ p, Program.Reachable e p → p.next e = none →
    p.loop.rows.map IterRow.iter = p.loop.launched.map InflightSlice.deployIdx ∧
      (p.loop.launched.map InflightSlice.deployIdx).Nodup
  written : ∀ p, Program.Reachable e p → p.next e = none → ∀ row < e.cfg.m, ∀ col < e.cfg.n,
    ∃! w, w ∈ p.loop.launched ∧ Writes e.cfg w row col

/-- The numbers of the launches are in range. -/
structure LaunchesFit (cfg : Config) : Prop where
  cols : cfg.n + 15 < 2 ^ 31
  sliceRows : cfg.sliceRows + 15 < 2 ^ 31
  blocksTotal : blocks cfg.n * blocks cfg.sliceRows < 2 ^ 31
  slices : ∀ i < cfg.maxSlices, i * cfg.sliceRows < cfg.m →
    SliceFits cfg (i * cfg.sliceRows) (min cfg.sliceRows (cfg.m - i * cfg.sliceRows))

/-- The numbers are in range when all rows are covered, where the last slice has the highest
ones. -/
structure GemmFits (cfg : Config) : Prop where
  cols : cfg.n + 15 < 2 ^ 31
  sliceRows : cfg.sliceRows + 15 < 2 ^ 31
  blocksTotal : blocks cfg.n * blocks cfg.sliceRows < 2 ^ 31
  reserved : cfg.m + cfg.sliceRows < 2 ^ 31
  tiles : cfg.k + 15 < 2 ^ 31
  lastRows : (cfg.m - 1) / cfg.sliceRows * cfg.sliceRows +
    16 * blocks (cfg.m - (cfg.m - 1) / cfg.sliceRows * cfg.sliceRows) ≤ 2 ^ 31
  a : cfg.m * cfg.k ≤ 2 ^ 31
  b : cfg.k * cfg.n ≤ 2 ^ 31
  c : cfg.m * cfg.n ≤ 2 ^ 31

/-! ## Steps -/

section Steps

variable {e : Experiment} {s s' : Loop}

/-- A step finishes the oldest slice, or launches the next one when there is room. -/
theorem Loop.next_cases (h : s.next e = some s') :
    (∃ w inflight, s.inflight = w :: inflight ∧
        s' = { s with inflight, rows := s.rows ++ [e.finishInflightSlice w] }) ∨
      s.row0 < e.cfg.m ∧ s.deployIdx < e.cfg.maxSlices ∧
        s.inflight.length < e.cfg.maxInflight ∧ s' = s.launch e := by
  have hfinish (hne : s.inflight ≠ []) : ∃ w inflight, s.inflight = w :: inflight ∧
      s.finish e = { s with inflight, rows := s.rows ++ [e.finishInflightSlice w] } := by
    obtain ⟨w, inflight, heq⟩ := List.exists_cons_of_ne_nil hne
    refine ⟨w, inflight, heq, ?_⟩
    rw [Loop.finish, heq]
  obtain ⟨-, -, -, -, hpos, -⟩ := e.cfg.pos
  rw [Loop.next] at h
  split_ifs at h with hmore hfull hne
  · obtain rfl := Option.some_inj.mp h
    exact .inl (hfinish (List.length_pos_iff.mp (hpos.trans_le hfull)))
  · obtain rfl := Option.some_inj.mp h
    exact .inr ⟨hmore.1, hmore.2, not_le.mp hfull, rfl⟩
  · obtain rfl := Option.some_inj.mp h
    exact .inl (hfinish hne)

/-- What holds of every state: the slices have been launched in order without gaps, and those
that are not in flight are recorded. -/
structure Inv (e : Experiment) (s : Loop) : Prop where
  row0 : s.row0 = min e.cfg.m (s.deployIdx * e.cfg.sliceRows)
  capped : s.deployIdx ≤ e.cfg.maxSlices
  started : ∀ i < s.deployIdx, i * e.cfg.sliceRows < e.cfg.m
  launched : s.launched =
    (List.range s.deployIdx).map fun i => e.slice i (i * e.cfg.sliceRows)
  queue : ∃ finished, s.launched = finished ++ s.inflight ∧
    s.rows = finished.map e.finishInflightSlice
  inflight : s.inflight.length ≤ e.cfg.maxInflight

theorem Inv.start : Inv e {} := by
  refine ⟨?_, Nat.zero_le _, fun i hi => absurd hi i.not_lt_zero, rfl, ⟨[], rfl, rfl⟩,
    Nat.zero_le _⟩
  dsimp only
  rw [Nat.zero_mul, Nat.min_zero]

theorem Inv.step (h : Inv e s) (hs : s.next e = some s') : Inv e s' := by
  obtain ⟨finished, hqueue, hrows⟩ := h.queue
  obtain ⟨w, inflight, heq, rfl⟩ | ⟨hmore, hcap, hroom, rfl⟩ := Loop.next_cases hs
  · rw [heq] at hqueue
    refine ⟨h.row0, h.capped, h.started, h.launched, ⟨finished ++ [w], ?_, ?_⟩, ?_⟩
    · rw [hqueue, List.append_assoc]
      rfl
    · rw [List.map_append, hrows]
      rfl
    · have hle := h.inflight
      rw [heq, List.length_cons] at hle
      exact Nat.le_of_succ_le hle
  · have hrow0 : s.row0 = s.deployIdx * e.cfg.sliceRows := by
      have hmin := h.row0
      omega
    refine ⟨?_, hcap, fun i hi => ?_, ?_, ⟨finished, ?_, hrows⟩, ?_⟩
    · have hnext : (s.deployIdx + 1) * e.cfg.sliceRows =
          s.deployIdx * e.cfg.sliceRows + e.cfg.sliceRows := Nat.succ_mul _ _
      rw [Loop.launch, Experiment.slice]
      dsimp only
      omega
    · rcases Nat.lt_succ_iff_lt_or_eq.mp hi with hi | rfl
      · exact h.started i hi
      · rwa [← hrow0]
    · rw [Loop.launch]
      dsimp only
      rw [List.range_succ, List.map_append, h.launched, hrow0]
      rfl
    · rw [Loop.launch]
      dsimp only
      rw [hqueue, List.append_assoc]
    · rw [Loop.launch]
      dsimp only
      rw [List.length_append]
      exact hroom

theorem Reachable.inv (h : Reachable e s) : Inv e s := by
  induction h with
  | start => exact .start
  | step _ hs ih => exact ih.step hs

/-- How much is left to do. -/
def Loop.left (e : Experiment) (s : Loop) : ℕ :=
  2 * (e.cfg.maxSlices - s.deployIdx) + s.inflight.length

theorem Loop.left_lt (h : s.next e = some s') : s'.left e < s.left e := by
  obtain ⟨w, inflight, heq, rfl⟩ | ⟨-, hmore, -, rfl⟩ := Loop.next_cases h
  · rw [Loop.left, Loop.left, heq, List.length_cons]
    exact Nat.lt_succ_self _
  · rw [Loop.left, Loop.left, Loop.launch]
    dsimp only
    rw [List.length_append, List.length_singleton]
    omega

theorem Reachable.exists_end (h : Reachable e s) :
    ∃ s', Reachable e s' ∧ s'.next e = none := by
  induction hleft : s.left e using Nat.strong_induction_on generalizing s with
  | _ left ih =>
      cases hs : s.next e with
      | none => exact ⟨s, h, hs⟩
      | some s' => exact ih _ (hleft ▸ Loop.left_lt hs) (h.step hs) rfl

/-- In the end, nothing is in flight, and all slices have been launched that there are rows
for, up to the cap. -/
theorem Reachable.of_end (h : Reachable e s) (hs : s.next e = none) :
    s.inflight = [] ∧
      ∀ i, i < s.deployIdx ↔ i < e.cfg.maxSlices ∧ i * e.cfg.sliceRows < e.cfg.m := by
  have hrow0 := h.inv.row0
  have hcapped := h.inv.capped
  rw [Loop.next] at hs
  split_ifs at hs with hmore hfull hne
  refine ⟨not_not.mp hne, fun i => ⟨fun hi => ⟨hi.trans_le hcapped, h.inv.started i hi⟩, ?_⟩⟩
  rintro ⟨hcap, hrows⟩
  by_contra! hle
  have hmul := Nat.mul_le_mul_right e.cfg.sliceRows hle
  exact hmore ⟨by omega, by omega⟩

end Steps

/-! ## Slices -/

section Slices

variable {e : Experiment} {s : Loop} {w : InflightSlice}

theorem Reachable.mem_launched_iff (h : Reachable e s) :
    w ∈ s.launched ↔ ∃ i < s.deployIdx, w = e.slice i (i * e.cfg.sliceRows) := by
  rw [h.inv.launched, List.mem_map]
  constructor
  · rintro ⟨i, hi, rfl⟩
    exact ⟨i, List.mem_range.mp hi, rfl⟩
  · rintro ⟨i, hi, rfl⟩
    exact ⟨i, List.mem_range.mpr hi, rfl⟩

theorem Reachable.rows_of_mem (h : Reachable e s) (hw : w ∈ s.launched) :
    0 < w.mSlice ∧ w.row0 + w.mSlice ≤ e.cfg.m ∧ w.mSlice ≤ e.cfg.sliceRows := by
  obtain ⟨i, hi, rfl⟩ := h.mem_launched_iff.mp hw
  obtain ⟨-, -, -, hrows, -⟩ := e.cfg.pos
  have hstarted := h.inv.started i hi
  rw [Experiment.slice]
  dsimp only
  omega

theorem GemmFits.slice {cfg : Config} (h : GemmFits cfg) {i : ℕ}
    (hstarted : i * cfg.sliceRows < cfg.m) :
    SliceFits cfg (i * cfg.sliceRows) (min cfg.sliceRows (cfg.m - i * cfg.sliceRows)) := by
  obtain ⟨-, -, -, hrows, -⟩ := cfg.pos
  have hrowsInt := h.sliceRows
  have hle : i ≤ (cfg.m - 1) / cfg.sliceRows :=
    (Nat.le_div_iff_mul_le hrows).mpr (Nat.le_sub_one_of_lt hstarted)
  have hlast := h.lastRows
  have hlt := Nat.lt_div_mul_add hrows (a := cfg.m - 1)
  have hdiv := Nat.div_mul_le_self (cfg.m - 1) cfg.sliceRows
  refine ⟨by omega, h.tiles, ?_, (Nat.mul_le_mul_right _ (min_le_left _ _)).trans h.a, h.b,
    (Nat.mul_le_mul_right _ (by omega)).trans h.c⟩
  rcases hle.eq_or_lt with rfl | hbefore
  · rwa [min_eq_right (by omega)]
  · -- the slices before the last one end where it starts
    have hnext : (i + 1) * cfg.sliceRows ≤ (cfg.m - 1) / cfg.sliceRows * cfg.sliceRows :=
      Nat.mul_le_mul_right _ hbefore
    rw [Nat.succ_mul] at hnext
    have hup := blocks_le (min cfg.sliceRows (cfg.m - i * cfg.sliceRows))
    have hsome := blocks_pos (x := cfg.m - (cfg.m - 1) / cfg.sliceRows * cfg.sliceRows)
      (by omega)
    omega

theorem safe_launchCounted_iff {cfg : Config} {smid : Bool} {row0 mSlice : ℕ}
    (hn : cfg.n + 15 < 2 ^ 31) (hpos : 0 < mSlice) (hle : row0 + mSlice ≤ cfg.m) :
    Safe (launchCounted cfg smid row0 mSlice) ↔
      blocks cfg.n * blocks mSlice < 2 ^ 31 ∧ SliceFits cfg row0 mSlice := by
  rw [launchCounted, safe_int, safe_launchSlice_iff smid hn hpos hle, ← Nat.cast_mul,
    isInt_natCast]

theorem safe_prepareLaunches_iff {cfg : Config} :
    Safe (prepareLaunches cfg) ↔ cfg.n + 15 < 2 ^ 31 ∧ cfg.sliceRows + 15 < 2 ^ 31 ∧
      blocks cfg.n * blocks cfg.sliceRows < 2 ^ 31 ∧
        (0 < cfg.warmup → Safe (launchSlice cfg false 0 (min cfg.sliceRows cfg.m))) ∧
          Safe (launchCounted cfg true 0 (min cfg.sliceRows cfg.m)) := by
  have hn : (cfg.n : ℤ) + 15 = (cfg.n + 15 : ℕ) := by omega
  have hs : (cfg.sliceRows : ℤ) + 15 = (cfg.sliceRows + 15 : ℕ) := by omega
  have hwarmup {r : Run Buffer} :
      (∀ i ∈ List.range cfg.warmup, Safe r) ↔ (0 < cfg.warmup → Safe r) := by
    constructor
    · intro h hpos
      exact h 0 (List.mem_range.mpr hpos)
    · intro h i hi
      exact h (i.zero_le.trans_lt (List.mem_range.mp hi))
  rw [prepareLaunches, safe_int, safe_int, safe_int, safe_both, safe_each, hwarmup, hn, hs,
    ← Nat.cast_mul, isInt_natCast, isInt_natCast, isInt_natCast]

theorem safe_reserveRows_iff {cfg : Config} :
    Safe (reserveRows cfg) ↔ cfg.m + cfg.sliceRows < 2 ^ 31 := by
  have hm : (cfg.m : ℤ) + cfg.sliceRows = (cfg.m + cfg.sliceRows : ℕ) := by omega
  rw [reserveRows, hm, safe_int, safe_int, isInt_natCast]
  refine and_iff_left_of_imp fun hlt => ⟨?_, safe_done⟩
  rw [IsInt]
  omega

/-- The launches are safe exactly when their numbers are in range. -/
theorem launchesSafe_iff : LaunchesSafe e ↔ LaunchesFit e.cfg := by
  obtain ⟨hcap, -, -, hrows, -, hmpos, -, -⟩ := e.cfg.pos
  constructor
  · rintro ⟨hprepared, hmeasured⟩
    obtain ⟨hn, hsliceRows, htotal, -, -⟩ := safe_prepareLaunches_iff.mp hprepared
    refine ⟨hn, hsliceRows, htotal, fun i hi hstarted => ?_⟩
    obtain ⟨s, hreach, hs⟩ := (Reachable.start (e := e)).exists_end
    have hw := hreach.mem_launched_iff.mpr ⟨i, ((hreach.of_end hs).2 i).mpr ⟨hi, hstarted⟩, rfl⟩
    obtain ⟨hpos, hle, -⟩ := hreach.rows_of_mem hw
    exact ((safe_launchCounted_iff hn hpos hle).mp (hmeasured s hreach _ hw)).2
  · intro h
    have hcounted (smid : Bool) {i : ℕ} (hi : i < e.cfg.maxSlices)
        (hstarted : i * e.cfg.sliceRows < e.cfg.m) :
        Safe (launchCounted e.cfg smid (i * e.cfg.sliceRows)
          (min e.cfg.sliceRows (e.cfg.m - i * e.cfg.sliceRows))) := by
      refine (safe_launchCounted_iff h.cols (by omega) (by omega)).mpr
        ⟨lt_of_le_of_lt (Nat.mul_le_mul_left _ ?_) h.blocksTotal, h.slices i hi hstarted⟩
      rw [blocks, blocks]
      omega
    have hfirst := h.slices 0 hcap (by omega)
    have hprime := hcounted true hcap (by omega)
    rw [Nat.zero_mul, Nat.sub_zero] at hfirst hprime
    refine ⟨safe_prepareLaunches_iff.mpr ⟨h.cols, h.sliceRows, h.blocksTotal, fun _ => ?_,
      hprime⟩, fun s hreach w hw => ?_⟩
    · exact (safe_launchSlice_iff false h.cols (by omega) (by omega)).mpr hfirst
    · obtain ⟨i, hi, rfl⟩ := hreach.mem_launched_iff.mp hw
      exact hcounted _ (hi.trans_le hreach.inv.capped) (hreach.inv.started i hi)

/-- When the cap is high enough, the last slice ends with the matrix. -/
theorem launchesFit_iff {cfg : Config}
    (hcap : (cfg.m + cfg.sliceRows - 1) / cfg.sliceRows ≤ cfg.maxSlices) :
    LaunchesFit cfg ∧ cfg.m + cfg.sliceRows < 2 ^ 31 ↔ GemmFits cfg := by
  obtain ⟨-, -, -, hrows, -, hmpos, -, -⟩ := cfg.pos
  constructor
  · rintro ⟨h, hreserved⟩
    have hdiv := Nat.div_mul_le_self (cfg.m - 1) cfg.sliceRows
    have hlt := Nat.lt_div_mul_add hrows (a := cfg.m - 1)
    have hceil : (cfg.m + cfg.sliceRows - 1) / cfg.sliceRows =
        (cfg.m - 1) / cfg.sliceRows + 1 := by
      rw [← Nat.add_div_right _ hrows]
      congr 1
      omega
    have hfits := h.slices ((cfg.m - 1) / cfg.sliceRows) (by omega) (by omega)
    rw [min_eq_right (by omega)] at hfits
    have hreach := le_blocks (cfg.m - (cfg.m - 1) / cfg.sliceRows * cfg.sliceRows)
    have ha := hfits.a
    have hc := hfits.c
    rw [min_eq_left (by omega)] at ha
    rw [Nat.add_sub_cancel' (by omega)] at hc
    exact ⟨h.cols, h.sliceRows, h.blocksTotal, hreserved, hfits.tiles, hfits.rows, ha, hfits.b,
      hc⟩
  · intro h
    exact ⟨⟨h.cols, h.sliceRows, h.blocksTotal, fun i _ hstarted => h.slice hstarted⟩,
      h.reserved⟩

end Slices

/-! ## The measured slices -/

section Measured

variable {e : Experiment} {s : Loop}

/-- In the end, the slices are recorded in the order of their launches. -/
theorem Reachable.recorded (h : Reachable e s) (hinflight : s.inflight = []) :
    s.rows.map IterRow.iter = s.launched.map InflightSlice.deployIdx ∧
      (s.launched.map InflightSlice.deployIdx).Nodup := by
  obtain ⟨finished, hqueue, hrows⟩ := h.inv.queue
  rw [hinflight, List.append_nil] at hqueue
  constructor
  · rw [hrows, hqueue, List.map_map]
    refine List.map_congr_left fun w _ => ?_
    rw [Function.comp_apply, Experiment.finishInflightSlice]
    dsimp only
    split_ifs <;> rfl
  · have hidx : s.launched.map InflightSlice.deployIdx = List.range s.deployIdx := by
      rw [h.inv.launched, List.map_map]
      exact List.map_id _
    rw [hidx]
    exact List.nodup_range

theorem row_eq_of_index_eq {width row col row' col' : ℕ} (hcol : col < width)
    (hcol' : col' < width) (h : row * width + col = row' * width + col') : row = row' := by
  have hpos := col.zero_le.trans_lt hcol
  have hdiv := congrArg (· / width) h
  rwa [Nat.add_comm, Nat.add_mul_div_right _ _ hpos, Nat.div_eq_of_lt hcol, Nat.zero_add,
    Nat.add_comm, Nat.add_mul_div_right _ _ hpos, Nat.div_eq_of_lt hcol', Nat.zero_add] at hdiv

theorem writes_slice_iff (h : GemmFits e.cfg) {i row col : ℕ}
    (hstarted : i * e.cfg.sliceRows < e.cfg.m) (hrow : row < e.cfg.m) (hcol : col < e.cfg.n) :
    Writes e.cfg (e.slice i (i * e.cfg.sliceRows)) row col ↔ row / e.cfg.sliceRows = i := by
  obtain ⟨-, -, -, hrows, -⟩ := e.cfg.pos
  have hslice := h.slice hstarted
  rw [Writes, Experiment.slice]
  dsimp only
  rw [writes_launchSlice h.cols (by omega) (by omega) hslice rfl]
  have hnext : (i + 1) * e.cfg.sliceRows = i * e.cfg.sliceRows + e.cfg.sliceRows :=
    Nat.succ_mul _ _
  have hdiv : row / e.cfg.sliceRows = i ↔
      i * e.cfg.sliceRows ≤ row ∧ row < (i + 1) * e.cfg.sliceRows := by
    rw [Nat.div_eq_iff hrows]
    omega
  rw [hdiv]
  constructor
  · rintro ⟨row', col', hlo, hhi, hcol', heq⟩
    have heq : (row : ℤ) * e.cfg.n + col = row' * e.cfg.n + col' := congrArg Access.index heq
    have hindex : row * e.cfg.n + col = row' * e.cfg.n + col' := by exact_mod_cast heq
    obtain rfl := row_eq_of_index_eq hcol hcol' hindex
    omega
  · rintro ⟨hlo, hhi⟩
    exact ⟨row, col, hlo, by omega, hcol, rfl⟩

theorem Reachable.existsUnique_writes (h : Reachable e s) (hfits : GemmFits e.cfg)
    (hs : s.next e = none)
    (hcap : (e.cfg.m + e.cfg.sliceRows - 1) / e.cfg.sliceRows ≤ e.cfg.maxSlices) {row col : ℕ}
    (hrow : row < e.cfg.m) (hcol : col < e.cfg.n) :
    ∃! w, w ∈ s.launched ∧ Writes e.cfg w row col := by
  obtain ⟨-, -, -, hrows, -⟩ := e.cfg.pos
  have hdiv := Nat.div_mul_le_self row e.cfg.sliceRows
  have hindex : row / e.cfg.sliceRows < s.deployIdx := by
    refine ((h.of_end hs).2 _).mpr ⟨lt_of_lt_of_le ?_ hcap, by omega⟩
    rw [Nat.div_lt_iff_lt_mul hrows]
    have hceil := Nat.lt_div_mul_add hrows (a := e.cfg.m + e.cfg.sliceRows - 1)
    omega
  refine ⟨_, ⟨h.mem_launched_iff.mpr ⟨_, hindex, rfl⟩, ?_⟩, ?_⟩
  · exact (writes_slice_iff hfits (h.inv.started _ hindex) hrow hcol).mpr rfl
  · rintro w ⟨hw, hwrites⟩
    obtain ⟨i, hi, rfl⟩ := h.mem_launched_iff.mp hw
    rw [(writes_slice_iff hfits (h.inv.started i hi) hrow hcol).mp hwrites]

end Measured

/-! ## Failing launches -/

section Failing

variable {e : Experiment} {p p' : Program} {s : Loop}

/-- When the first launch succeeds, then so do all others, and the program is its loop. -/
theorem Program.next_of_launches (hfirst : Launches (min e.cfg.sliceRows e.cfg.m))
    (hp : p.exited = false) : p.next e = (p.loop.next e).map fun s => { p with loop := s } := by
  rw [Program.next, if_neg (ne_true_of_eq_false hp), if_neg]
  rintro ⟨-, -, -, hfails⟩
  apply hfails
  rw [Experiment.slice, Launches, blocks]
  rw [Launches, blocks] at hfirst
  dsimp only
  omega

theorem Program.Reachable.of_launches (hfirst : Launches (min e.cfg.sliceRows e.cfg.m))
    (h : Program.Reachable e p) : p.exited = false ∧ Demos.Reachable e p.loop := by
  induction h with
  | start => exact ⟨decide_eq_false (not_not_intro hfirst), .start⟩
  | step _ hnext ih =>
      rw [Program.next_of_launches hfirst ih.1, Option.map_eq_some_iff] at hnext
      obtain ⟨s, hs, rfl⟩ := hnext
      exact ⟨ih.1, ih.2.step hs⟩

theorem Reachable.program (hfirst : Launches (min e.cfg.sliceRows e.cfg.m))
    (h : Reachable e s) : Program.Reachable e ⟨s, false⟩ := by
  induction h with
  | start =>
      have hstart : Program.start e = ⟨{}, false⟩ := by
        rw [Program.start, decide_eq_false (not_not_intro hfirst)]
      exact hstart ▸ .start
  | step _ hs ih =>
      refine ih.step ?_
      rw [Program.next_of_launches hfirst rfl, hs]
      rfl

theorem MeasuresAll.launches_first (h : MeasuresAll e) :
    Launches (min e.cfg.sliceRows e.cfg.m) := by
  by_contra hfails
  obtain ⟨-, -, -, -, -, hm, hn, -⟩ := e.cfg.pos
  have hexited : (Program.start e).exited = true := decide_eq_true hfails
  obtain ⟨w, ⟨hw, -⟩, -⟩ := h.written (.start e) .start (if_pos hexited) 0 hm 0 hn
  exact List.not_mem_nil hw

end Failing

/-- With a cap that is high enough for all rows, a run measures all of the multiplication exactly
when the numbers are in range, and the first slice has no more block rows than a grid may. -/
theorem measuresAll_iff (e : Experiment)
    (hcap : (e.cfg.m + e.cfg.sliceRows - 1) / e.cfg.sliceRows ≤ e.cfg.maxSlices) :
    MeasuresAll e ↔ GemmFits e.cfg ∧ blocks (min e.cfg.sliceRows e.cfg.m) ≤ 65535 := by
  have hdefined : LaunchesSafe e ∧ Safe (reserveRows e.cfg) ↔ GemmFits e.cfg := by
    rw [launchesSafe_iff, safe_reserveRows_iff, launchesFit_iff hcap]
  constructor
  · intro h
    exact ⟨hdefined.mp ⟨h.launches, h.reserved⟩, h.launches_first⟩
  · rintro ⟨h, hfirst⟩
    obtain ⟨hlaunches, hreserved⟩ := hdefined.mpr h
    have hend {p : Program} (hp : Program.Reachable e p) (hnext : p.next e = none) :
        Reachable e p.loop ∧ p.loop.next e = none := by
      obtain ⟨hgoes, hloop⟩ := hp.of_launches hfirst
      rw [Program.next_of_launches hfirst hgoes, Option.map_eq_none_iff] at hnext
      exact ⟨hloop, hnext⟩
    refine ⟨hlaunches, hreserved, ?_, fun p hp => (hp.of_launches hfirst).2.inv.inflight, ?_, ?_⟩
    · obtain ⟨s, hs, hnone⟩ := (Reachable.start (e := e)).exists_end
      refine ⟨_, hs.program hfirst, ?_⟩
      rw [Program.next_of_launches hfirst rfl, hnone]
      rfl
    · intro p hp hnext
      obtain ⟨hloop, hnone⟩ := hend hp hnext
      exact hloop.recorded (hloop.of_end hnone).1
    · intro p hp hnext row hrow col hcol
      obtain ⟨hloop, hnone⟩ := hend hp hnext
      exact hloop.existsUnique_writes h hnone hcap hrow hcol

/-- An experiment on one range of SMs, with the defaults but for the sizes. -/
def squareExperiment (size : ℕ) (hpos : 0 < size) (hlt : size < 2 ^ 31) : Experiment where
  cfg :=
    { maxSlices := 1000000, warmup := 5, holdIters := 1, sampleEvery := 1, sliceRows := 256
      maxInflight := 4096, m := size, n := size, k := size
      pos := by omega
      ints := by
        intro x hx
        simp only [List.mem_cons, List.not_mem_nil, or_false] at hx
        omega }
  device := twoSmsPerTpc
  schedule := [⟨0, 1, buildDisableMask twoSmsPerTpc 0 1⟩]
  schedule_ne := List.cons_ne_nil _ _
  smids := fun _ => []

/-- Matrices of 2048 rows and columns, in eight slices. -/
theorem measuresAll_iff_defaults :
    MeasuresAll (squareExperiment 2048 (by decide) (by decide)) := by
  refine (measuresAll_iff (squareExperiment 2048 (by decide) (by decide)) (by decide)).mpr
    ⟨?_, by decide⟩
  constructor <;> decide

/-- The indices of a matrix of 65536 rows and columns are no `int`s. -/
theorem not_measuresAll :
    ∃ e : Experiment,
      (e.cfg.m + e.cfg.sliceRows - 1) / e.cfg.sliceRows ≤ e.cfg.maxSlices ∧ ¬ MeasuresAll e := by
  refine ⟨squareExperiment 65536 (by decide) (by decide), by decide, fun h => ?_⟩
  have hfits := (launchesSafe_iff.mp h.launches).slices 255 (by decide) (by decide)
  exact absurd hfits.c (by decide)

end A100Partitioning.Demos
