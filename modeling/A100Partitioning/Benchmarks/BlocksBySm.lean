import Mathlib.Algebra.Order.BigOperators.Group.List
import Mathlib.Algebra.Order.Group.Nat
import Mathlib.Data.List.Induction
import Mathlib.Data.Set.Image
import Mathlib.Order.Bounds.Defs
import Mathlib.Tactic.Ring
import Mathlib.Tactic.Linarith

/-!
# Blocks by SM

`view_blocksbysm.py` draws each block of a kernel over the blocks that it shares its SM with.
How far up is found from a list of the parts of its run, which is broken up further for each block
that has been plotted.  A part that lies within the other block is left as it is, however.
-/

namespace A100Partitioning.Benchmarks

/-! ## The code -/

/-- `Y_VAL_SOURCE`. -/
inductive YValSource where
  | threads
  | sharedmem
  deriving DecidableEq, Repr

/-- A block with the interval of its run. -/
structure Block (Time : Type*) [LE Time] where
  (start end' : Time)
  numThreads : ℕ
  sm : ℕ
  sharedMemCount : ℕ
  start_le_end : start ≤ end'
  deriving DecidableEq

structure Kernel (Time : Type*) [LE Time] where
  blocks : List (Block Time)

structure Stream (Time : Type*) [LE Time] where
  kernels : List (Kernel Time)
  maxResidentThreads : ℕ

/-- An entry of `smBase` or `myOverlap`.  Only the first three of the values are ever read. -/
structure Interval (Time : Type*) where
  (start end' : Time)
  count : ℕ
  deriving DecidableEq, Repr

section Code

variable {Time : Type*} [LinearOrder Time]

/-- `max(interval[0], block.start)`. -/
def intervalStart (block : Block Time) (interval : Interval Time) : Time :=
  max interval.start block.start

/-- `min(interval[1], block.end)`. -/
def intervalEnd (block : Block Time) (interval : Interval Time) : Time :=
  min interval.end' block.end'

/-- What is appended to `myOverlap` for one of its intervals, if it is removed. -/
def broken (start end' : Time) (count : ℕ) (myinterval : Interval Time) :
    Option (List (Interval Time)) :=
  if myinterval.start ≤ start ∧ end' ≤ myinterval.end' then
    some [⟨myinterval.start, start, myinterval.count⟩,
      ⟨start, end', myinterval.count + count⟩,
      ⟨end', myinterval.end', myinterval.count⟩]
  else if myinterval.start ≤ start then
    some [⟨myinterval.start, start, myinterval.count⟩,
      ⟨start, myinterval.end', myinterval.count + count⟩]
  else if end' ≤ myinterval.end' then
    some [⟨myinterval.start, end', myinterval.count + count⟩,
      ⟨end', myinterval.end', myinterval.count⟩]
  else none

/-- One of the intervals that overlap. -/
def breakUp (start end' : Time) (count : ℕ) (myOverlap : List (Interval Time))
    (myinterval : Interval Time) : List (Interval Time) :=
  match broken start end' count myinterval with
  | some pieces => myOverlap.erase myinterval ++ pieces
  | none => myOverlap

/-- One of the intervals that are already plotted. -/
def compete (block : Block Time) (myOverlap : List (Interval Time)) (interval : Interval Time) :
    List (Interval Time) :=
  if interval.start < block.end' ∧ block.start < interval.end' then
    let start := intervalStart block interval
    let end' := intervalEnd block interval
    let myoverlappingintervals :=
      myOverlap.filter fun myinterval => myinterval.start < end' ∧ start < myinterval.end'
    myoverlappingintervals.foldl (breakUp start end' interval.count) myOverlap
  else myOverlap

/-- What is appended to `smBase` for a block. -/
def Block.interval (source : YValSource) (block : Block Time) : Interval Time :=
  match source with
  | .threads => ⟨block.start, block.end', block.numThreads⟩
  | .sharedmem => ⟨block.start, block.end', block.sharedMemCount⟩

/-- A block that is drawn. -/
structure BlockSMRect (Time : Type*) [LE Time] where
  block : Block Time
  otherThreads : ℕ
  deriving DecidableEq

/-- The display.  `setup` gets the total time as a floating-point number; it can be any here. -/
structure BlockSMDisplay (Time : Type*) [LE Time] where
  yValSource : YValSource
  totalTime : Time
  streams : List (Stream Time)

variable [Zero Time]

/-- `otherThreads` of a block, after the loops. -/
def otherThreads (totalTime : Time) (plotted : List (Interval Time)) (block : Block Time) : ℕ :=
  let myOverlap := plotted.foldl (compete block) [⟨0, totalTime, 0⟩]
  myOverlap.foldl (fun otherThreads interval => max otherThreads interval.count) 0

/-- The blocks are drawn until there is none left, or an SM is not in the list. -/
def drawBlocks (source : YValSource) (totalTime : Time) :
    List (List (Interval Time)) → List (Block Time) → List (BlockSMRect Time)
  | _, [] => []
  | smBase, block :: blocks =>
      match smBase[block.sm]? with
      | some plotted =>
          ⟨block, otherThreads totalTime plotted block⟩ ::
            drawBlocks source totalTime
              (smBase.modify block.sm fun plotted => plotted ++ [block.interval source]) blocks
      | none => []

/-- `numSms`, which is only needed when there is a stream. -/
def BlockSMDisplay.numSms (display : BlockSMDisplay Time) : ℕ :=
  match display.streams with
  | [] => 0
  | stream :: _ => stream.maxResidentThreads / 2048

/-- The blocks of each kernel of each stream, in order. -/
def BlockSMDisplay.blocks (display : BlockSMDisplay Time) : List (Block Time) :=
  display.streams.flatMap fun stream => stream.kernels.flatMap fun kernel => kernel.blocks

/-- `draw_benchmark`. -/
def BlockSMDisplay.drawBenchmark (display : BlockSMDisplay Time) : List (BlockSMRect Time) :=
  drawBlocks display.yValSource display.totalTime (List.replicate display.numSms []) display.blocks

end Code

/-! ## What is shown -/

section Spec

variable {Time : Type*} [LinearOrder Time]

/-- An interval has its start, but not its end: a block that ends when another one starts is no
competitor. -/
def Interval.Contains (interval : Interval Time) (t : Time) : Prop :=
  interval.start ≤ t ∧ (t < interval.end' ∨ t = interval.start)

instance (interval : Interval Time) (t : Time) : Decidable (interval.Contains t) :=
  inferInstanceAs (Decidable (_ ∧ _))

/-- The instants of the run of a block. -/
def Block.Runs (block : Block Time) (t : Time) : Prop :=
  block.start ≤ t ∧ (t < block.end' ∨ t = block.start)

/-- The summed counts of the blocks that run at an instant. -/
def demand (plotted : List (Interval Time)) (t : Time) : ℕ :=
  (plotted.map fun interval => if interval.Contains t then interval.count else 0).sum

/-- The intervals of those blocks of a list that are on an SM. -/
def plottedOn (source : YValSource) (sm : ℕ) (blocks : List (Block Time)) :
    List (Interval Time) :=
  (blocks.filter fun block => block.sm = sm).map (Block.interval source)

variable [Zero Time]

/-- The offset of the block drawn at a place is the greatest demand during its run. -/
def BlockSMDisplay.OffsetIsPeak (display : BlockSMDisplay Time) (i : ℕ) : Prop :=
  ∀ rect, display.drawBenchmark[i]? = some rect →
    IsGreatest
      (demand (plottedOn display.yValSource rect.block.sm
        ((display.drawBenchmark.take i).map BlockSMRect.block)) '' {t | rect.block.Runs t})
      rect.otherThreads

/-- The competitor starts before the block ends, and the other way round. -/
def Overlaps (block : Block Time) (interval : Interval Time) : Prop :=
  interval.start < block.end' ∧ block.start < interval.end'

/-- What they share is only an instant. -/
def IsPoint (block : Block Time) (interval : Interval Time) : Prop :=
  intervalStart block interval = intervalEnd block interval

/-- Where the parts of the run begin and end when the earlier competitors have been compared. -/
def Cut (totalTime : Time) (block : Block Time) (earlier : List (Interval Time)) (p : Time) :
    Prop :=
  p = 0 ∨ p = totalTime ∨ ∃ other ∈ earlier, Overlaps block other ∧
    (p = intervalStart block other ∨ p = intervalEnd block other)

/-- The competitor is not missed at an instant. -/
structure Shown (totalTime : Time) (block : Block Time) (earlier : List (Interval Time))
    (interval : Interval Time) (t : Time) : Prop where
  overlaps : Overlaps block interval
  inRange : 0 ≤ t ∧ t < totalTime
  notCut : IsPoint block interval → ¬ Cut totalTime block earlier t
  notWithin : ¬ ∃ p q, Cut totalTime block earlier p ∧ Cut totalTime block earlier q ∧
    intervalStart block interval < p ∧ p ≤ t ∧ t < q ∧ q < intervalEnd block interval
  notAfterPoint : ∀ other ∈ earlier, IsPoint block other → other.Contains t → other.count = 0

/-- All competitors of an instant are shown. -/
def AllShown (totalTime : Time) (block : Block Time) (plotted : List (Interval Time))
    (t : Time) : Prop :=
  ∀ earlier interval, earlier ++ [interval] <+: plotted → interval.Contains t →
    0 < interval.count → Shown totalTime block earlier interval t

/-- At one of the instants with the greatest demand all competitors are shown. -/
def PeakIsShown (totalTime : Time) (block : Block Time) (plotted : List (Interval Time)) : Prop :=
  ∃ t, block.Runs t ∧ (∀ t', block.Runs t' → demand plotted t' ≤ demand plotted t) ∧
    AllShown totalTime block plotted t

/-- The blocks that are drawn, which are all when their SMs exist. -/
def BlockSMDisplay.drawn (display : BlockSMDisplay Time) : List (Block Time) :=
  display.blocks.takeWhile fun block => block.sm < display.numSms

end Spec

/-! ## The common part of two runs -/

section Common

variable {Time : Type*} [LinearOrder Time] {block : Block Time} {interval : Interval Time}
  {t : Time}

theorem Overlaps.start_le_end (h : Overlaps block interval)
    (hinterval : interval.start ≤ interval.end') :
    intervalStart block interval ≤ intervalEnd block interval := by
  have hblock := block.start_le_end
  exact le_min (max_le hinterval h.2.le) (max_le h.1.le hblock)

theorem Overlaps.start_mem (h : Overlaps block interval) :
    block.Runs (intervalStart block interval) ∧
      interval.Contains (intervalStart block interval) := by
  obtain ⟨hend, hstart⟩ := h
  rcases le_total interval.start block.start with hle | hle
  · rw [intervalStart, max_eq_right hle]
    exact ⟨⟨le_rfl, .inr rfl⟩, hle, .inl hstart⟩
  · rw [intervalStart, max_eq_left hle]
    exact ⟨⟨hle, .inl hend⟩, le_rfl, .inr rfl⟩

theorem contains_of_mem_common (hstart : intervalStart block interval ≤ t)
    (hend : t < intervalEnd block interval) : interval.Contains t :=
  ⟨(le_max_left _ _).trans hstart, .inl (hend.trans_le (min_le_left _ _))⟩

theorem start_le_of_contains (hrun : block.Runs t) (hcontains : interval.Contains t) :
    intervalStart block interval ≤ t :=
  max_le hcontains.1 hrun.1

/-- An instant of both runs is in the common part, unless that is an instant itself. -/
theorem Overlaps.lt_end (h : Overlaps block interval)
    (hinterval : interval.start ≤ interval.end') (hrun : block.Runs t)
    (hcontains : interval.Contains t) (hpoint : ¬ IsPoint block interval) :
    t < intervalEnd block interval := by
  have hlt : intervalStart block interval < intervalEnd block interval :=
    lt_of_le_of_ne (h.start_le_end hinterval) hpoint
  refine lt_min ?_ ?_
  · rcases hcontains.2 with hend | rfl
    · exact hend
    · exact (le_max_left _ _).trans_lt (hlt.trans_le (min_le_left _ _))
  · rcases hrun.2 with hend | rfl
    · exact hend
    · exact (le_max_right _ _).trans_lt (hlt.trans_le (min_le_right _ _))

theorem eq_start_of_point (hrun : block.Runs t) (hcontains : interval.Contains t)
    (hpoint : IsPoint block interval) : intervalStart block interval = t := by
  refine (start_le_of_contains hrun hcontains).antisymm ?_
  rcases hrun.2 with hend | rfl
  · rcases hcontains.2 with hend' | rfl
    · rw [hpoint]
      exact (lt_min hend' hend).le
    · exact le_max_left _ _
  · exact le_max_right _ _

end Common

/-! ## One competitor -/

section Parts

variable {Time : Type*} [LinearOrder Time] {start end' : Time} {count : ℕ}
  {block : Block Time} {interval myinterval piece : Interval Time}
  {myOverlap : List (Interval Time)}

/-- What is left of an interval, in the order of the list. -/
def pieces (start end' : Time) (count : ℕ) (myinterval : Interval Time) : List (Interval Time) :=
  (broken start end' count myinterval).getD [myinterval]

theorem breakUp_perm (h : myinterval ∈ myOverlap) :
    (breakUp start end' count myOverlap myinterval).Perm
      (myOverlap.erase myinterval ++ pieces start end' count myinterval) := by
  rw [breakUp, pieces]
  cases broken start end' count myinterval with
  | none => exact (List.perm_cons_erase h).trans (List.perm_append_singleton _ _).symm
  | some l => exact .refl _

/-- The list changes all the time, but the intervals that are still to come stay in it. -/
theorem foldl_breakUp_perm (start end' : Time) (count : ℕ) (selected rest : List (Interval Time))
    (h : myOverlap.Perm (selected ++ rest)) :
    (selected.foldl (breakUp start end' count) myOverlap).Perm
      (selected.flatMap (pieces start end' count) ++ rest) := by
  induction selected generalizing myOverlap rest with
  | nil => exact h
  | cons myinterval selected ih =>
      have hmem : myinterval ∈ myOverlap := h.mem_iff.mpr List.mem_cons_self
      have herase : (myOverlap.erase myinterval).Perm (selected ++ rest) := by
        have hcons := h.erase myinterval
        rwa [List.cons_append, List.erase_cons_head] at hcons
      have hstep : (breakUp start end' count myOverlap myinterval).Perm
          (selected ++ (rest ++ pieces start end' count myinterval)) := by
        rw [← List.append_assoc]
        exact (breakUp_perm hmem).trans (herase.append_right _)
      refine (ih _ hstep).trans ?_
      rw [List.flatMap_cons, List.append_assoc, ← List.append_assoc _ rest]
      exact List.perm_append_comm

/-- The competitor makes two intervals of this one, or three. -/
def Meets (block : Block Time) (interval myinterval : Interval Time) : Prop :=
  Overlaps block interval ∧ myinterval.start < intervalEnd block interval ∧
    intervalStart block interval < myinterval.end' ∧
    ¬ (intervalStart block interval < myinterval.start ∧
      myinterval.end' < intervalEnd block interval)

/-- What becomes of an interval. -/
inductive Part (block : Block Time) (interval myinterval : Interval Time) :
    Interval Time → Prop
  | kept (h : ¬ Meets block interval myinterval) : Part block interval myinterval myinterval
  | common (h : Meets block interval myinterval) : Part block interval myinterval
      ⟨max myinterval.start (intervalStart block interval),
        min myinterval.end' (intervalEnd block interval), myinterval.count + interval.count⟩
  | before (h : Meets block interval myinterval)
      (hle : myinterval.start ≤ intervalStart block interval) : Part block interval myinterval
        ⟨myinterval.start, intervalStart block interval, myinterval.count⟩
  | after (h : Meets block interval myinterval)
      (hle : intervalEnd block interval ≤ myinterval.end') : Part block interval myinterval
        ⟨intervalEnd block interval, myinterval.end', myinterval.count⟩

theorem part_iff_of_meets (h : Meets block interval myinterval) :
    Part block interval myinterval piece ↔
      piece = ⟨max myinterval.start (intervalStart block interval),
        min myinterval.end' (intervalEnd block interval), myinterval.count + interval.count⟩ ∨
      (myinterval.start ≤ intervalStart block interval ∧
        piece = ⟨myinterval.start, intervalStart block interval, myinterval.count⟩) ∨
      (intervalEnd block interval ≤ myinterval.end' ∧
        piece = ⟨intervalEnd block interval, myinterval.end', myinterval.count⟩) := by
  constructor
  · rintro (h' | _ | ⟨_, hle⟩ | ⟨_, hle⟩)
    · exact absurd h h'
    · exact .inl rfl
    · exact .inr (.inl ⟨hle, rfl⟩)
    · exact .inr (.inr ⟨hle, rfl⟩)
  · rintro (rfl | ⟨hle, rfl⟩ | ⟨hle, rfl⟩)
    · exact .common h
    · exact .before h hle
    · exact .after h hle

theorem part_iff_of_not_meets (h : ¬ Meets block interval myinterval) :
    Part block interval myinterval piece ↔ piece = myinterval := by
  constructor
  · rintro (_ | h' | ⟨h', _⟩ | ⟨h', _⟩)
    · rfl
    all_goals exact absurd h' h
  · rintro rfl
    exact .kept h

/-- The branches of the loop are the ways in which the intervals can lie. -/
theorem mem_pieces_iff (hoverlaps : Overlaps block interval)
    (hend : myinterval.start < intervalEnd block interval)
    (hstart : intervalStart block interval < myinterval.end') :
    piece ∈ pieces (intervalStart block interval) (intervalEnd block interval) interval.count
      myinterval ↔ Part block interval myinterval piece := by
  rw [pieces, broken]
  split_ifs with hboth hbefore hafter
  · obtain ⟨hle, hle'⟩ := hboth
    rw [part_iff_of_meets ⟨hoverlaps, hend, hstart, fun h => h.1.not_ge hle⟩, max_eq_right hle,
      min_eq_right hle']
    simp only [Option.getD_some, List.mem_cons, List.not_mem_nil, or_false, hle, hle', true_and]
    exact or_left_comm
  · have hlt : ¬ intervalEnd block interval ≤ myinterval.end' := fun h => hboth ⟨hbefore, h⟩
    rw [part_iff_of_meets ⟨hoverlaps, hend, hstart, fun h => h.1.not_ge hbefore⟩,
      max_eq_right hbefore, min_eq_left (not_le.mp hlt).le]
    simp only [Option.getD_some, List.mem_cons, List.not_mem_nil, or_false, hbefore, hlt,
      true_and, false_and]
    exact or_comm
  · rw [part_iff_of_meets ⟨hoverlaps, hend, hstart, fun h => h.2.not_ge hafter⟩,
      max_eq_left (not_le.mp hbefore).le, min_eq_right hafter]
    simp only [Option.getD_some, List.mem_cons, List.not_mem_nil, or_false, hbefore, hafter,
      true_and, false_and, false_or]
  · rw [part_iff_of_not_meets fun h => h.2.2.2 ⟨not_le.mp hbefore, not_le.mp hafter⟩,
      Option.getD_none, List.mem_singleton]

theorem mem_compete :
    piece ∈ compete block myOverlap interval ↔
      ∃ myinterval ∈ myOverlap, Part block interval myinterval piece := by
  rw [compete]
  split_ifs with hoverlaps
  · have hperm := foldl_breakUp_perm (intervalStart block interval)
      (intervalEnd block interval) interval.count _ _
      (List.filter_append_perm (fun myinterval : Interval Time =>
        myinterval.start < intervalEnd block interval ∧
          intervalStart block interval < myinterval.end') myOverlap).symm
    rw [hperm.mem_iff, List.mem_append, List.mem_flatMap]
    constructor
    · rintro (⟨myinterval, hmem, hpiece⟩ | hmem)
      · obtain ⟨hmem, hmeet⟩ := List.mem_filter.mp hmem
        obtain ⟨hend, hstart⟩ := of_decide_eq_true hmeet
        exact ⟨myinterval, hmem, (mem_pieces_iff hoverlaps hend hstart).mp hpiece⟩
      · obtain ⟨hmem, hmeet⟩ := List.mem_filter.mp hmem
        refine ⟨piece, hmem, .kept fun h => ?_⟩
        rw [decide_eq_true ⟨h.2.1, h.2.2.1⟩] at hmeet
        cases hmeet
    · rintro ⟨myinterval, hmem, hpart⟩
      by_cases hmeet : myinterval.start < intervalEnd block interval ∧
          intervalStart block interval < myinterval.end'
      · refine .inl ⟨myinterval, List.mem_filter.mpr ⟨hmem, decide_eq_true hmeet⟩, ?_⟩
        exact (mem_pieces_iff hoverlaps hmeet.1 hmeet.2).mpr hpart
      · rw [part_iff_of_not_meets fun h => hmeet ⟨h.2.1, h.2.2.1⟩] at hpart
        rw [hpart]
        refine .inr (List.mem_filter.mpr ⟨hmem, ?_⟩)
        rw [decide_eq_false hmeet]
        rfl
  · constructor
    · intro hmem
      exact ⟨piece, hmem, .kept fun h => hoverlaps h.1⟩
    · rintro ⟨myinterval, hmem, hpart⟩
      rw [part_iff_of_not_meets fun h => hoverlaps h.1] at hpart
      exact hpart ▸ hmem

theorem Meets.start_lt_end (h : Meets block interval myinterval)
    (hinterval : interval.start ≤ interval.end') : myinterval.start < myinterval.end' := by
  obtain ⟨hoverlaps, hend, hstart, hwithin⟩ := h
  have hle := hoverlaps.start_le_end hinterval
  rcases not_and_or.mp hwithin with hstart' | hend'
  · exact (not_lt.mp hstart').trans_lt hstart
  · exact hend.trans_le (not_lt.mp hend')

theorem Part.subset (h : Part block interval myinterval piece) {t : Time}
    (hstart : piece.start ≤ t) (hend : t < piece.end') :
    myinterval.start ≤ t ∧ t < myinterval.end' := by
  cases h with
  | kept => exact ⟨hstart, hend⟩
  | common => exact ⟨(le_max_left _ _).trans hstart, hend.trans_le (min_le_left _ _)⟩
  | before hmeets => exact ⟨hstart, hend.trans hmeets.2.2.1⟩
  | after hmeets => exact ⟨hmeets.2.1.le.trans hstart, hend⟩

/-- An interval gets the count of the competitor at an instant. -/
def Gains (block : Block Time) (interval myinterval : Interval Time) (t : Time) : Prop :=
  Meets block interval myinterval ∧ intervalStart block interval ≤ t ∧
    t < intervalEnd block interval

theorem Part.count_cases (h : Part block interval myinterval piece) {t : Time}
    (hstart : piece.start ≤ t) (hend : t < piece.end') :
    (Gains block interval myinterval t ∧ piece.count = myinterval.count + interval.count) ∨
      (¬ Gains block interval myinterval t ∧ piece.count = myinterval.count) := by
  cases h with
  | kept hmeets => exact .inr ⟨fun h => hmeets h.1, rfl⟩
  | common hmeets =>
      exact .inl ⟨⟨hmeets, (le_max_right _ _).trans hstart, hend.trans_le (min_le_right _ _)⟩, rfl⟩
  | before hmeets => exact .inr ⟨fun h => h.2.1.not_gt hend, rfl⟩
  | after hmeets => exact .inr ⟨fun h => h.2.2.not_ge hstart, rfl⟩

theorem exists_part_of_mem {t : Time} (hstart : myinterval.start ≤ t) (hend : t < myinterval.end') :
    ∃ piece, Part block interval myinterval piece ∧ piece.start ≤ t ∧ t < piece.end' := by
  by_cases hmeets : Meets block interval myinterval
  · rcases lt_or_ge t (intervalStart block interval) with hlt | hge
    · exact ⟨_, .before hmeets (hstart.trans hlt.le), hstart, hlt⟩
    · rcases lt_or_ge t (intervalEnd block interval) with hlt' | hge'
      · exact ⟨_, .common hmeets, max_le hstart hge, lt_min hend hlt'⟩
      · exact ⟨_, .after hmeets (hge'.trans hend.le), hge', hend⟩
  · exact ⟨_, .kept hmeets, hstart, hend⟩

end Parts

/-! ## The parts of the run -/

theorem foldl_max_le_iff {α : Type*} {f : α → ℕ} {l : List α} {n x : ℕ} :
    l.foldl (fun greatest a => max greatest (f a)) n ≤ x ↔ n ≤ x ∧ ∀ a ∈ l, f a ≤ x := by
  induction l generalizing n with
  | nil => exact (and_iff_left (List.forall_mem_nil _)).symm
  | cons a l ih => rw [List.foldl_cons, ih, max_le_iff, List.forall_mem_cons, and_assoc]

section Invariant

variable {Time : Type*} [LinearOrder Time] {block : Block Time}
  {earlier plotted myOverlap : List (Interval Time)} {interval myinterval piece : Interval Time}
  {t : Time}

theorem demand_append_singleton :
    demand (earlier ++ [interval]) t =
      demand earlier t + if interval.Contains t then interval.count else 0 := by
  rw [demand, List.map_append, List.sum_append, List.map_singleton, List.sum_singleton]
  rfl

/-- The competitors that share only this instant with the block have no count. -/
def NoPoint (block : Block Time) (earlier : List (Interval Time)) (t : Time) : Prop :=
  ∀ other ∈ earlier, IsPoint block other → other.Contains t → other.count = 0

theorem noPoint_append_singleton :
    NoPoint block (earlier ++ [interval]) t ↔
      NoPoint block earlier t ∧
        (IsPoint block interval → interval.Contains t → interval.count = 0) := by
  rw [NoPoint, List.forall_mem_append, List.forall_mem_singleton]
  rfl

variable [Zero Time] {totalTime p : Time}

theorem cut_append_singleton :
    Cut totalTime block (earlier ++ [interval]) p ↔
      Cut totalTime block earlier p ∨
        (Overlaps block interval ∧
          (p = intervalStart block interval ∨ p = intervalEnd block interval)) := by
  simp only [Cut, List.mem_append, List.mem_singleton, or_and_right, exists_or, exists_eq_left,
    or_assoc]

theorem allShown_append_singleton :
    AllShown totalTime block (earlier ++ [interval]) t ↔
      AllShown totalTime block earlier t ∧
        (interval.Contains t → 0 < interval.count →
          Shown totalTime block earlier interval t) := by
  constructor
  · intro h
    refine ⟨fun earlier' other hinit => h _ _ (hinit.trans (List.prefix_append _ _)), ?_⟩
    exact h _ _ List.prefix_rfl
  · rintro ⟨h, hlast⟩ earlier' other hinit
    rcases List.prefix_concat_iff.mp hinit with heq | hinit
    · obtain ⟨rfl, hlast'⟩ := List.append_inj' heq rfl
      obtain rfl := List.singleton_inj.mp hlast'
      exact hlast
    · exact h _ _ hinit

theorem allShown_of_demand_eq_zero (h : demand plotted t = 0) :
    AllShown totalTime block plotted t := by
  rw [demand, List.sum_eq_zero_iff] at h
  intro earlier other hinit hcontains hpos
  have hmem : other ∈ plotted := hinit.subset (List.mem_append_right _ (List.mem_singleton_self _))
  have hzero := h _ (List.mem_map_of_mem hmem)
  rw [if_pos hcontains] at hzero
  omega

/-- The list covers the time, has the counts of what is shown, and ends its parts at the cuts. -/
structure Inv (totalTime : Time) (block : Block Time) (earlier myOverlap : List (Interval Time)) :
    Prop where
  cuts : ∀ myinterval ∈ myOverlap, myinterval.start < myinterval.end' →
    Cut totalTime block earlier myinterval.start ∧ Cut totalTime block earlier myinterval.end' ∧
      0 ≤ myinterval.start ∧ myinterval.end' ≤ totalTime
  uncut : ∀ myinterval ∈ myOverlap, ∀ p, Cut totalTime block earlier p →
    myinterval.start < p → myinterval.end' ≤ p
  covers : ∀ t, 0 ≤ t → t < totalTime →
    ∃ myinterval ∈ myOverlap, myinterval.start ≤ t ∧ t < myinterval.end'
  le_demand : ∀ myinterval ∈ myOverlap, ∀ t, block.Runs t → myinterval.start ≤ t →
    t < myinterval.end' → myinterval.count ≤ demand earlier t
  eq_demand_iff : ∀ myinterval ∈ myOverlap, ∀ t, block.Runs t → myinterval.start ≤ t →
    t < myinterval.end' →
      (myinterval.count = demand earlier t ↔
        AllShown totalTime block earlier t ∧ NoPoint block earlier t)
  bounded : ∀ myinterval ∈ myOverlap, ∃ t, block.Runs t ∧ myinterval.count ≤ demand earlier t ∧
    (myinterval.count = demand earlier t → AllShown totalTime block earlier t)
  reached : ∀ t, block.Runs t → AllShown totalTime block earlier t →
    ∃ myinterval ∈ myOverlap, demand earlier t ≤ myinterval.count

theorem inv_nil : Inv totalTime block [] [⟨0, totalTime, 0⟩] := by
  have hdemand (t : Time) : demand ([] : List (Interval Time)) t = 0 := rfl
  have hshown (t : Time) : AllShown totalTime block [] t :=
    allShown_of_demand_eq_zero (hdemand t)
  constructor
  · rw [List.forall_mem_singleton]
    intro _
    exact ⟨.inl rfl, .inr (.inl rfl), le_rfl, le_rfl⟩
  · rw [List.forall_mem_singleton]
    rintro p (rfl | rfl | ⟨other, hmem, -⟩) hlt
    · exact absurd hlt (lt_irrefl _)
    · exact le_rfl
    · cases hmem
  · intro t hle hlt
    exact ⟨_, List.mem_singleton_self _, hle, hlt⟩
  · rw [List.forall_mem_singleton]
    intro t _ _ _
    exact Nat.zero_le _
  · rw [List.forall_mem_singleton]
    intro t _ _ _
    exact iff_of_true (hdemand t).symm ⟨hshown t, fun other hmem => nomatch hmem⟩
  · rw [List.forall_mem_singleton]
    exact ⟨block.start, ⟨le_rfl, .inr rfl⟩, Nat.zero_le _, fun _ => hshown _⟩
  · intro t _ _
    exact ⟨_, List.mem_singleton_self _, (hdemand t).le⟩

section Step

variable (hinv : Inv totalTime block earlier myOverlap) (hinterval : interval.start ≤ interval.end')

include hinv

theorem Inv.cuts_part (hmem : myinterval ∈ myOverlap)
    (hpart : Part block interval myinterval piece) (hlt : piece.start < piece.end') :
    Cut totalTime block (earlier ++ [interval]) piece.start ∧
      Cut totalTime block (earlier ++ [interval]) piece.end' ∧
        0 ≤ piece.start ∧ piece.end' ≤ totalTime := by
  have hlong : myinterval.start < myinterval.end' := by
    obtain ⟨hle, hlt'⟩ := hpart.subset le_rfl hlt
    exact hle.trans_lt hlt'
  obtain ⟨hcut, hcut', hnonneg, hle⟩ := hinv.cuts _ hmem hlong
  simp only [cut_append_singleton]
  cases hpart with
  | kept => exact ⟨.inl hcut, .inl hcut', hnonneg, hle⟩
  | common hmeets =>
      refine ⟨?_, ?_, hnonneg.trans (le_max_left _ _), (min_le_left _ _).trans hle⟩
      · rcases max_choice myinterval.start (intervalStart block interval) with heq | heq
        · rw [heq]
          exact .inl hcut
        · exact .inr ⟨hmeets.1, .inl heq⟩
      · rcases min_choice myinterval.end' (intervalEnd block interval) with heq | heq
        · rw [heq]
          exact .inl hcut'
        · exact .inr ⟨hmeets.1, .inr heq⟩
  | before hmeets =>
      exact ⟨.inl hcut, .inr ⟨hmeets.1, .inl rfl⟩, hnonneg, hmeets.2.2.1.le.trans hle⟩
  | after hmeets =>
      exact ⟨.inr ⟨hmeets.1, .inr rfl⟩, .inl hcut', hnonneg.trans hmeets.2.1.le, hle⟩

include hinterval

/-- A competitor is counted in a part of the run where it is shown for more than an instant. -/
theorem Inv.gains_iff (hmem : myinterval ∈ myOverlap) (hrun : block.Runs t)
    (hstart : myinterval.start ≤ t) (hend : t < myinterval.end') (hpoint : NoPoint block earlier t)
    (hcontains : interval.Contains t) :
    Gains block interval myinterval t ↔
      Shown totalTime block earlier interval t ∧ ¬ IsPoint block interval := by
  obtain ⟨hcut, hcut', hnonneg, hle⟩ := hinv.cuts _ hmem (hstart.trans_lt hend)
  constructor
  · rintro ⟨⟨hoverlaps, -, -, hwithin⟩, hstart', hend'⟩
    have hlong : ¬ IsPoint block interval := (hstart'.trans_lt hend').ne
    refine ⟨⟨hoverlaps, ⟨hnonneg.trans hstart, hend.trans_le hle⟩, fun h => absurd h hlong, ?_,
      hpoint⟩, hlong⟩
    rintro ⟨p, q, hp, hq, hlt, hpt, htq, hlt'⟩
    have hp' : p ≤ myinterval.start := by
      by_contra! h
      exact (hinv.uncut _ hmem p hp h).not_gt (hpt.trans_lt hend)
    have hq' := hinv.uncut _ hmem q hq (hstart.trans_lt htq)
    exact hwithin ⟨hlt.trans_le hp', hq'.trans_lt hlt'⟩
  · rintro ⟨hshown, hlong⟩
    have hstart' := start_le_of_contains hrun hcontains
    have hend' := hshown.overlaps.lt_end hinterval hrun hcontains hlong
    refine ⟨⟨hshown.overlaps, hstart.trans_lt hend', hstart'.trans_lt hend, ?_⟩, hstart', hend'⟩
    rintro ⟨hlt, hlt'⟩
    exact hshown.notWithin ⟨_, _, hcut, hcut', hlt, hstart, hend, hlt'⟩

theorem Inv.uncut_part (hmem : myinterval ∈ myOverlap)
    (hpart : Part block interval myinterval piece)
    (hp : Cut totalTime block (earlier ++ [interval]) p) (hlt : piece.start < p) :
    piece.end' ≤ p := by
  rw [cut_append_singleton] at hp
  rcases hp with hp | ⟨hoverlaps, hp⟩
  · have huncut := hinv.uncut _ hmem p hp
    cases hpart with
    | kept => exact huncut hlt
    | common =>
        exact (min_le_left _ _).trans (huncut ((le_max_left _ _).trans_lt hlt))
    | before hmeets => exact hmeets.2.2.1.le.trans (huncut hlt)
    | after hmeets => exact huncut (hmeets.2.1.trans hlt)
  · have hle := hoverlaps.start_le_end hinterval
    cases hpart with
    | kept hmeets =>
        by_contra! hlt'
        refine hmeets ⟨hoverlaps, ?_, ?_, ?_⟩ <;> rcases hp with rfl | rfl
        · exact hlt.trans_le hle
        · exact hlt
        · exact hlt'
        · exact hle.trans_lt hlt'
        · exact fun h => h.1.not_gt hlt
        · exact fun h => h.2.not_gt hlt'
    | common =>
        rcases hp with rfl | rfl
        · exact absurd hlt (le_max_right _ _).not_gt
        · exact min_le_right _ _
    | before =>
        rcases hp with rfl | rfl
        · exact le_rfl
        · exact hle
    | after =>
        rcases hp with rfl | rfl
        · exact absurd hlt hle.not_gt
        · exact absurd hlt (lt_irrefl _)

theorem Inv.demand_part (hmem : myinterval ∈ myOverlap)
    (hpart : Part block interval myinterval piece) (hrun : block.Runs t)
    (hstart : piece.start ≤ t) (hend : t < piece.end') :
    piece.count ≤ demand (earlier ++ [interval]) t ∧
      (piece.count = demand (earlier ++ [interval]) t ↔
        AllShown totalTime block (earlier ++ [interval]) t ∧
          NoPoint block (earlier ++ [interval]) t) := by
  obtain ⟨hstart', hend'⟩ := hpart.subset hstart hend
  have hle := hinv.le_demand _ hmem t hrun hstart' hend'
  have hiff := hinv.eq_demand_iff _ hmem t hrun hstart' hend'
  have hcount := hpart.count_cases hstart hend
  rw [demand_append_singleton, allShown_append_singleton, noPoint_append_singleton]
  by_cases hcontains : interval.Contains t
  · rw [if_pos hcontains]
    simp only [hcontains, forall_true_left]
    by_cases hbefore : AllShown totalTime block earlier t ∧ NoPoint block earlier t
    · have heq := hiff.mpr hbefore
      have hgains := hinv.gains_iff hinterval hmem hrun hstart' hend' hbefore.2 hcontains
      rcases hcount with ⟨hgain, hcount⟩ | ⟨hgain, hcount⟩
      · obtain ⟨hshown, hlong⟩ := hgains.mp hgain
        refine ⟨by omega, iff_of_true (by omega) ?_⟩
        exact ⟨⟨hbefore.1, fun _ => hshown⟩, hbefore.2, fun h => absurd h hlong⟩
      · refine ⟨by omega, fun h => ?_, ?_⟩
        · have hzero : interval.count = 0 := by omega
          exact ⟨⟨hbefore.1, fun hpos => absurd hzero hpos.ne'⟩, hbefore.2, fun _ => hzero⟩
        · rintro ⟨⟨-, hshown⟩, -, hzero⟩
          -- a competitor that is shown and no instant would have been counted
          have hnone : interval.count = 0 := by
            by_contra hne
            exact hgain (hgains.mpr ⟨hshown (Nat.pos_of_ne_zero hne), fun h => hne (hzero h)⟩)
          omega
    · have hne : myinterval.count ≠ demand earlier t := fun h => hbefore (hiff.mp h)
      have hpiece : piece.count ≤ myinterval.count + interval.count := by
        rcases hcount with ⟨-, hcount⟩ | ⟨-, hcount⟩ <;> omega
      exact ⟨by omega, iff_of_false (by omega) fun h => hbefore ⟨h.1.1, h.2.1⟩⟩
  · have hgain : ¬ Gains block interval myinterval t := fun h =>
      hcontains (contains_of_mem_common h.2.1 h.2.2)
    rw [if_neg hcontains, add_zero]
    simp only [hcontains, false_imp_iff, implies_true, and_true]
    rw [(hcount.resolve_left fun h => hgain h.1).2]
    exact ⟨hle, hiff⟩

/-- The count of a part is one that is demanded at some instant of the run. -/
theorem Inv.bounded_part (hmem : myinterval ∈ myOverlap)
    (hpart : Part block interval myinterval piece) :
    ∃ t, block.Runs t ∧ piece.count ≤ demand (earlier ++ [interval]) t ∧
      (piece.count = demand (earlier ++ [interval]) t →
        AllShown totalTime block (earlier ++ [interval]) t) := by
  have hkept (hcount : piece.count = myinterval.count) :
      ∃ t, block.Runs t ∧ piece.count ≤ demand (earlier ++ [interval]) t ∧
        (piece.count = demand (earlier ++ [interval]) t →
          AllShown totalTime block (earlier ++ [interval]) t) := by
    obtain ⟨t, hrun, hle, hshown⟩ := hinv.bounded _ hmem
    refine ⟨t, hrun, ?_, fun heq => ?_⟩ <;> rw [demand_append_singleton] at *
    · omega
    · rw [allShown_append_singleton]
      refine ⟨hshown (by omega), fun hcontains hpos => ?_⟩
      rw [if_pos hcontains] at heq
      omega
  cases hpart with
  | kept => exact hkept rfl
  | before => exact hkept rfl
  | after => exact hkept rfl
  | common hmeets =>
      by_cases hpoint : IsPoint block interval
      · obtain ⟨hrun, hcontains⟩ := hmeets.1.start_mem
        have hlt : myinterval.start < intervalStart block interval := hpoint ▸ hmeets.2.1
        have hlt' := hmeets.2.2.1
        have hle := hinv.le_demand _ hmem _ hrun hlt.le hlt'
        have hiff := hinv.eq_demand_iff _ hmem _ hrun hlt.le hlt'
        obtain ⟨-, -, hnonneg, hend⟩ := hinv.cuts _ hmem (hlt.trans hlt')
        refine ⟨_, hrun, ?_, fun heq => ?_⟩
        · rw [demand_append_singleton, if_pos hcontains]
          exact Nat.add_le_add_right hle _
        · rw [demand_append_singleton, if_pos hcontains, Nat.add_left_inj, hiff] at heq
          rw [allShown_append_singleton]
          refine ⟨heq.1, fun _ _ => ⟨hmeets.1, ⟨hnonneg.trans hlt.le, hlt'.trans_le hend⟩,
            fun _ hcut => (hinv.uncut _ hmem _ hcut hlt).not_gt hlt', ?_, heq.2⟩⟩
          rintro ⟨p, q, -, -, hp, hp', -⟩
          exact hp.not_ge hp'
      · have hlong : intervalStart block interval < intervalEnd block interval :=
          lt_of_le_of_ne (hmeets.1.start_le_end hinterval) hpoint
        have hlt : max myinterval.start (intervalStart block interval) <
            min myinterval.end' (intervalEnd block interval) :=
          max_lt (lt_min (hmeets.start_lt_end hinterval) hmeets.2.1)
            (lt_min hmeets.2.2.1 hlong)
        have hrun : block.Runs (max myinterval.start (intervalStart block interval)) :=
          ⟨(le_max_right _ _).trans (le_max_right _ _),
            .inl (hlt.trans_le ((min_le_right _ _).trans (min_le_right _ _)))⟩
        obtain ⟨hle, hiff⟩ :=
          hinv.demand_part hinterval hmem (.common hmeets) hrun le_rfl hlt
        exact ⟨_, hrun, hle, fun heq => (hiff.mp heq).1⟩

theorem Inv.reached_part (hrun : block.Runs t)
    (hshown : AllShown totalTime block (earlier ++ [interval]) t) :
    ∃ myinterval ∈ myOverlap, ∃ piece, Part block interval myinterval piece ∧
      demand (earlier ++ [interval]) t ≤ piece.count := by
  obtain ⟨hbefore, hlast⟩ := allShown_append_singleton.mp hshown
  rw [demand_append_singleton]
  by_cases hcounts : interval.Contains t ∧ 0 < interval.count
  · obtain ⟨hcontains, hpos⟩ := hcounts
    have hlast := hlast hcontains hpos
    obtain ⟨myinterval, hmem, hstart, hend⟩ := hinv.covers t hlast.inRange.1 hlast.inRange.2
    have heq := (hinv.eq_demand_iff _ hmem t hrun hstart hend).mpr ⟨hbefore, hlast.notAfterPoint⟩
    have hmeets : Meets block interval myinterval := by
      by_cases hpoint : IsPoint block interval
      · have hat := eq_start_of_point hrun hcontains hpoint
        have hcut := (hinv.cuts _ hmem (hstart.trans_lt hend)).1
        have hlt : myinterval.start < t := by
          refine lt_of_le_of_ne hstart ?_
          rintro rfl
          exact hlast.notCut hpoint hcut
        refine ⟨hlast.overlaps, ?_, hat ▸ hend, fun h => h.1.not_gt (hat ▸ hlt)⟩
        rw [← hpoint, hat]
        exact hlt
      · exact ((hinv.gains_iff hinterval hmem hrun hstart hend hlast.notAfterPoint hcontains).mpr
          ⟨hlast, hpoint⟩).1
    refine ⟨myinterval, hmem, _, .common hmeets, ?_⟩
    rw [if_pos hcontains, heq]
  · have hnone : (if interval.Contains t then interval.count else 0) = 0 := by
      split_ifs with hcontains
      · exact Nat.eq_zero_of_not_pos fun hpos => hcounts ⟨hcontains, hpos⟩
      · rfl
    obtain ⟨myinterval, hmem, hle⟩ := hinv.reached t hrun hbefore
    rw [hnone, add_zero]
    by_cases hmeets : Meets block interval myinterval
    · exact ⟨_, hmem, _, .common hmeets, hle.trans (Nat.le_add_right _ _)⟩
    · exact ⟨_, hmem, _, .kept hmeets, hle⟩

theorem Inv.compete : Inv totalTime block (earlier ++ [interval])
    (compete block myOverlap interval) := by
  constructor
  · intro piece hpiece hlt
    obtain ⟨_, hmem, hpart⟩ := mem_compete.mp hpiece
    exact hinv.cuts_part hmem hpart hlt
  · intro piece hpiece p hp hlt
    obtain ⟨_, hmem, hpart⟩ := mem_compete.mp hpiece
    exact hinv.uncut_part hinterval hmem hpart hp hlt
  · intro t hle hlt
    obtain ⟨_, hmem, hstart, hend⟩ := hinv.covers t hle hlt
    obtain ⟨piece, hpart, hin⟩ := exists_part_of_mem hstart hend
    exact ⟨piece, mem_compete.mpr ⟨_, hmem, hpart⟩, hin⟩
  · intro piece hpiece t hrun hstart hend
    obtain ⟨_, hmem, hpart⟩ := mem_compete.mp hpiece
    exact (hinv.demand_part hinterval hmem hpart hrun hstart hend).1
  · intro piece hpiece t hrun hstart hend
    obtain ⟨_, hmem, hpart⟩ := mem_compete.mp hpiece
    exact (hinv.demand_part hinterval hmem hpart hrun hstart hend).2
  · intro piece hpiece
    obtain ⟨_, hmem, hpart⟩ := mem_compete.mp hpiece
    exact hinv.bounded_part hinterval hmem hpart
  · intro t hrun hshown
    obtain ⟨_, hmem, piece, hpart, hle⟩ := hinv.reached_part hinterval hrun hshown
    exact ⟨piece, mem_compete.mpr ⟨_, hmem, hpart⟩, hle⟩

end Step

theorem inv_foldl (hplotted : ∀ interval ∈ plotted, interval.start ≤ interval.end') :
    Inv totalTime block plotted (plotted.foldl (compete block) [⟨0, totalTime, 0⟩]) := by
  induction plotted using List.reverseRecOn with
  | nil => exact inv_nil
  | append_singleton earlier interval ih =>
      rw [List.forall_mem_append, List.forall_mem_singleton] at hplotted
      rw [List.foldl_append]
      exact (ih hplotted.1).compete hplotted.2

/-- The offset is the greatest demand if and only if that is shown somewhere. -/
theorem isGreatest_otherThreads_iff
    (hplotted : ∀ interval ∈ plotted, interval.start ≤ interval.end') :
    IsGreatest (demand plotted '' {t | block.Runs t}) (otherThreads totalTime plotted block) ↔
      PeakIsShown totalTime block plotted := by
  have hinv : Inv totalTime block plotted _ := inv_foldl hplotted
  have hle (x : ℕ) : otherThreads totalTime plotted block ≤ x ↔
      ∀ part ∈ plotted.foldl (compete block) [⟨0, totalTime, 0⟩], part.count ≤ x := by
    rw [otherThreads, foldl_max_le_iff]
    exact and_iff_right (Nat.zero_le x)
  constructor
  · rintro ⟨⟨t, hrun, heq⟩, hupper⟩
    have hpeak (t' : Time) (hrun' : block.Runs t') : demand plotted t' ≤ demand plotted t :=
      heq ▸ hupper ⟨t', hrun', rfl⟩
    by_cases hzero : demand plotted t = 0
    · exact ⟨t, hrun, hpeak, allShown_of_demand_eq_zero hzero⟩
    · -- the part that has the greatest count is shown where that count is demanded
      have hpart : ∃ part ∈ plotted.foldl (compete block) [⟨0, totalTime, 0⟩],
          demand plotted t ≤ part.count := by
        by_contra! hlt
        have hless := (hle (demand plotted t - 1)).mpr fun part hmem =>
          Nat.le_sub_one_of_lt (hlt part hmem)
        omega
      obtain ⟨part, hmem, hcount⟩ := hpart
      obtain ⟨t', hrun', hcount', hshown⟩ := hinv.bounded part hmem
      have hle' := hpeak t' hrun'
      refine ⟨t', hrun', fun t'' hrun'' => (hpeak t'' hrun'').trans (hcount.trans hcount'), ?_⟩
      exact hshown (by omega)
  · rintro ⟨t, hrun, hpeak, hshown⟩
    have heq : otherThreads totalTime plotted block = demand plotted t := by
      refine le_antisymm ((hle _).mpr fun part hmem => ?_) ?_
      · obtain ⟨t', hrun', hcount, -⟩ := hinv.bounded part hmem
        exact hcount.trans (hpeak t' hrun')
      · obtain ⟨part, hmem, hcount⟩ := hinv.reached t hrun hshown
        exact hcount.trans ((hle _).mp le_rfl part hmem)
    rw [heq]
    refine ⟨⟨t, hrun, rfl⟩, ?_⟩
    rintro _ ⟨t', hrun', rfl⟩
    exact hpeak t' hrun'

end Invariant

/-! ## The display -/

section Display

variable {Time : Type*} [LinearOrder Time] {source : YValSource}

theorem start_le_end_of_mem_plottedOn {sm : ℕ} {blocks : List (Block Time)}
    {interval : Interval Time} (h : interval ∈ plottedOn source sm blocks) :
    interval.start ≤ interval.end' := by
  obtain ⟨block, -, rfl⟩ := List.mem_map.mp h
  cases source <;> exact block.start_le_end

theorem plottedOn_append_singleton {sm : ℕ} {blocks : List (Block Time)} {block : Block Time} :
    plottedOn source sm (blocks ++ [block]) =
      if block.sm = sm then plottedOn source sm blocks ++ [block.interval source]
      else plottedOn source sm blocks := by
  rw [plottedOn, List.filter_append, List.map_append, List.filter_singleton]
  split_ifs with heq
  · rw [decide_eq_true heq]
    rfl
  · rw [decide_eq_false heq]
    exact List.append_nil _

/-- `smBase` when some blocks have been drawn. -/
def smBaseOf (source : YValSource) (n : ℕ) (blocks : List (Block Time)) :
    List (List (Interval Time)) :=
  (List.range n).map fun sm => plottedOn source sm blocks

theorem smBaseOf_append_singleton {n : ℕ} {blocks : List (Block Time)} {block : Block Time} :
    (smBaseOf source n blocks).modify block.sm (fun plotted => plotted ++ [block.interval source]) =
      smBaseOf source n (blocks ++ [block]) := by
  refine List.ext_getElem? fun sm => ?_
  rw [List.getElem?_modify, smBaseOf, smBaseOf, List.getElem?_map, List.getElem?_map]
  rcases lt_or_ge sm n with hlt | hge
  · rw [List.getElem?_range hlt]
    simp only [Option.map_some, plottedOn_append_singleton]
    split_ifs <;> rfl
  · rw [List.getElem?_eq_none (by rwa [List.length_range])]
    rfl

variable [Zero Time] {totalTime : Time}

/-- Each list of `smBase` has the blocks of its SM that have been drawn before. -/
theorem drawBlocks_getElem? {n : ℕ} (before blocks : List (Block Time)) (i : ℕ) :
    (drawBlocks source totalTime (smBaseOf source n before) blocks)[i]? =
      ((blocks.takeWhile fun block => block.sm < n)[i]?).map fun block =>
        ⟨block, otherThreads totalTime
          (plottedOn source block.sm
            (before ++ (blocks.takeWhile fun block => block.sm < n).take i)) block⟩ := by
  induction blocks generalizing before i with
  | nil => rfl
  | cons block blocks ih =>
      rw [drawBlocks, List.takeWhile_cons]
      by_cases hlt : block.sm < n
      · have hbase : (smBaseOf source n before)[block.sm]? =
            some (plottedOn source block.sm before) := by
          rw [smBaseOf, List.getElem?_map, List.getElem?_range hlt]
          rfl
        rw [hbase, if_pos (decide_eq_true hlt)]
        dsimp only
        rw [smBaseOf_append_singleton]
        cases i with
        | zero =>
            rw [List.take_zero, List.append_nil]
            rfl
        | succ i =>
            rw [List.getElem?_cons_succ, List.getElem?_cons_succ, ih, List.take_succ_cons,
              List.append_assoc]
            rfl
      · have hbase : (smBaseOf source n before)[block.sm]? = none := by
          rw [List.getElem?_eq_none]
          rw [smBaseOf, List.length_map, List.length_range]
          exact not_lt.mp hlt
        rw [hbase, if_neg (by rw [decide_eq_false hlt]; exact Bool.false_ne_true)]
        rfl

theorem BlockSMDisplay.drawBenchmark_getElem? (display : BlockSMDisplay Time) (i : ℕ) :
    display.drawBenchmark[i]? = (display.drawn[i]?).map fun block =>
      ⟨block, otherThreads display.totalTime
        (plottedOn display.yValSource block.sm (display.drawn.take i)) block⟩ := by
  have hbase : List.replicate display.numSms ([] : List (Interval Time)) =
      smBaseOf display.yValSource display.numSms [] := by
    refine (List.eq_replicate_iff.mpr ⟨?_, fun l hl => ?_⟩).symm
    · rw [smBaseOf, List.length_map, List.length_range]
    · obtain ⟨_, -, rfl⟩ := List.mem_map.mp hl
      rfl
  rw [BlockSMDisplay.drawBenchmark, hbase, drawBlocks_getElem?, BlockSMDisplay.drawn]
  rfl

theorem BlockSMDisplay.map_block_drawBenchmark (display : BlockSMDisplay Time) :
    display.drawBenchmark.map BlockSMRect.block = display.drawn := by
  refine List.ext_getElem? fun i => ?_
  rw [List.getElem?_map, drawBenchmark_getElem?, Option.map_map]
  exact Option.map_id'

end Display

/-- The offset of a block is right exactly when one of the peaks of its run is shown. -/
theorem offsetIsPeak_iff {Time : Type*} [LinearOrder Time] [Zero Time]
    (display : BlockSMDisplay Time) (i : ℕ) :
    display.OffsetIsPeak i ↔ ∀ block, display.drawn[i]? = some block →
      PeakIsShown display.totalTime block
        (plottedOn display.yValSource block.sm (display.drawn.take i)) := by
  rw [BlockSMDisplay.OffsetIsPeak, List.map_take, display.map_block_drawBenchmark,
    display.drawBenchmark_getElem?]
  cases display.drawn[i]? with
  | none => exact iff_of_true (fun _ h => nomatch h) (fun _ h => nomatch h)
  | some block =>
      simp only [Option.map_some, Option.some_inj, forall_eq']
      exact isGreatest_otherThreads_iff fun _ => start_le_end_of_mem_plottedOn

/-- A block of 512 threads on the only SM. -/
def blockOf512 (start end' : ℕ) (h : start ≤ end') : Block ℕ := ⟨start, end', 512, 0, 0, h⟩

/-- The first block runs while the second one does, and both while the third one does.  The time
after which they all have ended is shown with 5 % more. -/
def nestedDisplay : BlockSMDisplay ℕ where
  yValSource := .threads
  totalTime := 21
  streams := [⟨[⟨[blockOf512 8 12 (by decide), blockOf512 4 16 (by decide),
    blockOf512 0 20 (by decide)]⟩], 2048⟩]

/-- The third block is drawn over one of the others, though both of them run. -/
theorem not_offsetIsPeak : ¬ nestedDisplay.OffsetIsPeak 2 := by
  intro h
  have hpeak := h ⟨blockOf512 0 20 (by decide), 512⟩ (by decide)
  have hle := hpeak.2 ⟨8, ⟨by decide, by decide⟩, rfl⟩
  exact absurd hle (by decide)

end A100Partitioning.Benchmarks
