import A100Partitioning.TaskHost.RunBenchmark

/-!
# Tasks that wait forever

A task that has returned has no part in the barrier any more.  When the others have called it
once more, none of them ever goes on.  The parser only accepts configurations in which
`sync_every_iteration` gives all tasks the same limit, but the time limits and the terminators
may still end one task an iteration before another.
-/

namespace A100Partitioning.TaskHost

open Barrier (Round Moves)
open Config (Double)
open Relation (ReflTransGen)

/-! ## Deadlocks -/

/-- Some task is at another point, and no further task has failed. -/
def Advances {N : ℕ} (point point' : Fin N → Point) : Prop :=
  point' ≠ point ∧ ∀ t, point' t = .failed → point t = .failed

/-- Some task gets to another point, sooner or later. -/
def CanMoveOn {N : ℕ} (syncEveryIteration : Bool) (tasks : Fin N → Assignment.TaskConfig)
    (s : HostState N) : Prop :=
  ∃ s', ReflTransGen (HostStep syncEveryIteration tasks) s s' ∧ Advances s.point s'.point

section Deadlock

variable {N : ℕ} {syncEveryIteration : Bool} {tasks : Fin N → Assignment.TaskConfig}
  {s s' : HostState N} {t j : Fin N} {b b' : Barrier.State N} {round : ℕ}

theorem advances_update {point : Fin N → Point} {target : Point} (hne : point t ≠ target)
    (hrunning : target ≠ .failed) : Advances point (Function.update point t target) := by
  refine ⟨fun heq => hne (Function.update_eq_self_iff.mp heq).symm, fun j hj => ?_⟩
  by_cases hjt : j = t
  · rw [hjt, Function.update_self] at hj
    exact absurd hj hrunning
  · rwa [Function.update_of_ne hjt] at hj

theorem canMoveOn_of_running (hsync : ¬ (s.point t).IsSync) (hreturned : s.point t ≠ .returned)
    (hfailed : s.point t ≠ .failed) : CanMoveOn syncEveryIteration tasks s := by
  have hne {target : Point} (h : s.point t ≠ target) (htarget : target ≠ .failed) :
      Advances s.point (Function.update s.point t target) := advances_update h htarget
  cases hpoint : s.point t with
  | initSync => exact absurd (.inl hpoint) hsync
  | iterationSync => exact absurd (.inr (.inl hpoint)) hsync
  | cleanupSync => exact absurd (.inr (.inr hpoint)) hsync
  | returned => exact absurd hpoint hreturned
  | failed => exact absurd hpoint hfailed
  | initializing => exact ⟨_, .single (.initialized t hpoint), hne (by simp [hpoint]) (by decide)⟩
  | sleeping => exact ⟨_, .single (.sleep t hpoint), hne (by simp [hpoint]) (by decide)⟩
  | limits =>
      by_cases hbreaks : Breaks (tasks t) (s.i t) 0 s.terminate
      · exact ⟨_, .single (.leave t hpoint 0 hbreaks),
          hne (by simp [hpoint]) (by decide)⟩
      · refine ⟨_, .single (.enter t hpoint 0 hbreaks), ?_⟩
        cases syncEveryIteration <;> exact hne (by simp [hpoint]) (by decide)
  | iterating => exact ⟨_, .single (.iterate t hpoint), hne (by simp [hpoint]) (by decide)⟩
  | leaving => exact ⟨_, .single (.signal t hpoint), hne (by simp [hpoint]) (by decide)⟩
  | cleaningUp => exact ⟨_, .single (.cleanup t hpoint), hne (by simp [hpoint]) (by decide)⟩

theorem advances_afterSync (hsync : (s.point t).IsSync) :
    Advances s.point (Function.update s.point t (s.point t).afterSync) := by
  apply advances_update
  all_goals rcases hsync with h | h | h <;> rw [h] <;> decide

theorem moves_return (b : Barrier.State N) (t : Fin N) : Moves b (b.return t) t := by
  constructor <;> intro j hj <;> simp [Barrier.State.return, Barrier.State.goto, hj]

theorem canMoveOn_of_agrees (hsync : (s.point t).IsSync) (hpc : s.barrier.pc t = .spinning)
    (hagrees : s.barrier.sense = s.barrier.localSense t) :
    CanMoveOn syncEveryIteration tasks s :=
  ⟨_, .single (.goOn t hsync _ (.leave t hpc hagrees) (moves_return _ t)
    (s.barrier.goto_pc_self t .outside)), advances_afterSync hsync⟩

theorem canMoveOn_of_release (hsync : (s.point t).IsSync) (hpc : s.barrier.pc t = .release) :
    CanMoveOn syncEveryIteration tasks s := by
  obtain ⟨hpcs, hsenses, hcalls, hreturns⟩ := moves_return s.barrier t
  exact ⟨_, .single (.goOn t hsync _ (.release t hpc) ⟨hpcs, hsenses, hcalls, hreturns⟩
    (s.barrier.goto_pc_self t .outside)), advances_afterSync hsync⟩

theorem CanMoveOn.of_wait (hsync : (s.point t).IsSync) (hstep : Barrier.Step s.barrier b)
    (hmoves : Moves s.barrier b t) (hinside : b.pc t ≠ .outside)
    (h : CanMoveOn syncEveryIteration tasks { s with barrier := b }) :
    CanMoveOn syncEveryIteration tasks s := by
  obtain ⟨s', hrun, hadvances⟩ := h
  exact ⟨s', .head (.wait t hsync b hstep hmoves hinside) hrun, hadvances⟩

/-- A participant that decrements the counter is not about to do so any more. -/
theorem card_entering_lt {pc : Barrier.Pc} (hentered : b.pc t = .entered) (hpc : pc ≠ .entered)
    (hmoves : Moves b b' t) (hself : b'.pc t = pc) : b'.entering.card < b.entering.card := by
  have hmem : t ∈ b.entering := by simp [Barrier.State.entering, hentered]
  have hnot : t ∉ b'.entering := by simp [Barrier.State.entering, hself, hpc]
  refine Finset.card_lt_card ((Finset.ssubset_iff_of_subset fun j hj => ?_).mpr ⟨t, hmem, hnot⟩)
  simp only [Barrier.State.entering, Finset.mem_filter, Finset.mem_univ, true_and] at hj ⊢
  by_cases hjt : j = t
  · rw [hjt, hentered]
  · rw [← hmoves.pc j hjt, hj]

theorem HostReachable.canMoveOn_of_sync (hs : HostReachable syncEveryIteration tasks s)
    (hall : ∀ t, (s.point t).IsSync) (t : Fin N) : CanMoveOn syncEveryIteration tasks s := by
  -- by induction on the number of tasks that have yet to arrive
  induction hn : s.barrier.entering.card using Nat.strong_induction_on generalizing s with
  | _ n ih =>
      by_cases hleave : ∃ i, s.barrier.pc i = .spinning ∧ s.barrier.sense = s.barrier.localSense i
      · obtain ⟨i, hpc, hagrees⟩ := hleave
        exact canMoveOn_of_agrees (hall i) hpc hagrees
      by_cases hrelease : ∃ i, s.barrier.pc i = .release
      · obtain ⟨i, hpc⟩ := hrelease
        exact canMoveOn_of_release (hall i) hpc
      by_cases hreset : ∃ i, s.barrier.pc i = .reset
      · obtain ⟨i, hpc⟩ := hreset
        obtain ⟨hpcs, hsenses, hcalls, hreturns⟩ := Barrier.moves_goto s.barrier i .release
        have hself := s.barrier.goto_pc_self i .release
        refine .of_wait (hall i) (.reset i hpc) ⟨hpcs, hsenses, hcalls, hreturns⟩ ?_ ?_
        · intro hout
          cases hself.symm.trans hout
        · exact canMoveOn_of_release (hall i) hself
      · obtain ⟨round, hround⟩ := hs.exists_round t
        obtain ⟨i, hpc⟩ := hround.exists_entered
          (fun i => (hs.taskInv i).isSync_iff.mp (hall i))
          (fun i hlast => hlast.elim (fun h => hreset ⟨i, h⟩) fun h => hrelease ⟨i, h⟩)
          fun i hspin hagrees => hleave ⟨i, hspin, hagrees⟩
        have hstep := Barrier.Step.fetchSub i hpc
        generalize hpcNew : (if s.barrier.processesRemaining = 1 then Barrier.Pc.reset
          else .spinning) = pc at hstep
        have hpcNe : pc ≠ .entered ∧ pc ≠ .outside := by
          subst hpcNew
          split_ifs <;> simp
        obtain ⟨hpcs, hsenses, hcalls, hreturns⟩ := Barrier.moves_goto s.barrier i pc
        have hself := s.barrier.goto_pc_self i pc
        have hinside : (s.barrier.goto i pc).pc i ≠ .outside := hself.trans_ne hpcNe.2
        refine .of_wait (hall i) hstep ⟨hpcs, hsenses, hcalls, hreturns⟩ hinside ?_
        have hs' := hs.tail (.wait i (hall i) _ hstep ⟨hpcs, hsenses, hcalls, hreturns⟩ hinside)
        have hless := card_entering_lt hpc hpcNe.1 (Barrier.moves_goto s.barrier i pc) hself
        exact ih _ (hn ▸ hless) hs' hall rfl

/-- Behind `RunBenchmark`. -/
def Point.Ended (point : Point) : Prop := point = .returned ∨ point = .failed

theorem Point.Ended.not_isSync {point : Point} (h : point.Ended) : ¬ point.IsSync := by
  rcases h with rfl | rfl <;> decide

/-- All tasks that have not ended wait for one that has. -/
def Stuck (s : HostState N) : Prop :=
  ∀ j, ¬ (s.point j).Ended →
    (s.point j).IsSync ∧ ∃ i, (s.point i).Ended ∧ s.barrier.calls j = s.barrier.calls i + 1

/-- An ended task has no call that the last round does not include. -/
theorem HostReachable.calls_of_ended (hs : HostReachable syncEveryIteration tasks s)
    (hround : Round s.barrier round) (hended : (s.point t).Ended) :
    s.barrier.calls t = round := by
  have hout := not_ne_iff.mp fun hpc => hended.not_isSync ((hs.taskInv t).isSync_iff.mpr hpc)
  exact ((hround.inRound t).outside hout).1

/-- A participant leaves the barrier as the last to arrive, or when it sees its own sense. -/
theorem leaves_cases (hstep : Barrier.Step b b') (hinside : b.pc t ≠ .outside)
    (hout : b'.pc t = .outside) :
    b.pc t = .release ∨ b.sense = b.localSense t := by
  have hself {i : Fin N} {pc : Barrier.Pc} (hgoto : (b.goto i pc).pc t = .outside) :
      t = i ∧ pc = .outside := by
    by_cases hi : t = i
    · rw [hi, b.goto_pc_self i pc] at hgoto
      exact ⟨hi, hgoto⟩
    · rw [(Barrier.moves_goto b i pc).pc t hi] at hgoto
      exact absurd hgoto hinside
  cases hstep with
  | call i hpc => exact absurd (hself hout).2 (by decide)
  | fetchSub i hpc =>
      have hpcNew := (hself hout).2
      split_ifs at hpcNew
  | reset i hpc => exact absurd (hself hout).2 (by decide)
  | release i hpc => exact .inl ((hself hout).1 ▸ hpc)
  | spin => exact absurd hout hinside
  | leave i hpc hagrees => exact .inr ((hself hout).1 ▸ hagrees)

/-- No task gets out of a barrier that an ended one would have to call. -/
theorem Stuck.inside (hs : HostReachable syncEveryIteration tasks s) (h : Stuck s)
    (hsync : (s.point t).IsSync) (hstep : Barrier.Step s.barrier b) : b.pc t ≠ .outside := by
  intro hout
  obtain ⟨-, i, hended, hcalls⟩ := h t fun hended => hended.not_isSync hsync
  obtain ⟨round, hround⟩ := hs.exists_round t
  have hi := hs.calls_of_ended hround hended
  rcases leaves_cases hstep ((hs.taskInv t).isSync_iff.mp hsync) hout with hpc | hagrees
  · have hit : i ≠ t := by
      rintro rfl
      exact hended.not_isSync hsync
    have hspin := (hround.last t (.inr hpc) i hit).1
    have hipc : s.barrier.pc i ≠ .outside := by simp [hspin]
    exact hended.not_isSync ((hs.taskInv i).isSync_iff.mpr hipc)
  · have hcallsRound := hround.calls_of_agrees hagrees
    omega

theorem Stuck.step (hs : HostReachable syncEveryIteration tasks s) (h : Stuck s)
    (hstep : HostStep syncEveryIteration tasks s s') : Stuck s' ∧ s'.point = s.point := by
  have hmoves {t : Fin N} {point : Point} (hpoint : s.point t = point) (hended : ¬ point.Ended) :
      point.IsSync := by
    subst hpoint
    exact (h t hended).1
  cases hstep with
  | initialized t hpoint => exact absurd (hmoves hpoint (by simp [Point.Ended])) (by decide)
  | wait t hpoint barrier step moves inside =>
      have hcalls := calls_eq_of_inside step moves ((hs.taskInv t).isSync_iff.mp hpoint)
      refine ⟨fun j hj => ?_, rfl⟩
      obtain ⟨hsync, i, hended, heq⟩ := h j hj
      refine ⟨hsync, i, hended, ?_⟩
      rw [hcalls]
      exact heq
  | goOn t hpoint barrier step moves outside =>
      exact absurd outside (h.inside hs hpoint step)
  | sleep t hpoint => exact absurd (hmoves hpoint (by simp [Point.Ended])) (by decide)
  | leave t hpoint => exact absurd (hmoves hpoint (by simp [Point.Ended])) (by decide)
  | enter t hpoint => exact absurd (hmoves hpoint (by simp [Point.Ended])) (by decide)
  | iterate t hpoint => exact absurd (hmoves hpoint (by simp [Point.Ended])) (by decide)
  | signal t hpoint => exact absurd (hmoves hpoint (by simp [Point.Ended])) (by decide)
  | cleanup t hpoint => exact absurd (hmoves hpoint (by simp [Point.Ended])) (by decide)
  | fail t hpoint =>
      rcases hpoint with hpoint | hpoint | hpoint | hpoint
      all_goals exact absurd (hmoves hpoint (by simp [Point.Ended])) (by decide)

theorem Stuck.run (hs : HostReachable syncEveryIteration tasks s) (h : Stuck s)
    (hrun : ReflTransGen (HostStep syncEveryIteration tasks) s s') :
    Stuck s' ∧ s'.point = s.point := by
  induction hrun with
  | refl => exact ⟨h, rfl⟩
  | tail hbefore hstep ih =>
      obtain ⟨hstuck, hpoint⟩ := Stuck.step (hs.trans hbefore) ih.1 hstep
      exact ⟨hstuck, hpoint.trans ih.2⟩

/-- The tasks can move on unless they are stuck. -/
theorem HostReachable.canMoveOn_iff (hs : HostReachable syncEveryIteration tasks s) :
    CanMoveOn syncEveryIteration tasks s ↔ ¬ Stuck s := by
  constructor
  · rintro ⟨s', hrun, hadvances⟩ hstuck
    exact hadvances.1 (hstuck.run hs hrun).2
  · contrapose!
    intro hnot j hj
    have hsync (t : Fin N) (hended : ¬ (s.point t).Ended) : (s.point t).IsSync := by
      by_contra hsync
      exact hnot (canMoveOn_of_running hsync (fun h => hended (.inl h)) fun h => hended (.inr h))
    refine ⟨hsync j hj, ?_⟩
    by_cases hall : ∃ i, (s.point i).Ended
    · obtain ⟨i, hended⟩ := hall
      refine ⟨i, hended, ?_⟩
      obtain ⟨round, hround⟩ := hs.exists_round j
      rw [hs.calls_of_ended hround hended]
      refine (hround.inRound j).calls.resolve_left fun hcalls => hnot ?_
      have hin := (hs.taskInv j).isSync_iff.mp (hsync j hj)
      -- it has not seen the sense of the last round yet
      have hspin : s.barrier.pc j = .spinning := by
        by_contra hpc
        have hnext := (hround.inRound j).next hin hpc
        omega
      apply canMoveOn_of_agrees (hsync j hj) hspin
      rw [hround.sense, (hround.inRound j).localSense, hcalls]
    · exact absurd (hs.canMoveOn_of_sync (fun t => hsync t fun h => hall ⟨t, h⟩) j) hnot

/-- What the calls of a task that has returned say about its iterations. -/
theorem TaskInv.calls_of_returned (h : TaskInv syncEveryIteration s t)
    (hreturned : s.point t = .returned) :
    s.barrier.calls t = if syncEveryIteration then s.iterations t + 2 else 2 := by
  have hfits := h.fits_point (by simp [hreturned])
  rw [hreturned] at hfits
  exact hfits.calls_eq

/-- Without failures, tasks are stuck when one has returned an iteration before the others. -/
theorem HostReachable.stuck_iff (hs : HostReachable syncEveryIteration tasks s)
    (hrunning : ∀ t, s.point t ≠ .failed) (hwaiting : ∃ t, s.point t ≠ .returned) :
    Stuck s ↔
      syncEveryIteration = true ∧ ∃ i, s.point i = .returned ∧ ∀ j, s.point j ≠ .returned →
        (s.point j).IsSync ∧ s.iterations j = s.iterations i + 1 := by
  have hended (t : Fin N) : (s.point t).Ended ↔ s.point t = .returned := by
    simp [Point.Ended, hrunning t]
  have hcalls (t : Fin N) (hsync : (s.point t).IsSync) :
      s.barrier.calls t = if s.point t = .initSync then 1
        else if syncEveryIteration then s.iterations t + 2
        else if s.point t = .iterationSync then 1 else 2 := by
    rw [((hs.taskInv t).fits_point (hrunning t)).calls_eq]
    rcases hsync with h | h | h <;> simp [h, waits]
  have hzero (t : Fin N) (hinit : s.point t = .initSync) : s.iterations t = 0 :=
    ((hs.taskInv t).fits_point (hrunning t)).first (.inr (.inl hinit))
  constructor
  · intro hstuck
    obtain ⟨t, ht⟩ := hwaiting
    obtain ⟨hsyncT, i, hi, hcallsT⟩ := hstuck t fun h => ht ((hended t).mp h)
    have hreturned := (hended i).mp hi
    have hcallsI := (hs.taskInv i).calls_of_returned hreturned
    have hone : syncEveryIteration = true := by
      by_contra hnot
      have hle := hcalls t hsyncT
      rw [if_neg hnot] at hcallsI
      rw [if_neg hnot] at hle
      split_ifs at hle <;> omega
    refine ⟨hone, i, hreturned, fun j hj => ?_⟩
    obtain ⟨hsync, i', hi', hcallsJ⟩ := hstuck j fun h => hj ((hended j).mp h)
    refine ⟨hsync, ?_⟩
    obtain ⟨round, hround⟩ := hs.exists_round i
    have hround' := (hs.calls_of_ended hround hi').trans (hs.calls_of_ended hround hi).symm
    have heq := hcalls j hsync
    simp only [hone, if_true] at heq hcallsI
    split_ifs at heq <;> omega
  · rintro ⟨rfl, i, hreturned, hall⟩ j hj
    obtain ⟨hsync, hiterations⟩ := hall j fun h => hj ((hended j).mpr h)
    refine ⟨hsync, i, (hended i).mpr hreturned, ?_⟩
    have hcallsI := (hs.taskInv i).calls_of_returned hreturned
    have heq := hcalls j hsync
    have hnotInit : s.point j ≠ .initSync := by
      intro h
      have hnone := hzero j h
      omega
    simp only [if_true, if_neg hnotInit] at heq hcallsI
    omega

end Deadlock

end A100Partitioning.TaskHost
