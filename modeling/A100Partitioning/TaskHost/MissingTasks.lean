import A100Partitioning.TaskHost.Deadlock

/-!
# Tasks that do not come

The barrier counts all tasks, also those that have failed or were never started.  A task that
waits for one of these waits forever.
-/

namespace A100Partitioning.TaskHost

open Barrier (Round Moves)
open Relation (ReflTransGen)

section Missing

variable {N : ℕ} {syncEveryIteration : Bool} {tasks : Fin N → Assignment.TaskConfig}
  {s s' : HostState N} {t i j : Fin N}

/-- What a step does to the task that makes it. -/
inductive Acts (s s' : HostState N) (t : Fin N) : Prop where
  | wait (sync : (s.point t).IsSync) (stays : s'.point t = s.point t)
      (step : Barrier.Step s.barrier s'.barrier) (moves : Moves s.barrier s'.barrier t)
      (inside : s'.barrier.pc t ≠ .outside)
  | goOn (sync : (s.point t).IsSync) (step : Barrier.Step s.barrier s'.barrier)
      (outside : s'.barrier.pc t = .outside)
  | go (sync : ¬ (s.point t).IsSync) (running : ¬ (s.point t).Ended)
      (goes : s'.point t ≠ s.point t)

theorem acts_of_update {point target : Point} (hpoint : s.point t = point)
    (htarget : s'.point = Function.update s.point t target) (hsync : ¬ point.IsSync)
    (hrunning : ¬ point.Ended) (hgoes : target ≠ point) : Acts s s' t := by
  subst hpoint
  refine .go hsync hrunning ?_
  rw [htarget, Function.update_self]
  exact hgoes

instance : DecidablePred Point.Ended :=
  fun point => inferInstanceAs (Decidable (point = _ ∨ point = _))

theorem HostStep.acts (hstep : HostStep syncEveryIteration tasks s s') :
    ∃ t, Acts s s' t ∧ ∀ j, j ≠ t → Unmoved s s' j := by
  cases hstep with
  | initialized t hpoint =>
      exact ⟨t, acts_of_update hpoint rfl (by decide) (by decide) (by decide),
        fun j => unmoved_sync⟩
  | wait t hpoint barrier step hmoves inside =>
      exact ⟨t, .wait hpoint rfl step hmoves inside,
        fun j hj => ⟨rfl, rfl, hmoves.pc j hj, hmoves.calls j hj⟩⟩
  | goOn t hpoint barrier step hmoves outside =>
      exact ⟨t, .goOn hpoint step outside,
        fun j hj => ⟨Function.update_of_ne hj _ _, rfl, hmoves.pc j hj, hmoves.calls j hj⟩⟩
  | sleep t hpoint =>
      exact ⟨t, acts_of_update hpoint rfl (by decide) (by decide) (by decide),
        fun j => unmoved_goto⟩
  | leave t hpoint =>
      exact ⟨t, acts_of_update hpoint rfl (by decide) (by decide) (by decide),
        fun j hj => ⟨Function.update_of_ne hj _ _, rfl, rfl, rfl⟩⟩
  | enter t hpoint =>
      cases syncEveryIteration with
      | false =>
          exact ⟨t, acts_of_update hpoint rfl (by decide) (by decide) (by decide),
            fun j hj => ⟨Function.update_of_ne hj _ _, rfl, rfl, rfl⟩⟩
      | true =>
          refine ⟨t, acts_of_update hpoint rfl (by decide) (by decide) (by decide),
            fun j hj => ?_⟩
          have hunmoved : Unmoved s (s.sync t .iterationSync) j := unmoved_sync hj
          exact ⟨hunmoved.point, rfl, hunmoved.pc, hunmoved.calls⟩
  | iterate t hpoint =>
      exact ⟨t, acts_of_update hpoint rfl (by decide) (by decide) (by decide),
        fun j hj => ⟨Function.update_of_ne hj _ _, Function.update_of_ne hj _ _, rfl, rfl⟩⟩
  | signal t hpoint =>
      refine ⟨t, acts_of_update hpoint rfl (by decide) (by decide) (by decide), fun j hj => ?_⟩
      have hunmoved : Unmoved s (s.sync t .cleanupSync) j := unmoved_sync hj
      exact ⟨hunmoved.point, rfl, hunmoved.pc, hunmoved.calls⟩
  | cleanup t hpoint =>
      exact ⟨t, acts_of_update hpoint rfl (by decide) (by decide) (by decide),
        fun j => unmoved_goto⟩
  | fail t hpoint =>
      have hgoes : Acts s (s.goto t .failed) t := by
        rcases hpoint with hpoint | hpoint | hpoint | hpoint
        all_goals exact acts_of_update hpoint rfl (by decide) (by decide) (by decide)
      exact ⟨t, hgoes, fun j => unmoved_goto⟩

theorem HostStep.point_of_ended (hstep : HostStep syncEveryIteration tasks s s')
    (hended : (s.point t).Ended) : s'.point t = s.point t := by
  obtain ⟨j, hacts, hunmoved⟩ := hstep.acts
  by_cases htj : t = j
  · subst htj
    cases hacts with
    | wait sync | goOn sync => exact absurd sync hended.not_isSync
    | go _ running => exact absurd hended running
  · exact (hunmoved t htj).point

/-- A task that stays outside the barrier has no part in a step. -/
theorem HostStep.unmoved_of_point (hstep : HostStep syncEveryIteration tasks s s')
    (houtside : ¬ (s.point t).IsSync) (hstays : s'.point t = s.point t) : Unmoved s s' t := by
  obtain ⟨j, hacts, hunmoved⟩ := hstep.acts
  by_cases htj : t = j
  · subst htj
    cases hacts with
    | wait sync | goOn sync => exact absurd sync houtside
    | go _ _ goes => exact absurd hstays goes
  · exact hunmoved t htj

/-- A task waits in the barrier for one outside that has called it once less. -/
structure Misses (s : HostState N) (j i : Fin N) : Prop where
  sync : (s.point j).IsSync
  outside : ¬ (s.point i).IsSync
  calls : s.barrier.calls j = s.barrier.calls i + 1

theorem Misses.step (hs : HostReachable syncEveryIteration tasks s) (h : Misses s j i)
    (hstep : HostStep syncEveryIteration tasks s s') (hstays : s'.point i = s.point i) :
    Misses s' j i := by
  have hi := hstep.unmoved_of_point h.outside hstays
  have houtside : ¬ (s'.point i).IsSync := hstays ▸ h.outside
  obtain ⟨t, hacts, hunmoved⟩ := hstep.acts
  by_cases hjt : j = t
  · subst hjt
    have hinside := (hs.taskInv j).isSync_iff.mp h.sync
    cases hacts with
    | wait sync stays step moves inside =>
        refine ⟨stays ▸ h.sync, houtside, ?_⟩
        rw [calls_eq_of_inside step moves hinside, h.calls]
    | goOn sync step out =>
        exfalso
        obtain ⟨round, hround⟩ := hs.exists_round j
        have hout := not_ne_iff.mp fun hpc =>
          h.outside ((hs.taskInv i).isSync_iff.mpr hpc)
        have hround_i := ((hround.inRound i).outside hout).1
        rcases leaves_cases step hinside out with hpc | hagrees
        · have hij : i ≠ j := by
            rintro rfl
            exact h.outside h.sync
          have hspin := (hround.last j (.inr hpc) i hij).1
          exact absurd hout (by simp [hspin])
        · have hround_j := hround.calls_of_agrees hagrees
          have hcalls := h.calls
          omega
    | go sync => exact absurd h.sync sync
  · have hj := hunmoved j hjt
    refine ⟨hj.point ▸ h.sync, houtside, ?_⟩
    rw [hj.calls, h.calls, hi.calls]

/-- No task returns while another one has not been initialized. -/
theorem HostReachable.not_returned (hs : HostReachable syncEveryIteration tasks s)
    (hi : s.point i = .initializing) : s.point j ≠ .returned := by
  intro hj
  have hle : s.barrier.calls j ≤ s.barrier.calls i := hs.calls_le (by rw [hj]; decide)
  have hcalls := (hs.taskInv j).calls_of_returned hj
  have hfits := ((hs.taskInv i).fits_point (by simp [hi])).calls_eq
  rw [hi] at hfits
  simp only [waits] at hfits
  split_ifs at hcalls <;> omega

/-- If one task has returned and another one has failed, they are synchronized, and the second
has done no less iterations. -/
theorem HostReachable.returned_failed (hs : HostReachable syncEveryIteration tasks s)
    (hj : s.point j = .returned) (hi : s.point i = .failed) :
    syncEveryIteration = true ∧ s.iterations j ≤ s.iterations i := by
  have hle : s.barrier.calls j ≤ s.barrier.calls i := hs.calls_le (by rw [hj]; decide)
  have hcalls := (hs.taskInv j).calls_of_returned hj
  obtain ⟨point, ⟨hfits, -⟩, ⟨heq, hne⟩ | ⟨-, hmay⟩⟩ := (hs.taskInv i).fits
  · exact absurd (heq.symm.trans hi) hne
  · rw [hcalls, hfits] at hle
    cases syncEveryIteration with
    | false => rcases hmay with rfl | rfl | rfl | rfl <;> simp [waits] at hle
    | true =>
        refine ⟨rfl, ?_⟩
        rcases hmay with rfl | rfl | rfl | rfl
        all_goals
          simp only [waits, if_true] at hle
          omega

end Missing

end A100Partitioning.TaskHost
