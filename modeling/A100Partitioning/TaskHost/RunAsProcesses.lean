import A100Partitioning.TaskHost.MissingTasks
import A100Partitioning.TaskHost.SyncedRuns

/-!
# Running the tasks as processes

`RunAsProcesses` forks a process for each task and calls `waitpid` for each.  Where `fork` fails,
it does not stop: it waits for process -1, which is any process, and uses the status of the last
one if there is none left.
-/

namespace A100Partitioning.TaskHost

open Relation (ReflTransGen)

/-! ## The code -/

/-- What `waitpid` stores. -/
inductive ChildStatus where
  | exited (code : ℕ)
  | signaled (signal : ℕ)
  deriving DecidableEq, Repr

/-- `WIFEXITED`, with `EXIT_SUCCESS`. -/
def ChildStatus.isOk (status : ChildStatus) : Bool := status = .exited 0

/-- The status of a process whose task has ended. -/
def Exits (point : Point) (status : ChildStatus) : Prop :=
  point = .returned ∧ status = .exited 0 ∨ point = .failed ∧ status ≠ .exited 0

/-- Where `RunAsProcesses` is, with the index of its loop. -/
inductive ProcessesPoint where
  | allocating
  | forking (i : ℕ)
  | waiting (i : ℕ)
  | done
  deriving DecidableEq, Repr

/-- `RunAsProcesses` and its processes.  An entry of `pids` is -1 where the task has not been
forked. -/
structure ProcessesState (N : ℕ) where
  point : ProcessesPoint
  allocated : Bool
  forked : Fin N → Bool
  reaped : Fin N → Bool
  childStatus : Option ChildStatus
  allOk : Bool
  host : HostState N

def processesInit (N : ℕ) : ProcessesState N where
  point := .allocating
  allocated := false
  forked _ := false
  reaped _ := false
  childStatus := none
  allOk := true
  host := hostInit N

/-- The checks behind `waitpid`, where the status may still be uninitialized. -/
def ProcessesState.check {N : ℕ} (s : ProcessesState N) (uninitialized : ChildStatus) (i : ℕ) :
    ProcessesState N :=
  { s with
    point := .waiting (i + 1)
    allOk := s.allOk && (s.childStatus.getD uninitialized).isOk }

/-- A step of `RunAsProcesses`, whose calls may fail, or of a process that it has forked.  If a
task has not been forked, any process is waited for in its place. -/
inductive ProcessesStep {N : ℕ} (syncEveryIteration : Bool)
    (tasks : Fin N → Assignment.TaskConfig) (uninitialized : ChildStatus) :
    ProcessesState N → ProcessesState N → Prop where
  | allocFails {s : ProcessesState N} (point : s.point = .allocating) :
      ProcessesStep syncEveryIteration tasks uninitialized s
        { s with point := .done, allOk := false }
  | alloc {s : ProcessesState N} (point : s.point = .allocating) :
      ProcessesStep syncEveryIteration tasks uninitialized s
        { s with point := .forking 0, allocated := true }
  | fork {s : ProcessesState N} (i : Fin N) (point : s.point = .forking i) :
      ProcessesStep syncEveryIteration tasks uninitialized s
        { s with point := .forking (i + 1), forked := Function.update s.forked i true }
  | forkFails {s : ProcessesState N} (i : Fin N) (point : s.point = .forking i) :
      ProcessesStep syncEveryIteration tasks uninitialized s
        { s with point := .forking (i + 1) }
  | forkedAll {s : ProcessesState N} (point : s.point = .forking N) :
      ProcessesStep syncEveryIteration tasks uninitialized s { s with point := .waiting 0 }
  | reap {s : ProcessesState N} (i child : Fin N) (status : ChildStatus)
      (point : s.point = .waiting i) (pid : s.forked i = true → child = i)
      (forked : s.forked child = true) (running : s.reaped child = false)
      (exits : Exits (s.host.point child) status) :
      ProcessesStep syncEveryIteration tasks uninitialized s
        (ProcessesState.check
          { s with
            reaped := Function.update s.reaped child true
            childStatus := some status } uninitialized i)
  | noChild {s : ProcessesState N} (i : Fin N) (point : s.point = .waiting i)
      (pid : s.forked i = true → s.reaped i = true)
      (any : s.forked i = false → ∀ child, s.forked child = true → s.reaped child = true) :
      ProcessesStep syncEveryIteration tasks uninitialized s (s.check uninitialized i)
  | finish {s : ProcessesState N} (point : s.point = .waiting N) :
      ProcessesStep syncEveryIteration tasks uninitialized s { s with point := .done }
  | task {s : ProcessesState N} (host : HostState N)
      (step : HostStep syncEveryIteration tasks s.host host)
      (notForked : ∀ t, s.forked t = false → host.point t = s.host.point t) :
      ProcessesStep syncEveryIteration tasks uninitialized s { s with host }

/-- States of `RunAsProcesses` and its processes. -/
def ProcessesReachable {N : ℕ} (syncEveryIteration : Bool)
    (tasks : Fin N → Assignment.TaskConfig) (uninitialized : ChildStatus)
    (s : ProcessesState N) : Prop :=
  ReflTransGen (ProcessesStep syncEveryIteration tasks uninitialized) (processesInit N) s

/-! ## What has been waited for -/

section Processes

variable {N : ℕ} {syncEveryIteration : Bool} {tasks : Fin N → Assignment.TaskConfig}
  {uninitialized : ChildStatus} {s s' : ProcessesState N} {i j child : Fin N} {status : ChildStatus}
  {point : Point}

theorem Exits.isOk_iff (h : Exits point status) : status.isOk = true ↔ point = .returned := by
  rw [ChildStatus.isOk, decide_eq_true_iff]
  rcases h with ⟨hpoint, hstatus⟩ | ⟨hpoint, hstatus⟩
  · exact iff_of_true hstatus hpoint
  · exact iff_of_false hstatus (by simp [hpoint])

theorem Exits.ended (h : Exits point status) : point.Ended := h.imp And.left And.left

/-- After some calls of `waitpid`. -/
structure Waited (s : ProcessesState N) (uninitialized : ChildStatus) (i : ℕ) : Prop where
  reaped : ∀ t : Fin N, t < i → s.forked t = true → s.reaped t = true
  exits : ∀ status, s.childStatus = some status →
    ∃ t, s.reaped t = true ∧ Exits (s.host.point t) status
  noStatus : s.childStatus = none →
    (∀ t, s.reaped t = false) ∧ (0 < i → ∀ t, s.forked t = false)
  allOk : s.allOk = true ↔ (∀ t, s.reaped t = true → s.host.point t = .returned) ∧
    (0 < i → s.childStatus = none → uninitialized.isOk = true)

/-- Nothing has been waited for. -/
structure NoneWaited (s : ProcessesState N) : Prop where
  reaped : ∀ t, s.reaped t = false
  childStatus : s.childStatus = none
  allOk : s.allOk = true

/-- What is known where `RunAsProcesses` is. -/
def ProcessesState.AtPoint (s : ProcessesState N) (uninitialized : ChildStatus) : Prop :=
  match s.point with
  | .allocating => s.allocated = false ∧ NoneWaited s ∧ ∀ t, s.forked t = false
  | .forking i => s.allocated = true ∧ NoneWaited s ∧ ∀ t : Fin N, i ≤ t → s.forked t = false
  | .waiting i => s.allocated = true ∧ Waited s uninitialized i
  | .done => s.allocated = true ∧ Waited s uninitialized N ∨
      s.allocated = false ∧ s.allOk = false ∧ ∀ t, s.forked t = false

structure ProcessesInv (syncEveryIteration : Bool) (tasks : Fin N → Assignment.TaskConfig)
    (uninitialized : ChildStatus) (s : ProcessesState N) : Prop where
  host : HostReachable syncEveryIteration tasks s.host
  notForked : ∀ t, s.forked t = false → s.host.point t = .initializing
  reaped : ∀ t, s.reaped t = true → s.forked t = true ∧ (s.host.point t).Ended
  atPoint : s.AtPoint uninitialized

theorem Waited.task {host : HostState N} {n : ℕ} (h : Waited s uninitialized n)
    (hreaped : ∀ t, s.reaped t = true → s.forked t = true ∧ (s.host.point t).Ended)
    (hstep : HostStep syncEveryIteration tasks s.host host) :
    Waited { s with host } uninitialized n := by
  have hsame (t : Fin N) (ht : s.reaped t = true) : host.point t = s.host.point t :=
    hstep.point_of_ended (hreaped t ht).2
  refine ⟨h.reaped, fun status hstatus => ?_, h.noStatus, ?_⟩
  · obtain ⟨t, ht, hexits⟩ := h.exits status hstatus
    refine ⟨t, ht, ?_⟩
    rw [← hsame t ht] at hexits
    exact hexits
  · refine h.allOk.trans (and_congr_left fun _ => forall_congr' fun t => ?_)
    refine imp_congr_right fun ht => ?_
    dsimp only
    rw [hsame t ht]

theorem Waited.reap (h : Waited s uninitialized i) (pid : s.forked i = true → child = i)
    (forked : s.forked child = true) (exits : Exits (s.host.point child) status) :
    Waited (ProcessesState.check
      { s with
        reaped := Function.update s.reaped child true
        childStatus := some status } uninitialized i) uninitialized (i + 1) := by
  have hchild : Function.update s.reaped child true child = true := Function.update_self _ _ _
  have hmono (t : Fin N) (ht : s.reaped t = true) :
      Function.update s.reaped child true t = true := by
    by_cases htc : t = child
    · rw [htc]
      exact hchild
    · rwa [Function.update_of_ne htc]
  refine ⟨fun t hlt ht => ?_, fun status' hstatus => ?_, fun hnone => ?_, ?_⟩
  · by_cases hti : t = i
    · subst hti
      rw [← pid ht]
      exact hchild
    · have hlt' : (t : ℕ) < i :=
        Nat.lt_of_le_of_ne (Nat.le_of_lt_succ hlt) fun heq => hti (Fin.ext heq)
      exact hmono t (h.reaped t hlt' ht)
  · obtain rfl := Option.some.inj hstatus
    exact ⟨child, hchild, exits⟩
  · cases hnone
  · dsimp only [ProcessesState.check, Option.getD_some]
    rw [Bool.and_eq_true, h.allOk, exits.isOk_iff]
    constructor
    · rintro ⟨⟨hall, -⟩, hreturned⟩
      refine ⟨fun t ht => ?_, fun _ hnone => by cases hnone⟩
      by_cases htc : t = child
      · rwa [htc]
      · rw [Function.update_of_ne htc] at ht
        exact hall t ht
    · rintro ⟨hall, -⟩
      refine ⟨⟨fun t ht => hall t (hmono t ht), fun hpos hnone => ?_⟩, hall child hchild⟩
      exact absurd forked (by simp [(h.noStatus hnone).2 hpos child])

/-- There has been nothing to wait for, and the last status is looked at again. -/
theorem Waited.noChild (h : Waited s uninitialized i) (pid : s.forked i = true → s.reaped i = true)
    (any : s.forked i = false → ∀ child, s.forked child = true → s.reaped child = true) :
    Waited (s.check uninitialized i) uninitialized (i + 1) := by
  have hnone (hnone : s.childStatus = none) : ∀ t, s.forked t = false := by
    have hno := (h.noStatus hnone).1
    have hi : s.forked i = false := by
      by_contra hi
      exact absurd (pid (Bool.not_eq_false _ ▸ hi)) (by simp [hno i])
    intro t
    by_contra ht
    exact absurd (any hi t (Bool.not_eq_false _ ▸ ht)) (by simp [hno t])
  refine ⟨fun t hlt ht => ?_, h.exits, fun heq => ⟨(h.noStatus heq).1, fun _ => hnone heq⟩, ?_⟩
  · by_cases hti : t = i
    · subst hti
      exact pid ht
    · have hlt' : (t : ℕ) < i :=
        Nat.lt_of_le_of_ne (Nat.le_of_lt_succ hlt) fun heq => hti (Fin.ext heq)
      exact h.reaped t hlt' ht
  · dsimp only [ProcessesState.check]
    rw [Bool.and_eq_true, h.allOk]
    cases hstatus : s.childStatus with
    | none =>
        constructor
        · rintro ⟨⟨hall, -⟩, hok⟩
          exact ⟨hall, fun _ _ => hok⟩
        · rintro ⟨hall, hok⟩
          have huninitialized := hok (Nat.succ_pos _) rfl
          exact ⟨⟨hall, fun _ _ => huninitialized⟩, huninitialized⟩
    | some status =>
        obtain ⟨t, ht, hexits⟩ := h.exits status hstatus
        constructor
        · rintro ⟨⟨hall, -⟩, -⟩
          exact ⟨hall, fun _ hnone => by cases hnone⟩
        · rintro ⟨hall, -⟩
          exact ⟨⟨hall, fun _ hnone => by cases hnone⟩, hexits.isOk_iff.mpr (hall t ht)⟩

theorem ProcessesInv.step (h : ProcessesInv syncEveryIteration tasks uninitialized s)
    (hstep : ProcessesStep syncEveryIteration tasks uninitialized s s') :
    ProcessesInv syncEveryIteration tasks uninitialized s' := by
  obtain ⟨hhost, hnot, hreaped, hat⟩ := h
  cases hstep with
  | allocFails point =>
      rw [ProcessesState.AtPoint, point] at hat
      exact ⟨hhost, hnot, hreaped, .inr ⟨hat.1, rfl, hat.2.2⟩⟩
  | alloc point =>
      rw [ProcessesState.AtPoint, point] at hat
      obtain ⟨-, ⟨hno, hstatus, hok⟩, hforked⟩ := hat
      exact ⟨hhost, hnot, hreaped, rfl, ⟨hno, hstatus, hok⟩, fun t _ => hforked t⟩
  | fork i point =>
      rw [ProcessesState.AtPoint, point] at hat
      obtain ⟨hallocated, ⟨hno, hstatus, hok⟩, hforked⟩ := hat
      refine ⟨hhost, fun t ht => ?_, fun t ht => absurd ht (by simp [hno t]), hallocated,
        ⟨hno, hstatus, hok⟩, fun t hle => ?_⟩
      · by_cases hti : t = i
        · subst hti
          dsimp only at ht
          rw [Function.update_self] at ht
          cases ht
        · dsimp only at ht
          rw [Function.update_of_ne hti] at ht
          exact hnot t ht
      · have hti : t ≠ i := by
          rintro rfl
          exact absurd hle (Nat.not_succ_le_self _)
        dsimp only
        rw [Function.update_of_ne hti]
        exact hforked t (Nat.le_of_succ_le hle)
  | forkFails i point =>
      rw [ProcessesState.AtPoint, point] at hat
      obtain ⟨hallocated, ⟨hno, hstatus, hok⟩, hforked⟩ := hat
      exact ⟨hhost, hnot, hreaped, hallocated, ⟨hno, hstatus, hok⟩,
        fun t hle => hforked t (Nat.le_of_succ_le hle)⟩
  | forkedAll point =>
      rw [ProcessesState.AtPoint, point] at hat
      obtain ⟨hallocated, ⟨hno, hstatus, hok⟩, -⟩ := hat
      refine ⟨hhost, hnot, hreaped, hallocated, fun t hlt => absurd hlt (Nat.not_lt_zero _),
        fun status heq => ?_, fun _ => ⟨hno, fun hpos => absurd hpos (Nat.lt_irrefl 0)⟩, ?_⟩
      · cases hstatus.symm.trans heq
      · refine iff_of_true hok ⟨fun t ht => absurd ht (by simp [hno t]), fun hpos => ?_⟩
        exact absurd hpos (Nat.lt_irrefl 0)
  | reap i child status point pid forked running exits =>
      rw [ProcessesState.AtPoint, point] at hat
      refine ⟨hhost, hnot, fun t ht => ?_, hat.1, hat.2.reap pid forked exits⟩
      by_cases htc : t = child
      · subst htc
        exact ⟨forked, exits.ended⟩
      · dsimp only [ProcessesState.check] at ht
        rw [Function.update_of_ne htc] at ht
        exact hreaped t ht
  | noChild i point pid any =>
      rw [ProcessesState.AtPoint, point] at hat
      exact ⟨hhost, hnot, hreaped, hat.1, hat.2.noChild pid any⟩
  | finish point =>
      rw [ProcessesState.AtPoint, point] at hat
      obtain ⟨hallocated, hforked, hexits, hnone, hok⟩ := hat
      exact ⟨hhost, hnot, hreaped, .inl ⟨hallocated, hforked, hexits, hnone, hok⟩⟩
  | task host step notForked =>
      refine ⟨hhost.tail step, fun t ht => (notForked t ht).trans (hnot t ht), fun t ht => ?_, ?_⟩
      · obtain ⟨hforked, hended⟩ := hreaped t ht
        refine ⟨hforked, ?_⟩
        dsimp only
        rw [step.point_of_ended hended]
        exact hended
      · cases hpoint : s.point with
        | allocating | forking =>
            simp only [ProcessesState.AtPoint, hpoint] at hat ⊢
            obtain ⟨hallocated, ⟨hno, hstatus, hok⟩, hforked⟩ := hat
            exact ⟨hallocated, ⟨hno, hstatus, hok⟩, hforked⟩
        | waiting i =>
            simp only [ProcessesState.AtPoint, hpoint] at hat ⊢
            obtain ⟨hforked, hexits, hno, hok⟩ := hat.2.task hreaped step
            exact ⟨hat.1, hforked, hexits, hno, hok⟩
        | done =>
            simp only [ProcessesState.AtPoint, hpoint] at hat ⊢
            refine hat.imp_left fun hwaited => ?_
            obtain ⟨hforked, hexits, hno, hok⟩ := hwaited.2.task hreaped step
            exact ⟨hwaited.1, hforked, hexits, hno, hok⟩

theorem ProcessesReachable.inv
    (hs : ProcessesReachable syncEveryIteration tasks uninitialized s) :
    ProcessesInv syncEveryIteration tasks uninitialized s := by
  induction hs with
  | refl =>
      refine ⟨.refl, fun _ _ => rfl, fun t ht => ?_, rfl, ⟨fun _ => rfl, rfl, rfl⟩, fun _ => rfl⟩
      cases ht
  | tail _ hstep ih => exact ih.step hstep

/-- The task has ended, or has not been forked when it was its turn. -/
def ProcessesState.Gone (s : ProcessesState N) (i : Fin N) : Prop :=
  (s.host.point i).Ended ∨
    s.forked i = false ∧ s.point ≠ .allocating ∧ ∀ k, s.point = .forking k → (i : ℕ) < k

/-- Tasks that are gone stay gone, and whoever waits for them goes on waiting. -/
theorem ProcessesState.Gone.step (hs : ProcessesInv syncEveryIteration tasks uninitialized s)
    (hgone : s.Gone i) (hmisses : Misses s.host j i)
    (hstep : ProcessesStep syncEveryIteration tasks uninitialized s s') :
    s'.Gone i ∧ Misses s'.host j i := by
  cases hstep with
  | allocFails point => exact ⟨hgone.imp_right fun h => absurd point h.2.1, hmisses⟩
  | alloc point => exact ⟨hgone.imp_right fun h => absurd point h.2.1, hmisses⟩
  | fork k point =>
      refine ⟨hgone.imp_right fun ⟨hforked, _, hpast⟩ => ⟨?_, by simp, ?_⟩, hmisses⟩
      · have hik : i ≠ k := by
          rintro rfl
          exact absurd (hpast _ point) (Nat.lt_irrefl _)
        dsimp only
        rw [Function.update_of_ne hik]
        exact hforked
      · rintro _ ⟨⟩
        exact Nat.lt_succ_of_lt (hpast _ point)
  | forkFails k point =>
      refine ⟨hgone.imp_right fun ⟨hforked, _, hpast⟩ => ⟨hforked, by simp, ?_⟩, hmisses⟩
      rintro _ ⟨⟩
      exact Nat.lt_succ_of_lt (hpast _ point)
  | forkedAll point => exact ⟨hgone.imp_right fun h => ⟨h.1, by simp, by simp⟩, hmisses⟩
  | reap => exact ⟨hgone.imp_right fun h => ⟨h.1, nofun, nofun⟩, hmisses⟩
  | noChild => exact ⟨hgone.imp_right fun h => ⟨h.1, nofun, nofun⟩, hmisses⟩
  | finish => exact ⟨hgone.imp_right fun h => ⟨h.1, by simp, by simp⟩, hmisses⟩
  | task host step notForked =>
      have hstays : host.point i = s.host.point i := by
        rcases hgone with hended | ⟨hforked, -⟩
        · exact step.point_of_ended hended
        · exact notForked i hforked
      refine ⟨hgone.imp_left fun hended => ?_, hmisses.step hs.host step hstays⟩
      dsimp only
      rw [hstays]
      exact hended

theorem ProcessesState.Gone.run
    (hs : ProcessesReachable syncEveryIteration tasks uninitialized s)
    (hgone : s.Gone i) (hmisses : Misses s.host j i)
    (hrun : ReflTransGen (ProcessesStep syncEveryIteration tasks uninitialized) s s') :
    ProcessesReachable syncEveryIteration tasks uninitialized s' ∧ s'.Gone i ∧
      Misses s'.host j i := by
  induction hrun with
  | refl => exact ⟨hs, hgone, hmisses⟩
  | tail _ hstep ih =>
      obtain ⟨hreached, hgone', hmisses'⟩ := ih
      exact ⟨hreached.tail hstep, hgone'.step hreached.inv hmisses' hstep⟩

end Processes

/-! ## Results -/

/-- When `RunAsProcesses` ends, all processes have ended and have been waited for, and all have
failed if one could not be forked.  It reports success exactly if it has forked all tasks and
they have returned, or if it has forked none and what it finds for a status looks so. -/
theorem runAsProcesses_result {N : ℕ} (syncEveryIteration : Bool)
    (tasks : Fin N → Assignment.TaskConfig) (uninitialized : ChildStatus) (s : ProcessesState N)
    (hs : ProcessesReachable syncEveryIteration tasks uninitialized s) (hdone : s.point = .done) :
    (s.allOk = true ↔ s.allocated = true ∧
      ((∀ t, s.forked t = true ∧ s.host.point t = .returned) ∨
        (∀ t, s.forked t = false) ∧ uninitialized.isOk = true)) ∧
    ∀ t, s.forked t = true → s.reaped t = true ∧ (s.host.point t).Ended ∧
      ((∃ j, s.forked j = false) → s.host.point t = .failed) := by
  obtain ⟨hhost, hnot, hreaped, hat⟩ := ProcessesReachable.inv hs
  simp only [ProcessesState.AtPoint, hdone] at hat
  rcases hat with ⟨hallocated, hwaited⟩ | ⟨hallocated, hfalse, hforked⟩
  · have hall (t : Fin N) (ht : s.forked t = true) : s.reaped t = true :=
      hwaited.reaped t t.isLt ht
    constructor
    · rw [hwaited.allOk]
      constructor
      · rintro ⟨hreturned, hok⟩
        refine ⟨hallocated, ?_⟩
        by_cases hany : ∃ t, s.forked t = true
        · obtain ⟨t, ht⟩ := hany
          -- a task that was not forked would have kept it from returning
          have hforked (j : Fin N) : s.forked j = true := by
            by_contra hj
            have hmissing := hnot j (Bool.not_eq_true _ ▸ hj)
            exact hhost.not_returned hmissing (hreturned t (hall t ht))
          exact .inl fun j => ⟨hforked j, hreturned j (hall j (hforked j))⟩
        · have hnone (t : Fin N) : s.forked t = false := by
            by_contra ht
            exact hany ⟨t, Bool.not_eq_false _ ▸ ht⟩
          rcases Nat.eq_zero_or_pos N with hzero | hpos
          · exact .inl fun t => absurd t.isLt (by omega)
          · refine .inr ⟨hnone, hok hpos ?_⟩
            by_contra hsome
            obtain ⟨status, hstatus⟩ := Option.ne_none_iff_exists'.mp hsome
            obtain ⟨t, ht, -⟩ := hwaited.exits status hstatus
            exact absurd (hreaped t ht).1 (by simp [hnone t])
      · rintro ⟨-, hreturned | ⟨hnone, hok⟩⟩
        · refine ⟨fun t _ => (hreturned t).2, fun hpos hstatus => ?_⟩
          have hunforked := (hwaited.noStatus hstatus).2 hpos ⟨0, hpos⟩
          exact absurd (hreturned ⟨0, hpos⟩).1 (by simp [hunforked])
        · exact ⟨fun t ht => absurd (hreaped t ht).1 (by simp [hnone t]), fun _ _ => hok⟩
    · intro t ht
      have hended := (hreaped t (hall t ht)).2
      refine ⟨hall t ht, hended, fun ⟨j, hj⟩ => hended.resolve_left ?_⟩
      exact hhost.not_returned (hnot j hj)
  · refine ⟨by simp [hfalse, hallocated], fun t ht => ?_⟩
    exact absurd ht (by simp [hforked t])

/-- Two tasks that cannot be forked. -/
theorem runAsProcesses_result_two :
    ∃ s : ProcessesState 2, s.point = .done ∧ (∀ t, s.forked t = false) ∧ s.allOk = true := by
  obtain ⟨s, hs, hdone, hallocated, hnone⟩ : ∃ s : ProcessesState 2,
      ProcessesReachable false (fun _ => limited 1) (.exited 0) s ∧ s.point = .done ∧
        s.allocated = true ∧ ∀ t, s.forked t = false :=
    ⟨_, ((((((ReflTransGen.refl.tail (.alloc rfl)).tail (.forkFails 0 rfl)).tail
      (.forkFails 1 rfl)).tail (.forkedAll rfl)).tail (.noChild 0 rfl nofun fun _ _ => nofun)).tail
      (.noChild 1 rfl nofun fun _ _ => nofun)).tail (.finish rfl),
      rfl, rfl, fun _ => rfl⟩
  exact ⟨s, hdone, hnone,
    (runAsProcesses_result false _ _ s hs hdone).1.mpr ⟨hallocated, .inr ⟨hnone, rfl⟩⟩⟩

/-- `RunAsProcesses` never ends once a process waits in the barrier for a task that has ended or
that could not be forked. -/
theorem runAsProcesses_hangs {N : ℕ} (syncEveryIteration : Bool)
    (tasks : Fin N → Assignment.TaskConfig) (uninitialized : ChildStatus)
    (s s' : ProcessesState N) (j i : Fin N)
    (hs : ProcessesReachable syncEveryIteration tasks uninitialized s) (hgone : s.Gone i)
    (hmisses : Misses s.host j i)
    (hrun : ReflTransGen (ProcessesStep syncEveryIteration tasks uninitialized) s s') :
    s'.point ≠ .done := by
  intro hdone
  obtain ⟨hs', -, hsync, -, -⟩ := hgone.run hs hmisses hrun
  obtain ⟨-, hnot, hreaped, hat⟩ := hs'.inv
  have hforked : s'.forked j = true := by
    by_contra hj
    rw [hnot j (Bool.not_eq_true _ ▸ hj)] at hsync
    exact absurd hsync (by decide)
  simp only [ProcessesState.AtPoint, hdone] at hat
  rcases hat with ⟨-, hwaited⟩ | ⟨-, -, hnone⟩
  · exact (hreaped j (hwaited.reaped j j.isLt hforked)).2.not_isSync hsync
  · exact absurd hforked (by simp [hnone j])

/-- The first of two processes has been initialized, and the second cannot be forked. -/
theorem runAsProcesses_hangs_two :
    ∃ s : ProcessesState 2, s.forked 0 = true ∧ s.host.point 0 = .initSync ∧
      ∀ s', ReflTransGen (ProcessesStep false (fun _ => limited 1) (.exited 0)) s s' →
        s'.point ≠ .done := by
  obtain ⟨s, hs, hforked, hpoint, hgone, hmisses⟩ : ∃ s : ProcessesState 2,
      ProcessesReachable false (fun _ => limited 1) (.exited 0) s ∧ s.forked 0 = true ∧
        s.host.point 0 = .initSync ∧ s.Gone 1 ∧ Misses s.host 0 1 :=
    ⟨_, (((ReflTransGen.refl.tail (.alloc rfl)).tail (.fork 0 rfl)).tail
      (.task _ (.initialized 0 rfl) (by decide))).tail (.forkFails 1 rfl),
      rfl, rfl, .inr ⟨rfl, nofun, by rintro _ ⟨⟩; decide⟩, .inl rfl, by decide, rfl⟩
  exact ⟨s, hforked, hpoint, fun s' hrun =>
    runAsProcesses_hangs false _ _ s s' 0 1 hs hgone hmisses hrun⟩

end A100Partitioning.TaskHost
