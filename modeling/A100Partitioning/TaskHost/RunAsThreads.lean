import A100Partitioning.TaskHost.MissingTasks
import A100Partitioning.TaskHost.SyncedRuns

/-!
# Running the tasks as threads

`RunAsThreads` creates a thread for each task up to the first failure, and joins all that it has
created.  The barrier still counts the tasks whose threads could not be created.
-/

namespace A100Partitioning.TaskHost

open Config (Double GlobalConfiguration CJson)
open Assignment (Host createTaskConfigs)
open Relation (ReflTransGen)

/-! ## The code -/

/-- Where `RunAsThreads` is; `joining left` has the first `left` threads yet to join. -/
inductive ThreadsPoint where
  | allocating
  | creating
  | joining (left : ℕ)
  | done
  deriving DecidableEq, Repr

/-- `RunAsThreads` and its threads, of which the first `created` have been created. -/
structure ThreadsState (N : ℕ) where
  point : ThreadsPoint
  allocated : Bool
  toReturn : Bool
  created : ℕ
  joinFailed : Bool
  host : HostState N

def threadsInit (N : ℕ) : ThreadsState N where
  point := .allocating
  allocated := false
  toReturn := false
  created := 0
  joinFailed := false
  host := hostInit N

/-- A step of `RunAsThreads`, whose calls may fail, or of a thread that it has created. -/
inductive ThreadsStep {N : ℕ} (syncEveryIteration : Bool)
    (tasks : Fin N → Assignment.TaskConfig) : ThreadsState N → ThreadsState N → Prop where
  | allocFails {s : ThreadsState N} (point : s.point = .allocating) :
      ThreadsStep syncEveryIteration tasks s { s with point := .done }
  | alloc {s : ThreadsState N} (point : s.point = .allocating) :
      ThreadsStep syncEveryIteration tasks s
        { s with point := .creating, allocated := true, toReturn := true }
  | create {s : ThreadsState N} (point : s.point = .creating) (left : s.created < N) :
      ThreadsStep syncEveryIteration tasks s { s with created := s.created + 1 }
  | createFails {s : ThreadsState N} (point : s.point = .creating) (left : s.created < N) :
      ThreadsStep syncEveryIteration tasks s
        { s with point := .joining s.created, toReturn := false }
  | createdAll {s : ThreadsState N} (point : s.point = .creating) (all : s.created = N) :
      ThreadsStep syncEveryIteration tasks s { s with point := .joining N }
  | join {s : ThreadsState N} (i : Fin N) (point : s.point = .joining (i + 1))
      (ended : (s.host.point i).Ended) :
      ThreadsStep syncEveryIteration tasks s
        { s with
          point := .joining i
          toReturn := s.toReturn && decide (s.host.point i = .returned) }
  | joinFails {s : ThreadsState N} (i : Fin N) (point : s.point = .joining (i + 1)) :
      ThreadsStep syncEveryIteration tasks s
        { s with point := .joining i, toReturn := false, joinFailed := true }
  | finish {s : ThreadsState N} (point : s.point = .joining 0) :
      ThreadsStep syncEveryIteration tasks s { s with point := .done }
  | task {s : ThreadsState N} (host : HostState N)
      (step : HostStep syncEveryIteration tasks s.host host)
      (notCreated : ∀ t : Fin N, s.created ≤ t → host.point t = s.host.point t) :
      ThreadsStep syncEveryIteration tasks s { s with host }

/-- States of `RunAsThreads` and its threads. -/
def ThreadsReachable {N : ℕ} (syncEveryIteration : Bool) (tasks : Fin N → Assignment.TaskConfig)
    (s : ThreadsState N) : Prop :=
  ReflTransGen (ThreadsStep syncEveryIteration tasks) (threadsInit N) s

/-! ## What has been joined -/

section Threads

variable {N : ℕ} {syncEveryIteration : Bool} {tasks : Fin N → Assignment.TaskConfig}
  {s s' : ThreadsState N} {i j : Fin N} {left : ℕ}

/-- The threads from `left` on have been joined, and `to_return` says how they ended. -/
structure Joined (s : ThreadsState N) (left : ℕ) : Prop where
  ended : s.joinFailed = false → ∀ t : Fin N, left ≤ t → t < s.created → (s.host.point t).Ended
  result : s.toReturn = true ↔ s.created = N ∧ s.joinFailed = false ∧
    ∀ t : Fin N, left ≤ t → s.host.point t = .returned

/-- What is known where `RunAsThreads` is. -/
def ThreadsState.AtPoint (s : ThreadsState N) : Prop :=
  match s.point with
  | .allocating => s.created = 0 ∧ s.allocated = false ∧ s.toReturn = false ∧ s.joinFailed = false
  | .creating => s.allocated = true ∧ s.toReturn = true ∧ s.joinFailed = false
  | .joining left => s.allocated = true ∧ left ≤ s.created ∧ Joined s left
  | .done => s.allocated = true ∧ Joined s 0 ∨
      s.allocated = false ∧ s.created = 0 ∧ s.toReturn = false

structure ThreadsInv (syncEveryIteration : Bool) (tasks : Fin N → Assignment.TaskConfig)
    (s : ThreadsState N) : Prop where
  host : HostReachable syncEveryIteration tasks s.host
  created_le : s.created ≤ N
  notCreated : ∀ t : Fin N, s.created ≤ t → s.host.point t = .initializing
  atPoint : s.AtPoint

/-- Joined threads have ended, so that nothing changes for them. -/
theorem Joined.task {host : HostState N} (h : Joined s left)
    (hstep : HostStep syncEveryIteration tasks s.host host) : Joined { s with host } left := by
  have hsame (hjoined : s.joinFailed = false) (t : Fin N) (hleft : left ≤ t)
      (hcreated : t < s.created) : host.point t = s.host.point t :=
    hstep.point_of_ended (h.ended hjoined t hleft hcreated)
  constructor
  · intro hjoined t hleft hcreated
    have hended := h.ended hjoined t hleft hcreated
    rw [← hsame hjoined t hleft hcreated] at hended
    exact hended
  · refine h.result.trans ?_
    refine and_congr_right fun hall => and_congr_right fun hjoined => forall_congr' fun t => ?_
    refine imp_congr_right fun hleft => ?_
    have hcreated : (t : ℕ) < s.created := t.isLt.trans_eq hall.symm
    dsimp only
    rw [hsame hjoined t hleft hcreated]

theorem Joined.join (h : Joined s (i + 1)) (hended : (s.host.point i).Ended) :
    Joined { s with
      point := .joining i
      toReturn := s.toReturn && decide (s.host.point i = .returned) } i := by
  have hcases (t : Fin N) (hleft : (i : ℕ) ≤ t) : t = i ∨ (i : ℕ) + 1 ≤ t := by
    by_cases hti : t = i
    · exact .inl hti
    · exact .inr (Nat.lt_of_le_of_ne hleft fun heq => hti (Fin.ext heq.symm))
  constructor
  · intro hjoined t hleft hcreated
    rcases hcases t hleft with rfl | hlater
    · exact hended
    · exact h.ended hjoined t hlater hcreated
  · dsimp only
    rw [Bool.and_eq_true, h.result, decide_eq_true_iff]
    constructor
    · rintro ⟨⟨hall, hjoined, hreturned⟩, hi⟩
      refine ⟨hall, hjoined, fun t hleft => ?_⟩
      rcases hcases t hleft with rfl | hlater
      · exact hi
      · exact hreturned t hlater
    · rintro ⟨hall, hjoined, hreturned⟩
      exact ⟨⟨hall, hjoined, fun t hlater => hreturned t (Nat.le_of_succ_le hlater)⟩,
        hreturned i le_rfl⟩

theorem ThreadsInv.step (h : ThreadsInv syncEveryIteration tasks s)
    (hstep : ThreadsStep syncEveryIteration tasks s s') :
    ThreadsInv syncEveryIteration tasks s' := by
  obtain ⟨hhost, hle, hnot, hat⟩ := h
  cases hstep with
  | allocFails point =>
      rw [ThreadsState.AtPoint, point] at hat
      exact ⟨hhost, hle, hnot, .inr ⟨hat.2.1, hat.1, hat.2.2.1⟩⟩
  | alloc point =>
      rw [ThreadsState.AtPoint, point] at hat
      exact ⟨hhost, hle, hnot, ⟨rfl, rfl, hat.2.2.2⟩⟩
  | create point left =>
      refine ⟨hhost, left, fun t ht => hnot t (Nat.le_of_succ_le ht), ?_⟩
      simp only [ThreadsState.AtPoint, point] at hat ⊢
      exact hat
  | createFails point left =>
      rw [ThreadsState.AtPoint, point] at hat
      refine ⟨hhost, hle, hnot, hat.1, le_rfl, ?_, ?_⟩
      · intro _ t hleft hcreated
        exact absurd hcreated (not_lt.mpr hleft)
      · refine iff_of_false Bool.false_ne_true fun hall => ?_
        exact absurd hall.1 left.ne
  | createdAll point all =>
      rw [ThreadsState.AtPoint, point] at hat
      refine ⟨hhost, hle, hnot, hat.1, all.ge, ?_, ?_⟩
      · intro _ t hleft
        exact absurd t.isLt (not_lt.mpr hleft)
      · refine iff_of_true hat.2.1 ⟨all, hat.2.2, fun t hleft => ?_⟩
        exact absurd t.isLt (not_lt.mpr hleft)
  | join i point ended =>
      rw [ThreadsState.AtPoint, point] at hat
      exact ⟨hhost, hle, hnot, hat.1, Nat.le_of_succ_le hat.2.1, hat.2.2.join ended⟩
  | joinFails i point =>
      rw [ThreadsState.AtPoint, point] at hat
      refine ⟨hhost, hle, hnot, hat.1, Nat.le_of_succ_le hat.2.1, ?_, ?_⟩
      · intro hjoined
        cases hjoined
      · exact iff_of_false Bool.false_ne_true fun hall => Bool.noConfusion hall.2.1
  | finish point =>
      rw [ThreadsState.AtPoint, point] at hat
      exact ⟨hhost, hle, hnot, .inl ⟨hat.1, hat.2.2.ended, hat.2.2.result⟩⟩
  | task host step notCreated =>
      refine ⟨hhost.tail step, hle, fun t ht => (notCreated t ht).trans (hnot t ht), ?_⟩
      cases hpoint : s.point with
      | allocating | creating =>
          simp only [ThreadsState.AtPoint, hpoint] at hat ⊢
          exact hat
      | joining left =>
          simp only [ThreadsState.AtPoint, hpoint] at hat ⊢
          obtain ⟨hended, hresult⟩ := hat.2.2.task step
          exact ⟨hat.1, hat.2.1, hended, hresult⟩
      | done =>
          simp only [ThreadsState.AtPoint, hpoint] at hat ⊢
          refine hat.imp_left fun hjoined => ?_
          obtain ⟨hended, hresult⟩ := hjoined.2.task step
          exact ⟨hjoined.1, hended, hresult⟩

theorem ThreadsReachable.inv (hs : ThreadsReachable syncEveryIteration tasks s) :
    ThreadsInv syncEveryIteration tasks s := by
  induction hs with
  | refl => exact ⟨.refl, Nat.zero_le N, fun _ _ => rfl, rfl, rfl, rfl, rfl⟩
  | tail _ hstep ih => exact ih.step hstep

/-- The task has ended, or will never be started. -/
def ThreadsState.Gone (s : ThreadsState N) (i : Fin N) : Prop :=
  (s.host.point i).Ended ∨
    s.created ≤ i ∧ s.point ≠ .allocating ∧ s.point ≠ .creating

/-- Tasks that are gone stay gone, and whoever waits for them goes on waiting. -/
theorem ThreadsState.Gone.step (hs : ThreadsInv syncEveryIteration tasks s) (hgone : s.Gone i)
    (hmisses : Misses s.host j i) (hstep : ThreadsStep syncEveryIteration tasks s s') :
    s'.Gone i ∧ Misses s'.host j i := by
  cases hstep with
  | allocFails point => exact ⟨hgone.imp_right fun h => absurd point h.2.1, hmisses⟩
  | alloc point => exact ⟨hgone.imp_right fun h => absurd point h.2.1, hmisses⟩
  | create point => exact ⟨hgone.imp_right fun h => absurd point h.2.2, hmisses⟩
  | createFails point => exact ⟨hgone.imp_right fun h => absurd point h.2.2, hmisses⟩
  | createdAll point => exact ⟨hgone.imp_right fun h => absurd point h.2.2, hmisses⟩
  | join | joinFails | finish =>
      exact ⟨hgone.imp_right fun h => ⟨h.1, by simp, by simp⟩, hmisses⟩
  | task host step notCreated =>
      have hstays : host.point i = s.host.point i := by
        rcases hgone with hended | ⟨hcreated, -⟩
        · exact step.point_of_ended hended
        · exact notCreated i hcreated
      refine ⟨hgone.imp_left fun hended => ?_, hmisses.step hs.host step hstays⟩
      dsimp only
      rw [hstays]
      exact hended

theorem ThreadsState.Gone.run (hs : ThreadsReachable syncEveryIteration tasks s)
    (hgone : s.Gone i) (hmisses : Misses s.host j i)
    (hrun : ReflTransGen (ThreadsStep syncEveryIteration tasks) s s') :
    ThreadsReachable syncEveryIteration tasks s' ∧ s'.Gone i ∧ Misses s'.host j i := by
  induction hrun with
  | refl => exact ⟨hs, hgone, hmisses⟩
  | tail _ hstep ih =>
      obtain ⟨hreached, hgone', hmisses'⟩ := ih
      exact ⟨hreached.tail hstep, hgone'.step hreached.inv hmisses' hstep⟩

end Threads

/-! ## Runs in which nothing fails -/

section Completes

variable {N : ℕ} {syncEveryIteration : Bool} {tasks : Fin N → Assignment.TaskConfig}
  {s : ThreadsState N}

theorem exists_createdAll (hpoint : s.point = .creating) (hle : s.created ≤ N) :
    ∃ s', ReflTransGen (ThreadsStep syncEveryIteration tasks) s s' ∧ s'.point = .joining N ∧
      s'.created = N ∧ s'.toReturn = s.toReturn ∧ s'.host = s.host := by
  -- by induction on how many threads are left
  induction hn : N - s.created generalizing s with
  | zero =>
      have hall : s.created = N := by omega
      exact ⟨_, .single (.createdAll hpoint hall), rfl, hall, rfl, rfl⟩
  | succ n ih =>
      have hleft : s.created < N := by omega
      have hstep : ThreadsStep syncEveryIteration tasks s { s with created := s.created + 1 } :=
        .create hpoint hleft
      obtain ⟨s', hrun, hjoining, hall, hresult, hhost⟩ :=
        ih (s := { s with created := s.created + 1 }) hpoint hleft (by dsimp only; omega)
      exact ⟨s', .head hstep hrun, hjoining, hall, hresult, hhost⟩

/-- When all threads have been created, they can do whatever the tasks can. -/
theorem threadsStep_of_host {host : HostState N} (hall : s.created = N)
    (hrun : ReflTransGen (HostStep syncEveryIteration tasks) s.host host) :
    ReflTransGen (ThreadsStep syncEveryIteration tasks) s { s with host } := by
  induction hrun with
  | refl => exact .refl
  | tail _ hstep ih =>
      refine ih.tail (.task _ hstep fun t ht => ?_)
      dsimp only at ht
      exact absurd t.isLt (not_lt.mpr (hall.ge.trans ht))

/-- Threads whose tasks have returned can be joined, one after another. -/
theorem exists_joined {left : ℕ} (hpoint : s.point = .joining left) (hleft : left ≤ N)
    (hresult : s.toReturn = true) (hreturned : ∀ t, s.host.point t = .returned) :
    ∃ s', ReflTransGen (ThreadsStep syncEveryIteration tasks) s s' ∧ s'.point = .done ∧
      s'.toReturn = true := by
  induction left generalizing s with
  | zero => exact ⟨_, .single (.finish hpoint), rfl, hresult⟩
  | succ left ih =>
      have hi : s.host.point ⟨left, hleft⟩ = .returned := hreturned _
      have hjoin : ThreadsStep syncEveryIteration tasks s
          { s with
            point := .joining left
            toReturn := s.toReturn && decide (s.host.point ⟨left, hleft⟩ = .returned) } :=
        .join ⟨left, hleft⟩ hpoint (.inl hi)
      simp only [hi, hresult, decide_true, Bool.and_self] at hjoin
      obtain ⟨s', hrun, hdone, hresult'⟩ :=
        ih (s := { s with point := .joining left, toReturn := true }) rfl
          (Nat.le_of_succ_le hleft) rfl hreturned
      exact ⟨s', .head hjoin hrun, hdone, hresult'⟩

/-- As long as no call has failed, the other threads can be created, and then all be joined when
they have returned. -/
theorem ThreadsReachable.exists_done (hs : ThreadsReachable syncEveryIteration tasks s)
    (hfine : s.point = .allocating ∨ s.toReturn = true)
    (hreturn : ∃ host, ReflTransGen (HostStep syncEveryIteration tasks) s.host host ∧
      ∀ t, host.point t = .returned) :
    ∃ s', ReflTransGen (ThreadsStep syncEveryIteration tasks) s s' ∧ s'.point = .done ∧
      s'.toReturn = true := by
  obtain ⟨host, hhost, hreturned⟩ := hreturn
  have hjoining {s' : ThreadsState N} {left : ℕ}
      (hrun : ReflTransGen (ThreadsStep syncEveryIteration tasks) s s')
      (hpoint : s'.point = .joining left) (hleft : left ≤ N) (hall : s'.created = N)
      (hresult : s'.toReturn = true) (hsame : s'.host = s.host) :
      ∃ s', ReflTransGen (ThreadsStep syncEveryIteration tasks) s s' ∧ s'.point = .done ∧
        s'.toReturn = true := by
    obtain ⟨s'', hjoin, hdone, hresult'⟩ :=
      exists_joined (s := { s' with host }) hpoint hleft hresult hreturned
    rw [← hsame] at hhost
    exact ⟨s'', (hrun.trans (threadsStep_of_host hall hhost)).trans hjoin, hdone, hresult'⟩
  have hcreating {s' : ThreadsState N}
      (hrun : ReflTransGen (ThreadsStep syncEveryIteration tasks) s s')
      (hpoint : s'.point = .creating) (hle : s'.created ≤ N) (hresult : s'.toReturn = true)
      (hsame : s'.host = s.host) :
      ∃ s', ReflTransGen (ThreadsStep syncEveryIteration tasks) s s' ∧ s'.point = .done ∧
        s'.toReturn = true := by
    obtain ⟨s'', hcreate, hpoint', hall, hresult', hsame'⟩ : ∃ s'',
        ReflTransGen (ThreadsStep syncEveryIteration tasks) s' s'' ∧ s''.point = .joining N ∧
          s''.created = N ∧ s''.toReturn = s'.toReturn ∧ s''.host = s'.host :=
      exists_createdAll hpoint hle
    exact hjoining (hrun.trans hcreate) hpoint' le_rfl hall (hresult'.trans hresult)
      (hsame'.trans hsame)
  obtain ⟨-, hle, -, hat⟩ := hs.inv
  cases hpoint : s.point with
  | allocating => exact hcreating (.single (.alloc hpoint)) rfl hle rfl rfl
  | creating =>
      have hresult := hfine.resolve_left (by simp [hpoint])
      exact hcreating .refl hpoint hle hresult rfl
  | joining left =>
      have hresult := hfine.resolve_left (by simp [hpoint])
      simp only [ThreadsState.AtPoint, hpoint] at hat
      have hall := (hat.2.2.result.mp hresult).1
      exact hjoining .refl hpoint (hat.2.1.trans hle) hall hresult rfl
  | done => exact ⟨s, .refl, hpoint, hfine.resolve_left (by simp [hpoint])⟩

end Completes

/-! ## Results -/

/-- `RunAsThreads` reports success exactly if it has created all threads, has joined them, and
all tasks have returned.  Unless joining fails, all threads have ended; and if they have, all
have failed where not all could be created, and otherwise one task only fails after another
has returned if they are synchronized and it is in a later iteration. -/
theorem runAsThreads_result {N : ℕ} (syncEveryIteration : Bool)
    (tasks : Fin N → Assignment.TaskConfig) (s : ThreadsState N)
    (hs : ThreadsReachable syncEveryIteration tasks s) (hdone : s.point = .done) :
    (s.toReturn = true ↔ s.allocated = true ∧ s.created = N ∧ s.joinFailed = false ∧
      ∀ t, s.host.point t = .returned) ∧
    (s.joinFailed = false → ∀ t : Fin N, t < s.created → (s.host.point t).Ended ∧
      (s.created < N → s.host.point t = .failed)) ∧
    ∀ t j, s.host.point t = .returned → s.host.point j = .failed →
      syncEveryIteration = true ∧ s.host.iterations t ≤ s.host.iterations j := by
  obtain ⟨hhost, hle, hnot, hat⟩ := ThreadsReachable.inv hs
  simp only [ThreadsState.AtPoint, hdone] at hat
  refine ⟨?_, fun hjoined t hcreated => ?_, fun t j => hhost.returned_failed⟩
  · rcases hat with ⟨hallocated, hended, hresult⟩ | ⟨hallocated, -, hfalse⟩
    · rw [hresult]
      constructor
      · rintro ⟨hall, hjoined, hreturned⟩
        exact ⟨hallocated, hall, hjoined, fun t => hreturned t (Nat.zero_le _)⟩
      · rintro ⟨-, hall, hjoined, hreturned⟩
        exact ⟨hall, hjoined, fun t _ => hreturned t⟩
    · simp [hallocated, hfalse]
  · rcases hat with ⟨-, hended, -⟩ | ⟨-, hzero, -⟩
    · have ht := hended hjoined t (Nat.zero_le _) hcreated
      refine ⟨ht, fun hless => ht.resolve_left ?_⟩
      have hmissing : s.host.point ⟨s.created, hless⟩ = .initializing := hnot _ le_rfl
      exact hhost.not_returned hmissing
    · omega

/-- Two threads, of which the second cannot be created. -/
theorem runAsThreads_result_two :
    ∃ s : ThreadsState 2, s.point = .done ∧ s.created = 1 ∧ s.toReturn = false ∧
      ∀ t : Fin 2, t < s.created → s.host.point t = .failed := by
  obtain ⟨s, hs, hdone, hcreated, hresult, hjoined⟩ : ∃ s : ThreadsState 2,
      ThreadsReachable true (fun _ => limited 2) s ∧ s.point = .done ∧ s.created = 1 ∧
        s.toReturn = false ∧ s.joinFailed = false :=
    ⟨_, (((((ReflTransGen.refl.tail (.alloc rfl)).tail (.create rfl (by decide))).tail
      (.createFails rfl (by decide))).tail
        (.task _ (.fail 0 (.inl rfl)) (by decide))).tail
          (.join 0 rfl (.inr rfl))).tail (.finish rfl), rfl, rfl, rfl, rfl⟩
  refine ⟨s, hdone, hcreated, hresult, fun t ht => ?_⟩
  exact ((runAsThreads_result true _ s hs hdone).2.1 hjoined t ht).2 (by omega)

/-- `RunAsThreads` never ends, unless joining fails, once a thread waits in the barrier for one
that has ended or that could not be created. -/
theorem runAsThreads_hangs {N : ℕ} (syncEveryIteration : Bool)
    (tasks : Fin N → Assignment.TaskConfig) (s s' : ThreadsState N) (j i : Fin N)
    (hs : ThreadsReachable syncEveryIteration tasks s) (hgone : s.Gone i)
    (hmisses : Misses s.host j i)
    (hrun : ReflTransGen (ThreadsStep syncEveryIteration tasks) s s')
    (hjoined : s'.joinFailed = false) : s'.point ≠ .done := by
  intro hdone
  obtain ⟨hs', -, hsync, -, -⟩ := hgone.run hs hmisses hrun
  obtain ⟨-, -, hnot, hat⟩ := hs'.inv
  have hcreated : (j : ℕ) < s'.created := by
    by_contra hj
    rw [hnot j (not_lt.mp hj)] at hsync
    exact absurd hsync (by decide)
  simp only [ThreadsState.AtPoint, hdone] at hat
  rcases hat with ⟨-, hended, -⟩ | ⟨-, hzero, -⟩
  · exact (hended hjoined j (Nat.zero_le _) hcreated).not_isSync hsync
  · omega

/-- The first of two threads has been initialized, and the second cannot be created. -/
theorem runAsThreads_hangs_two :
    ∃ s : ThreadsState 2, s.created = 1 ∧ s.host.point 0 = .initSync ∧
      ∀ s', ReflTransGen (ThreadsStep false fun _ => limited 1) s s' →
        s'.joinFailed = false → s'.point ≠ .done := by
  obtain ⟨s, hs, hcreated, hpoint, hgone, hmisses⟩ : ∃ s : ThreadsState 2,
      ThreadsReachable false (fun _ => limited 1) s ∧ s.created = 1 ∧
        s.host.point 0 = .initSync ∧ s.Gone 1 ∧ Misses s.host 0 1 :=
    ⟨_, (((ReflTransGen.refl.tail (.alloc rfl)).tail (.create rfl (by decide))).tail
      (.task _ (.initialized 0 rfl) (by decide))).tail (.createFails rfl (by decide)),
      rfl, rfl, .inr ⟨le_rfl, nofun, nofun⟩, .inl rfl, by decide, rfl⟩
  exact ⟨s, hcreated, hpoint, fun s' hrun hjoined =>
    runAsThreads_hangs false _ s s' 0 1 hs hgone hmisses hrun hjoined⟩

/-- Where only the iteration limits of an accepted configuration end the loops, `RunAsThreads`
can still report success as long as nothing has failed; and when it does, each task has done
exactly the iterations that it was given. -/
theorem runAsThreads_completes (outOfRange : Double → ℤ) (smctrl : Bool) (root : CJson)
    (config : GlobalConfiguration) (host : Host) (newList : List Assignment.TaskConfig)
    (hparse : Config.parseRoot outOfRange smctrl root = .ok config)
    (hcreated : createTaskConfigs host config = .created newList)
    (hlimited : ∀ task ∈ newList, OnlyLimited task) (s : ThreadsState newList.length)
    (hs : ThreadsReachable config.syncEveryIteration newList.get s) :
    ((s.point = .allocating ∨ s.toReturn = true) → (∀ t, s.host.point t ≠ .failed) →
      ∃ s', ReflTransGen (ThreadsStep config.syncEveryIteration newList.get) s s' ∧
        s'.point = .done ∧ s'.toReturn = true) ∧
    (s.point = .done → s.toReturn = true →
      ∀ t, (s.host.iterations t : ℤ) = (newList.get t).maxIterations) := by
  have htasks (t : Fin newList.length) : OnlyLimited (newList.get t) :=
    hlimited _ (newList.get_mem t)
  obtain ⟨hhost, -, -, hat⟩ := ThreadsReachable.inv hs
  constructor
  · intro hfine hrunning
    refine ThreadsReachable.exists_done hs hfine ?_
    refine hhost.exists_returned htasks (fun hsync t j => ?_) hrunning
    rw [maxIterations_of_created hparse hcreated hsync (newList.get_mem t),
      maxIterations_of_created hparse hcreated hsync (newList.get_mem j)]
  · intro hdone hresult t
    simp only [ThreadsState.AtPoint, hdone] at hat
    rcases hat with ⟨-, hjoined⟩ | ⟨-, -, hfalse⟩
    · have hreturned := (hjoined.result.mp hresult).2.2 t (Nat.zero_le _)
      exact hhost.iterations_of_returned htasks hreturned
    · exact absurd hresult (by simp [hfalse])

/-- Two benchmarks with one iteration. -/
theorem runAsThreads_completes_two :
    ∃ config newList, Config.parseRoot (fun _ => 0) false syncedPair = .ok config ∧
      createTaskConfigs oneCpu config = .created newList ∧
      newList.map Assignment.TaskConfig.maxIterations = [1, 1] ∧
      ∃ s, ThreadsReachable config.syncEveryIteration newList.get s ∧ s.point = .done ∧
        s.toReturn = true := by
  obtain ⟨config, hconfig, hpaired⟩ := exists_paired
  obtain ⟨newList, hcreated, hiterations, hlimited⟩ := hpaired.exists_created
  refine ⟨config, newList, hconfig, hcreated, hiterations, ?_⟩
  exact (runAsThreads_completes (fun _ => 0) false syncedPair config oneCpu newList hconfig
    hcreated hlimited (threadsInit _) .refl).1 (.inl rfl) (fun _ => by simp [threadsInit, hostInit])

end A100Partitioning.TaskHost
