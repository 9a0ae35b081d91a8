import A100Partitioning.Support.CyclicBarrier
import Mathlib.Logic.Relation

/-!
# The two-process mask-swap demo

Two processes run `run_role`.  In each phase, both meet at one barrier, launch a
kernel under the mask that their role has in this phase, drain their stream, and
meet at another.  A `Proc` is one process's position and variables; its steps
are labelled with what they do at the barriers.  A `State` adds the barriers.
-/

namespace A100Partitioning.MaskSwap

open Support

/-! ## Partitions -/

/-- A range of SMs, with the disable mask of its TPCs. -/
structure SmRange where
  lo : ℤ
  hi : ℤ
  disableMask : BitVec 128
  deriving DecidableEq, Repr

/-- `tpc_enable_bits`: the enabled ones among the TPCs that exist. -/
def tpcEnableBits (r : SmRange) (numTpcs : ℕ) : BitVec 128 :=
  let en := ~~~ r.disableMask
  if numTpcs < 128 then en &&& (((1 : BitVec 128) <<< numTpcs) - 1) else en

/-- `validate_disjoint_partitions` does not end the program. -/
def validateDisjointPartitions (p0 p1 : SmRange) (numTpcs : ℕ) : Bool :=
  tpcEnableBits p0 numTpcs &&& tpcEnableBits p1 numTpcs == 0

/-- The parent process has role A, its child role B. -/
inductive Role where
  | a
  | b
  deriving DecidableEq, Repr

instance : Fintype Role := ⟨{.a, .b}, fun r => by cases r <;> decide⟩

instance : Nonempty Role := ⟨.a⟩

/-- `mask_for_role_phase`. -/
def maskForRolePhase (role : Role) (phase : ℕ) (p0 p1 : SmRange) : SmRange :=
  if role = .a then if phase % 2 = 0 then p0 else p1
  else if phase % 2 = 0 then p1 else p0

/-! ## One process -/

/-- What both processes run with: the options, and the partitions and the number
of TPCs that each finds for the device. -/
structure Config where
  m : ℕ
  sliceRows : ℕ
  maxPhases : ℕ
  warmup : ℕ
  drainBeforeSwap : Bool
  p0 : SmRange
  p1 : SmRange
  numTpcs : ℕ
  deriving DecidableEq, Repr

/-- A kernel on a stream, with the mask that the stream had at its launch. -/
structure Kernel where
  measured : Bool
  disableMask : BitVec 128
  deriving DecidableEq, Repr

/-- Where a process is in `run_role`. -/
inductive Pc where
  /-- At the head of the warmup loop. -/
  | warmup (w : ℕ)
  | warmupLaunch (w : ℕ)
  | warmupSync (w : ℕ)
  /-- At the head of the loop over phases. -/
  | loop
  | startArrive
  /-- In `pthread_barrier_wait(&sync->phase_start)`. -/
  | startWait (generation : ℕ)
  | setMask
  | launch
  | drain
  | endArrive
  /-- In `pthread_barrier_wait(&sync->phase_end)`. -/
  | endWait (generation : ℕ)
  | advance
  | finalSync
  | finished
  deriving DecidableEq, Repr

/-- A process's variables, its stream's mask and the kernels that it launched
and that have not finished, in order. -/
structure Proc where
  pc : Pc
  iter : ℕ
  row0 : ℕ
  streamMask : BitVec 128
  inFlight : List Kernel
  deriving DecidableEq, Repr

/-- What a step of a process does at the barriers. -/
inductive Event where
  | silent
  | arriveStart (generation : ℕ)
  | leaveStart (generation : ℕ)
  | arriveEnd (generation : ℕ)
  | leaveEnd (generation : ℕ)
  deriving DecidableEq, Repr

/-- The mask that a role has in an iteration. -/
def Config.maskAt (cfg : Config) (role : Role) (iter : ℕ) : BitVec 128 :=
  (maskForRolePhase role (iter % 2) cfg.p0 cfg.p1).disableMask

/-- The condition of the loop over phases. -/
def Config.Continues (cfg : Config) (iter row0 : ℕ) : Prop :=
  row0 < cfg.m ∧ iter < cfg.maxPhases

instance (cfg : Config) (iter row0 : ℕ) : Decidable (cfg.Continues iter row0) :=
  inferInstanceAs (Decidable (_ ∧ _))

/-- The steps of `run_role`.  A kernel finishes, in stream order, at any time. -/
inductive Proc.Step (cfg : Config) (role : Role) : Event → Proc → Proc → Prop where
  | warmup {p : Proc} {w : ℕ} (pc : p.pc = .warmup w) (more : w < cfg.warmup) :
      Step cfg role .silent p { p with
        pc := .warmupLaunch w, streamMask := cfg.maskAt role w }
  | warmupLaunch {p : Proc} {w : ℕ} (pc : p.pc = .warmupLaunch w) :
      Step cfg role .silent p { p with
        pc := .warmupSync w, inFlight := p.inFlight ++ [⟨false, p.streamMask⟩] }
  | warmupSync {p : Proc} {w : ℕ} (pc : p.pc = .warmupSync w)
      (drained : p.inFlight = []) :
      Step cfg role .silent p { p with pc := .warmup (w + 1) }
  | warmupDone {p : Proc} {w : ℕ} (pc : p.pc = .warmup w)
      (done : ¬ w < cfg.warmup) :
      Step cfg role .silent p { p with pc := .loop }
  | loop {p : Proc} (pc : p.pc = .loop) (more : cfg.Continues p.iter p.row0) :
      Step cfg role .silent p { p with pc := .startArrive }
  | loopDone {p : Proc} (pc : p.pc = .loop) (done : ¬ cfg.Continues p.iter p.row0) :
      Step cfg role .silent p { p with pc := .finalSync }
  | arriveStart {p : Proc} {generation : ℕ} (pc : p.pc = .startArrive) :
      Step cfg role (.arriveStart generation) p
        { p with pc := .startWait generation }
  | leaveStart {p : Proc} {generation : ℕ} (pc : p.pc = .startWait generation) :
      Step cfg role (.leaveStart generation) p { p with pc := .setMask }
  | setMask {p : Proc} (pc : p.pc = .setMask) :
      Step cfg role .silent p { p with
        pc := .launch, streamMask := cfg.maskAt role p.iter }
  | launch {p : Proc} (pc : p.pc = .launch) :
      Step cfg role .silent p { p with
        pc := if cfg.drainBeforeSwap then .drain else .endArrive
        inFlight := p.inFlight ++ [⟨true, p.streamMask⟩] }
  | drain {p : Proc} (pc : p.pc = .drain) (drained : p.inFlight = []) :
      Step cfg role .silent p { p with pc := .endArrive }
  | arriveEnd {p : Proc} {generation : ℕ} (pc : p.pc = .endArrive) :
      Step cfg role (.arriveEnd generation) p { p with pc := .endWait generation }
  | leaveEnd {p : Proc} {generation : ℕ} (pc : p.pc = .endWait generation) :
      Step cfg role (.leaveEnd generation) p { p with pc := .advance }
  | advance {p : Proc} (pc : p.pc = .advance) :
      Step cfg role .silent p { p with
        pc := .loop, iter := p.iter + 1
        row0 := p.row0 + min cfg.sliceRows (cfg.m - p.row0) }
  | finalSync {p : Proc} (pc : p.pc = .finalSync) (drained : p.inFlight = []) :
      Step cfg role .silent p { p with pc := .finished }
  | finish {p : Proc} {k : Kernel} {ks : List Kernel}
      (running : p.inFlight = k :: ks) :
      Step cfg role .silent p { p with inFlight := ks }

/-! ## Both processes -/

/-- Both processes and the barriers in their shared memory. -/
structure State where
  procs : Role → Proc
  phaseStart : CyclicBarrier
  phaseEnd : CyclicBarrier

/-- After the fork, with barriers for two. -/
def initial : State where
  procs _ := ⟨.warmup 0, 0, 0, 0, []⟩
  phaseStart := .init 2
  phaseEnd := .init 2

/-- One process changes. -/
def State.set (s : State) (role : Role) (p : Proc) : State :=
  { s with procs := Function.update s.procs role p }

/-- One step of one process: a waiting process goes on when its barrier is open. -/
inductive Step (cfg : Config) : State → State → Prop where
  | silent {s : State} {role : Role} {p : Proc}
      (step : Proc.Step cfg role .silent (s.procs role) p) :
      Step cfg s (s.set role p)
  | arriveStart {s : State} {role : Role} {p : Proc}
      (step : Proc.Step cfg role (.arriveStart s.phaseStart.generation)
        (s.procs role) p) :
      Step cfg s { s.set role p with phaseStart := s.phaseStart.arrive }
  | leaveStart {s : State} {role : Role} {p : Proc} {generation : ℕ}
      (step : Proc.Step cfg role (.leaveStart generation) (s.procs role) p)
      (isOpen : s.phaseStart.IsOpen generation) : Step cfg s (s.set role p)
  | arriveEnd {s : State} {role : Role} {p : Proc}
      (step : Proc.Step cfg role (.arriveEnd s.phaseEnd.generation)
        (s.procs role) p) :
      Step cfg s { s.set role p with phaseEnd := s.phaseEnd.arrive }
  | leaveEnd {s : State} {role : Role} {p : Proc} {generation : ℕ}
      (step : Proc.Step cfg role (.leaveEnd generation) (s.procs role) p)
      (isOpen : s.phaseEnd.IsOpen generation) : Step cfg s (s.set role p)

/-- States that both processes reach. -/
def Reachable (cfg : Config) (s : State) : Prop :=
  Relation.ReflTransGen (Step cfg) initial s

/-! ## What a process's position says -/

/-- In an iteration, after arriving at the first barrier. -/
def Pc.startArrivals : Pc → ℕ
  | .startWait _ | .setMask | .launch | .drain | .endArrive | .endWait _
  | .advance => 1
  | _ => 0

/-- In an iteration, after leaving the first barrier. -/
def Pc.startReturns : Pc → ℕ
  | .setMask | .launch | .drain | .endArrive | .endWait _ | .advance => 1
  | _ => 0

/-- In an iteration, after arriving at the second barrier. -/
def Pc.endArrivals : Pc → ℕ
  | .endWait _ | .advance => 1
  | _ => 0

/-- In an iteration, after leaving the second barrier. -/
def Pc.endReturns : Pc → ℕ
  | .advance => 1
  | _ => 0

/-- How often the process has arrived at the first barrier. -/
def Proc.startArrivals (p : Proc) : ℕ := p.iter + p.pc.startArrivals

/-- How often the process has left the first barrier. -/
def Proc.startReturns (p : Proc) : ℕ := p.iter + p.pc.startReturns

/-- How often the process has arrived at the second barrier. -/
def Proc.endArrivals (p : Proc) : ℕ := p.iter + p.pc.endArrivals

/-- How often the process has left the second barrier. -/
def Proc.endReturns (p : Proc) : ℕ := p.iter + p.pc.endReturns

/-- What a step adds to these numbers, in this order. -/
def Event.counts : Event → ℕ × ℕ × ℕ × ℕ
  | .silent => (0, 0, 0, 0)
  | .arriveStart _ => (1, 0, 0, 0)
  | .leaveStart _ => (0, 1, 0, 0)
  | .arriveEnd _ => (0, 0, 1, 0)
  | .leaveEnd _ => (0, 0, 0, 1)

theorem Proc.Step.counts {cfg : Config} {role : Role} {e : Event} {p p' : Proc}
    (h : Proc.Step cfg role e p p') :
    p'.startArrivals = p.startArrivals + e.counts.1 ∧
    p'.startReturns = p.startReturns + e.counts.2.1 ∧
    p'.endArrivals = p.endArrivals + e.counts.2.2.1 ∧
    p'.endReturns = p.endReturns + e.counts.2.2.2 := by
  simp only [startArrivals, startReturns, endArrivals, endReturns]
  cases h with
  | launch pc =>
      rw [pc]
      cases cfg.drainBeforeSwap <;> exact ⟨rfl, rfl, rfl, rfl⟩
  | advance pc =>
      rw [pc]
      exact ⟨rfl, rfl, rfl, rfl⟩
  | finish running => exact ⟨rfl, rfl, rfl, rfl⟩
  | _ =>
      simp_all only [Pc.startArrivals, Pc.startReturns, Pc.endArrivals,
        Pc.endReturns, Event.counts, and_self, Nat.add_zero]

/-- A process arrives only where it has not arrived in this iteration. -/
theorem Proc.Step.startArrivals_eq {cfg : Config} {role : Role} {p p' : Proc}
    {generation : ℕ} (h : Proc.Step cfg role (.arriveStart generation) p p') :
    p.startReturns = p.startArrivals ∧ p.startArrivals = p.iter := by
  cases h with
  | arriveStart pc =>
      rw [startReturns, startArrivals, pc]
      exact ⟨rfl, rfl⟩

theorem Proc.Step.endArrivals_eq {cfg : Config} {role : Role} {p p' : Proc}
    {generation : ℕ} (h : Proc.Step cfg role (.arriveEnd generation) p p') :
    p.endReturns = p.endArrivals ∧ p.endArrivals = p.iter := by
  cases h with
  | arriveEnd pc =>
      rw [endReturns, endArrivals, pc]
      exact ⟨rfl, rfl⟩

/-! ## What holds of one process -/

/-- The first row of an iteration. -/
def Config.rowAt (cfg : Config) : ℕ → ℕ
  | 0 => 0
  | iter + 1 => cfg.rowAt iter + min cfg.sliceRows (cfg.m - cfg.rowAt iter)

/-- In the loop over phases, behind its condition. -/
def Pc.InPhase : Pc → Bool
  | .startArrive => true
  | pc => pc.startArrivals = 1

/-- Behind the loop over phases. -/
def Pc.Exited : Pc → Bool
  | .finalSync | .finished => true
  | _ => false

/-- With draining, a process has a measured kernel in flight only until it has
drained its stream, with the mask of its role in this iteration. -/
structure Proc.Ok (cfg : Config) (role : Role) (p : Proc) : Prop where
  kernels : ∀ k ∈ p.inFlight, k.measured = true →
    p.pc = .drain ∧ k.disableMask = cfg.maskAt role p.iter
  streamMask : p.pc = .launch → p.streamMask = cfg.maskAt role p.iter
  row0 : p.row0 = cfg.rowAt p.iter
  continued : ∀ iter < p.iter, cfg.Continues iter (cfg.rowAt iter)
  inPhase : p.pc.InPhase = true → cfg.Continues p.iter p.row0
  exited : p.pc.Exited = true → ¬ cfg.Continues p.iter p.row0
  startWait : ∀ generation, p.pc = .startWait generation → generation = p.iter
  endWait : ∀ generation, p.pc = .endWait generation → generation = p.iter

section Steps

variable {cfg : Config} {role : Role} {p p' : Proc} {e : Event}

/-- Only a process that is draining has a measured kernel in flight. -/
theorem Proc.Ok.notMeasured (h : p.Ok cfg role) (hpc : p.pc ≠ .drain)
    {k : Kernel} (hk : k ∈ p.inFlight) : k.measured ≠ true :=
  fun hmeasured => hpc (h.kernels k hk hmeasured).1

/-- Going on without a measured kernel in flight. -/
theorem Proc.Ok.goto (h : p.Ok cfg role) (pc : Pc)
    (hnone : p.pc ≠ .drain ∨ p.inFlight = []) (hlaunch : pc ≠ .launch)
    (hphase : pc.InPhase = true → cfg.Continues p.iter p.row0)
    (hexited : pc.Exited = true → ¬ cfg.Continues p.iter p.row0)
    (hstart : ∀ generation, pc = .startWait generation → generation = p.iter)
    (hend : ∀ generation, pc = .endWait generation → generation = p.iter) :
    Proc.Ok cfg role { p with pc := pc } where
  kernels k hk hmeasured := by
    rcases hnone with hpc | hnil
    · exact absurd hmeasured (h.notMeasured hpc hk)
    · rw [show p.inFlight = [] from hnil] at hk
      cases hk
  streamMask hpc := absurd hpc hlaunch
  row0 := h.row0
  continued := h.continued
  inPhase := hphase
  exited := hexited
  startWait := hstart
  endWait := hend

theorem Proc.Ok.append (h : p.Ok cfg role) (hpc : p.pc ≠ .drain) {k : Kernel}
    {P : Prop} (hk : k.measured = true → P) :
    ∀ k' ∈ p.inFlight ++ [k], k'.measured = true → k' = k ∧ P := by
  intro k' hk' hmeasured
  rcases List.mem_append.mp hk' with hold | hnew
  · exact absurd hmeasured (h.notMeasured hpc hold)
  · rw [List.mem_singleton] at hnew
    exact ⟨hnew, hk (hnew ▸ hmeasured)⟩

/-- Every step keeps this, if arrivals are in the current iteration. -/
theorem Proc.Ok.step (h : p.Ok cfg role) (hdrain : cfg.drainBeforeSwap = true)
    (hstep : Proc.Step cfg role e p p')
    (hgeneration : ∀ generation,
      e = .arriveStart generation ∨ e = .arriveEnd generation →
        generation = p.iter) : p'.Ok cfg role := by
  cases hstep with
  | @warmup p w pc more =>
      refine ⟨fun k hk hmeasured => ?_, by simp, h.row0, h.continued, ?_, ?_,
        by simp, by simp⟩
      · exact absurd hmeasured (h.notMeasured (by simp [pc]) hk)
      · simp [Pc.InPhase, Pc.startArrivals]
      · simp [Pc.Exited]
  | @warmupLaunch p w pc =>
      refine ⟨fun k hk hmeasured => ?_, by simp, h.row0, h.continued, ?_, ?_,
        by simp, by simp⟩
      · exact (h.append (by simp [pc]) (P := False) (by simp) k hk hmeasured).2.elim
      · simp [Pc.InPhase, Pc.startArrivals]
      · simp [Pc.Exited]
  | @warmupSync p w pc drained =>
      exact h.goto _ (.inr drained) (by simp)
        (by simp [Pc.InPhase, Pc.startArrivals]) (by simp [Pc.Exited]) (by simp)
        (by simp)
  | @warmupDone p w pc done =>
      exact h.goto _ (.inl (by simp [pc])) (by simp)
        (by simp [Pc.InPhase, Pc.startArrivals]) (by simp [Pc.Exited]) (by simp)
        (by simp)
  | loop pc more =>
      exact h.goto _ (.inl (by simp [pc])) (by simp) (fun _ => more)
        (by simp [Pc.Exited]) (by simp) (by simp)
  | loopDone pc done =>
      exact h.goto _ (.inl (by simp [pc])) (by simp)
        (by simp [Pc.InPhase, Pc.startArrivals]) (fun _ => done) (by simp)
        (by simp)
  | @arriveStart p generation pc =>
      refine h.goto _ (.inl (by simp [pc])) (by simp)
        (fun _ => h.inPhase (by simp [pc, Pc.InPhase])) (by simp [Pc.Exited])
        (fun g hg => ?_) (by simp)
      cases hg
      exact hgeneration generation (.inl rfl)
  | leaveStart pc =>
      exact h.goto _ (.inl (by simp [pc])) (by simp)
        (fun _ => h.inPhase (by simp [pc, Pc.InPhase, Pc.startArrivals]))
        (by simp [Pc.Exited]) (by simp) (by simp)
  | setMask pc =>
      refine ⟨fun k hk hmeasured => ?_, fun _ => rfl, h.row0, h.continued,
        fun _ => ?_, by simp [Pc.Exited], by simp, by simp⟩
      · exact absurd hmeasured (h.notMeasured (by simp [pc]) hk)
      · exact h.inPhase (by simp [pc, Pc.InPhase, Pc.startArrivals])
  | launch pc =>
      rw [hdrain, if_pos rfl]
      refine ⟨fun k hk hmeasured => ?_, by simp, h.row0, h.continued,
        fun _ => ?_, by simp [Pc.Exited], by simp, by simp⟩
      · obtain ⟨rfl, -⟩ := h.append (by simp [pc]) (P := True) (by simp) k hk
          hmeasured
        exact ⟨rfl, h.streamMask pc⟩
      · exact h.inPhase (by simp [pc, Pc.InPhase, Pc.startArrivals])
  | drain pc drained =>
      exact h.goto _ (.inr drained) (by simp)
        (fun _ => h.inPhase (by simp [pc, Pc.InPhase, Pc.startArrivals]))
        (by simp [Pc.Exited]) (by simp) (by simp)
  | @arriveEnd p generation pc =>
      refine h.goto _ (.inl (by simp [pc])) (by simp)
        (fun _ => h.inPhase (by simp [pc, Pc.InPhase, Pc.startArrivals]))
        (by simp [Pc.Exited]) (by simp) (fun g hg => ?_)
      cases hg
      exact hgeneration generation (.inr rfl)
  | leaveEnd pc =>
      exact h.goto _ (.inl (by simp [pc])) (by simp)
        (fun _ => h.inPhase (by simp [pc, Pc.InPhase, Pc.startArrivals]))
        (by simp [Pc.Exited]) (by simp) (by simp)
  | advance pc =>
      refine ⟨fun k hk hmeasured => ?_, by simp, ?_, fun iter hiter => ?_, ?_, ?_,
        by simp, by simp⟩
      · exact absurd hmeasured (h.notMeasured (by simp [pc]) hk)
      · simp only [Config.rowAt, h.row0]
      · rcases Nat.lt_succ_iff_lt_or_eq.mp hiter with hlt | rfl
        · exact h.continued iter hlt
        · rw [← h.row0]
          exact h.inPhase (by simp [pc, Pc.InPhase, Pc.startArrivals])
      · simp [Pc.InPhase, Pc.startArrivals]
      · simp [Pc.Exited]
  | finalSync pc drained =>
      exact h.goto _ (.inr drained) (by simp)
        (by simp [Pc.InPhase, Pc.startArrivals])
        (fun _ => h.exited (by simp [pc, Pc.Exited])) (by simp) (by simp)
  | finish running =>
      refine ⟨fun k hk => h.kernels k (running ▸ List.mem_cons_of_mem _ hk),
        h.streamMask, h.row0, h.continued, h.inPhase, h.exited, h.startWait,
        h.endWait⟩

theorem Proc.Ok.startReturns_eq (h : p.Ok cfg role) {generation : ℕ}
    (hstep : Proc.Step cfg role (.leaveStart generation) p p') :
    p.startReturns = generation := by
  cases hstep with
  | leaveStart pc =>
      rw [h.startWait _ pc, startReturns, pc]
      rfl

theorem Proc.Ok.endReturns_eq (h : p.Ok cfg role) {generation : ℕ}
    (hstep : Proc.Step cfg role (.leaveEnd generation) p p') :
    p.endReturns = generation := by
  cases hstep with
  | leaveEnd pc =>
      rw [h.endWait _ pc, endReturns, pc]
      rfl

end Steps

end A100Partitioning.MaskSwap
