import A100Partitioning.MaskSwap.RunRole

/-!
# Isolation in the mask-swap demo

With draining, kernels of the two processes that are in flight at the same time
are of the same phase, so their masks are the two partitions.  The invariant
counts how often each process has arrived at and left each barrier.
-/

namespace A100Partitioning.MaskSwap

open Support

/-! ## The invariant -/

/-- Both processes are as they should be, and the barriers have counted their
arrivals. -/
structure Inv (cfg : Config) (s : State) : Prop where
  ok : ∀ role, (s.procs role).Ok cfg role
  phaseStart : s.phaseStart.Synced (fun role => (s.procs role).startArrivals)
    fun role => (s.procs role).startReturns
  phaseEnd : s.phaseEnd.Synced (fun role => (s.procs role).endArrivals)
    fun role => (s.procs role).endReturns

theorem inv_initial (cfg : Config) : Inv cfg initial where
  ok role := ⟨by simp [initial], by simp [initial], rfl, by simp [initial],
    by simp [initial, Pc.InPhase, Pc.startArrivals],
    by simp [initial, Pc.Exited], by simp [initial], by simp [initial]⟩
  phaseStart := ⟨CyclicBarrier.counts_init (ι := Role), fun _ => le_refl 0⟩
  phaseEnd := ⟨CyclicBarrier.counts_init (ι := Role), fun _ => le_refl 0⟩

section Steps

variable {cfg : Config} {s t : State} {role : Role} {p : Proc}

theorem State.set_self (s : State) (role : Role) (p : Proc) :
    (s.set role p).procs role = p := by
  simp [State.set]

theorem State.set_of_ne {role' : Role} (h : role' ≠ role) :
    (s.set role p).procs role' = s.procs role' := by
  simp [State.set, h]

theorem State.map_set (s : State) (f : Proc → ℕ) :
    (fun role' => f ((s.set role p).procs role')) =
      Function.update (fun role' => f (s.procs role')) role (f p) := by
  funext role'
  by_cases h : role' = role
  · rw [h, State.set_self, Function.update_self]
  · rw [State.set_of_ne h, Function.update_of_ne h]

theorem State.map_set_of_eq {f : Proc → ℕ} (h : f p = f (s.procs role) + 0) :
    (fun role' => f ((s.set role p).procs role')) =
      fun role' => f (s.procs role') := by
  rw [State.map_set, h]
  exact Function.update_eq_self role fun role' => f (s.procs role')

theorem Inv.ok_set (h : Inv cfg s) (hp : p.Ok cfg role) (role' : Role) :
    ((s.set role p).procs role').Ok cfg role' := by
  by_cases hrole : role' = role
  · rw [hrole, State.set_self]
    exact hp
  · rw [State.set_of_ne hrole]
    exact h.ok role'

theorem Inv.step (h : Inv cfg s) (hdrain : cfg.drainBeforeSwap = true)
    (hstep : Step cfg s t) : Inv cfg t := by
  cases hstep with
  | @silent role p step =>
      obtain ⟨hstart, hleft, hend, hreturned⟩ := step.counts
      refine ⟨h.ok_set ((h.ok role).step hdrain step (by simp)), ?_, ?_⟩
      · rw [State.map_set_of_eq hstart, State.map_set_of_eq hleft]
        exact h.phaseStart
      · rw [State.map_set_of_eq hend, State.map_set_of_eq hreturned]
        exact h.phaseEnd
  | @arriveStart role p step =>
      obtain ⟨hstart, hleft, hend, hreturned⟩ := step.counts
      obtain ⟨heq, hiter⟩ := step.startArrivals_eq
      refine ⟨h.ok_set ((h.ok role).step hdrain step fun g hg => ?_), ?_, ?_⟩
      · rcases hg with hg | hg <;> cases hg
        exact (h.phaseStart.eq_generation heq).symm.trans hiter
      · have hsynced := h.phaseStart.arrive heq
        rw [← State.map_set_of_eq hleft] at hsynced
        rw [show (s.procs role).startArrivals + 1 = p.startArrivals from hstart.symm,
          ← State.map_set] at hsynced
        exact hsynced
      · have hsynced := h.phaseEnd
        rw [← State.map_set_of_eq hend, ← State.map_set_of_eq hreturned] at hsynced
        exact hsynced
  | @leaveStart role p generation step isOpen =>
      obtain ⟨hstart, hleft, hend, hreturned⟩ := step.counts
      refine ⟨h.ok_set ((h.ok role).step hdrain step (by simp)), ?_, ?_⟩
      · rw [← (h.ok role).startReturns_eq step] at isOpen
        have hsynced := h.phaseStart.leave isOpen
        rw [← State.map_set_of_eq hstart] at hsynced
        rw [show (s.procs role).startReturns + 1 = p.startReturns from hleft.symm,
          ← State.map_set] at hsynced
        exact hsynced
      · rw [State.map_set_of_eq hend, State.map_set_of_eq hreturned]
        exact h.phaseEnd
  | @arriveEnd role p step =>
      obtain ⟨hstart, hleft, hend, hreturned⟩ := step.counts
      obtain ⟨heq, hiter⟩ := step.endArrivals_eq
      refine ⟨h.ok_set ((h.ok role).step hdrain step fun g hg => ?_), ?_, ?_⟩
      · rcases hg with hg | hg <;> cases hg
        exact (h.phaseEnd.eq_generation heq).symm.trans hiter
      · have hsynced := h.phaseStart
        rw [← State.map_set_of_eq hstart, ← State.map_set_of_eq hleft] at hsynced
        exact hsynced
      · have hsynced := h.phaseEnd.arrive heq
        rw [← State.map_set_of_eq hreturned] at hsynced
        rw [show (s.procs role).endArrivals + 1 = p.endArrivals from hend.symm,
          ← State.map_set] at hsynced
        exact hsynced
  | @leaveEnd role p generation step isOpen =>
      obtain ⟨hstart, hleft, hend, hreturned⟩ := step.counts
      refine ⟨h.ok_set ((h.ok role).step hdrain step (by simp)), ?_, ?_⟩
      · rw [State.map_set_of_eq hstart, State.map_set_of_eq hleft]
        exact h.phaseStart
      · rw [← (h.ok role).endReturns_eq step] at isOpen
        have hsynced := h.phaseEnd.leave isOpen
        rw [← State.map_set_of_eq hend] at hsynced
        rw [show (s.procs role).endReturns + 1 = p.endReturns from hreturned.symm,
          ← State.map_set] at hsynced
        exact hsynced

end Steps

theorem Reachable.inv {cfg : Config} {s : State} (hs : Reachable cfg s)
    (hdrain : cfg.drainBeforeSwap = true) : Inv cfg s := by
  induction hs with
  | refl => exact inv_initial cfg
  | tail before step ih => exact ih.step hdrain step

/-! ## Safety -/

/-- A kernel with this mask may run on the TPC. -/
def Kernel.Enables (k : Kernel) (tpc : ℕ) : Prop :=
  k.disableMask.getLsbD tpc = false

instance (k : Kernel) (tpc : ℕ) : Decidable (k.Enables tpc) :=
  inferInstanceAs (Decidable (_ = _))

theorem getLsbD_existing {numTpcs : ℕ} (hsmall : numTpcs < 128) (tpc : ℕ) :
    ((1 : BitVec 128) <<< numTpcs - 1).getLsbD tpc = decide (tpc < numTpcs) := by
  have hpow : 2 ^ numTpcs < 2 ^ 128 := Nat.pow_lt_pow_right (by decide) hsmall
  have hshift : ((1 : BitVec 128) <<< numTpcs).toNat = 2 ^ numTpcs := by
    rw [BitVec.toNat_shiftLeft, Nat.shiftLeft_eq,
      show (1 : BitVec 128).toNat = 1 from rfl, Nat.one_mul, Nat.mod_eq_of_lt hpow]
  have hle : (1 : BitVec 128) ≤ (1 : BitVec 128) <<< numTpcs := by
    rw [BitVec.le_def, hshift]
    exact Nat.one_le_two_pow
  have hone : ((1 : BitVec 128) <<< numTpcs - 1).toNat = 2 ^ numTpcs - 1 := by
    rw [BitVec.toNat_sub_of_le hle, hshift]
    rfl
  rw [BitVec.getLsbD, hone, Nat.testBit_two_pow_sub_one]

theorem getLsbD_tpcEnableBits (r : SmRange) {numTpcs tpc : ℕ}
    (hnum : numTpcs ≤ 128) (htpc : tpc < numTpcs) :
    (tpcEnableBits r numTpcs).getLsbD tpc = !r.disableMask.getLsbD tpc := by
  have hlt : tpc < 128 := by omega
  rw [tpcEnableBits]
  split_ifs with hsmall
  · rw [BitVec.getLsbD_and, getLsbD_existing hsmall, BitVec.getLsbD_not]
    simp [hlt, htpc]
  · rw [BitVec.getLsbD_not]
    simp [hlt]

theorem not_both_of_valid {p0 p1 : SmRange} {numTpcs tpc : ℕ}
    (hvalid : validateDisjointPartitions p0 p1 numTpcs = true)
    (hnum : numTpcs ≤ 128) (htpc : tpc < numTpcs) :
    ¬ (p0.disableMask.getLsbD tpc = false ∧ p1.disableMask.getLsbD tpc = false) := by
  rintro ⟨h0, h1⟩
  have hzero := congrArg (BitVec.getLsbD · tpc) (beq_iff_eq.mp hvalid)
  simp only [BitVec.getLsbD_and, getLsbD_tpcEnableBits _ hnum htpc, h0, h1] at hzero
  simp at hzero

/-- In one iteration, the roles' masks are those of the two partitions. -/
theorem not_both_of_maskAt {cfg : Config} {role role' : Role} {iter tpc : ℕ}
    (hne : role ≠ role')
    (hboth : ¬ (cfg.p0.disableMask.getLsbD tpc = false ∧
      cfg.p1.disableMask.getLsbD tpc = false)) :
    ¬ ((cfg.maskAt role iter).getLsbD tpc = false ∧
      (cfg.maskAt role' iter).getLsbD tpc = false) := by
  have hroles : (role = .a ∧ role' = .b) ∨ (role = .b ∧ role' = .a) := by
    cases role <;> cases role' <;> simp_all
  rintro ⟨h, h'⟩
  rcases hroles with ⟨rfl, rfl⟩ | ⟨rfl, rfl⟩ <;>
    rcases Nat.mod_two_eq_zero_or_one iter with hphase | hphase <;>
    simp [Config.maskAt, maskForRolePhase, hphase] at h h'
  · exact hboth ⟨h, h'⟩
  · exact hboth ⟨h', h⟩
  · exact hboth ⟨h', h⟩
  · exact hboth ⟨h, h'⟩

section Safety

variable {cfg : Config} {s : State} {role role' : Role}

/-- Processes that are both draining are in the same iteration. -/
theorem Inv.iter_le_of_drain (h : Inv cfg s) (hpc : (s.procs role).pc = .drain)
    (hpc' : (s.procs role').pc = .drain) :
    (s.procs role).iter ≤ (s.procs role').iter := by
  have hle := h.phaseStart.le_arrivals role role'
  simp only [Proc.startReturns, Proc.startArrivals, hpc, hpc', Pc.startReturns,
    Pc.startArrivals] at hle
  omega

theorem Inv.iter_le (h : Inv cfg s) (role role' : Role) :
    (s.procs role).iter ≤ (s.procs role').iter + 1 := by
  have hle := h.phaseEnd.le_arrivals role role'
  have harrivals : (s.procs role').pc.endArrivals ≤ 1 := by
    cases (s.procs role').pc <;> simp [Pc.endArrivals]
  simp only [Proc.endReturns, Proc.endArrivals] at hle
  omega

theorem Inv.not_both (h : Inv cfg s) (hnum : cfg.numTpcs ≤ 128)
    (hvalid : validateDisjointPartitions cfg.p0 cfg.p1 cfg.numTpcs = true)
    (hne : role ≠ role') {k k' : Kernel} (hk : k ∈ (s.procs role).inFlight)
    (hk' : k' ∈ (s.procs role').inFlight) (hmeasured : k.measured = true)
    (hmeasured' : k'.measured = true) {tpc : ℕ} (htpc : tpc < cfg.numTpcs) :
    ¬ (k.Enables tpc ∧ k'.Enables tpc) := by
  obtain ⟨hpc, hmask⟩ := (h.ok role).kernels k hk hmeasured
  obtain ⟨hpc', hmask'⟩ := (h.ok role').kernels k' hk' hmeasured'
  have hiter : (s.procs role).iter = (s.procs role').iter :=
    le_antisymm (h.iter_le_of_drain hpc hpc') (h.iter_le_of_drain hpc' hpc)
  rw [Kernel.Enables, Kernel.Enables, hmask, hmask', hiter]
  exact not_both_of_maskAt hne (not_both_of_valid hvalid hnum htpc)

/-- A process that has left the loop has done no fewer iterations than one that
is in a phase or has left the loop. -/
theorem Inv.iter_le_of_exited (h : Inv cfg s)
    (hexited : (s.procs role).pc.Exited = true) :
    (s.procs role').iter ≤ (s.procs role).iter := by
  by_contra hlt
  have hcontinued := (h.ok role').continued _ (not_le.mp hlt)
  rw [← (h.ok role).row0] at hcontinued
  exact (h.ok role).exited hexited hcontinued

theorem Inv.iter_lt_of_exited (h : Inv cfg s)
    (hexited : (s.procs role).pc.Exited = true)
    (hphase : (s.procs role').pc.InPhase = true) :
    (s.procs role').iter < (s.procs role).iter := by
  refine lt_of_le_of_ne (h.iter_le_of_exited hexited) fun heq => ?_
  have hcontinues := (h.ok role').inPhase hphase
  rw [(h.ok role').row0, heq, ← (h.ok role).row0] at hcontinues
  exact (h.ok role).exited hexited hcontinues

end Safety

/-! ## Progress -/

/-- How many steps of `run_role` a process can still make at most. -/
def Proc.rank (cfg : Config) (p : Proc) : ℕ :=
  let rest := 9 * (cfg.maxPhases - (p.iter + 1))
  let all := 9 * (cfg.maxPhases - p.iter) + 2
  match p.pc with
  | .warmup w => all + 3 * (cfg.warmup - w) + 1
  | .warmupLaunch w => all + 3 * (cfg.warmup - (w + 1)) + 3
  | .warmupSync w => all + 3 * (cfg.warmup - (w + 1)) + 2
  | .loop => all
  | .startArrive => rest + 10
  | .startWait _ => rest + 9
  | .setMask => rest + 8
  | .launch => rest + 7
  | .drain => rest + 6
  | .endArrive => rest + 5
  | .endWait _ => rest + 4
  | .advance => rest + 3
  | .finalSync => 1
  | .finished => 0

/-- Counting each launch twice makes up for the kernel that it adds. -/
def Proc.measure (cfg : Config) (p : Proc) : ℕ :=
  2 * p.rank cfg + p.inFlight.length

theorem Proc.Step.measure_lt {cfg : Config} {role : Role} {e : Event}
    {p p' : Proc} (h : Proc.Step cfg role e p p') :
    p'.measure cfg < p.measure cfg := by
  cases h with
  | launch pc =>
      cases hdrain : cfg.drainBeforeSwap <;>
        simp [Proc.measure, Proc.rank, pc] <;> omega
  | loop pc more =>
      have hlt := more.2
      simp only [Proc.measure, Proc.rank, pc]
      omega
  | finish running => simp [Proc.measure, Proc.rank, running]
  | _ =>
      simp_all [Proc.measure, Proc.rank]
      try omega

section Progress

variable {cfg : Config} {s : State} {role role' : Role}

theorem exists_step_of_not_waiting (cfg : Config) (s : State) (role : Role)
    (hstart : ∀ generation, (s.procs role).pc ≠ .startWait generation)
    (hend : ∀ generation, (s.procs role).pc ≠ .endWait generation)
    (hfinished : (s.procs role).pc ≠ .finished) : ∃ t, Step cfg s t := by
  by_cases hdrained : (s.procs role).inFlight = []
  · cases hpc : (s.procs role).pc with
    | warmup w =>
        by_cases hmore : w < cfg.warmup
        · exact ⟨_, .silent (.warmup hpc hmore)⟩
        · exact ⟨_, .silent (.warmupDone hpc hmore)⟩
    | warmupLaunch w => exact ⟨_, .silent (.warmupLaunch hpc)⟩
    | warmupSync w => exact ⟨_, .silent (.warmupSync hpc hdrained)⟩
    | loop =>
        by_cases hmore : cfg.Continues (s.procs role).iter (s.procs role).row0
        · exact ⟨_, .silent (.loop hpc hmore)⟩
        · exact ⟨_, .silent (.loopDone hpc hmore)⟩
    | startArrive => exact ⟨_, .arriveStart (.arriveStart hpc)⟩
    | startWait generation => exact absurd hpc (hstart generation)
    | setMask => exact ⟨_, .silent (.setMask hpc)⟩
    | launch => exact ⟨_, .silent (.launch hpc)⟩
    | drain => exact ⟨_, .silent (.drain hpc hdrained)⟩
    | endArrive => exact ⟨_, .arriveEnd (.arriveEnd hpc)⟩
    | endWait generation => exact absurd hpc (hend generation)
    | advance => exact ⟨_, .silent (.advance hpc)⟩
    | finalSync => exact ⟨_, .silent (.finalSync hpc hdrained)⟩
    | finished => exact absurd hpc hfinished
  · -- A kernel of the stream can finish.
    obtain ⟨k, ks, hrunning⟩ := List.exists_cons_of_ne_nil hdrained
    exact ⟨_, .silent (.finish hrunning)⟩

/-- If a process waits at the first barrier, some process can go on. -/
theorem Inv.exists_step_of_startWait (h : Inv cfg s) {generation : ℕ}
    (hpc : (s.procs role).pc = .startWait generation) : ∃ t, Step cfg s t := by
  by_cases hopen : s.phaseStart.IsOpen generation
  · exact ⟨_, .leaveStart (.leaveStart hpc) hopen⟩
  rw [CyclicBarrier.IsOpen, (h.ok role).startWait _ hpc] at hopen
  have hself := h.phaseStart.counts.le_succ role
  obtain ⟨role', hbehind⟩ := h.phaseStart.counts.exists_eq
  have hleft := h.phaseEnd.le_arrivals role role'
  have hleft' := h.phaseEnd.returns_le role
  simp only [Proc.startArrivals, Proc.endReturns, Proc.endArrivals, hpc,
    Pc.startArrivals, Pc.endReturns] at hself hbehind hleft hleft'
  by_cases hwait : ∃ generation', (s.procs role').pc = .endWait generation'
  · obtain ⟨generation', hpc'⟩ := hwait
    have hgeneration := (h.ok role').endWait _ hpc'
    rw [hpc'] at hbehind
    simp only at hbehind
    refine ⟨_, .leaveEnd (.leaveEnd hpc') ?_⟩
    rw [CyclicBarrier.IsOpen]
    omega
  · refine exists_step_of_not_waiting cfg s role' (fun generation' hpc' => ?_)
      (fun generation' hpc' => hwait ⟨generation', hpc'⟩) fun hpc' => ?_
    · rw [hpc'] at hbehind hleft
      simp only [Pc.endArrivals] at hbehind hleft
      omega
    · have hlt : (s.procs role).iter < (s.procs role').iter := h.iter_lt_of_exited
        (by simp [hpc', Pc.Exited]) (by simp [hpc, Pc.InPhase, Pc.startArrivals])
      rw [hpc'] at hbehind
      simp only at hbehind
      omega

theorem Inv.exists_step_of_endWait (h : Inv cfg s) {generation : ℕ}
    (hpc : (s.procs role).pc = .endWait generation) : ∃ t, Step cfg s t := by
  by_cases hopen : s.phaseEnd.IsOpen generation
  · exact ⟨_, .leaveEnd (.leaveEnd hpc) hopen⟩
  rw [CyclicBarrier.IsOpen, (h.ok role).endWait _ hpc] at hopen
  have hself := h.phaseEnd.counts.le_succ role
  obtain ⟨role', hbehind⟩ := h.phaseEnd.counts.exists_eq
  have hleft := h.phaseStart.le_arrivals role role'
  have hleft' := h.phaseStart.returns_le role
  simp only [Proc.endArrivals, Proc.startReturns, Proc.startArrivals, hpc,
    Pc.endArrivals, Pc.startReturns] at hself hbehind hleft hleft'
  by_cases hwait : ∃ generation', (s.procs role').pc = .startWait generation'
  · obtain ⟨generation', hpc'⟩ := hwait
    have hgeneration := (h.ok role').startWait _ hpc'
    rw [hpc'] at hbehind
    simp only at hbehind
    refine ⟨_, .leaveStart (.leaveStart hpc') ?_⟩
    rw [CyclicBarrier.IsOpen]
    omega
  · refine exists_step_of_not_waiting cfg s role'
      (fun generation' hpc' => hwait ⟨generation', hpc'⟩)
      (fun generation' hpc' => ?_) fun hpc' => ?_
    · rw [hpc'] at hbehind hleft
      simp only [Pc.startArrivals] at hbehind hleft
      omega
    · have hlt : (s.procs role).iter < (s.procs role').iter := h.iter_lt_of_exited
        (by simp [hpc', Pc.Exited]) (by simp [hpc, Pc.InPhase, Pc.startArrivals])
      rw [hpc'] at hbehind
      simp only at hbehind
      omega

/-- Until both processes have finished, one of them can go on. -/
theorem Inv.exists_step (h : Inv cfg s)
    (hunfinished : ∃ role, (s.procs role).pc ≠ .finished) : ∃ t, Step cfg s t := by
  obtain ⟨role, hne⟩ := hunfinished
  by_cases hstart : ∃ generation, (s.procs role).pc = .startWait generation
  · exact h.exists_step_of_startWait hstart.choose_spec
  by_cases hend : ∃ generation, (s.procs role).pc = .endWait generation
  · exact h.exists_step_of_endWait hend.choose_spec
  · exact exists_step_of_not_waiting cfg s role
      (fun generation hpc => hstart ⟨generation, hpc⟩)
      (fun generation hpc => hend ⟨generation, hpc⟩) hne

/-- What both processes together can still do. -/
def State.measure (cfg : Config) (s : State) : ℕ :=
  (s.procs .a).measure cfg + (s.procs .b).measure cfg

theorem State.measure_set_lt {p : Proc}
    (h : p.measure cfg < (s.procs role).measure cfg) :
    (s.set role p).measure cfg < s.measure cfg := by
  cases role with
  | a =>
      rw [State.measure, State.measure, State.set_self,
        State.set_of_ne (by decide)]
      omega
  | b =>
      rw [State.measure, State.measure, State.set_self,
        State.set_of_ne (by decide)]
      omega

theorem Step.measure_lt {t : State} (h : Step cfg s t) :
    t.measure cfg < s.measure cfg := by
  cases h with
  | silent step => exact State.measure_set_lt step.measure_lt
  | arriveStart step => exact State.measure_set_lt step.measure_lt
  | leaveStart step isOpen => exact State.measure_set_lt step.measure_lt
  | arriveEnd step => exact State.measure_set_lt step.measure_lt
  | leaveEnd step isOpen => exact State.measure_set_lt step.measure_lt

theorem Inv.exists_finished (h : Inv cfg s) (hdrain : cfg.drainBeforeSwap = true) :
    ∃ t, Relation.ReflTransGen (Step cfg) s t ∧
      ∀ role, (t.procs role).pc = .finished := by
  induction hn : s.measure cfg using Nat.strong_induction_on generalizing s with
  | _ n ih =>
      by_cases hunfinished : ∃ role, (s.procs role).pc ≠ .finished
      · obtain ⟨t, hstep⟩ := h.exists_step hunfinished
        obtain ⟨u, hrun, hfinished⟩ := ih _ (hn ▸ hstep.measure_lt)
          (h.step hdrain hstep) rfl
        exact ⟨u, .head hstep hrun, hfinished⟩
      · exact ⟨s, .refl, fun role => by_contra fun hne => hunfinished ⟨role, hne⟩⟩

end Progress

/-- With draining and disjoint partitions, measured kernels of the two processes
that are in flight at the same time share no TPC, the processes' iterations
differ by at most one, and both go through equally many. -/
theorem maskSwap_isolated (cfg : Config) (hdrain : cfg.drainBeforeSwap = true)
    (hnum : cfg.numTpcs ≤ 128)
    (hvalid : validateDisjointPartitions cfg.p0 cfg.p1 cfg.numTpcs = true)
    (s : State) (hs : Reachable cfg s) :
    (∀ role role', role ≠ role' →
      ∀ k ∈ (s.procs role).inFlight, ∀ k' ∈ (s.procs role').inFlight,
        k.measured = true → k'.measured = true →
          ∀ tpc < cfg.numTpcs, ¬ (k.Enables tpc ∧ k'.Enables tpc)) ∧
    (∀ role role', (s.procs role).iter ≤ (s.procs role').iter + 1) ∧
    ((∀ role, (s.procs role).pc.Exited = true) →
      ∀ role role', (s.procs role).iter = (s.procs role').iter) ∧
    ∃ t, Relation.ReflTransGen (Step cfg) s t ∧
      ∀ role, (t.procs role).pc = .finished := by
  have h := hs.inv hdrain
  refine ⟨fun role role' hne k hk k' hk' hmeasured hmeasured' tpc htpc => ?_,
    h.iter_le, fun hexited role role' => ?_, h.exists_finished hdrain⟩
  · exact h.not_both hnum hvalid hne hk hk' hmeasured hmeasured' htpc
  · exact le_antisymm (h.iter_le_of_exited (hexited role'))
      (h.iter_le_of_exited (hexited role))

/-- A kernel of each process in flight, on a GPU with two TPCs. -/
theorem maskSwap_isolated_two :
    ∃ s k k', Reachable ⟨256, 256, 1, 0, true, ⟨0, 1, ~~~1⟩, ⟨2, 3, ~~~2⟩, 2⟩ s ∧
      (s.procs .a).inFlight = [k] ∧ (s.procs .b).inFlight = [k'] ∧
      k.Enables 0 ∧ k'.Enables 1 ∧ ¬ (k.Enables 0 ∧ k'.Enables 0) := by
  have hrun : Reachable ⟨256, 256, 1, 0, true, ⟨0, 1, ~~~1⟩, ⟨2, 3, ~~~2⟩, 2⟩ _ :=
    (((((((((((Relation.ReflTransGen.refl
      |>.tail (@Step.silent _ _ .a _ (.warmupDone rfl (by decide))))
      |>.tail (@Step.silent _ _ .a _ (.loop rfl (by decide))))
      |>.tail (@Step.arriveStart _ _ .a _ (.arriveStart rfl)))
      |>.tail (@Step.silent _ _ .b _ (.warmupDone rfl (by decide))))
      |>.tail (@Step.silent _ _ .b _ (.loop rfl (by decide))))
      |>.tail (@Step.arriveStart _ _ .b _ (.arriveStart rfl)))
      |>.tail (@Step.leaveStart _ _ .a _ _ (.leaveStart rfl) (by decide)))
      |>.tail (@Step.silent _ _ .a _ (.setMask rfl)))
      |>.tail (@Step.silent _ _ .a _ (.launch rfl)))
      |>.tail (@Step.leaveStart _ _ .b _ _ (.leaveStart rfl) (by decide)))
      |>.tail (@Step.silent _ _ .b _ (.setMask rfl)))
      |>.tail (@Step.silent _ _ .b _ (.launch rfl))
  exact ⟨_, ⟨true, ~~~1⟩, ⟨true, ~~~2⟩, hrun, rfl, rfl, by decide, by decide,
    (maskSwap_isolated _ rfl (by decide) (by decide) _ hrun).1 .a .b (by decide)
      _ (List.mem_singleton.mpr rfl) _ (List.mem_singleton.mpr rfl) rfl rfl 0
      (by decide)⟩

end A100Partitioning.MaskSwap
