import Mathlib.Data.Fintype.Card
import Mathlib.Data.Fintype.BigOperators
import Mathlib.Logic.Relation
import Mathlib.Tactic.Ring

/-!
# The spinning barrier (`barrier_wait.c`)

`BarrierWait` reverses a private sense, decrements the shared counter, and then
either resets the counter and writes the shared sense, as the last one to
arrive, or spins until the shared sense is its own.  Each access to shared
memory is one step, and the participants' steps interleave in any order.
-/

namespace A100Partitioning.Barrier

/-! ## The code -/

/-- Where a participant is in `BarrierWait`. -/
inductive Pc where
  /-- Not in `BarrierWait`. -/
  | outside
  /-- `*local_sense` is reversed; about to decrement `processes_remaining`. -/
  | entered
  /-- The last to arrive; about to reset `processes_remaining`. -/
  | reset
  /-- About to write the shared sense and return. -/
  | release
  /-- In the loop that reads the shared sense. -/
  | spinning
  deriving DecidableEq, Repr

/-- The shared buffer, and each participant's position and private sense.
`calls` and `returns` count the calls a participant made and finished. -/
structure State (N : ℕ) where
  processesRemaining : ℤ
  sense : Bool
  processCount : ℤ
  pc : Fin N → Pc
  localSense : Fin N → Bool
  calls : Fin N → ℕ
  returns : Fin N → ℕ

/-- `BarrierCreate`, with all participants' senses initialized to 0. -/
def barrierCreate (N : ℕ) : State N where
  processesRemaining := N
  sense := false
  processCount := N
  pc _ := .outside
  localSense _ := false
  calls _ := 0
  returns _ := 0

variable {N : ℕ}

/-- A participant moves on. -/
def State.goto (s : State N) (i : Fin N) (pc : Pc) : State N :=
  { s with pc := Function.update s.pc i pc }

/-- A participant returns. -/
def State.return (s : State N) (i : Fin N) : State N :=
  { s.goto i .outside with
    returns := Function.update s.returns i (s.returns i + 1) }

/-- A participant calls `BarrierWait`. -/
def State.call (s : State N) (i : Fin N) : State N :=
  { s.goto i .entered with
    localSense := Function.update s.localSense i (!s.localSense i)
    calls := Function.update s.calls i (s.calls i + 1) }

/-- One atomic step of a participant. -/
inductive Step : State N → State N → Prop where
  | call {s : State N} (i : Fin N) (pc : s.pc i = .outside) : Step s (s.call i)
  | fetchSub {s : State N} (i : Fin N) (pc : s.pc i = .entered) :
      Step s { s.goto i (if s.processesRemaining = 1 then .reset else .spinning)
        with processesRemaining := s.processesRemaining - 1 }
  | reset {s : State N} (i : Fin N) (pc : s.pc i = .reset) :
      Step s { s.goto i .release with processesRemaining := s.processCount }
  | release {s : State N} (i : Fin N) (pc : s.pc i = .release) :
      Step s { s.return i with sense := s.localSense i }
  | spin {s : State N} (i : Fin N) (pc : s.pc i = .spinning)
      (differs : s.sense ≠ s.localSense i) : Step s s
  | leave {s : State N} (i : Fin N) (pc : s.pc i = .spinning)
      (agrees : s.sense = s.localSense i) : Step s (s.return i)

/-- States that participants reach from a new barrier. -/
def Reachable (s : State N) : Prop :=
  Relation.ReflTransGen Step (barrierCreate N) s

/-! ## The invariant -/

/-- The value of the senses after a number of rounds. -/
def senseAfter (round : ℕ) : Bool := round % 2 = 1

theorem senseAfter_succ (round : ℕ) :
    senseAfter (round + 1) = !senseAfter round := by
  simp only [senseAfter]
  rcases Nat.mod_two_eq_zero_or_one round with h | h <;> simp [Nat.add_mod, h]

/-- Participants that have decremented the counter in the current round. -/
def State.arrived (s : State N) (round : ℕ) : Finset (Fin N) :=
  {i | s.calls i = round + 1 ∧ s.pc i ≠ .entered}

/-- The last participant to arrive, between its decrement and its return. -/
def State.IsLast (s : State N) (i : Fin N) : Prop :=
  s.pc i = .reset ∨ s.pc i = .release

/-- Where a participant can be when `round` rounds are complete: outside, after
taking part in all of them; in the next round; or it has not yet seen the sense
of the last one. -/
structure InRound (s : State N) (round : ℕ) (i : Fin N) : Prop where
  localSense : s.localSense i = senseAfter (s.calls i)
  calls : s.calls i = round ∨ s.calls i = round + 1
  outside : s.pc i = .outside → s.calls i = round ∧ s.returns i = round
  inside : s.pc i ≠ .outside → s.calls i = s.returns i + 1
  next : s.pc i ≠ .outside → s.pc i ≠ .spinning → s.calls i = round + 1

/-- `round` rounds are complete.  The counter is the number of participants that
have not arrived in the next one, until the last to arrive resets it. -/
structure Round (s : State N) (round : ℕ) : Prop where
  processCount : s.processCount = N
  sense : s.sense = senseAfter round
  inRound : ∀ i, InRound s round i
  remaining : (∀ i, s.pc i ≠ .release) →
    s.processesRemaining = N - (s.arrived round).card
  reset : ∀ i, s.pc i = .release → s.processesRemaining = N
  last : ∀ i, s.IsLast i → ∀ j, j ≠ i → s.pc j = .spinning ∧ s.calls j = round + 1
  waiting : (∀ i, ¬ s.IsLast i) → (s.arrived round).card < N

theorem State.mem_arrived {s : State N} {round : ℕ} {i : Fin N} :
    i ∈ s.arrived round ↔ s.calls i = round + 1 ∧ s.pc i ≠ .entered := by
  simp [State.arrived]

theorem round_barrierCreate (hN : 1 ≤ N) : Round (barrierCreate N) 0 where
  processCount := rfl
  sense := rfl
  inRound i := ⟨rfl, .inl rfl, fun _ => ⟨rfl, rfl⟩, fun h => absurd rfl h,
    fun h => absurd rfl h⟩
  remaining _ := by simp [barrierCreate, State.arrived]
  reset _ h := by cases h
  last _ h := by rcases h with h | h <;> cases h
  waiting _ := by
    simp only [State.arrived, barrierCreate, zero_add, zero_ne_one, false_and,
      Finset.filter_false, Finset.card_empty]
    omega

/-- Only the participant's own position, counts and sense differ. -/
structure Moves (s s' : State N) (i : Fin N) : Prop where
  pc : ∀ j, j ≠ i → s'.pc j = s.pc j
  localSense : ∀ j, j ≠ i → s'.localSense j = s.localSense j
  calls : ∀ j, j ≠ i → s'.calls j = s.calls j
  returns : ∀ j, j ≠ i → s'.returns j = s.returns j

section Steps

variable {s s' : State N} {round : ℕ} {i j : Fin N}

theorem moves_goto (s : State N) (i : Fin N) (pc : Pc) :
    Moves s (s.goto i pc) i where
  pc j hj := by simp [State.goto, hj]
  localSense _ _ := rfl
  calls _ _ := rfl
  returns _ _ := rfl

theorem State.goto_pc_self (s : State N) (i : Fin N) (pc : Pc) :
    (s.goto i pc).pc i = pc := by
  simp [State.goto]

theorem InRound.of_moves (hmoves : Moves s s' i) (hj : j ≠ i)
    (h : InRound s round j) : InRound s' round j := by
  constructor <;> rw [hmoves.calls j hj]
  · rw [hmoves.localSense j hj]
    exact h.localSense
  · exact h.calls
  · rw [hmoves.pc j hj, hmoves.returns j hj]
    exact h.outside
  · rw [hmoves.pc j hj, hmoves.returns j hj]
    exact h.inside
  · rw [hmoves.pc j hj]
    exact h.next

theorem Moves.isLast_iff (hmoves : Moves s s' i) (hj : j ≠ i) :
    s'.IsLast j ↔ s.IsLast j := by
  rw [State.IsLast, State.IsLast, hmoves.pc j hj]

theorem Moves.mem_arrived (hmoves : Moves s s' i) (hj : j ≠ i) :
    j ∈ s'.arrived round ↔ j ∈ s.arrived round := by
  rw [State.mem_arrived, State.mem_arrived, hmoves.pc j hj, hmoves.calls j hj]

theorem Moves.arrived_eq (hmoves : Moves s s' i)
    (hi : i ∈ s'.arrived round ↔ i ∈ s.arrived round) :
    s'.arrived round = s.arrived round := by
  ext j
  by_cases hj : j = i
  · rw [hj, hi]
  · exact hmoves.mem_arrived hj

/-- While a participant has yet to arrive, nobody is the last one. -/
theorem Round.not_isLast (h : Round s round) (hi : ¬ s.IsLast i)
    (hnot : s.calls i ≠ round + 1 ∨ s.pc i ≠ .spinning) (j : Fin N) :
    ¬ s.IsLast j := by
  intro hj
  by_cases hij : i = j
  · exact hi (hij ▸ hj)
  · obtain ⟨hpc, hcalls⟩ := h.last j hj i hij
    rcases hnot with hnot | hnot
    · exact hnot hcalls
    · exact hnot hpc

/-- A step after which nobody is last, as before, and which changes neither the
shared variables nor who has arrived. -/
theorem Round.of_moves (h : Round s round) (hmoves : Moves s s' i)
    (hshared : s'.processesRemaining = s.processesRemaining ∧
      s'.sense = s.sense ∧ s'.processCount = s.processCount)
    (hi : InRound s' round i)
    (harrived : i ∈ s'.arrived round ↔ i ∈ s.arrived round)
    (hnone : ∀ j, ¬ s.IsLast j) (hlast : ¬ s'.IsLast i) : Round s' round := by
  have hnone' : ∀ j, ¬ s'.IsLast j := by
    intro j
    by_cases hj : j = i
    · exact hj ▸ hlast
    · rw [hmoves.isLast_iff hj]
      exact hnone j
  refine ⟨hshared.2.2.trans h.processCount, hshared.2.1.trans h.sense,
    fun j => ?_, fun _ => ?_, fun j hj => absurd (.inr hj) (hnone' j),
    fun j hj => absurd hj (hnone' j), fun _ => ?_⟩
  · by_cases hj : j = i
    · exact hj ▸ hi
    · exact (h.inRound j).of_moves hmoves hj
  · rw [hshared.1, hmoves.arrived_eq harrived]
    exact h.remaining fun j hj => hnone j (.inr hj)
  · rw [hmoves.arrived_eq harrived]
    exact h.waiting hnone

theorem Round.call (h : Round s round) (hpc : s.pc i = .outside) :
    Round (s.call i) round := by
  obtain ⟨hcalls, hreturns⟩ := (h.inRound i).outside hpc
  have hself : (s.call i).pc i = .entered := s.goto_pc_self i .entered
  have hcallsSelf : (s.call i).calls i = round + 1 := by
    simp [State.call, hcalls]
  have hmoves : Moves s (s.call i) i := by
    constructor <;> intro j hj <;> simp [State.call, State.goto, hj]
  have hlast : ¬ s.IsLast i := by simp [State.IsLast, hpc]
  refine h.of_moves hmoves ⟨rfl, rfl, rfl⟩ ?_ ?_
    (h.not_isLast hlast (.inl (by omega))) (by simp [State.IsLast, hself])
  · refine ⟨?_, .inr hcallsSelf, fun hout => ?_, fun _ => ?_, fun _ _ => hcallsSelf⟩
    · rw [hcallsSelf, senseAfter_succ, ← hcalls, ← (h.inRound i).localSense]
      simp [State.call]
    · cases hself.symm.trans hout
    · rw [hcallsSelf, ← hreturns]
      rfl
  · rw [State.mem_arrived, State.mem_arrived, hself, hcalls]
    simp

theorem Round.fetchSub (h : Round s round) (hpc : s.pc i = .entered) :
    Round { s.goto i (if s.processesRemaining = 1 then .reset else .spinning)
      with processesRemaining := s.processesRemaining - 1 } round := by
  generalize hpcNew : (if s.processesRemaining = 1 then Pc.reset else .spinning) =
    pc
  generalize hnew : ({ s.goto i pc with
    processesRemaining := s.processesRemaining - 1 } : State N) = s'
  have hmoves : Moves s s' i := by
    subst hnew
    exact ⟨(moves_goto s i pc).pc, fun _ _ => rfl, fun _ _ => rfl, fun _ _ => rfl⟩
  have hself : s'.pc i = pc := by
    subst hnew
    exact s.goto_pc_self i pc
  have hout : pc ≠ .outside ∧ pc ≠ .entered ∧ pc ≠ .release := by
    subst hpcNew
    split_ifs <;> simp
  have hcalls : s.calls i = round + 1 :=
    (h.inRound i).next (by simp [hpc]) (by simp [hpc])
  have hcalls' : s'.calls i = round + 1 := by
    subst hnew
    exact hcalls
  have hnone : ∀ j, ¬ s.IsLast j := by
    apply h.not_isLast (i := i)
    · simp [State.IsLast, hpc]
    · exact .inr (by simp [hpc])
  have hremaining := h.remaining fun j hj => hnone j (.inr hj)
  have hcard : (s'.arrived round).card = (s.arrived round).card + 1 := by
    have hnot : i ∉ s.arrived round := by
      rw [State.mem_arrived]
      exact fun h => h.2 hpc
    rw [← Finset.card_insert_of_notMem hnot]
    congr 1
    ext j
    rw [Finset.mem_insert]
    by_cases hj : j = i
    · rw [hj, State.mem_arrived, hself]
      exact ⟨fun _ => .inl rfl, fun _ => ⟨hcalls', hout.2.1⟩⟩
    · rw [hmoves.mem_arrived hj]
      exact ⟨.inr, fun h => h.resolve_left hj⟩
  have hisLast : ∀ j, s'.IsLast j → j = i ∧ s.processesRemaining = 1 := by
    intro j hj
    have hji : j = i := by
      by_contra hji
      exact hnone j ((hmoves.isLast_iff hji).mp hj)
    subst hji
    refine ⟨rfl, ?_⟩
    by_contra hne
    rw [if_neg hne] at hpcNew
    rw [State.IsLast, hself, ← hpcNew] at hj
    simp at hj
  refine ⟨?_, ?_, fun j => ?_, fun _ => ?_, fun j hrel => ?_,
    fun j hlast k hk => ?_, fun hlast => ?_⟩
  · subst hnew
    exact h.processCount
  · subst hnew
    exact h.sense
  · by_cases hj : j = i
    · subst hj
      refine ⟨?_, .inr hcalls', fun hj => absurd (hself.symm.trans hj) hout.1,
        fun _ => ?_, fun _ _ => hcalls'⟩
      · subst hnew
        exact (h.inRound j).localSense
      · subst hnew
        exact (h.inRound j).inside (by simp [hpc])
    · exact (h.inRound j).of_moves hmoves hj
  · rw [hcard]
    subst hnew
    simp only [hremaining]
    push_cast
    ring
  · obtain ⟨rfl, -⟩ := hisLast j (.inr hrel)
    exact absurd (hself.symm.trans hrel) hout.2.2
  · -- The counter was 1, so everybody else had arrived.
    obtain ⟨rfl, hone⟩ := hisLast j hlast
    have huniv : s'.arrived round = Finset.univ := by
      apply Finset.eq_univ_of_card
      rw [hcard, Fintype.card_fin]
      omega
    have hk' : k ∈ s.arrived round :=
      (hmoves.mem_arrived hk).mp (huniv ▸ Finset.mem_univ k)
    rw [State.mem_arrived] at hk'
    rw [hmoves.pc k hk, hmoves.calls k hk]
    refine ⟨?_, hk'.1⟩
    cases hpcK : s.pc k with
    | outside =>
        have hround := ((h.inRound k).outside hpcK).1
        omega
    | entered => exact absurd hpcK hk'.2
    | reset => exact absurd (.inl hpcK) (hnone k)
    | release => exact absurd (.inr hpcK) (hnone k)
    | spinning => rfl
  · have hne : s.processesRemaining ≠ 1 := by
      intro hone
      rw [if_pos hone] at hpcNew
      exact hlast i (.inl (hself.trans hpcNew.symm))
    have hlt := h.waiting hnone
    rw [hcard]
    omega

theorem Round.reset_step (h : Round s round) (hpc : s.pc i = .reset) :
    Round { s.goto i .release with processesRemaining := s.processCount }
      round := by
  have hmoves := moves_goto s i .release
  have hself := s.goto_pc_self i .release
  have hothers := h.last i (.inl hpc)
  have hcalls := (h.inRound i).next (by simp [hpc]) (by simp [hpc])
  refine ⟨h.processCount, h.sense, fun j => ?_, fun hrel => absurd hself (hrel i),
    fun _ _ => h.processCount, fun j hlast k hk => ?_,
    fun hlast => absurd (.inr hself) (hlast i)⟩
  · by_cases hj : j = i
    · subst hj
      exact ⟨(h.inRound j).localSense, .inr hcalls,
        fun hout => absurd (hself.symm.trans hout) (by simp),
        fun _ => (h.inRound j).inside (by simp [hpc]), fun _ _ => hcalls⟩
    · obtain ⟨hlocal, hcalls, hout, hin, hnext⟩ :=
        (h.inRound j).of_moves hmoves hj
      exact ⟨hlocal, hcalls, hout, hin, hnext⟩
  · have hji : j = i := by
      by_contra hji
      rcases (hmoves.isLast_iff hji).mp hlast with hlast | hlast
      · rw [(hothers j hji).1] at hlast
        cases hlast
      · rw [(hothers j hji).1] at hlast
        cases hlast
    subst hji
    exact ⟨(hmoves.pc k hk).trans (hothers k hk).1, (hothers k hk).2⟩

/-- Writing the shared sense completes the round: everybody else is waiting for
this value. -/
theorem Round.release_step (h : Round s round) (hpc : s.pc i = .release) :
    Round { s.return i with sense := s.localSense i } (round + 1) := by
  generalize hnew : ({ s.return i with sense := s.localSense i } : State N) = s'
  have hmoves : Moves s s' i := by
    subst hnew
    constructor <;> intro j hj <;> simp [State.return, State.goto, hj]
  have hself : s'.pc i = .outside := by
    subst hnew
    exact s.goto_pc_self i .outside
  have hothers := h.last i (.inr hpc)
  have hcalls := (h.inRound i).next (by simp [hpc]) (by simp [hpc])
  have hin := (h.inRound i).inside (by simp [hpc])
  have hcallsEq : s'.calls = s.calls := by
    subst hnew
    rfl
  have hallCalls : ∀ j, s'.calls j = round + 1 := by
    intro j
    rw [hcallsEq]
    by_cases hj : j = i
    · rw [hj, hcalls]
    · exact (hothers j hj).2
  have hempty : s'.arrived (round + 1) = ∅ := by
    refine Finset.eq_empty_of_forall_notMem fun j hj => ?_
    rw [State.mem_arrived, hallCalls j] at hj
    omega
  have hnotLast : ∀ j, ¬ s'.IsLast j := by
    intro j hj
    by_cases hji : j = i
    · rw [hji, State.IsLast, hself] at hj
      simp at hj
    · rw [hmoves.isLast_iff hji, State.IsLast, (hothers j hji).1] at hj
      simp at hj
  refine ⟨?_, ?_, fun j => ?_, fun _ => ?_, fun j hj => absurd (.inr hj) (hnotLast j),
    fun j hj => absurd hj (hnotLast j), fun _ => ?_⟩
  · subst hnew
    exact h.processCount
  · subst hnew
    rw [← hcalls]
    exact (h.inRound i).localSense
  · have hlocal : s'.localSense j = senseAfter (s'.calls j) := by
      subst hnew
      exact (h.inRound j).localSense
    refine ⟨hlocal, .inl (hallCalls j), fun hout => ⟨hallCalls j, ?_⟩,
      fun hinside => ?_, fun hinside hspin => ?_⟩
    · by_cases hj : j = i
      · subst hj
        subst hnew
        simp only [State.return, Function.update_self]
        omega
      · rw [hmoves.pc j hj, (hothers j hj).1] at hout
        cases hout
    · by_cases hj : j = i
      · exact absurd (hj ▸ hself) hinside
      · rw [hmoves.returns j hj, hmoves.calls j hj]
        exact (h.inRound j).inside (by simp [(hothers j hj).1])
    · by_cases hj : j = i
      · exact absurd (hj ▸ hself) hinside
      · exact absurd ((hmoves.pc j hj).trans (hothers j hj).1) hspin
  · have hremaining : s'.processesRemaining = N := by
      subst hnew
      exact h.reset i hpc
    rw [hremaining, hempty]
    simp
  · rw [hempty, Finset.card_empty]
    exact i.pos

/-- A participant that sees its own sense is still in the last round. -/
theorem Round.calls_of_agrees (h : Round s round)
    (hagrees : s.sense = s.localSense i) : s.calls i = round := by
  refine (h.inRound i).calls.resolve_right fun hcalls => ?_
  rw [h.sense, (h.inRound i).localSense, hcalls, senseAfter_succ] at hagrees
  simp at hagrees

theorem Round.leave (h : Round s round) (hpc : s.pc i = .spinning)
    (hagrees : s.sense = s.localSense i) : Round (s.return i) round := by
  have hmoves : Moves s (s.return i) i := by
    constructor <;> intro j hj <;> simp [State.return, State.goto, hj]
  have hself : (s.return i).pc i = .outside := s.goto_pc_self i .outside
  have hcalls := h.calls_of_agrees hagrees
  have hin := (h.inRound i).inside (by simp [hpc])
  have hlast : ¬ s.IsLast i := by simp [State.IsLast, hpc]
  refine h.of_moves hmoves ⟨rfl, rfl, rfl⟩ ?_ ?_
    (h.not_isLast hlast (.inl (by omega))) (by simp [State.IsLast, hself])
  · refine ⟨(h.inRound i).localSense, .inl hcalls, fun _ => ⟨hcalls, ?_⟩,
      fun hinside => absurd hself hinside, fun hinside => absurd hself hinside⟩
    simp only [State.return, Function.update_self]
    omega
  · have hcalls' : (s.return i).calls i = round := hcalls
    rw [State.mem_arrived, State.mem_arrived, hcalls, hcalls']
    simp

theorem Round.step (h : Round s round) (hstep : Step s s') :
    Round s' round ∨ Round s' (round + 1) := by
  cases hstep with
  | call i pc => exact .inl (h.call pc)
  | fetchSub i pc => exact .inl (h.fetchSub pc)
  | reset i pc => exact .inl (h.reset_step pc)
  | release i pc => exact .inr (h.release_step pc)
  | spin i pc differs => exact .inl h
  | leave i pc agrees => exact .inl (h.leave pc agrees)

end Steps

theorem Reachable.exists_round {s : State N} (hN : 1 ≤ N) (hs : Reachable s) :
    ∃ round, Round s round := by
  induction hs with
  | refl => exact ⟨0, round_barrierCreate hN⟩
  | tail before step ih =>
      obtain ⟨round, h⟩ := ih
      rcases h.step step with h | h
      · exact ⟨round, h⟩
      · exact ⟨round + 1, h⟩

/-! ## What the rounds say -/

section Rounds

variable {s t : State N} {round : ℕ} {i j : Fin N}

theorem Round.returns_le_calls (h : Round s round) : s.returns i ≤ s.calls j := by
  have hj := (h.inRound j).calls
  by_cases hi : s.pc i = .outside
  · have hreturns := ((h.inRound i).outside hi).2
    omega
  · have hin := (h.inRound i).inside hi
    have hcalls := (h.inRound i).calls
    omega

theorem Round.processesRemaining_mem (h : Round s round) :
    0 ≤ s.processesRemaining ∧ s.processesRemaining ≤ N := by
  by_cases hrel : ∃ i, s.pc i = .release
  · obtain ⟨i, hi⟩ := hrel
    rw [h.reset i hi]
    omega
  · have hremaining := h.remaining fun i hi => hrel ⟨i, hi⟩
    have hcard := Finset.card_le_univ (s.arrived round)
    rw [Fintype.card_fin] at hcard
    omega

/-- When the shared sense changes, everybody but the one who changes it is
waiting for the new value. -/
theorem Round.waiting_of_sense_ne (h : Round s round) (hstep : Step s t)
    (hsense : t.sense ≠ s.sense) (hspin : s.pc i = .spinning) :
    s.localSense i ≠ s.sense := by
  cases hstep with
  | call j pc => exact absurd rfl hsense
  | fetchSub j pc => exact absurd rfl hsense
  | reset j pc => exact absurd rfl hsense
  | release j pc =>
      have hij : i ≠ j := by
        rintro rfl
        rw [pc] at hspin
        cases hspin
      rw [h.sense, (h.inRound i).localSense, (h.last j (.inr pc) i hij).2,
        senseAfter_succ]
      simp
  | spin j pc differs => exact absurd rfl hsense
  | leave j pc agrees => exact absurd rfl hsense

/-- Participants that have called and not yet decremented the counter. -/
def State.entering (s : State N) : Finset (Fin N) := {i | s.pc i = .entered}

/-- If all participants are inside and nobody can leave or is last, somebody has
yet to decrement the counter. -/
theorem Round.exists_entered (h : Round s round)
    (hin : ∀ i, s.pc i ≠ .outside) (hlast : ∀ i, ¬ s.IsLast i)
    (hwait : ∀ i, s.pc i = .spinning → s.sense ≠ s.localSense i) :
    ∃ i, s.pc i = .entered := by
  by_contra hnone
  have hall : s.arrived round = Finset.univ := by
    refine Finset.eq_univ_iff_forall.mpr fun i => ?_
    rw [State.mem_arrived]
    refine ⟨(h.inRound i).calls.resolve_left fun hcalls => ?_,
      fun hpc => hnone ⟨i, hpc⟩⟩
    have hspin : s.pc i = .spinning := by
      by_contra hspin
      have hnext := (h.inRound i).next (hin i) hspin
      omega
    apply hwait i hspin
    rw [h.sense, (h.inRound i).localSense, hcalls]
  have hlt := h.waiting hlast
  rw [hall, Finset.card_univ, Fintype.card_fin] at hlt
  omega

theorem State.returns_lt_return (s : State N) (i : Fin N) :
    s.returns i < (s.return i).returns i := by
  simp [State.return]

/-- If all participants are inside, some of them can go on until one returns. -/
theorem Round.exists_return (h : Round s round) (hin : ∀ i, s.pc i ≠ .outside) :
    ∃ t, Relation.ReflTransGen Step s t ∧ ∃ i, s.returns i < t.returns i := by
  -- The induction is on the number of participants that have yet to arrive.
  induction hn : s.entering.card using Nat.strong_induction_on generalizing s with
  | _ n ih =>
      by_cases hleave : ∃ i, s.pc i = .spinning ∧ s.sense = s.localSense i
      · obtain ⟨i, hpc, hagrees⟩ := hleave
        exact ⟨_, .single (.leave i hpc hagrees), i, s.returns_lt_return i⟩
      by_cases hrelease : ∃ i, s.pc i = .release
      · obtain ⟨i, hpc⟩ := hrelease
        exact ⟨_, .single (.release i hpc), i, s.returns_lt_return i⟩
      by_cases hreset : ∃ i, s.pc i = .reset
      · obtain ⟨i, hpc⟩ := hreset
        exact ⟨_, .tail (.single (.reset i hpc))
          (.release i (s.goto_pc_self i .release)), i, s.returns_lt_return i⟩
      obtain ⟨i, hpc⟩ := h.exists_entered hin
        (fun i hlast => hlast.elim (fun hi => hreset ⟨i, hi⟩)
          fun hi => hrelease ⟨i, hi⟩)
        fun i hspin hagrees => hleave ⟨i, hspin, hagrees⟩
      have hstep := Step.fetchSub i hpc
      generalize hpcNew :
        (if s.processesRemaining = 1 then Pc.reset else .spinning) = pc at hstep
      have hpcNe : pc ≠ .entered ∧ pc ≠ .outside := by
        subst hpcNew
        split_ifs <;> simp
      have hmoves := moves_goto s i pc
      have hself := s.goto_pc_self i pc
      have hround := h.fetchSub hpc
      rw [hpcNew] at hround
      have hless : (s.goto i pc).entering.card < s.entering.card := by
        refine Finset.card_lt_card (Finset.ssubset_iff_of_subset ?_ |>.mpr
          ⟨i, by simp [State.entering, hpc], by simp [State.entering, hself, hpcNe]⟩)
        intro j hj
        simp only [State.entering, Finset.mem_filter, Finset.mem_univ,
          true_and] at hj ⊢
        by_cases hji : j = i
        · rw [hji, hpc]
        · rw [← hmoves.pc j hji, hj]
      have hin' : ∀ j, (s.goto i pc).pc j ≠ .outside := by
        intro j hj
        by_cases hji : j = i
        · exact hpcNe.2 (hself.symm.trans (hji ▸ hj))
        · exact hin j ((hmoves.pc j hji).symm.trans hj)
      obtain ⟨t, hrun, j, hj⟩ := ih _ (hn ▸ hless) hround hin' rfl
      exact ⟨t, .head hstep hrun, j, hj⟩

end Rounds

/-- `BarrierWait` is a reusable barrier for any number of participants. -/
theorem barrierWait_correct (N : ℕ) (hN : 1 ≤ N) (s : State N)
    (hs : Reachable s) :
    (∀ i j, s.returns i ≤ s.calls j) ∧
    (0 ≤ s.processesRemaining ∧ s.processesRemaining ≤ N) ∧
    (∀ t, Step s t → t.sense ≠ s.sense →
      ∀ i, s.pc i = .spinning → s.localSense i ≠ s.sense) ∧
    ((∀ i, s.pc i ≠ .outside) →
      ∃ t, Relation.ReflTransGen Step s t ∧ ∃ i, s.returns i < t.returns i) := by
  obtain ⟨round, h⟩ := hs.exists_round hN
  exact ⟨fun i j => h.returns_le_calls, h.processesRemaining_mem,
    fun t hstep hsense i hspin => h.waiting_of_sense_ne hstep hsense hspin,
    h.exists_return⟩

/-- Two participants, both of which have called. -/
theorem barrierWait_correct_two :
    ∃ s : State 2, s.calls = (fun _ => 1) ∧
      (∀ i j, s.returns i ≤ s.calls j) ∧
      (0 ≤ s.processesRemaining ∧ s.processesRemaining ≤ (2 : ℕ)) ∧
      (∀ t, Step s t → t.sense ≠ s.sense →
        ∀ i, s.pc i = .spinning → s.localSense i ≠ s.sense) ∧
      ((∀ i, s.pc i ≠ .outside) →
        ∃ t, Relation.ReflTransGen Step s t ∧ ∃ i, s.returns i < t.returns i) :=
  ⟨((barrierCreate 2).call 0).call 1, by decide,
    barrierWait_correct 2 (by decide) _
      (.tail (.single (.call 0 rfl)) (.call 1 rfl))⟩

end A100Partitioning.Barrier
