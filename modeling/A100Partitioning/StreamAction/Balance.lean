import A100Partitioning.StreamAction.Accounts
import A100Partitioning.Support.BoundedCounter
import Mathlib.Data.Option.Basic
import Mathlib.Order.Basic
import Mathlib.Tactic.Common

/-!
# Balanced lists of actions

The lengths of the two pointer stacks are counters between zero and the maximum.
As they start at the number of preallocated buffers, not every balanced list of
`malloc` and `free` actions fits.
-/

namespace A100Partitioning.StreamAction

open Support TaskState

/-! ## Stacks as counters -/

/-- What an action does to the counter of a memory space; `true` is a `malloc`. -/
def ActionConfig.move (space : MemorySpace) : ActionConfig → Option Bool
  | .malloc allocateHostMemory _ => if spaceOf allocateHostMemory = space then some true else none
  | .free freeHostMemory => if spaceOf freeHostMemory = space then some false else none
  | _ => none

/-- The `malloc` and `free` actions of a memory space. -/
def moves (space : MemorySpace) (actions : List ActionConfig) : List Bool :=
  actions.filterMap (ActionConfig.move space)

section Counters

variable {state : TaskState} {space : MemorySpace}

/-- The counters after some moves, if they stay within their bounds. -/
def counted (moves : Option Bool) (n : ℕ) : Option ℕ :=
  match moves with
  | none => some n
  | some up => BoundedCounter.step maxMemoryAllocationCount up n

theorem stack_pushMalloc (space space' : MemorySpace) (size : ℕ) :
    ((state.pushMalloc space size).stack space').length =
      if space' = space then (state.stack space').length + 1
      else (state.stack space').length := by
  rw [pushMalloc, stack_setStack]
  split
  · rename_i heq
    rw [heq]
    rfl
  · cases space' <;> rfl

/-- An action succeeds and leaves the stacks as long as the counters say, or it fails
because one of the counters is at its bound, and changes nothing. -/
theorem executeAction_cases (state : TaskState) (action : ActionConfig) :
    ((executeAction state action).1 = .ok () ∧ ∀ space,
      counted (action.move space) (state.stack space).length =
        some ((executeAction state action).2.stack space).length) ∨
    (∃ e, executeAction state action = (.error e, state)) ∧
      ∃ space, counted (action.move space) (state.stack space).length = none := by
  cases action with
  | malloc allocateHostMemory size =>
      rw [executeAction, executeMallocAction]
      by_cases hfull :
          maxMemoryAllocationCount ≤ (state.stack (spaceOf allocateHostMemory)).length
      · rw [if_pos hfull]
        refine .inr ⟨⟨_, rfl⟩, spaceOf allocateHostMemory, ?_⟩
        rw [ActionConfig.move, if_pos rfl]
        exact if_neg (not_lt.mpr hfull)
      · rw [if_neg hfull]
        refine .inl ⟨rfl, ?_⟩
        intro space
        rw [ActionConfig.move, stack_pushMalloc]
        by_cases hspace : spaceOf allocateHostMemory = space
        · rw [if_pos hspace, if_pos hspace.symm]
          subst hspace
          exact if_pos (not_le.mp hfull)
        · rw [if_neg hspace, if_neg (Ne.symm hspace)]
          rfl
  | free freeHostMemory =>
      rw [executeAction, executeFreeAction]
      split
      · rename_i hstack
        refine .inr ⟨⟨_, rfl⟩, spaceOf freeHostMemory, ?_⟩
        rw [ActionConfig.move, if_pos rfl, hstack]
        rfl
      · rename_i p pointers hstack
        refine .inl ⟨rfl, ?_⟩
        intro space
        have hlength : (((state.setStack (spaceOf freeHostMemory) pointers).call
            (.free p)).stack space).length =
              if space = spaceOf freeHostMemory then pointers.length
              else (state.stack space).length := by
          have heq := @stack_setStack state (spaceOf freeHostMemory) space pointers
          rw [← apply_ite List.length, ← heq]
          cases space <;> rfl
        rw [hlength, ActionConfig.move]
        by_cases hspace : spaceOf freeHostMemory = space
        · rw [if_pos hspace, if_pos hspace.symm, ← hspace, hstack]
          rfl
        · rw [if_neg hspace, if_neg (Ne.symm hspace)]
          rfl
  | _ => exact .inl ⟨rfl, fun space => by cases space <;> rfl⟩

/-- A list of actions succeeds if and only if both counters can make its moves. -/
theorem executeActions_cases (state : TaskState) (actions : List ActionConfig) :
    ((executeActions actions state).1 = .ok () ∧ ∀ space,
      BoundedCounter.run maxMemoryAllocationCount (moves space actions)
        (state.stack space).length =
          some ((executeActions actions state).2.stack space).length) ∨
    (∃ e, (executeActions actions state).1 = .error e) ∧
      ∃ space, BoundedCounter.run maxMemoryAllocationCount (moves space actions)
        (state.stack space).length = none := by
  have hrun : ∀ action actions space n,
      BoundedCounter.run maxMemoryAllocationCount (moves space (action :: actions)) n =
        (counted (action.move space) n).bind
          (BoundedCounter.run maxMemoryAllocationCount (moves space actions)) := by
    intro action actions space n
    rw [moves, List.filterMap_cons]
    split
    · rename_i hnone
      rw [hnone]
      rfl
    · rename_i up hsome
      rw [hsome]
      rfl
  induction actions generalizing state with
  | nil => exact .inl ⟨rfl, fun _ => rfl⟩
  | cons action actions ih =>
      rw [executeActions]
      simp only [hrun]
      rcases executeAction_cases state action with ⟨hok, hcounted⟩ | ⟨⟨e, herror⟩, space, hnone⟩
      · simp only [hok, hcounted, Option.bind_some]
        exact ih _
      · simp only [herror]
        refine .inr ⟨⟨e, rfl⟩, space, ?_⟩
        rw [hnone]
        rfl

theorem length_executeAction_le
    (h : ∀ space, (state.stack space).length ≤ maxMemoryAllocationCount)
    (action : ActionConfig) (space : MemorySpace) :
    ((executeAction state action).2.stack space).length ≤ maxMemoryAllocationCount := by
  rcases executeAction_cases state action with ⟨-, hcounted⟩ | ⟨⟨e, herror⟩, -⟩
  · have hspace := hcounted space
    cases hmove : action.move space with
    | none =>
        rw [hmove] at hspace
        rw [← Option.some.inj hspace]
        exact h space
    | some up =>
        rw [hmove] at hspace
        exact ((BoundedCounter.step_eq_some (h space) up).mp hspace).2
  · rw [herror]
    exact h space

theorem length_executeActions_le
    (h : ∀ space, (state.stack space).length ≤ maxMemoryAllocationCount)
    (actions : List ActionConfig) (space : MemorySpace) :
    ((executeActions actions state).2.stack space).length ≤ maxMemoryAllocationCount := by
  induction actions generalizing state with
  | nil => exact h space
  | cons action actions ih =>
      have hnext := length_executeAction_le h action
      rw [executeActions]
      split
      · exact ih hnext
      · exact hnext space

theorem actions_executeAction (state : TaskState) (action : ActionConfig) :
    (executeAction state action).2.actions = state.actions := by
  have hset : ∀ (state : TaskState) space pointers,
      (state.setStack space pointers).actions = state.actions := by
    intro state space pointers
    cases space <;> rfl
  cases action with
  | malloc allocateHostMemory size =>
      rw [executeAction, executeMallocAction]
      split
      · rfl
      · exact hset _ _ _
  | free freeHostMemory =>
      rw [executeAction, executeFreeAction]
      split
      · rfl
      · exact hset _ _ _
  | _ => rfl

theorem actions_executeActions (state : TaskState) (actions : List ActionConfig) :
    (executeActions actions state).2.actions = state.actions := by
  induction actions generalizing state with
  | nil => rfl
  | cons action actions ih =>
      rw [executeActions]
      split
      · exact (ih _).trans (actions_executeAction state action)
      · exact actions_executeAction state action

theorem execute_eq (state : TaskState) :
    (execute state).1 = (executeActions state.actions state).1 ∧
      (execute state).2.actions = state.actions ∧
        ∀ space, (execute state).2.stack space =
          (executeActions state.actions state).2.stack space := by
  have hactions := actions_executeActions state state.actions
  rw [execute]
  split
  · rename_i hok
    refine ⟨hok.symm, hactions, ?_⟩
    intro space
    cases space <;> rfl
  · rename_i herror
    exact ⟨herror.symm, hactions, fun _ => rfl⟩

end Counters

/-! ## Initialization -/

section Initial

variable {state : TaskState} {space : MemorySpace}

theorem moves_cons (action : ActionConfig) (actions : List ActionConfig) :
    moves space (action :: actions) = (action.move space).toList ++ moves space actions := by
  rw [moves, List.filterMap_cons]
  cases action.move space <;> rfl

theorem moves_allocateActions (actions : List ActionConfig) :
    moves space (allocateActions actions state).1 = moves space actions := by
  induction actions generalizing state with
  | nil => rfl
  | cons action actions ih =>
      cases action with
      | kernel params => exact ih
      | _ => exact (moves_cons _ _).trans ((congrArg _ ih).trans (moves_cons _ _).symm)

/-- Buffers are preallocated if one of the counters moves at all. -/
theorem mallocActionExists_iff (actions : List ActionConfig) :
    mallocActionExists actions = true ↔ ∃ space, moves space actions ≠ [] := by
  have hmove : ∀ action : ActionConfig, (∃ space, action.move space ≠ none) ↔
      mallocActionExists [action] = true := by
    intro action
    cases action with
    | malloc allocateHostMemory size =>
        refine ⟨fun _ => rfl, fun _ => ⟨spaceOf allocateHostMemory, ?_⟩⟩
        rw [ActionConfig.move, if_pos rfl]
        exact Option.some_ne_none _
    | free freeHostMemory =>
        refine ⟨fun _ => rfl, fun _ => ⟨spaceOf freeHostMemory, ?_⟩⟩
        rw [ActionConfig.move, if_pos rfl]
        exact Option.some_ne_none _
    | _ =>
        constructor
        · rintro ⟨space, hne⟩
          exact absurd rfl hne
        · intro h
          cases h
  have hall : ∀ space, moves space actions = [] ↔
      ∀ action ∈ actions, action.move space = none :=
    fun space => List.filterMap_eq_nil_iff
  have hany : mallocActionExists actions = true ↔
      ∃ action ∈ actions, mallocActionExists [action] = true := by
    simp only [mallocActionExists, List.any_eq_true, List.mem_singleton, exists_eq_left]
  rw [hany]
  simp only [← hmove, Ne, hall, not_forall]
  constructor
  · rintro ⟨action, hmem, space, hne⟩
    exact ⟨space, action, hmem, hne⟩
  · rintro ⟨space, action, hmem, hne⟩
    exact ⟨action, hmem, space, hne⟩

/-- The number of buffers on both stacks at first. -/
def initialCount (actions : List ActionConfig) : ℕ :=
  if mallocActionExists actions then initialAllocationCount else 0

theorem length_preallocate (left : ℕ) :
    (preallocateFreeActionBuffers left state).actions = state.actions ∧
      ((preallocateFreeActionBuffers left state).stack space).length =
        (state.stack space).length + left := by
  induction left generalizing state with
  | zero => exact ⟨rfl, rfl⟩
  | succ left ih =>
      obtain ⟨hactions, hlength⟩ := @ih ((state.pushMalloc .device
        initialAllocationSize).pushMalloc .host initialAllocationSize)
      constructor
      · exact hactions
      · rw [preallocateFreeActionBuffers, hlength, stack_pushMalloc, stack_pushMalloc]
        cases space with
        | device =>
            rw [if_neg (by decide), if_pos rfl]
            omega
        | host =>
            rw [if_pos rfl, if_neg (by decide)]
            omega

theorem allocateBuffers_frame (state : TaskState) :
    (allocateBuffers state).actions = state.actions ∧
      (allocateBuffers state).stack space = state.stack space := by
  rw [allocateBuffers]
  split
  · cases space <;> exact ⟨rfl, rfl⟩
  · cases space <;> exact ⟨rfl, rfl⟩

/-- Before the buffers of `free` actions are allocated, the stacks are as they were. -/
theorem allocateMemory_eq (state : TaskState) :
    ∃ state' : TaskState, state'.actions = (allocateActions state.actions state).1 ∧
      (∀ space, state'.stack space = state.stack space) ∧
        allocateMemory state =
          if mallocActionExists state'.actions then
            preallocateFreeActionBuffers initialAllocationCount state'
          else state' := by
  refine ⟨_, (@allocateBuffers_frame .device _).1, ?_, rfl⟩
  intro space
  rw [(@allocateBuffers_frame space _).2, allocateActions_snd]
  cases space <;> rfl

theorem initializeTask_spec (actions : List ActionConfig) (space : MemorySpace) :
    moves space (initializeTask actions).actions = moves space actions ∧
      ((initializeTask actions).stack space).length = initialCount actions := by
  have hmoves : ∀ space state, moves space (allocateActions actions state).1 =
      moves space actions := fun space state => moves_allocateActions actions
  have hexists : ∀ state, mallocActionExists (allocateActions actions state).1 =
      mallocActionExists actions := by
    intro state
    rw [Bool.eq_iff_iff, mallocActionExists_iff, mallocActionExists_iff]
    simp only [hmoves]
  obtain ⟨state', hactions, hstack, heq⟩ :=
    allocateMemory_eq ⟨actions, none, none, none, [], [], []⟩
  have hempty : state'.stack space = [] := by
    rw [hstack]
    cases space <;> rfl
  rw [initializeTask, heq, hactions, hexists, initialCount]
  split
  · obtain ⟨hactions', hlength⟩ := @length_preallocate state' space initialAllocationCount
    rw [hactions', hactions, hlength, hempty]
    exact ⟨hmoves space _, rfl⟩
  · rw [hactions, hempty]
    exact ⟨hmoves space _, rfl⟩

end Initial

/-! ## Balanced lists -/

section Balanced

open BoundedCounter

variable {actions : List ActionConfig}

/-- As many `malloc` as `free` actions, in each memory space. -/
def Balanced (actions : List ActionConfig) : Prop :=
  ∀ space, (moves space actions).count true = (moves space actions).count false

/-- The state after `n` iterations, and `k` actions of the next one. -/
def stateAfter (actions : List ActionConfig) (n k : ℕ) : TaskState :=
  let state := (iterate n (initializeTask actions)).2
  (executeActions (state.actions.take k) state).2

/-- The state after `n` iterations and `Cleanup`. -/
def stateAtEnd (actions : List ActionConfig) (n : ℕ) : TaskState :=
  cleanup (iterate n (initializeTask actions)).2

/-- No action fails, the stacks fit in their arrays, nothing is freed twice, and in the
end everything allocated is freed. -/
structure RunsCleanly (actions : List ActionConfig) : Prop where
  succeeds : ∀ n, (iterate n (initializeTask actions)).1 = .ok ()
  fits : ∀ n k space,
    ((stateAfter actions n k).stack space).length ≤ maxMemoryAllocationCount
  notTwice : ∀ n k, (ledger (stateAfter actions n k).calls).freed.Nodup
  freedOnce : ∀ n, ∀ p ∈ (ledger (stateAtEnd actions n).calls).allocated,
    (ledger (stateAtEnd actions n).calls).freed.count p = 1

theorem initialCount_le (actions : List ActionConfig) :
    initialCount actions ≤ maxMemoryAllocationCount := by
  rw [initialCount]
  split <;> decide

/-- Where buffers are preallocated or not needed, the counters start as if there were
always the same number of them. -/
theorem within_initialCount_iff (space : MemorySpace) :
    Within maxMemoryAllocationCount (moves space actions) (initialCount actions) ↔
      ∀ k, -initialAllocationCount ≤ net ((moves space actions).take k) ∧
        net ((moves space actions).take k) ≤
          maxMemoryAllocationCount - initialAllocationCount := by
  rw [initialCount]
  by_cases hexists : mallocActionExists actions = true
  · rw [if_pos hexists, Within]
    apply forall_congr'
    intro k
    omega
  · rw [if_neg hexists]
    have hnil : moves space actions = [] := by
      by_contra hne
      exact hexists ((mallocActionExists_iff actions).mpr ⟨space, hne⟩)
    rw [hnil]
    constructor
    · intro _ k
      rw [List.take_nil]
      decide
    · intro _ k
      rw [List.take_nil]
      decide

/-- If the counters stay within their bounds, each iteration leaves the stacks as long
as they were at first. -/
theorem iterate_of_within (hbalanced : Balanced actions)
    (h : ∀ space, Within maxMemoryAllocationCount (moves space actions)
      (initialCount actions)) (n : ℕ) :
    (iterate n (initializeTask actions)).1 = .ok () ∧ ∀ space,
      moves space (iterate n (initializeTask actions)).2.actions = moves space actions ∧
        ((iterate n (initializeTask actions)).2.stack space).length =
          initialCount actions := by
  induction n with
  | zero => exact ⟨rfl, initializeTask_spec actions⟩
  | succ n ih =>
      obtain ⟨hok, hstate⟩ := ih
      rw [iterate]
      simp only [hok]
      generalize (iterate n (initializeTask actions)).2 = state at hstate ⊢
      obtain ⟨hresult, hactions, hstack⟩ := execute_eq state
      have hrun : ∀ space, run maxMemoryAllocationCount (moves space state.actions)
          (state.stack space).length = some (initialCount actions) := by
        intro space
        rw [(hstate space).1, (hstate space).2]
        apply (run_eq_some_iff (initialCount_le actions)).mpr
        refine ⟨?_, h space⟩
        rw [net_eq_count, hbalanced space]
        omega
      rcases executeActions_cases state state.actions with ⟨hok', hlength⟩ | ⟨-, space, hnone⟩
      · refine ⟨hresult.trans hok', ?_⟩
        intro space
        rw [hactions, hstack]
        refine ⟨(hstate space).1, ?_⟩
        exact Option.some.inj ((hlength space).symm.trans (hrun space))
      · rw [hrun space] at hnone
        cases hnone

theorem length_iterate_le (n : ℕ) (space : MemorySpace) :
    ((iterate n (initializeTask actions)).2.stack space).length ≤
      maxMemoryAllocationCount := by
  induction n generalizing space with
  | zero => exact (initializeTask_spec actions space).2.trans_le (initialCount_le actions)
  | succ n ih =>
      rw [iterate]
      split
      · rw [(execute_eq _).2.2]
        exact length_executeActions_le ih _ space
      · exact ih space

/-- A balanced list of actions runs cleanly if and only if every beginning of it frees at
most the preallocated buffers, and allocates at most as many as there is room for besides
them. -/
theorem runsCleanly_iff (hbalanced : Balanced actions) :
    RunsCleanly actions ↔ ∀ space k,
      -initialAllocationCount ≤ net ((moves space actions).take k) ∧
        net ((moves space actions).take k) ≤
          maxMemoryAllocationCount - initialAllocationCount := by
  simp only [← within_initialCount_iff]
  constructor
  · intro h space
    have hone := h.succeeds 1
    rw [iterate, iterate] at hone
    rw [(execute_eq _).1] at hone
    obtain ⟨hmoves, hlength⟩ := initializeTask_spec actions space
    rcases executeActions_cases (initializeTask actions) (initializeTask actions).actions
      with ⟨-, hrun⟩ | ⟨⟨e, herror⟩, -⟩
    · have hspace := hrun space
      rw [hmoves, hlength] at hspace
      exact ((run_eq_some_iff (initialCount_le actions)).mp hspace).2
    · rw [herror] at hone
      cases hone
  · intro h
    have horder : ∀ n, (iterate n (initializeTask actions)).2.InOrder :=
      inOrder_iterate (inOrder_initializeTask actions)
    constructor
    · intro n
      exact (iterate_of_within hbalanced h n).1
    · intro n k space
      exact length_executeActions_le (length_iterate_le n) _ space
    · intro n k
      exact (inOrder_executeActions (horder n) _).holds.nodup_freed
    · intro n p hp
      exact (holds_cleanup (horder n)).count_freed hp

/-- A list that frees before it allocates. -/
def freeFirst : List ActionConfig :=
  [.free false, .malloc true 8, .malloc false 1024, .free true]

theorem runsCleanly_freeFirst : Balanced freeFirst ∧ RunsCleanly freeFirst := by
  have hbalanced : Balanced freeFirst := by
    intro space
    cases space <;> decide
  refine ⟨hbalanced, ?_⟩
  apply (runsCleanly_iff hbalanced).mpr
  intro space
  apply (within_initialCount_iff space).mp
  apply (run_isSome_iff (initialCount_le freeFirst)).mp
  cases space <;> decide

/-- Seven allocations, and then as many `free` actions. -/
def sevenMallocs : List ActionConfig :=
  List.replicate 7 (.malloc false 1024) ++ List.replicate 7 (.free false)

/-- The seventh of them finds the stack full. -/
theorem sevenMallocs_not_runsCleanly :
    Balanced sevenMallocs ∧
      (∀ space, (moves space sevenMallocs).count true ≤ maxMemoryAllocationCount) ∧
      ¬ RunsCleanly sevenMallocs := by
  refine ⟨?_, ?_, ?_⟩
  · intro space
    cases space <;> decide
  · intro space
    cases space <;> decide
  · intro h
    have hfails : (iterate 1 (initializeTask sevenMallocs)).1 =
        .error (.tooManyUnfreed .device) := by
      rfl
    rw [h.succeeds 1] at hfails
    cases hfails

end Balanced

end A100Partitioning.StreamAction
