import A100Partitioning.StreamAction.Actions

/-!
# Nothing leaks, and nothing is freed twice

At every moment, the pointers in a task state are the allocations that have not
been freed.  `Cleanup` frees each of them once.
-/

namespace A100Partitioning.StreamAction

open Support

/-! ## Accounts -/

section Calls

variable {calls : List CudaCall} {held held' : List Pointer} {p : Pointer}

@[simp] theorem ledger_malloc (size : ℕ) :
    ledger (.malloc p size :: calls) = (ledger calls).alloc p := rfl

@[simp] theorem ledger_free : ledger (.free p :: calls) = (ledger calls).free p := rfl

/-- The allocations are numbered, and these are held. -/
structure Accounts (calls : List CudaCall) (held : List Pointer) : Prop where
  holds : (ledger calls).Holds held
  numbered : ∀ p ∈ (ledger calls).allocated, p.serial < (ledger calls).allocated.length

theorem Accounts.nil : Accounts [] [] := by
  constructor
  · exact .empty
  · intro p hp
    cases hp

theorem Accounts.of_perm (h : Accounts calls held) (hperm : held.Perm held') :
    Accounts calls held' :=
  ⟨h.holds.of_perm hperm, h.numbered⟩

theorem Accounts.malloc (h : Accounts calls held) (space : MemorySpace) (size : ℕ) :
    Accounts (.malloc ⟨space, (ledger calls).allocated.length⟩ size :: calls)
      (⟨space, (ledger calls).allocated.length⟩ :: held) := by
  constructor
  · apply h.holds.alloc
    intro hmem
    exact Nat.lt_irrefl _ (h.numbered _ hmem)
  · intro p hp
    rw [ledger_malloc] at hp ⊢
    rcases List.mem_cons.mp hp with rfl | hp
    · exact Nat.lt_succ_self _
    · exact Nat.lt_succ_of_lt (h.numbered p hp)

theorem Accounts.free (h : Accounts calls (p :: held)) : Accounts (.free p :: calls) held := by
  constructor
  · exact h.holds.free
  · exact h.numbered

theorem Accounts.call {c : CudaCall} (h : Accounts calls held) (halloc : c.allocated = none)
    (hfree : c.freed = none) : Accounts (c :: calls) held := by
  have hledger : ledger (c :: calls) = ledger calls := by
    rw [ledger, List.filterMap_cons_none halloc, List.filterMap_cons_none hfree]
    rfl
  constructor
  · rw [hledger]
    exact h.holds
  · rw [hledger]
    exact h.numbered

end Calls

/-! ## What a task holds -/

/-- The buffers that are not `NULL`, in the order in which they are freed. -/
def KernelBuffers.pointers (buffers : KernelBuffers) : List Pointer :=
  [buffers.deviceBlockTimes, buffers.hostBlockTimes, buffers.deviceSmids,
    buffers.hostSmids].reduceOption

/-- The buffers of an action. -/
def ActionConfig.pointers : ActionConfig → List Pointer
  | .kernel params => params.buffers.pointers
  | _ => []

namespace TaskState

variable {state : TaskState}

/-- All pointers of a task that are not on the stacks. -/
def buffers (state : TaskState) : List Pointer :=
  state.actions.flatMap ActionConfig.pointers ++
    [state.hostCopyBuffer, state.deviceCopyBuffer, state.deviceSecondaryBuffer].reduceOption

/-- All pointers of a task, in the order in which they are freed. -/
def held (state : TaskState) : List Pointer :=
  state.buffers ++
    (state.deviceMemoryAllocations.reverse ++ state.hostMemoryAllocations.reverse)

/-- What is held is what is allocated. -/
def InOrder (state : TaskState) : Prop := Accounts state.calls state.held

theorem stack_setStack (space space' : MemorySpace) (pointers : List Pointer) :
    (state.setStack space pointers).stack space' =
      if space' = space then pointers else state.stack space' := by
  cases space <;> cases space' <;> rfl

theorem buffers_setStack (space : MemorySpace) (pointers : List Pointer) :
    (state.setStack space pointers).buffers = state.buffers := by
  cases space <;> rfl

theorem calls_setStack (space : MemorySpace) (pointers : List Pointer) :
    (state.setStack space pointers).calls = state.calls := by
  cases space <;> rfl

theorem held_perm (state : TaskState) (space : MemorySpace) :
    state.held.Perm (state.stack space ++ ((state.setStack space []).held)) := by
  cases space with
  | device =>
      rw [held, stack, held, buffers_setStack]
      refine (List.perm_append_comm_assoc _ _ _).trans ?_
      exact (List.reverse_perm _).append (.refl _)
  | host =>
      rw [held, stack, held, buffers_setStack, ← List.append_assoc]
      refine List.perm_append_comm.trans ((List.reverse_perm _).append ?_)
      exact .of_eq (congrArg (state.buffers ++ ·) (List.append_nil _).symm)

theorem held_setStack_cons (space : MemorySpace) (p : Pointer) (pointers : List Pointer) :
    (state.setStack space (p :: pointers)).held.Perm
      (p :: (state.setStack space pointers).held) := by
  have hperm : ∀ pointers, (state.setStack space pointers).held.Perm
      (pointers ++ (state.setStack space []).held) := by
    intro pointers
    refine (held_perm (state.setStack space pointers) space).trans (.of_eq ?_)
    rw [stack_setStack, if_pos rfl]
    cases space <;> rfl
  exact (hperm _).trans ((hperm pointers).symm.cons p)

theorem setStack_stack (space : MemorySpace) :
    state.setStack space (state.stack space) = state := by
  cases space <;> rfl

namespace InOrder

theorem pushMalloc (h : state.InOrder) (space : MemorySpace) (size : ℕ) :
    (state.pushMalloc space size).InOrder := by
  have haccounts := Accounts.malloc h space size
  rw [InOrder, TaskState.pushMalloc, calls_setStack]
  refine haccounts.of_perm (List.Perm.symm ((held_setStack_cons _ _ _).trans (.of_eq ?_)))
  cases space <;> rfl

theorem popFree (h : state.InOrder) {space : MemorySpace} {p : Pointer}
    {pointers : List Pointer} (hstack : state.stack space = p :: pointers) :
    ((state.setStack space pointers).call (.free p)).InOrder := by
  have hheld : state.held.Perm (p :: (state.setStack space pointers).held) := by
    have hcons := @held_setStack_cons state space p pointers
    rw [← hstack, setStack_stack] at hcons
    exact hcons
  have haccounts := Accounts.free (h.of_perm hheld)
  rw [InOrder, call, calls_setStack]
  exact haccounts

theorem call {c : CudaCall} (h : state.InOrder) (halloc : c.allocated = none)
    (hfree : c.freed = none) : (state.call c).InOrder :=
  Accounts.call h halloc hfree

end InOrder

end TaskState

open TaskState

/-! ## Execution -/

section Execute

variable {state : TaskState}

theorem inOrder_executeAction (h : state.InOrder) (action : ActionConfig) :
    (executeAction state action).2.InOrder := by
  cases action with
  | kernel params => exact h.call rfl rfl
  | malloc allocateHostMemory size =>
      rw [executeAction, executeMallocAction]
      split
      · exact h
      · exact h.pushMalloc _ _
  | free freeHostMemory =>
      rw [executeAction, executeFreeAction]
      split
      · exact h
      · rename_i hstack
        exact h.popFree hstack
  | memset synchronous size => exact h.call rfl rfl
  | memcpy direction synchronous size => exact h.call rfl rfl
  | sync syncDevice =>
      cases syncDevice with
      | false => exact h.call rfl rfl
      | true => exact h.call rfl rfl

theorem inOrder_executeActions (h : state.InOrder) (actions : List ActionConfig) :
    (executeActions actions state).2.InOrder := by
  induction actions generalizing state with
  | nil => exact h
  | cons action actions ih =>
      have hnext := inOrder_executeAction h action
      rw [executeActions]
      split
      · exact ih hnext
      · exact hnext

theorem inOrder_execute (h : state.InOrder) : (execute state).2.InOrder := by
  have hdone := inOrder_executeActions h state.actions
  rw [execute]
  split
  · exact hdone.call rfl rfl
  · exact hdone

theorem inOrder_iterate (h : state.InOrder) (n : ℕ) : (iterate n state).2.InOrder := by
  induction n with
  | zero => exact h
  | succ n ih =>
      rw [iterate]
      split
      · exact inOrder_execute ih
      · exact ih

end Execute

/-! ## Initialization -/

section Initialize

variable {state : TaskState} {held : List Pointer}

theorem accounts_cudaMalloc (h : Accounts state.calls held) (space : MemorySpace)
    (size : ℕ) : Accounts (state.cudaMalloc space size).calls
      (state.nextPointer space :: held) :=
  Accounts.malloc h space size

theorem accounts_allocateKernelActionMemory (h : Accounts state.calls held)
    (params : KernelParameters) :
    Accounts (allocateKernelActionMemory params state).2.calls
      ((allocateKernelActionMemory params state).1.buffers.pointers ++ held) := by
  have haccounts := accounts_cudaMalloc (accounts_cudaMalloc (accounts_cudaMalloc
    (accounts_cudaMalloc h .device (2 * params.blockCount * 8)) .device
      (params.blockCount * 4)) .host (2 * params.blockCount * 8)) .host
      (params.blockCount * 4)
  apply haccounts.of_perm
  have hperm : ∀ a b c d : Pointer, ([d, c, b, a] ++ held).Perm ([a, c, b, d] ++ held) := by
    intro a b c d
    apply List.Perm.append_right
    exact (List.reverse_perm [a, b, c, d]).trans ((List.Perm.swap c b [d]).cons a)
  exact hperm _ _ _ _

/-- Only the calls change, and everything allocated is in the actions. -/
theorem accounts_allocateActions (actions : List ActionConfig)
    (h : Accounts state.calls held) :
    Accounts (allocateActions actions state).2.calls
      ((allocateActions actions state).1.flatMap ActionConfig.pointers ++ held) := by
  induction actions generalizing state held with
  | nil => exact h
  | cons action actions ih =>
      cases action with
      | kernel params =>
          have hrest := ih (accounts_allocateKernelActionMemory h params)
          apply hrest.of_perm
          rw [allocateActions, List.flatMap_cons, List.append_assoc]
          exact List.perm_append_comm_assoc _ _ _
      | _ => exact ih h

theorem allocateActions_snd (actions : List ActionConfig) :
    (allocateActions actions state).2 =
      { state with calls := (allocateActions actions state).2.calls } := by
  induction actions generalizing state with
  | nil => rfl
  | cons action actions ih =>
      cases action with
      | kernel params => exact ih
      | _ => exact ih

theorem inOrder_allocateBuffers (h : state.InOrder) (hhost : state.hostCopyBuffer = none)
    (hdevice : state.deviceCopyBuffer = none)
    (hsecondary : state.deviceSecondaryBuffer = none) : (allocateBuffers state).InOrder := by
  obtain ⟨actions, hostBuffer, deviceBuffer, secondary, device, host, calls⟩ := state
  subst hhost hdevice hsecondary
  -- New pointers come to stand between those of the actions and the stacks.
  have hperm : ∀ new new' : List Pointer, new.Perm new' →
      (new ++ TaskState.held ⟨actions, none, none, none, device, host, calls⟩).Perm
        ((actions.flatMap ActionConfig.pointers ++ new') ++
          (device.reverse ++ host.reverse)) := by
    intro new new' hnew
    have hbuffers : buffers ⟨actions, none, none, none, device, host, calls⟩ =
        actions.flatMap ActionConfig.pointers := List.append_nil _
    rw [TaskState.held, hbuffers, ← List.append_assoc]
    exact (List.perm_append_comm.trans (hnew.append_left _)).append_right _
  have hfirst := accounts_cudaMalloc h .device (maxSize actions)
  rw [allocateBuffers]
  split
  · have hall := accounts_cudaMalloc (accounts_cudaMalloc hfirst .device (maxSize actions))
      .host (maxSize actions)
    exact hall.of_perm (hperm [_, _, _] [_, _, _] ((List.Perm.swap _ _ []).cons _))
  · have hall := accounts_cudaMalloc hfirst .host (maxSize actions)
    exact hall.of_perm (hperm [_, _] [_, _] (.refl _))

theorem inOrder_preallocate (left : ℕ) (h : state.InOrder) :
    (preallocateFreeActionBuffers left state).InOrder := by
  induction left generalizing state with
  | zero => exact h
  | succ left ih => exact ih ((h.pushMalloc _ _).pushMalloc _ _)

theorem inOrder_initializeTask (actions : List ActionConfig) :
    (initializeTask actions).InOrder := by
  rw [initializeTask, allocateMemory]
  have hallocated := @accounts_allocateActions ⟨actions, none, none, none, [], [], []⟩ []
    actions .nil
  have hframe := @allocateActions_snd ⟨actions, none, none, none, [], [], []⟩ actions
  have hfirst : ({ (allocateActions actions ⟨actions, none, none, none, [], [], []⟩).2 with
      actions := (allocateActions actions
        ⟨actions, none, none, none, [], [], []⟩).1 } : TaskState).InOrder := by
    rw [InOrder, hframe]
    apply hallocated.of_perm
    rw [TaskState.held, buffers]
    exact .of_eq (List.append_nil _).symm
  have hbuffers := inOrder_allocateBuffers hfirst (by rw [hframe]) (by rw [hframe])
    (by rw [hframe])
  split
  · exact inOrder_preallocate _ hbuffers
  · exact hbuffers

end Initialize

/-! ## Cleanup -/

section Cleanup

variable {state : TaskState}

theorem ledger_foldl_free (pointers : List Pointer) :
    ledger (pointers.foldl (fun state p => state.call (.free p)) state).calls =
      (ledger state.calls).freeAll pointers := by
  induction pointers generalizing state with
  | nil => rfl
  | cons p pointers ih => exact ih

theorem ledger_foldl_freeBuffer (buffers : List (Option Pointer)) :
    ledger (buffers.foldl freeBuffer state).calls =
      (ledger state.calls).freeAll buffers.reduceOption := by
  induction buffers generalizing state with
  | nil => rfl
  | cons buffer buffers ih =>
      cases buffer with
      | none => exact ih
      | some p => exact ih

theorem ledger_foldl_cleanupAction (actions : List ActionConfig) :
    ledger (actions.foldl cleanupAction state).calls =
      (ledger state.calls).freeAll (actions.flatMap ActionConfig.pointers) := by
  induction actions generalizing state with
  | nil => rfl
  | cons action actions ih =>
      rw [List.foldl_cons, ih, List.flatMap_cons, Ledger.freeAll_append]
      cases action with
      | kernel params =>
          rw [cleanupAction, ledger_foldl_freeBuffer]
          rfl
      | _ => rfl

theorem ledger_cleanup (state : TaskState) :
    ledger (cleanup state).calls = (ledger state.calls).freeAll state.held := by
  have hdestroy : ledger ((state.actions.foldl cleanupAction state).call .streamDestroy).calls =
      ledger (state.actions.foldl cleanupAction state).calls := rfl
  rw [cleanup, ledger_foldl_free, ledger_foldl_freeBuffer, hdestroy,
    ledger_foldl_cleanupAction, TaskState.held, buffers]
  simp only [Ledger.freeAll_append]

theorem holds_cleanup (h : state.InOrder) : (ledger (cleanup state).calls).Holds [] := by
  rw [ledger_cleanup]
  apply Ledger.Holds.freeAll
  rw [List.append_nil]
  exact h.holds

end Cleanup

end A100Partitioning.StreamAction
