import A100Partitioning.Support.Ledger

/-!
# A benchmark of listed actions (`stream_action.cu`)

A task executes a list of actions again and again.  Memory that `malloc` actions
allocate is kept on two stacks of pointers, one for each memory space, and `free`
actions pop from them.  All calls of CUDA succeed here, and are recorded.
-/

namespace A100Partitioning.StreamAction

open Support

/-! ## CUDA -/

/-- Memory of `cudaMalloc`, or of `cudaMallocHost`. -/
inductive MemorySpace where
  | device
  | host
  deriving DecidableEq, Repr

/-- What an allocation returns; the serial number tells allocations apart. -/
structure Pointer where
  space : MemorySpace
  serial : ℕ
  deriving DecidableEq, Repr

/-- The supported values of `cudaMemcpyKind`. -/
inductive CudaMemcpyKind where
  | deviceToDevice
  | deviceToHost
  | hostToDevice
  deriving DecidableEq, Repr

/-- The buffers of a kernel action; `none` is `NULL`. -/
structure KernelBuffers where
  deviceBlockTimes : Option Pointer
  hostBlockTimes : Option Pointer
  deviceSmids : Option Pointer
  hostSmids : Option Pointer
  deriving DecidableEq, Repr

/-- As `calloc` leaves them. -/
def KernelBuffers.none : KernelBuffers := ⟨.none, .none, .none, .none⟩

/-- Parameters of a kernel, of which the parser checks the shared memory. -/
structure KernelParameters where
  blockCount : ℕ
  threadCount : ℕ
  sharedMemoryCount : ℕ
  useCounterSpin : Bool
  duration : ℕ
  buffers : KernelBuffers
  supported : sharedMemoryCount ∈ [0, 4096, 8192, 10240]
  deriving DecidableEq, Repr

/-- The calls. -/
inductive CudaCall where
  | malloc (pointer : Pointer) (size : ℕ)
  | free (pointer : Pointer)
  | launch (params : KernelParameters)
  | memset (synchronous : Bool) (dest : Option Pointer) (size : ℕ)
  | memcpy (direction : CudaMemcpyKind) (synchronous : Bool) (dest src : Option Pointer)
      (size : ℕ)
  | streamSynchronize
  | deviceSynchronize
  | streamDestroy
  deriving DecidableEq, Repr

/-- The allocation that a call makes. -/
def CudaCall.allocated : CudaCall → Option Pointer
  | .malloc pointer _ => some pointer
  | _ => none

/-- What a call frees. -/
def CudaCall.freed : CudaCall → Option Pointer
  | .free pointer => some pointer
  | _ => none

/-- What was allocated and freed by some calls. -/
def ledger (calls : List CudaCall) : Ledger Pointer :=
  ⟨calls.filterMap CudaCall.allocated, calls.filterMap CudaCall.freed⟩

/-! ## Configurations and states -/

/-- The actions, with their parameters. -/
inductive ActionConfig where
  | kernel (params : KernelParameters)
  | malloc (allocateHostMemory : Bool) (size : ℕ)
  | free (freeHostMemory : Bool)
  | memset (synchronous : Bool) (size : ℕ)
  | memcpy (direction : CudaMemcpyKind) (synchronous : Bool) (size : ℕ)
  | sync (syncDevice : Bool)
  deriving DecidableEq, Repr

/-- `TaskState`; the pointer stacks have their top first. -/
structure TaskState where
  actions : List ActionConfig
  hostCopyBuffer : Option Pointer
  deviceCopyBuffer : Option Pointer
  deviceSecondaryBuffer : Option Pointer
  deviceMemoryAllocations : List Pointer
  hostMemoryAllocations : List Pointer
  calls : List CudaCall
  deriving DecidableEq, Repr

/-- `MAX_MEMORY_ALLOCATION_COUNT`. -/
def maxMemoryAllocationCount : ℕ := 10

/-- `INITIAL_ALLOCATION_COUNT`. -/
def initialAllocationCount : ℕ := 4

/-- `INITIAL_ALLOCATION_SIZE`. -/
def initialAllocationSize : ℕ := 1024

/-- What a failing action prints. -/
inductive ActionError where
  | tooManyUnfreed (space : MemorySpace)
  | noAllocations (space : MemorySpace)
  deriving DecidableEq, Repr

namespace TaskState

/-- A call other than an allocation. -/
def call (state : TaskState) (c : CudaCall) : TaskState :=
  { state with calls := c :: state.calls }

/-- The pointer that the next allocation returns. -/
def nextPointer (state : TaskState) (space : MemorySpace) : Pointer :=
  ⟨space, (ledger state.calls).allocated.length⟩

/-- `cudaMalloc` or `cudaMallocHost`, of `nextPointer`. -/
def cudaMalloc (state : TaskState) (space : MemorySpace) (size : ℕ) : TaskState :=
  state.call (.malloc (state.nextPointer space) size)

/-- The stack of pointers of a memory space. -/
def stack (state : TaskState) : MemorySpace → List Pointer
  | .device => state.deviceMemoryAllocations
  | .host => state.hostMemoryAllocations

/-- The state with another stack. -/
def setStack (state : TaskState) (space : MemorySpace) (pointers : List Pointer) :
    TaskState :=
  match space with
  | .device => { state with deviceMemoryAllocations := pointers }
  | .host => { state with hostMemoryAllocations := pointers }

/-- Allocate, and push the pointer. -/
def pushMalloc (state : TaskState) (space : MemorySpace) (size : ℕ) : TaskState :=
  (state.cudaMalloc space size).setStack space
    (state.nextPointer space :: state.stack space)

end TaskState

/-! ## Initialization -/

/-- `AllocateKernelActionMemory`. -/
def allocateKernelActionMemory (params : KernelParameters) (state : TaskState) :
    KernelParameters × TaskState :=
  let blockTimesSize := 2 * params.blockCount * 8
  let smidsSize := params.blockCount * 4
  let state₁ := state.cudaMalloc .device blockTimesSize
  let state₂ := state₁.cudaMalloc .device smidsSize
  let state₃ := state₂.cudaMalloc .host blockTimesSize
  ({ params with
      buffers := ⟨some (state.nextPointer .device), some (state₂.nextPointer .host),
        some (state₁.nextPointer .device), some (state₃.nextPointer .host)⟩ },
    state₃.cudaMalloc .host smidsSize)

/-- The allocations in the first loop of `AllocateMemory`. -/
def allocateActions : List ActionConfig → TaskState → List ActionConfig × TaskState
  | [], state => ([], state)
  | .kernel params :: actions, state =>
      let allocated := allocateKernelActionMemory params state
      let rest := allocateActions actions allocated.2
      (.kernel allocated.1 :: rest.1, rest.2)
  | action :: actions, state =>
      let rest := allocateActions actions state
      (action :: rest.1, rest.2)

/-- How large the copy buffers must be for an action.  The case of a `free` action
falls through to that of `memset`, where it finds the zeros of `calloc`. -/
def ActionConfig.copySize : ActionConfig → ℕ
  | .memset _ size => size
  | .memcpy _ _ size => size
  | _ => 0

/-- `max_size`. -/
def maxSize (actions : List ActionConfig) : ℕ :=
  actions.foldl (fun size action => max size action.copySize) 0

/-- `secondary_buffer_needed`. -/
def secondaryBufferNeeded (actions : List ActionConfig) : Bool :=
  actions.any fun
    | .memcpy .deviceToDevice _ _ => true
    | _ => false

/-- `malloc_action_exists`. -/
def mallocActionExists (actions : List ActionConfig) : Bool :=
  actions.any fun
    | .malloc _ _ => true
    | .free _ => true
    | _ => false

/-- `PreallocateFreeActionBuffers`, for the iterations left. -/
def preallocateFreeActionBuffers : ℕ → TaskState → TaskState
  | 0, state => state
  | left + 1, state =>
      preallocateFreeActionBuffers left
        ((state.pushMalloc .device initialAllocationSize).pushMalloc .host
          initialAllocationSize)

/-- `AllocateMemory`, after the first loop. -/
def allocateBuffers (state : TaskState) : TaskState :=
  let size := maxSize state.actions
  let state₁ := { state.cudaMalloc .device size with
    deviceCopyBuffer := some (state.nextPointer .device) }
  let state₂ :=
    if secondaryBufferNeeded state.actions then
      { state₁.cudaMalloc .device size with
        deviceSecondaryBuffer := some (state₁.nextPointer .device) }
    else state₁
  { state₂.cudaMalloc .host size with hostCopyBuffer := some (state₂.nextPointer .host) }

/-- `AllocateMemory`. -/
def allocateMemory (state : TaskState) : TaskState :=
  let allocated := allocateActions state.actions state
  let state' := allocateBuffers { allocated.2 with actions := allocated.1 }
  if mallocActionExists state'.actions then
    preallocateFreeActionBuffers initialAllocationCount state'
  else state'

/-- `Initialize`, once the configuration is parsed. -/
def initializeTask (actions : List ActionConfig) : TaskState :=
  allocateMemory ⟨actions, none, none, none, [], [], []⟩

/-! ## Execution -/

/-- The memory space of a `malloc` or `free` action. -/
def spaceOf (hostMemory : Bool) : MemorySpace :=
  if hostMemory then .host else .device

/-- `ExecuteMallocAction`. -/
def executeMallocAction (state : TaskState) (space : MemorySpace) (size : ℕ) :
    Except ActionError Unit × TaskState :=
  if maxMemoryAllocationCount ≤ (state.stack space).length then
    (.error (.tooManyUnfreed space), state)
  else (.ok (), state.pushMalloc space size)

/-- `ExecuteFreeAction`. -/
def executeFreeAction (state : TaskState) (space : MemorySpace) :
    Except ActionError Unit × TaskState :=
  match state.stack space with
  | [] => (.error (.noAllocations space), state)
  | pointer :: pointers =>
      (.ok (), (state.setStack space pointers).call (.free pointer))

/-- Source and destination in `ExecuteMemcpyAction`. -/
def memcpyBuffers (state : TaskState) : CudaMemcpyKind → Option Pointer × Option Pointer
  | .deviceToDevice => (state.deviceCopyBuffer, state.deviceSecondaryBuffer)
  | .deviceToHost => (state.deviceCopyBuffer, state.hostCopyBuffer)
  | .hostToDevice => (state.hostCopyBuffer, state.deviceCopyBuffer)

/-- One round of the loop of `Execute`. -/
def executeAction (state : TaskState) : ActionConfig → Except ActionError Unit × TaskState
  | .kernel params => (.ok (), state.call (.launch params))
  | .malloc allocateHostMemory size =>
      executeMallocAction state (spaceOf allocateHostMemory) size
  | .free freeHostMemory => executeFreeAction state (spaceOf freeHostMemory)
  | .memset synchronous size =>
      (.ok (), state.call (.memset synchronous state.deviceCopyBuffer size))
  | .memcpy direction synchronous size =>
      let buffers := memcpyBuffers state direction
      (.ok (), state.call (.memcpy direction synchronous buffers.2 buffers.1 size))
  | .sync syncDevice =>
      (.ok (), state.call (if syncDevice then .deviceSynchronize else .streamSynchronize))

/-- The loop of `Execute`. -/
def executeActions : List ActionConfig → TaskState → Except ActionError Unit × TaskState
  | [], state => (.ok (), state)
  | action :: actions, state =>
      let done := executeAction state action
      match done.1 with
      | .ok _ => executeActions actions done.2
      | .error e => (.error e, done.2)

/-- `Execute`. -/
def execute (state : TaskState) : Except ActionError Unit × TaskState :=
  let done := executeActions state.actions state
  match done.1 with
  | .ok _ => (.ok (), done.2.call .streamSynchronize)
  | .error e => (.error e, done.2)

/-- The iterations of a task, up to one that fails. -/
def iterate : ℕ → TaskState → Except ActionError Unit × TaskState
  | 0, state => (.ok (), state)
  | n + 1, state =>
      let done := iterate n state
      match done.1 with
      | .ok _ => execute done.2
      | .error e => (.error e, done.2)

/-! ## Cleanup -/

/-- Free a buffer if it is not `NULL`. -/
def freeBuffer (state : TaskState) (buffer : Option Pointer) : TaskState :=
  match buffer with
  | some pointer => state.call (.free pointer)
  | none => state

/-- `CleanupAction`. -/
def cleanupAction (state : TaskState) : ActionConfig → TaskState
  | .kernel params =>
      [params.buffers.deviceBlockTimes, params.buffers.hostBlockTimes,
        params.buffers.deviceSmids, params.buffers.hostSmids].foldl freeBuffer state
  | _ => state

/-- `Cleanup`.  The pointers on a stack are freed from the bottom. -/
def cleanup (state : TaskState) : TaskState :=
  let state₁ := (state.actions.foldl cleanupAction state).call .streamDestroy
  let state₂ := [state.hostCopyBuffer, state.deviceCopyBuffer,
    state.deviceSecondaryBuffer].foldl freeBuffer state₁
  (state.deviceMemoryAllocations.reverse ++ state.hostMemoryAllocations.reverse).foldl
    (fun state pointer => state.call (.free pointer)) state₂

end A100Partitioning.StreamAction
