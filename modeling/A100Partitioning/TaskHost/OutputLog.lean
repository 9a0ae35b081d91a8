import Mathlib.Algebra.Group.Nat.Defs
import Mathlib.Data.Int.Notation
import A100Partitioning.Support.JsonPieces

/-!
# The log of a benchmark (`task_host.c`)

A task writes its log as a JSON text, in many calls of `fprintf`.  What a call prints
is a list of pieces; floating-point numbers, and how numbers are printed, are
parameters.
-/

namespace A100Partitioning.TaskHost

open Support Json

/-! ## Strings -/

/-- A string of C, without the zero at its end. -/
structure CString where
  bytes : List Byte
  noNul : 0 ∉ bytes
  deriving DecidableEq

/-- `SANITIZE_JSON_BUFFER_SIZE`. -/
def sanitizeJSONBufferSize : ℕ := 512

/-- The value of a `char`, which has a sign on some machines. -/
def charValue (signed : Bool) (b : Byte) : ℤ := if signed then b.toInt else b.toNat

/-- What `SanitizeJSONString` writes for one character. -/
def sanitizeByte (signed : Bool) (b : Byte) : List Byte :=
  if 0x7f ≤ charValue signed b then ascii "?"
  else if b = 0x08 then ascii "\\b"
  else if b = 0x0c then ascii "\\f"
  else if b = 0x0d then ascii "\\r"
  else if b = 0x09 then ascii "\\t"
  else if b = 0x5c then ascii "\\\\"
  else if b = 0x22 then ascii "\\\""
  else if b = 0x0a then ascii "\\n"
  else [b]

/-- The loop of `SanitizeJSONString`, with the output so far.  Writing behind the end of
the buffer is undefined. -/
def sanitizeJSONString (signed : Bool) (outputSize : ℕ) :
    List Byte → List Byte → Option (List Byte)
  | [], output => some output
  | b :: input, output =>
      if outputSize + 2 ≤ output.length then some output
      else if outputSize < output.length + (sanitizeByte signed b).length then none
      else sanitizeJSONString signed outputSize input (output ++ sanitizeByte signed b)

/-- What `%s` prints of the buffer after `SanitizeJSONString`.  It is undefined if there
is no zero at the end. -/
def printSanitized (signed : Bool) (s : CString) : Option (List Byte) :=
  (sanitizeJSONString signed sanitizeJSONBufferSize s.bytes []).bind fun output =>
    if output.length < sanitizeJSONBufferSize then some output else none

/-! ## Data -/

/-- What the code takes from the machine: whether `char` has a sign, arithmetic, and
how numbers are printed. -/
structure Machine (δ : Type) where
  signed : Bool
  sub : δ → δ → δ
  zero : δ
  isZero : δ → Bool
  gpuSeconds : BitVec 64 → δ
  fixed9 : δ → Numeral
  fixed : δ → Numeral
  int : ℤ → Numeral

/-- `KernelTimes`. -/
structure KernelTimes (δ : Type) where
  kernelName : Option CString
  threadCount : ℤ
  blockCount : ℤ
  sharedMemory : ℤ
  beforeLaunch : δ
  afterLaunch : δ
  afterSynchronize : δ
  blockTimes : ℕ → BitVec 64
  blockSmids : ℕ → BitVec 32

/-- `block_time_count`, which is an `int`. -/
def KernelTimes.blockTimeCount {δ : Type} (kernelTimes : KernelTimes δ) : ℤ :=
  (kernelTimes.blockCount * 2).bmod (2 ^ 32)

/-- `CPUTimes`. -/
structure CPUTimes (δ : Type) where
  copyInStart : δ
  copyInEnd : δ
  executeStart : δ
  executeEnd : δ
  copyOutStart : δ
  copyOutEnd : δ

/-- The configuration of a task, and of all tasks.  There is no thread ID in the log if
processes are used. -/
structure TaskConfig (δ : Type) where
  scenarioName : CString
  benchmarkName : CString
  label : Option CString
  maxResidentThreads : ℤ
  dataSize : BitVec 64
  releaseTime : δ
  pid : ℤ
  tid : Option ℤ
  startingSeconds : δ
  startingGpuClock : BitVec 64

/-- What is logged for an iteration: the times, and for each kernel also the CPU core on
which they are printed. -/
structure Iteration (δ : Type) where
  cpuTimes : CPUTimes δ
  kernels : List (KernelTimes δ × ℤ)

variable {δ : Type} (m : Machine δ) (config : TaskConfig δ)

/-! ## What the strings stand for -/

/-- Another character than ASCII is a question mark. -/
def questionMark (b : Byte) : Byte := if 0x80 ≤ b.toNat then 0x3f else b

/-- The beginning of a string that fits. -/
def fitting (signed : Bool) : ℕ → List Byte → List Byte
  | _, [] => []
  | room, b :: s =>
      if (sanitizeByte signed b).length ≤ room then
        b :: fitting signed (room - (sanitizeByte signed b).length) s
      else []

/-- What a sanitized string should stand for: it may be cut off at the buffer. -/
def sanitizedContent (s : CString) : List Byte :=
  (fitting m.signed (sanitizeJSONBufferSize - 1) s.bytes).map questionMark

/-! ## The code -/

/-- `"%s"`, of a sanitized string, with the quote at its end. -/
def quoteSanitized (s : CString) : Option Piece :=
  (printSanitized m.signed s).map fun printed => .quoted printed (sanitizedContent m s)

/-- `"%s"`, of another string. -/
def quoteRaw (s : CString) : Piece := .quoted s.bytes (s.bytes.map questionMark)

/-- The pieces in a list of numbers, with a comma after each but the last. -/
def commaSeparated (number : ℕ → Numeral) (n : ℕ) : List Piece :=
  (List.range n).flatMap fun j =>
    [.number (number j), .text (if j ≠ n - 1 then ascii "," else [])]

/-- `GPUTimerToCPUTime`. -/
def gpuTimerToCPUTime (t : BitVec 64) : δ := m.gpuSeconds (t - config.startingGpuClock)

/-- The name of a kernel in `WriteTimesToOutput`, where `%s` prints `(null)` for `NULL`. -/
def writeKernelName (kernelTimes : KernelTimes δ) : Option (List Piece) :=
  match kernelTimes.kernelName with
  | some name => do
      let sanitizedName ← quoteSanitized m name
      return [.text (ascii "\"kernel_name\": \""), sanitizedName, .text (ascii ", ")]
  | none =>
      match config.label with
      | some label =>
          some [.text (ascii "\"kernel_name\": \""), quoteRaw label, .text (ascii ", ")]
      | none => some [.text (ascii "\"kernel_name\": \"(null)\", ")]

/-- The time after the synchronization, which is zero if it was not set. -/
def synchronizeTime (kernelTimes : KernelTimes δ) : δ :=
  if m.isZero kernelTimes.afterSynchronize then m.zero
  else m.sub kernelTimes.afterSynchronize config.startingSeconds

/-- The rest of the loop in `WriteTimesToOutput`. -/
def writeKernelTimes (kernelTimes : KernelTimes δ) (cpu : ℤ) : List Piece :=
  [.text (ascii "\"block_count\": "), .number (m.int kernelTimes.blockCount),
    .text (ascii ", \"thread_count\": "), .number (m.int kernelTimes.threadCount),
    .text (ascii ", "),
    .text (ascii "\"shared_memory\": "), .number (m.int kernelTimes.sharedMemory),
    .text (ascii ", "),
    .text (ascii "\"cuda_launch_times\": ["),
    .number (m.fixed9 (m.sub kernelTimes.beforeLaunch config.startingSeconds)),
    .text (ascii ", "),
    .number (m.fixed9 (m.sub kernelTimes.afterLaunch config.startingSeconds)),
    .text (ascii ", "),
    .number (m.fixed9 (synchronizeTime m config kernelTimes)), .text (ascii "], "),
    .text (ascii "\"block_times\": [")] ++
  commaSeparated (fun j => m.fixed9 (gpuTimerToCPUTime m config (kernelTimes.blockTimes j)))
    kernelTimes.blockTimeCount.toNat ++
  .text (ascii "], \"block_smids\": [") ::
  commaSeparated (fun j => m.int (kernelTimes.blockSmids j).toNat)
    kernelTimes.blockCount.toNat ++
  [.text (ascii "], \"cpu_core\": "), .number (m.int cpu), .text (ascii "\x7d")]

/-- `WriteTimesToOutput`. -/
def writeTimesToOutput : List (KernelTimes δ × ℤ) → Option (List Piece)
  | [] => some []
  | kernel :: kernels => do
      let name ← writeKernelName m config kernel.1
      let rest ← writeTimesToOutput kernels
      return .text (ascii ",\n\x7b") :: name ++ writeKernelTimes m config kernel.1 kernel.2 ++
        rest

/-- `WriteCPUTimesToOutput`. -/
def writeCPUTimesToOutput (t : CPUTimes δ) : List Piece :=
  [.text (ascii ",\n\x7b\"copy_in_times\": ["), .number (m.fixed9 t.copyInStart),
    .text (ascii ","), .number (m.fixed9 t.copyInEnd), .text (ascii "], "),
    .text (ascii "\"execute_times\": ["), .number (m.fixed9 t.executeStart),
    .text (ascii ","), .number (m.fixed9 t.executeEnd), .text (ascii "], "),
    .text (ascii "\"copy_out_times\": ["), .number (m.fixed9 t.copyOutStart),
    .text (ascii ","), .number (m.fixed9 t.copyOutEnd), .text (ascii "], "),
    .text (ascii "\"cpu_times\": ["), .number (m.fixed9 t.copyInStart),
    .text (ascii ","), .number (m.fixed9 t.copyOutEnd), .text (ascii "]\x7d")]

/-- The label in `WriteOutputHeader`. -/
def writeLabel : Option (List Piece) :=
  match config.label with
  | none => some []
  | some label => do
      let buffer ← quoteSanitized m label
      return [.text (ascii "\"label\": \""), buffer, .text (ascii ",\n")]

/-- The thread ID in `WriteOutputHeader`. -/
def writeTid : List Piece :=
  match config.tid with
  | none => []
  | some tid => [.text (ascii "\"TID\": "), .number (m.int tid), .text (ascii ",\n")]

/-- `WriteOutputHeader`. -/
def writeOutputHeader : Option (List Piece) := do
  let scenarioName ← quoteSanitized m config.scenarioName
  let benchmarkName ← quoteSanitized m config.benchmarkName
  let label ← writeLabel m config
  return [.text (ascii "\x7b\n"),
      .text (ascii "\"scenario_name\": \""), scenarioName, .text (ascii ",\n"),
      .text (ascii "\"benchmark_name\": \""), benchmarkName, .text (ascii ",\n")] ++
    label ++
    [.text (ascii "\"max_resident_threads\": "), .number (m.int config.maxResidentThreads),
      .text (ascii ",\n"),
      .text (ascii "\"data_size\": "), .number (m.int config.dataSize.toInt),
      .text (ascii ",\n"),
      .text (ascii "\"release_time\": "), .number (m.fixed config.releaseTime),
      .text (ascii ",\n"),
      .text (ascii "\"PID\": "), .number (m.int config.pid), .text (ascii ",\n")] ++
    writeTid m config ++
    [.text (ascii "\"times\": [\x7b\x7d")]

/-- What `RunBenchmark` writes for its iterations. -/
def writeIterations : List (Iteration δ) → Option (List Piece)
  | [] => some []
  | iteration :: iterations => do
      let times ← writeTimesToOutput m config iteration.kernels
      let rest ← writeIterations iterations
      return writeCPUTimesToOutput m iteration.cpuTimes ++ times ++ rest

/-- All that `RunBenchmark` writes if it succeeds. -/
def outputLog (iterations : List (Iteration δ)) : Option (List Piece) := do
  let header ← writeOutputHeader m config
  let times ← writeIterations m config iterations
  return header ++ times ++ [.text (ascii "\n]\x7d")]

end A100Partitioning.TaskHost
