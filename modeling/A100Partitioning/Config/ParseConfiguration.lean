import A100Partitioning.Config.Dims
import A100Partitioning.Nvtaskset.MaskArgument
import A100Partitioning.Nvtaskset.ParseList

/-!
# Configurations

A configuration is an object of global settings with a list of benchmarks, which are
objects as well.  Keys that are not documented are meant to be errors, so that no misspelled
setting silently has its default.
-/

namespace A100Partitioning.Config

open Nvtaskset (hexNumber AreHexDigits DenotesHex dropPrefix isSpace)
open Libsmctrl (hexValue)

/-! ## The code -/

/-- The keys for global settings. -/
def globalKeys : List (List Char) :=
  ["name", "max_iterations", "max_time", "use_processes", "cuda_device",
    "base_result_directory", "pin_cpus", "do_warmup", "benchmarks", "comment",
    "sync_every_iteration"].map String.toList

/-- The keys for the settings of a benchmark. -/
def benchmarkKeys : List (List Char) :=
  ["filename", "log_name", "label", "thread_count", "block_count", "data_size",
    "additional_info", "max_iterations", "max_time", "terminator", "release_time", "cpu_core",
    "stream_priority", "mps_thread_percentage", "comment", "sm_mask"].map String.toList

/-- What `strncmp` with the length of a valid key says of a key. -/
def StartsWith (key validKey : List Char) : Prop := validKey <+: key

instance (key validKey : List Char) : Decidable (StartsWith key validKey) :=
  inferInstanceAs (Decidable (_ <+: _))

/-- `VerifyConfigKeys` on what an item contains.  What is in an array has no name. -/
def verifyConfigKeys (validKeys : List (List Char)) : CJson → Except Stop Unit
  | .object members =>
      if ∀ member ∈ members, ∃ validKey ∈ validKeys, StartsWith member.1 validKey then .ok ()
      else .error .rejected
  | .array (_ :: _) => .error .rejected
  | _ => .ok ()

/-- The number in an item. -/
def asNumber : CJson → Option Double
  | .number value => some value
  | _ => none

/-- The string in an item. -/
def asString : CJson → Option (List Char)
  | .string valuestring => some valuestring
  | _ => none

/-- The boolean in an item. -/
def asBool : CJson → Option Bool
  | .bool value => some value
  | _ => none

/-- The items in an array that is not empty. -/
def asList : CJson → Option (List CJson)
  | .array (elem :: elems) => some (elem :: elems)
  | _ => none

variable {T : Type}

/-- A setting that must be there. -/
def required (read : CJson → Option T) : Option CJson → Except Stop T
  | none => .error .rejected
  | some item => (read item).elim (.error .rejected) .ok

/-- A setting that may be missing. -/
def optional (read : CJson → Option T) : Option CJson → Except Stop (Option T)
  | none => .ok none
  | some item => (read item).elim (.error .rejected) fun value => .ok (some value)

/-- The conversion of a `double` to an integer type.  C leaves open what becomes of a number
that is out of range. -/
def convert (outOfRange : Double → ℤ) (min max : ℤ) (value : Double) : ℤ :=
  match value.truncate with
  | none => outOfRange value
  | some n => if min ≤ n ∧ n ≤ max then n else outOfRange value

/-- The conversion to `int64_t`. -/
def toInt64 (outOfRange : Double → ℤ) : Double → ℤ :=
  convert outOfRange (-2 ^ 63) (2 ^ 63 - 1)

/-- The conversion to `uint64_t`. -/
def toUInt64 (outOfRange : Double → ℤ) : Double → ℤ := convert outOfRange 0 (2 ^ 64 - 1)

/-- The number is above 0 and at most 100. -/
def IsPercentage : Double → Prop
  | .finite value => 0 < value ∧ value ≤ 100
  | .infinite _ => False

instance : DecidablePred IsPercentage
  | .finite value => inferInstanceAs (Decidable (0 < value ∧ value ≤ 100))
  | .infinite _ => inferInstanceAs (Decidable False)

/-- The setting `mps_thread_percentage`. -/
def threadPercentage (entry : Option CJson) : Except Stop Double := do
  match ← optional asNumber entry with
  | none => return .ofInt 100
  | some value => if IsPercentage value then return value else .error .rejected

/-- What `strtoull` for base 16 returns.  A prefix is read like the digit in it when there
is no digit behind it. -/
def strtoull (nptr : List Char) : BitVec 64 :=
  let (negative, cs) := match nptr.dropWhile isSpace with
    | '-' :: cs => (true, cs)
    | '+' :: cs => (false, cs)
    | cs => (false, cs)
  let n := hexNumber 0 ((dropPrefix cs).takeWhile fun c => (hexValue c).isSome)
  if 2 ^ 64 ≤ n then BitVec.allOnes 64
  else if negative then -BitVec.ofNat 64 n
  else BitVec.ofNat 64 n

/-- The mask in the setting `sm_mask`. -/
def smMask : List Char → BitVec 64
  | '~' :: cs => ~~~ strtoull cs
  | cs => strtoull cs

/-- The setting `sm_mask`, which needs a build with `SMCTRL`. -/
def parseSmMask (smctrl : Bool) (entry : Option CJson) : Except Stop (BitVec 64) :=
  if smctrl then do
    match ← optional asString entry with
    | none => return 0
    | some valuestring => return smMask valuestring
  else if entry.isSome then .error .rejected
  else .ok 0

/-- The setting `max_iterations` of a benchmark. -/
def benchmarkIterations (outOfRange : Double → ℤ) (syncEveryIteration : Bool)
    (entry : Option CJson) : Except Stop ℤ := do
  match ← optional asNumber entry with
  | none => return -1
  | some value =>
      if syncEveryIteration then .error .rejected else return toInt64 outOfRange value

/-- A `BenchmarkConfiguration`; `additionalInfo` is what is printed. -/
structure BenchmarkConfiguration where
  filename : List Char
  logName : Option (List Char)
  label : Option (List Char)
  mpsThreadPercentage : Double
  blockDim : List ℤ
  gridDim : List ℤ
  dataSize : ℤ
  additionalInfo : Option CJson
  maxIterations : ℤ
  maxTime : Double
  releaseTime : Double
  terminator : Bool
  cpuCore : ℤ
  streamPriority : ℤ
  smMask : BitVec 64

/-- A turn of the loop in `ParseBenchmarkList`. -/
def parseBenchmark (outOfRange : Double → ℤ) (smctrl syncEveryIteration : Bool)
    (benchmark : CJson) : Except Stop BenchmarkConfiguration := do
  verifyConfigKeys benchmarkKeys benchmark
  let filename ← required asString (benchmark.getObjectItem "filename")
  let logName ← optional asString (benchmark.getObjectItem "log_name")
  let label ← optional asString (benchmark.getObjectItem "label")
  let mpsThreadPercentage ← threadPercentage (benchmark.getObjectItem "mps_thread_percentage")
  let blockDim ← parseDim3OrInt (benchmark.getObjectItem "thread_count")
  let gridDim ← parseDim3OrInt (benchmark.getObjectItem "block_count")
  let dataSize ← required asNumber (benchmark.getObjectItem "data_size")
  let smMask ← parseSmMask smctrl (benchmark.getObjectItem "sm_mask")
  let maxIterations ← benchmarkIterations outOfRange syncEveryIteration
    (benchmark.getObjectItem "max_iterations")
  let maxTime ← optional asNumber (benchmark.getObjectItem "max_time")
  let terminator ← optional asBool (benchmark.getObjectItem "terminator")
  let releaseTime ← optional asNumber (benchmark.getObjectItem "release_time")
  let cpuCore ← optional asNumber (benchmark.getObjectItem "cpu_core")
  let streamPriority ← optional asNumber (benchmark.getObjectItem "stream_priority")
  return {
    filename, logName, label, mpsThreadPercentage, blockDim, gridDim
    dataSize := toUInt64 outOfRange dataSize
    additionalInfo := benchmark.getObjectItem "additional_info"
    maxIterations
    maxTime := maxTime.getD (.ofInt (-1))
    releaseTime := releaseTime.getD (.ofInt 0)
    terminator := terminator.getD false
    cpuCore := (cpuCore.map Double.valueint).getD (-1)
    streamPriority := (streamPriority.map Double.valueint).getD (-100)
    smMask }

/-- A `GlobalConfiguration`. -/
structure GlobalConfiguration where
  maxIterations : ℤ
  maxTime : Double
  useProcesses : Bool
  cudaDevice : ℤ
  baseResultDirectory : List Char
  scenarioName : List Char
  pinCpus : Bool
  doWarmup : Bool
  syncEveryIteration : Bool
  benchmarks : List BenchmarkConfiguration

/-- The default for `max_iterations`. -/
def requireIterations (outOfRange : Double → ℤ) (entry : Option CJson) : Except Stop ℤ := do
  let value ← required asNumber entry
  let iterations := toInt64 outOfRange value
  if iterations < 0 then .error .rejected else return iterations

/-- `ParseConfiguration` on the root that `cJSON_Parse` returns. -/
def parseRoot (outOfRange : Double → ℤ) (smctrl : Bool) (root : CJson) :
    Except Stop GlobalConfiguration := do
  verifyConfigKeys globalKeys root
  let maxIterations ← requireIterations outOfRange (root.getObjectItem "max_iterations")
  let maxTime ← required asNumber (root.getObjectItem "max_time")
  let useProcesses ← optional asBool (root.getObjectItem "use_processes")
  let cudaDevice ← required asNumber (root.getObjectItem "cuda_device")
  let scenarioName ← required asString (root.getObjectItem "name")
  let baseResultDirectory ← optional asString (root.getObjectItem "base_result_directory")
  let pinCpus ← optional asBool (root.getObjectItem "pin_cpus")
  let syncEveryIteration ← optional asBool (root.getObjectItem "sync_every_iteration")
  let doWarmup ← optional asBool (root.getObjectItem "do_warmup")
  let list ← required asList (root.getObjectItem "benchmarks")
  let benchmarks ← list.mapM (parseBenchmark outOfRange smctrl (syncEveryIteration.getD false))
  return {
    maxIterations, maxTime
    useProcesses := useProcesses.getD false
    cudaDevice := cudaDevice.valueint
    baseResultDirectory := baseResultDirectory.getD "./results".toList
    scenarioName
    pinCpus := pinCpus.getD false
    doWarmup := doWarmup.getD false
    syncEveryIteration := syncEveryIteration.getD false
    benchmarks }

/-- `ParseConfiguration`, with what `cJSON_Parse` makes of a text. -/
def parseConfiguration (cJSONParse : List Char → Option CJson) (outOfRange : Double → ℤ)
    (smctrl : Bool) (config : List Char) : Except Stop GlobalConfiguration :=
  match cJSONParse config with
  | none => .error .rejected
  | some root => parseRoot outOfRange smctrl root

end A100Partitioning.Config
