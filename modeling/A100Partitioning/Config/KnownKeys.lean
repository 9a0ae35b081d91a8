import A100Partitioning.Config.ParseConfiguration
import A100Partitioning.Support.Checks

/-!
# Known keys

The keys are compared by `strncmp` with the length of the valid key, and the masks are read
by `strtoull` without its end pointer.  This module says which configurations are
nevertheless accepted only as documented.
-/

namespace A100Partitioning.Config

open Support
open Nvtaskset (hexNumber AreHexDigits DenotesHex dropPrefix isSpace)
open Libsmctrl (hexValue)

/-! ## Documented configurations -/

/-- The benchmarks of a configuration. -/
def benchmarkList (root : CJson) : List CJson :=
  ((root.getObjectItem "benchmarks").bind asList).getD []

/-- An optional `~` and a hexadecimal number that fits into 64 bits, with its mask. -/
def DenotesSmMask (s : List Char) (mask : BitVec 64) : Prop :=
  ∃ n, n < 2 ^ 64 ∧
    (DenotesHex s n ∧ mask = BitVec.ofNat 64 n ∨
      ∃ body, s = '~' :: body ∧ DenotesHex body n ∧ mask = ~~~ BitVec.ofNat 64 n)

/-- The string is given as the mask of a benchmark. -/
def HasSmMask (benchmark : CJson) (s : List Char) : Prop :=
  ("sm_mask".toList, CJson.string s) ∈ benchmark.members

/-- All keys are documented ones, and all masks are well-formed. -/
structure Documented (smctrl : Bool) (root : CJson) : Prop where
  globalKeys : ∀ member ∈ root.members, member.1 ∈ globalKeys
  benchmarkKeys : ∀ benchmark ∈ benchmarkList root, ∀ member ∈ benchmark.members,
    member.1 ∈ benchmarkKeys
  masks : smctrl = true → ∀ benchmark ∈ benchmarkList root, ∀ s, HasSmMask benchmark s →
    ∃ mask, DenotesSmMask s mask

/-- A configuration is returned only for a documented text, with the masks that the text
denotes, and otherwise the text is rejected. -/
structure ConfigurationExact (cJSONParse : List Char → Option CJson)
    (outOfRange : Double → ℤ) (smctrl : Bool) (config : List Char) : Prop where
  returned : ∀ c, parseConfiguration cJSONParse outOfRange smctrl config = .ok c →
    ∃ root, cJSONParse config = some root ∧ Documented smctrl root ∧
      (smctrl = true → List.Forall₂
        (fun benchmark c => ∀ s, HasSmMask benchmark s → DenotesSmMask s c.smMask)
        (benchmarkList root) c.benchmarks)
  otherwise : ∀ root, cJSONParse config = some root → ¬ Documented smctrl root →
    parseConfiguration cJSONParse outOfRange smctrl config = .error .rejected

/-! ## Accepted configurations -/

/-- A required entry. -/
def IsPresent (p : CJson → Prop) (entry : Option CJson) : Prop :=
  ∃ item, entry = some item ∧ p item

/-- An optional entry. -/
def IsMissingOr (p : CJson → Prop) (entry : Option CJson) : Prop :=
  ∀ item, entry = some item → p item

/-- The item is a number. -/
def IsNumber (item : CJson) : Prop := ∃ value, asNumber item = some value

/-- The item is a string. -/
def IsString (item : CJson) : Prop := ∃ valuestring, asString item = some valuestring

/-- The item is a boolean. -/
def IsBool (item : CJson) : Prop := ∃ value, asBool item = some value

/-- The item is an array that is not empty. -/
def IsList (item : CJson) : Prop := ∃ items, asList item = some items

/-- All keys start with a valid one. -/
def KeysStart (validKeys : List (List Char)) (item : CJson) : Prop :=
  item.elems = [] ∧
    ∀ member ∈ item.members, ∃ validKey ∈ validKeys, StartsWith member.1 validKey

/-- What is checked of a benchmark before its counts. -/
structure LeadingSettings (benchmark : CJson) : Prop where
  keys : KeysStart benchmarkKeys benchmark
  filename : IsPresent IsString (benchmark.getObjectItem "filename")
  logName : IsMissingOr IsString (benchmark.getObjectItem "log_name")
  label : IsMissingOr IsString (benchmark.getObjectItem "label")
  percentage : IsMissingOr (fun item => ∃ value, asNumber item = some value ∧ IsPercentage value)
    (benchmark.getObjectItem "mps_thread_percentage")

/-- The count is accepted. -/
def CountAccepted (entry : Option CJson) : Prop := ∃ dim3, parseDim3OrInt entry = .ok dim3

/-- What is checked of a benchmark. -/
structure BenchmarkSettings (smctrl syncEveryIteration : Bool) (benchmark : CJson) : Prop
    extends LeadingSettings benchmark where
  threadCount : CountAccepted (benchmark.getObjectItem "thread_count")
  blockCount : CountAccepted (benchmark.getObjectItem "block_count")
  dataSize : IsPresent IsNumber (benchmark.getObjectItem "data_size")
  smMask : IsMissingOr (fun item => smctrl = true ∧ IsString item)
    (benchmark.getObjectItem "sm_mask")
  maxIterations : IsMissingOr (fun item => IsNumber item ∧ syncEveryIteration = false)
    (benchmark.getObjectItem "max_iterations")
  maxTime : IsMissingOr IsNumber (benchmark.getObjectItem "max_time")
  terminator : IsMissingOr IsBool (benchmark.getObjectItem "terminator")
  releaseTime : IsMissingOr IsNumber (benchmark.getObjectItem "release_time")
  cpuCore : IsMissingOr IsNumber (benchmark.getObjectItem "cpu_core")
  streamPriority : IsMissingOr IsNumber (benchmark.getObjectItem "stream_priority")

/-- A count of the benchmark is missing when it is looked at. -/
def MissesCount (benchmark : CJson) : Prop :=
  LeadingSettings benchmark ∧
    (benchmark.getObjectItem "thread_count" = none ∨
      CountAccepted (benchmark.getObjectItem "thread_count") ∧
        benchmark.getObjectItem "block_count" = none)

/-- What is checked of the global settings. -/
structure GlobalSettings (outOfRange : Double → ℤ) (root : CJson) : Prop where
  keys : KeysStart globalKeys root
  maxIterations : IsPresent
    (fun item => ∃ value, asNumber item = some value ∧ 0 ≤ toInt64 outOfRange value)
    (root.getObjectItem "max_iterations")
  maxTime : IsPresent IsNumber (root.getObjectItem "max_time")
  useProcesses : IsMissingOr IsBool (root.getObjectItem "use_processes")
  cudaDevice : IsPresent IsNumber (root.getObjectItem "cuda_device")
  name : IsPresent IsString (root.getObjectItem "name")
  baseResultDirectory : IsMissingOr IsString (root.getObjectItem "base_result_directory")
  pinCpus : IsMissingOr IsBool (root.getObjectItem "pin_cpus")
  syncEveryIteration : IsMissingOr IsBool (root.getObjectItem "sync_every_iteration")
  doWarmup : IsMissingOr IsBool (root.getObjectItem "do_warmup")
  benchmarks : IsPresent IsList (root.getObjectItem "benchmarks")

/-- Whether every iteration is synchronised. -/
def syncs (root : CJson) : Bool :=
  (((root.getObjectItem "sync_every_iteration").bind asBool)).getD false

/-- The settings are accepted. -/
def Accepted (outOfRange : Double → ℤ) (smctrl : Bool) (root : CJson) : Prop :=
  GlobalSettings outOfRange root ∧
    ∀ benchmark ∈ benchmarkList root, BenchmarkSettings smctrl (syncs root) benchmark

/-- The first benchmark that is not accepted misses a count. -/
def ReadsMissingCount (outOfRange : Double → ℤ) (smctrl : Bool) (root : CJson) : Prop :=
  GlobalSettings outOfRange root ∧
    ∃ before benchmark after, benchmarkList root = before ++ benchmark :: after ∧
      (∀ benchmark' ∈ before, BenchmarkSettings smctrl (syncs root) benchmark') ∧
      MissesCount benchmark

/-- The key is not a valid one, but starts with one. -/
def IsExtended (validKeys : List (List Char)) (key : List Char) : Prop :=
  key ∉ validKeys ∧ ∃ validKey ∈ validKeys, StartsWith key validKey

/-- No key is a valid one with something behind it, and the masks of a benchmark are
well-formed and the same. -/
structure WithoutSlips (smctrl : Bool) (root : CJson) : Prop where
  globalKeys : ∀ member ∈ root.members, ¬ IsExtended globalKeys member.1
  benchmarkKeys : ∀ benchmark ∈ benchmarkList root, ∀ member ∈ benchmark.members,
    ¬ IsExtended benchmarkKeys member.1
  masks : smctrl = true → ∀ benchmark ∈ benchmarkList root,
    ∃ mask, ∀ s, HasSmMask benchmark s → DenotesSmMask s mask

/-- The condition on the root.  Where a missing count is read, the benchmarks behind it have
to be documented as well. -/
structure ConfigurationCondition (outOfRange : Double → ℤ) (smctrl : Bool) (root : CJson) :
    Prop where
  accepted : Accepted outOfRange smctrl root → WithoutSlips smctrl root
  missing : ReadsMissingCount outOfRange smctrl root → Documented smctrl root

/-! ## Masks -/

theorem toNat_of_hexValue {c : Char} {d : ℕ} (h : hexValue c = some d) : 48 ≤ c.toNat := by
  have hle {b : Char} (hc : b ≤ c) : b.toNat ≤ c.toNat := hc
  rw [hexValue] at h
  split_ifs at h with hlower hupper hdecimal
  · exact le_trans (by decide) (hle hlower.1)
  · exact le_trans (by decide) (hle hupper.1)
  · exact le_trans (by decide) (hle hdecimal.1)

theorem denotesHex_head {s : List Char} {n : ℕ} (h : DenotesHex s n) :
    ∃ c cs, s = c :: cs ∧ 48 ≤ c.toNat := by
  obtain ⟨digits, hne, hdigits, -, hs⟩ := h
  rcases hs with rfl | rfl | rfl
  · obtain ⟨c, cs, rfl⟩ := List.exists_cons_of_ne_nil hne
    obtain ⟨d, hd⟩ := hdigits c List.mem_cons_self
    exact ⟨c, cs, rfl, toNat_of_hexValue hd⟩
  · exact ⟨'0', _, rfl, by decide⟩
  · exact ⟨'0', _, rfl, by decide⟩

theorem strtoull_of_denotesHex {s : List Char} {n : ℕ} (h : DenotesHex s n)
    (hn : n < 2 ^ 64) : strtoull s = BitVec.ofNat 64 n := by
  obtain ⟨c, cs, rfl, hc⟩ := denotesHex_head h
  obtain ⟨-, hdigits, hnumber⟩ := (Nvtaskset.denotesHex_iff _ n).mp h
  have hspace : isSpace c = false := by
    have hne : c ≠ ' ' := by
      rintro rfl
      exact absurd hc (by decide)
    simp only [isSpace, beq_eq_false_iff_ne.mpr hne, Bool.false_or, Bool.and_eq_false_iff,
      decide_eq_false_iff_not]
    omega
  have htake : (dropPrefix (c :: cs)).takeWhile (fun c => (hexValue c).isSome) =
      dropPrefix (c :: cs) := by
    rw [List.takeWhile_eq_self_iff]
    intro c' hc'
    obtain ⟨d, hd⟩ := hdigits c' hc'
    rw [hd]
    rfl
  have hsign : c ≠ '-' ∧ c ≠ '+' := by
    constructor <;> rintro rfl <;> exact absurd hc (by decide)
  unfold strtoull
  rw [List.dropWhile_cons_of_neg (by rw [hspace]; exact Bool.false_ne_true)]
  split
  rename_i hsplit
  split at hsplit
  · rename_i heq
    cases heq
    exact absurd rfl hsign.1
  · rename_i heq
    cases heq
    exact absurd rfl hsign.2
  · cases hsplit
    simp only [htake, hnumber, if_neg (not_le.mpr hn)]
    rfl

theorem smMask_of_denotes {s : List Char} {mask : BitVec 64} (h : DenotesSmMask s mask) :
    smMask s = mask := by
  obtain ⟨n, hn, ⟨hhex, rfl⟩ | ⟨body, rfl, hhex, rfl⟩⟩ := h
  · rw [← strtoull_of_denotesHex hhex hn]
    obtain ⟨c, cs, rfl, hc⟩ := denotesHex_head hhex
    unfold smMask
    split
    · rename_i heq
      cases heq
      obtain ⟨-, hdigits, -⟩ := (Nvtaskset.denotesHex_iff _ n).mp hhex
      obtain ⟨d, hd⟩ := hdigits '~' List.mem_cons_self
      cases hd
    · rfl
  · exact congrArg (~~~ ·) (strtoull_of_denotesHex hhex hn)

/-! ## Readers -/

variable {T : Type}

theorem succeeds_required (read : CJson → Option T) (entry : Option CJson) :
    Succeeds (required read entry) ↔
      IsPresent (fun item => ∃ value, read item = some value) entry := by
  cases entry with
  | none =>
      refine iff_of_false (not_succeeds_error _) ?_
      rintro ⟨item, h, -⟩
      cases h
  | some item =>
      rw [required]
      cases hread : read item with
      | none =>
          refine iff_of_false (not_succeeds_error _) ?_
          rintro ⟨item', h, value, hvalue⟩
          cases h
          rw [hread] at hvalue
          cases hvalue
      | some value => exact iff_of_true ⟨value, rfl⟩ ⟨item, rfl, value, hread⟩

theorem isMissingOr_none (p : CJson → Prop) : IsMissingOr p none := by
  intro item h
  cases h

theorem isMissingOr_some {p : CJson → Prop} {item : CJson} :
    IsMissingOr p (some item) ↔ p item := by
  constructor
  · exact fun h => h item rfl
  · intro h item' heq
    cases heq
    exact h

theorem succeeds_optional (read : CJson → Option T) (entry : Option CJson) :
    Succeeds (optional read entry) ↔
      IsMissingOr (fun item => ∃ value, read item = some value) entry := by
  cases entry with
  | none => exact iff_of_true ⟨none, rfl⟩ (isMissingOr_none _)
  | some item =>
      rw [isMissingOr_some, optional]
      cases hread : read item with
      | none => exact iff_of_false (not_succeeds_error _) fun ⟨_, h⟩ => by cases h
      | some value => exact iff_of_true ⟨some value, rfl⟩ ⟨value, rfl⟩

theorem optional_eq_ok {read : CJson → Option T} {entry : Option CJson} {value : Option T}
    (h : optional read entry = .ok value) : value = entry.bind read := by
  cases entry with
  | none =>
      cases h
      rfl
  | some item =>
      rw [optional] at h
      rw [Option.bind_some]
      cases hread : read item with
      | none =>
          rw [hread] at h
          cases h
      | some value' =>
          rw [hread] at h
          cases h
          rfl

theorem required_eq_ok {read : CJson → Option T} {entry : Option CJson} {value : T}
    (h : required read entry = .ok value) : entry.bind read = some value := by
  cases entry with
  | none => cases h
  | some item =>
      rw [required] at h
      rw [Option.bind_some]
      cases hread : read item with
      | none =>
          rw [hread] at h
          cases h
      | some value' =>
          rw [hread] at h
          cases h
          rfl

theorem required_ne_nullPointer (read : CJson → Option T) (entry : Option CJson) :
    required read entry ≠ .error .nullPointer := by
  cases entry with
  | none => exact fun h => by cases h
  | some item =>
      rw [required]
      cases read item <;> exact fun h => by cases h

theorem optional_ne_nullPointer (read : CJson → Option T) (entry : Option CJson) :
    optional read entry ≠ .error .nullPointer := by
  cases entry with
  | none => exact fun h => by cases h
  | some item =>
      rw [optional]
      cases read item <;> exact fun h => by cases h

theorem succeeds_verifyConfigKeys (validKeys : List (List Char)) (item : CJson) :
    Succeeds (verifyConfigKeys validKeys item) ↔ KeysStart validKeys item := by
  cases item with
  | object members =>
      rw [verifyConfigKeys]
      split_ifs with hkeys
      · exact iff_of_true ⟨(), rfl⟩ ⟨rfl, hkeys⟩
      · exact iff_of_false (not_succeeds_error _) fun h => hkeys h.2
  | array elems =>
      cases elems with
      | nil => exact iff_of_true ⟨(), rfl⟩ ⟨rfl, fun _ h => (List.not_mem_nil h).elim⟩
      | cons elem elems => exact iff_of_false (not_succeeds_error _) fun h => by cases h.1
  | _ => exact iff_of_true ⟨(), rfl⟩ ⟨rfl, fun _ h => (List.not_mem_nil h).elim⟩

theorem verifyConfigKeys_ne_nullPointer (validKeys : List (List Char)) (item : CJson) :
    verifyConfigKeys validKeys item ≠ .error .nullPointer := by
  unfold verifyConfigKeys
  split
  · split_ifs <;> exact fun h => by cases h
  · exact fun h => by cases h
  · exact fun h => by cases h

theorem succeeds_threadPercentage (entry : Option CJson) :
    Succeeds (threadPercentage entry) ↔
      IsMissingOr (fun item => ∃ value, asNumber item = some value ∧ IsPercentage value) entry := by
  cases entry with
  | none => exact iff_of_true ⟨_, rfl⟩ (isMissingOr_none _)
  | some item =>
      rw [isMissingOr_some]
      cases item with
      | number value =>
          by_cases hvalue : IsPercentage value
          · exact iff_of_true ⟨value, if_pos hvalue⟩ ⟨value, rfl, hvalue⟩
          · have herror : threadPercentage (some (.number value)) = .error .rejected :=
              if_neg hvalue
            rw [herror]
            refine iff_of_false (not_succeeds_error _) ?_
            rintro ⟨value', heq, hvalue'⟩
            cases heq
            exact hvalue hvalue'
      | _ => exact iff_of_false (not_succeeds_error _) fun ⟨_, h, _⟩ => by cases h

theorem threadPercentage_ne_nullPointer (entry : Option CJson) :
    threadPercentage entry ≠ .error .nullPointer := by
  apply bind_ne_error (optional_ne_nullPointer asNumber entry)
  intro value
  cases value with
  | none => exact fun h => by cases h
  | some value =>
      simp only []
      split_ifs <;> exact fun h => by cases h

theorem succeeds_parseSmMask (smctrl : Bool) (entry : Option CJson) :
    Succeeds (parseSmMask smctrl entry) ↔
      IsMissingOr (fun item => smctrl = true ∧ IsString item) entry := by
  cases smctrl with
  | false =>
      cases entry with
      | none => exact iff_of_true ⟨0, rfl⟩ (isMissingOr_none _)
      | some item =>
          rw [isMissingOr_some]
          exact iff_of_false (not_succeeds_error _) fun h => by cases h.1
  | true =>
      cases entry with
      | none => exact iff_of_true ⟨0, rfl⟩ (isMissingOr_none _)
      | some item =>
          rw [isMissingOr_some]
          cases item with
          | string valuestring =>
              exact iff_of_true ⟨smMask valuestring, rfl⟩ ⟨rfl, valuestring, rfl⟩
          | _ => exact iff_of_false (not_succeeds_error _) fun ⟨_, _, h⟩ => by cases h

theorem parseSmMask_ne_nullPointer (smctrl : Bool) (entry : Option CJson) :
    parseSmMask smctrl entry ≠ .error .nullPointer := by
  rw [parseSmMask]
  split_ifs
  · apply bind_ne_error (optional_ne_nullPointer asString entry)
    intro value
    cases value <;> exact fun h => by cases h
  · exact fun h => by cases h
  · exact fun h => by cases h

theorem succeeds_benchmarkIterations (outOfRange : Double → ℤ) (sync : Bool)
    (entry : Option CJson) :
    Succeeds (benchmarkIterations outOfRange sync entry) ↔
      IsMissingOr (fun item => IsNumber item ∧ sync = false) entry := by
  cases entry with
  | none => exact iff_of_true ⟨_, rfl⟩ (isMissingOr_none _)
  | some item =>
      rw [isMissingOr_some]
      cases item with
      | number value =>
          cases sync with
          | false => exact iff_of_true ⟨toInt64 outOfRange value, rfl⟩ ⟨⟨value, rfl⟩, rfl⟩
          | true => exact iff_of_false (not_succeeds_error _) fun h => by cases h.2
      | _ => exact iff_of_false (not_succeeds_error _) fun ⟨⟨_, h⟩, _⟩ => by cases h

theorem benchmarkIterations_ne_nullPointer (outOfRange : Double → ℤ) (sync : Bool)
    (entry : Option CJson) :
    benchmarkIterations outOfRange sync entry ≠ .error .nullPointer := by
  apply bind_ne_error (optional_ne_nullPointer asNumber entry)
  intro value
  cases value with
  | none => exact fun h => by cases h
  | some value => cases sync <;> exact fun h => by cases h

theorem succeeds_requireIterations (outOfRange : Double → ℤ) (entry : Option CJson) :
    Succeeds (requireIterations outOfRange entry) ↔ IsPresent
      (fun item => ∃ value, asNumber item = some value ∧ 0 ≤ toInt64 outOfRange value) entry := by
  cases entry with
  | none => exact iff_of_false (not_succeeds_error _) fun ⟨_, h, _⟩ => by cases h
  | some item =>
      cases item with
      | number value =>
          by_cases hneg : toInt64 outOfRange value < 0
          · have herror : requireIterations outOfRange (some (.number value)) =
                .error .rejected := if_pos hneg
            rw [herror]
            refine iff_of_false (not_succeeds_error _) ?_
            rintro ⟨item', hitem, value', hvalue, hle⟩
            cases hitem
            cases hvalue
            exact absurd hle (not_le.mpr hneg)
          · exact iff_of_true ⟨toInt64 outOfRange value, if_neg hneg⟩
              ⟨.number value, rfl, value, rfl, not_lt.mp hneg⟩
      | _ =>
          refine iff_of_false (not_succeeds_error _) ?_
          rintro ⟨item', hitem, value', hvalue, -⟩
          cases hitem
          cases hvalue

theorem requireIterations_ne_nullPointer (outOfRange : Double → ℤ) (entry : Option CJson) :
    requireIterations outOfRange entry ≠ .error .nullPointer := by
  apply bind_ne_error (required_ne_nullPointer asNumber entry)
  intro value
  simp only []
  split_ifs <;> exact fun h => by cases h

theorem fillDims_ne_nullPointer (element : CJson) (turns i : ℕ) (dim3 : List ℤ) :
    fillDims element turns i dim3 ≠ .error .nullPointer := by
  induction turns generalizing i dim3 with
  | zero => exact fun h => by cases h
  | succ turns ih =>
      cases element with
      | number value =>
          rw [fillDims]
          split_ifs
          · exact fun h => by cases h
          · exact ih (i + 1) _
      | _ => exact fun h => by cases h

theorem parseDim3OrInt_eq_nullPointer (entry : Option CJson) :
    parseDim3OrInt entry = .error .nullPointer ↔ entry = none := by
  cases entry with
  | none => exact iff_of_true rfl rfl
  | some item =>
      refine iff_of_false ?_ fun h => by cases h
      cases item with
      | number value =>
          rw [parseDim3OrInt]
          split_ifs <;> exact fun h => by cases h
      | array elems =>
          cases elems with
          | nil => exact fun h => by cases h
          | cons element rest =>
              rw [parseDim3OrInt_array]
              split_ifs
              · exact fillDims_ne_nullPointer _ _ _ _
              · exact fun h => by cases h
      | _ => exact fun h => by cases h

/-! ## A benchmark -/

theorem succeeds_parseBenchmark (outOfRange : Double → ℤ) (smctrl sync : Bool)
    (benchmark : CJson) :
    Succeeds (parseBenchmark outOfRange smctrl sync benchmark) ↔
      BenchmarkSettings smctrl sync benchmark := by
  have hsteps : Succeeds (parseBenchmark outOfRange smctrl sync benchmark) ↔
      Succeeds (verifyConfigKeys benchmarkKeys benchmark) ∧
      Succeeds (required asString (benchmark.getObjectItem "filename")) ∧
      Succeeds (optional asString (benchmark.getObjectItem "log_name")) ∧
      Succeeds (optional asString (benchmark.getObjectItem "label")) ∧
      Succeeds (threadPercentage (benchmark.getObjectItem "mps_thread_percentage")) ∧
      Succeeds (parseDim3OrInt (benchmark.getObjectItem "thread_count")) ∧
      Succeeds (parseDim3OrInt (benchmark.getObjectItem "block_count")) ∧
      Succeeds (required asNumber (benchmark.getObjectItem "data_size")) ∧
      Succeeds (parseSmMask smctrl (benchmark.getObjectItem "sm_mask")) ∧
      Succeeds (benchmarkIterations outOfRange sync (benchmark.getObjectItem "max_iterations")) ∧
      Succeeds (optional asNumber (benchmark.getObjectItem "max_time")) ∧
      Succeeds (optional asBool (benchmark.getObjectItem "terminator")) ∧
      Succeeds (optional asNumber (benchmark.getObjectItem "release_time")) ∧
      Succeeds (optional asNumber (benchmark.getObjectItem "cpu_core")) ∧
      Succeeds (optional asNumber (benchmark.getObjectItem "stream_priority")) := by
    iterate 14
      apply succeeds_bind
      intro _ _
    exact succeeds_bind_ok
  rw [hsteps, succeeds_verifyConfigKeys, succeeds_threadPercentage, succeeds_parseSmMask,
    succeeds_benchmarkIterations]
  simp only [succeeds_required, succeeds_optional]
  constructor
  · rintro ⟨hkeys, hfilename, hlogName, hlabel, hpercentage, hthreads, hblocks, hsize, hmask,
      hiterations, htime, hterminator, hrelease, hcore, hpriority⟩
    exact ⟨⟨hkeys, hfilename, hlogName, hlabel, hpercentage⟩, hthreads, hblocks, hsize, hmask,
      hiterations, htime, hterminator, hrelease, hcore, hpriority⟩
  · intro h
    exact ⟨h.keys, h.filename, h.logName, h.label, h.percentage, h.threadCount, h.blockCount,
      h.dataSize, h.smMask, h.maxIterations, h.maxTime, h.terminator, h.releaseTime, h.cpuCore,
      h.streamPriority⟩

theorem parseBenchmark_eq_nullPointer (outOfRange : Double → ℤ) (smctrl sync : Bool)
    (benchmark : CJson) :
    parseBenchmark outOfRange smctrl sync benchmark = .error .nullPointer ↔
      MissesCount benchmark := by
  have hsteps : parseBenchmark outOfRange smctrl sync benchmark = .error .nullPointer ↔
      Succeeds (verifyConfigKeys benchmarkKeys benchmark) ∧
      Succeeds (required asString (benchmark.getObjectItem "filename")) ∧
      Succeeds (optional asString (benchmark.getObjectItem "log_name")) ∧
      Succeeds (optional asString (benchmark.getObjectItem "label")) ∧
      Succeeds (threadPercentage (benchmark.getObjectItem "mps_thread_percentage")) ∧
      (parseDim3OrInt (benchmark.getObjectItem "thread_count") = .error .nullPointer ∨
        Succeeds (parseDim3OrInt (benchmark.getObjectItem "thread_count")) ∧
        (parseDim3OrInt (benchmark.getObjectItem "block_count") = .error .nullPointer ∨
          Succeeds (parseDim3OrInt (benchmark.getObjectItem "block_count")) ∧ False)) := by
    apply bind_eq_error_of_ne (verifyConfigKeys_ne_nullPointer _ _)
    intro _ _
    apply bind_eq_error_of_ne (required_ne_nullPointer _ _)
    intro _ _
    apply bind_eq_error_of_ne (optional_ne_nullPointer _ _)
    intro _ _
    apply bind_eq_error_of_ne (optional_ne_nullPointer _ _)
    intro _ _
    apply bind_eq_error_of_ne (threadPercentage_ne_nullPointer _)
    intro _ _
    iterate 2
      apply bind_eq_error
      intro _ _
    rw [iff_false]
    -- no other setting is read without a check
    apply bind_ne_error (required_ne_nullPointer _ _)
    intro _
    apply bind_ne_error (parseSmMask_ne_nullPointer _ _)
    intro _
    apply bind_ne_error (benchmarkIterations_ne_nullPointer _ _ _)
    intro _
    iterate 5
      apply bind_ne_error (optional_ne_nullPointer _ _)
      intro _
    exact fun h => by cases h
  rw [hsteps, succeeds_verifyConfigKeys, succeeds_threadPercentage,
    parseDim3OrInt_eq_nullPointer, parseDim3OrInt_eq_nullPointer, and_false, or_false]
  simp only [succeeds_required, succeeds_optional]
  constructor
  · rintro ⟨hkeys, hfilename, hlogName, hlabel, hpercentage, hcounts⟩
    exact ⟨⟨hkeys, hfilename, hlogName, hlabel, hpercentage⟩, hcounts⟩
  · rintro ⟨h, hcounts⟩
    exact ⟨h.keys, h.filename, h.logName, h.label, h.percentage, hcounts⟩

theorem smMask_of_parseBenchmark {outOfRange : Double → ℤ} {smctrl sync : Bool}
    {benchmark : CJson} {c : BenchmarkConfiguration}
    (h : parseBenchmark outOfRange smctrl sync benchmark = .ok c) :
    parseSmMask smctrl (benchmark.getObjectItem "sm_mask") = .ok c.smMask := by
  iterate 8
    obtain ⟨_, -, h⟩ := exists_of_bind_ok h
  obtain ⟨mask, hmask, h⟩ := exists_of_bind_ok h
  iterate 6
    obtain ⟨_, -, h⟩ := exists_of_bind_ok h
  cases h
  exact hmask

/-! ## The root -/

theorem benchmarkList_of_required {root : CJson} {list : List CJson}
    (h : required asList (root.getObjectItem "benchmarks") = .ok list) :
    benchmarkList root = list := by
  rw [benchmarkList, required_eq_ok h]
  rfl

theorem syncs_of_optional {root : CJson} {sync : Option Bool}
    (h : optional asBool (root.getObjectItem "sync_every_iteration") = .ok sync) :
    syncs root = sync.getD false := by
  rw [syncs, optional_eq_ok h]

theorem succeeds_parseRoot (outOfRange : Double → ℤ) (smctrl : Bool) (root : CJson) :
    Succeeds (parseRoot outOfRange smctrl root) ↔ Accepted outOfRange smctrl root := by
  have hsteps : Succeeds (parseRoot outOfRange smctrl root) ↔
      Succeeds (verifyConfigKeys globalKeys root) ∧
      Succeeds (requireIterations outOfRange (root.getObjectItem "max_iterations")) ∧
      Succeeds (required asNumber (root.getObjectItem "max_time")) ∧
      Succeeds (optional asBool (root.getObjectItem "use_processes")) ∧
      Succeeds (required asNumber (root.getObjectItem "cuda_device")) ∧
      Succeeds (required asString (root.getObjectItem "name")) ∧
      Succeeds (optional asString (root.getObjectItem "base_result_directory")) ∧
      Succeeds (optional asBool (root.getObjectItem "pin_cpus")) ∧
      Succeeds (optional asBool (root.getObjectItem "sync_every_iteration")) ∧
      Succeeds (optional asBool (root.getObjectItem "do_warmup")) ∧
      Succeeds (required asList (root.getObjectItem "benchmarks")) ∧
      ∀ benchmark ∈ benchmarkList root,
        Succeeds (parseBenchmark outOfRange smctrl (syncs root) benchmark) := by
    iterate 8
      apply succeeds_bind
      intro _ _
    apply succeeds_bind
    intro sync hsync
    apply succeeds_bind
    intro _ _
    apply succeeds_bind
    intro list hlist
    rw [syncs_of_optional hsync, benchmarkList_of_required hlist, ← succeeds_mapM]
    exact succeeds_bind_ok
  rw [hsteps, succeeds_verifyConfigKeys, succeeds_requireIterations]
  simp only [succeeds_required, succeeds_optional, succeeds_parseBenchmark]
  constructor
  · rintro ⟨hkeys, hiterations, htime, hprocesses, hdevice, hname, hdirectory, hpin, hsync,
      hwarmup, hlist, hall⟩
    exact ⟨⟨hkeys, hiterations, htime, hprocesses, hdevice, hname, hdirectory, hpin, hsync,
      hwarmup, hlist⟩, hall⟩
  · rintro ⟨h, hall⟩
    exact ⟨h.keys, h.maxIterations, h.maxTime, h.useProcesses, h.cudaDevice, h.name,
      h.baseResultDirectory, h.pinCpus, h.syncEveryIteration, h.doWarmup, h.benchmarks, hall⟩

/-- Of the global settings nothing is read through a null pointer. -/
theorem parseRoot_eq_nullPointer (outOfRange : Double → ℤ) (smctrl : Bool) (root : CJson) :
    parseRoot outOfRange smctrl root = .error .nullPointer ↔
      ReadsMissingCount outOfRange smctrl root := by
  have hsteps : parseRoot outOfRange smctrl root = .error .nullPointer ↔
      Succeeds (verifyConfigKeys globalKeys root) ∧
      Succeeds (requireIterations outOfRange (root.getObjectItem "max_iterations")) ∧
      Succeeds (required asNumber (root.getObjectItem "max_time")) ∧
      Succeeds (optional asBool (root.getObjectItem "use_processes")) ∧
      Succeeds (required asNumber (root.getObjectItem "cuda_device")) ∧
      Succeeds (required asString (root.getObjectItem "name")) ∧
      Succeeds (optional asString (root.getObjectItem "base_result_directory")) ∧
      Succeeds (optional asBool (root.getObjectItem "pin_cpus")) ∧
      Succeeds (optional asBool (root.getObjectItem "sync_every_iteration")) ∧
      Succeeds (optional asBool (root.getObjectItem "do_warmup")) ∧
      Succeeds (required asList (root.getObjectItem "benchmarks")) ∧
      (benchmarkList root).mapM (parseBenchmark outOfRange smctrl (syncs root)) =
        .error .nullPointer := by
    apply bind_eq_error_of_ne (verifyConfigKeys_ne_nullPointer _ _)
    intro _ _
    apply bind_eq_error_of_ne (requireIterations_ne_nullPointer _ _)
    intro _ _
    apply bind_eq_error_of_ne (required_ne_nullPointer _ _)
    intro _ _
    apply bind_eq_error_of_ne (optional_ne_nullPointer _ _)
    intro _ _
    iterate 2
      apply bind_eq_error_of_ne (required_ne_nullPointer _ _)
      intro _ _
    iterate 2
      apply bind_eq_error_of_ne (optional_ne_nullPointer _ _)
      intro _ _
    apply bind_eq_error_of_ne (optional_ne_nullPointer _ _)
    intro sync hsync
    apply bind_eq_error_of_ne (optional_ne_nullPointer _ _)
    intro _ _
    apply bind_eq_error_of_ne (required_ne_nullPointer _ _)
    intro list hlist
    rw [syncs_of_optional hsync, benchmarkList_of_required hlist]
    refine (bind_eq_error (p := False) fun _ _ => ?_).trans ?_
    · exact iff_of_false (fun h => by cases h) (fun h => h)
    · rw [and_false, or_false]
  rw [hsteps, succeeds_verifyConfigKeys, succeeds_requireIterations, mapM_eq_error_iff]
  simp only [succeeds_required, succeeds_optional, succeeds_parseBenchmark,
    parseBenchmark_eq_nullPointer]
  constructor
  · rintro ⟨hkeys, hiterations, htime, hprocesses, hdevice, hname, hdirectory, hpin, hsync,
      hwarmup, hlist, hmisses⟩
    exact ⟨⟨hkeys, hiterations, htime, hprocesses, hdevice, hname, hdirectory, hpin, hsync,
      hwarmup, hlist⟩, hmisses⟩
  · rintro ⟨h, hmisses⟩
    exact ⟨h.keys, h.maxIterations, h.maxTime, h.useProcesses, h.cudaDevice, h.name,
      h.baseResultDirectory, h.pinCpus, h.syncEveryIteration, h.doWarmup, h.benchmarks, hmisses⟩

/-- Each benchmark of a configuration is that of an item in the list. -/
theorem benchmarks_of_parseRoot {outOfRange : Double → ℤ} {smctrl : Bool} {root : CJson}
    {c : GlobalConfiguration} (h : parseRoot outOfRange smctrl root = .ok c) :
    List.Forall₂
      (fun benchmark c => parseBenchmark outOfRange smctrl (syncs root) benchmark = .ok c)
      (benchmarkList root) c.benchmarks := by
  iterate 8
    obtain ⟨_, -, h⟩ := exists_of_bind_ok h
  obtain ⟨sync, hsync, h⟩ := exists_of_bind_ok h
  obtain ⟨_, -, h⟩ := exists_of_bind_ok h
  obtain ⟨list, hlist, h⟩ := exists_of_bind_ok h
  obtain ⟨benchmarks, hbenchmarks, h⟩ := exists_of_bind_ok h
  cases h
  rw [syncs_of_optional hsync, benchmarkList_of_required hlist]
  exact forall₂_of_mapM hbenchmarks

/-! ## Which configurations are accepted only as documented -/

theorem mem_of_not_isExtended {validKeys : List (List Char)} {key : List Char}
    (h : ∃ validKey ∈ validKeys, StartsWith key validKey) (hslip : ¬ IsExtended validKeys key) :
    key ∈ validKeys := by
  by_contra hkey
  exact hslip ⟨hkey, h⟩

theorem documented_of_accepted {outOfRange : Double → ℤ} {smctrl : Bool} {root : CJson}
    (haccepted : Accepted outOfRange smctrl root) (h : WithoutSlips smctrl root) :
    Documented smctrl root := by
  obtain ⟨hglobal, hbenchmarks⟩ := haccepted
  refine ⟨?_, ?_, ?_⟩
  · intro member hmember
    exact mem_of_not_isExtended (hglobal.keys.2 member hmember) (h.globalKeys member hmember)
  · intro benchmark hbenchmark member hmember
    exact mem_of_not_isExtended ((hbenchmarks benchmark hbenchmark).keys.2 member hmember)
      (h.benchmarkKeys benchmark hbenchmark member hmember)
  · intro hsmctrl benchmark hbenchmark s hs
    obtain ⟨mask, hmask⟩ := h.masks hsmctrl benchmark hbenchmark
    exact ⟨mask, hmask s hs⟩

theorem eq_sm_mask {key : List Char} (hkey : key ∈ benchmarkKeys)
    (h : key.map Char.toLower = "sm_mask".toList.map Char.toLower) : key = "sm_mask".toList := by
  have hall : ∀ key ∈ benchmarkKeys,
      key.map Char.toLower = "sm_mask".toList.map Char.toLower → key = "sm_mask".toList := by
    decide
  exact hall key hkey h

theorem getObjectItem_sm_mask {benchmark : CJson} {s : List Char}
    (hkeys : ∀ member ∈ benchmark.members, member.1 ∈ benchmarkKeys)
    (hs : HasSmMask benchmark s) :
    ∃ item, benchmark.getObjectItem "sm_mask" = some item ∧
      ("sm_mask".toList, item) ∈ benchmark.members := by
  have hsome : (benchmark.members.find? fun member =>
      member.1.map Char.toLower = "sm_mask".toList.map Char.toLower).isSome := by
    rw [List.find?_isSome]
    exact ⟨_, hs, decide_eq_true rfl⟩
  obtain ⟨member, hfind⟩ := Option.isSome_iff_exists.mp hsome
  have hmem := List.mem_of_find?_eq_some hfind
  have hfound := List.find?_some hfind
  have hname := of_decide_eq_true hfound
  refine ⟨member.2, ?_, ?_⟩
  · rw [CJson.getObjectItem, hfind]
    rfl
  · rw [← eq_sm_mask (hkeys member hmem) hname]
    exact hmem

/-- The mask of a configuration is the common one of all that are given. -/
theorem denotes_of_parseSmMask {benchmark : CJson} {stored mask : BitVec 64}
    (hkeys : ∀ member ∈ benchmark.members, member.1 ∈ benchmarkKeys)
    (hparse : parseSmMask true (benchmark.getObjectItem "sm_mask") = .ok stored)
    (hmask : ∀ s, HasSmMask benchmark s → DenotesSmMask s mask) {s : List Char}
    (hs : HasSmMask benchmark s) : DenotesSmMask s stored := by
  obtain ⟨item, hitem, hmem⟩ := getObjectItem_sm_mask hkeys hs
  obtain ⟨-, s', hstring⟩ :=
    (succeeds_parseSmMask true _).mp ⟨stored, hparse⟩ item hitem
  cases item with
  | string valuestring =>
      rw [hitem] at hparse
      cases hparse
      rw [smMask_of_denotes (hmask valuestring hmem)]
      exact hmask s hs
  | _ => cases hstring

theorem exists_of_forall₂ {α β : Type} {R : α → β → Prop} {l : List α} {r : List β}
    (h : List.Forall₂ R l r) {a : α} (ha : a ∈ l) : ∃ b, R a b := by
  induction h with
  | nil => exact (List.not_mem_nil ha).elim
  | cons hR _ ih =>
      rcases List.mem_cons.mp ha with rfl | ha
      · exact ⟨_, hR⟩
      · exact ih ha

theorem parseConfiguration_eq_ok {cJSONParse : List Char → Option CJson}
    {outOfRange : Double → ℤ} {smctrl : Bool} {config : List Char} {c : GlobalConfiguration}
    (h : parseConfiguration cJSONParse outOfRange smctrl config = .ok c) :
    ∃ root, cJSONParse config = some root ∧ parseRoot outOfRange smctrl root = .ok c := by
  rw [parseConfiguration] at h
  split at h
  · cases h
  · rename_i root hroot
    exact ⟨root, hroot, h⟩

theorem parseConfiguration_of_root {cJSONParse : List Char → Option CJson}
    {config : List Char} {root : CJson} (h : cJSONParse config = some root)
    (outOfRange : Double → ℤ) (smctrl : Bool) :
    parseConfiguration cJSONParse outOfRange smctrl config =
      parseRoot outOfRange smctrl root := by
  rw [parseConfiguration, h]

/-- Exactly under the condition on the root, nothing is returned but what is documented. -/
theorem configurationExact_iff (cJSONParse : List Char → Option CJson)
    (outOfRange : Double → ℤ) (smctrl : Bool) (config : List Char) :
    ConfigurationExact cJSONParse outOfRange smctrl config ↔
      ∀ root, cJSONParse config = some root →
        ConfigurationCondition outOfRange smctrl root := by
  constructor
  · intro h root hroot
    have hparse := parseConfiguration_of_root hroot outOfRange smctrl
    refine ⟨fun haccepted => ?_, fun hmisses => ?_⟩
    · obtain ⟨c, hc⟩ := (succeeds_parseRoot outOfRange smctrl root).mpr haccepted
      obtain ⟨root', hroot', hdocumented, hmasks⟩ := h.returned c (hparse.trans hc)
      rw [hroot, Option.some.injEq] at hroot'
      subst hroot'
      refine ⟨fun member hmember hslip => hslip.1 (hdocumented.globalKeys member hmember),
        fun benchmark hbenchmark member hmember hslip =>
          hslip.1 (hdocumented.benchmarkKeys benchmark hbenchmark member hmember), ?_⟩
      intro hsmctrl benchmark hbenchmark
      obtain ⟨stored, hstored⟩ := exists_of_forall₂ (hmasks hsmctrl) hbenchmark
      exact ⟨stored.smMask, hstored⟩
    · by_contra hdocumented
      have hrejected := h.otherwise root hroot hdocumented
      rw [hparse, (parseRoot_eq_nullPointer outOfRange smctrl root).mpr hmisses] at hrejected
      cases hrejected
  · intro h
    have hreturned : ∀ c, parseConfiguration cJSONParse outOfRange smctrl config = .ok c →
        ∃ root, cJSONParse config = some root ∧ Documented smctrl root ∧
          (smctrl = true → List.Forall₂
            (fun benchmark c => ∀ s, HasSmMask benchmark s → DenotesSmMask s c.smMask)
            (benchmarkList root) c.benchmarks) := by
      intro c hc
      obtain ⟨root, hroot, hparse⟩ := parseConfiguration_eq_ok hc
      have haccepted := (succeeds_parseRoot outOfRange smctrl root).mp ⟨c, hparse⟩
      have hslips := (h root hroot).accepted haccepted
      have hdocumented := documented_of_accepted haccepted hslips
      refine ⟨root, hroot, hdocumented, fun hsmctrl => ?_⟩
      subst hsmctrl
      have hboth := (List.forall₂_and_left _ _).mpr
        ⟨fun benchmark hbenchmark =>
          And.intro (hdocumented.benchmarkKeys benchmark hbenchmark)
            (hslips.masks rfl benchmark hbenchmark),
          benchmarks_of_parseRoot hparse⟩
      refine hboth.imp ?_
      rintro benchmark stored ⟨⟨hkeys, mask, hmask⟩, hbenchmark⟩ s hs
      exact denotes_of_parseSmMask hkeys (smMask_of_parseBenchmark hbenchmark) hmask hs
    refine ⟨hreturned, ?_⟩
    intro root hroot hdocumented
    have hparse := parseConfiguration_of_root hroot outOfRange smctrl
    cases hresult : parseRoot outOfRange smctrl root with
    | ok c =>
        obtain ⟨root', hroot', hdocumented', -⟩ := hreturned c (hparse.trans hresult)
        rw [hroot, Option.some.injEq] at hroot'
        subst hroot'
        exact absurd hdocumented' hdocumented
    | error stop =>
        cases stop with
        | rejected => exact hparse.trans hresult
        | nullPointer =>
            have hmisses := (parseRoot_eq_nullPointer outOfRange smctrl root).mp hresult
            exact absurd ((h root hroot).missing hmisses) hdocumented

/-! ## Counterexample -/

/-- Members with their names. -/
def named (members : List (String × CJson)) : List (List Char × CJson) :=
  members.map fun member => (member.1.toList, member.2)

/-- A configuration with one benchmark. -/
def scenario (globals settings : List (String × CJson)) : CJson :=
  .object (named (globals ++
    [("max_iterations", .number (.ofInt 1)), ("max_time", .number (.ofInt 0)),
      ("cuda_device", .number (.ofInt 0)), ("name", .string "n".toList),
      ("benchmarks", .array [.object (named (settings ++
        [("filename", .string "b".toList), ("thread_count", .number (.ofInt 1)),
          ("block_count", .number (.ofInt 1)), ("data_size", .number (.ofInt 0))]))])]))

/-- The masks of the benchmarks. -/
def GlobalConfiguration.masks (c : GlobalConfiguration) : List (BitVec 64) :=
  c.benchmarks.map BenchmarkConfiguration.smMask

/-- A misspelled `do_warmup` is accepted and means nothing, the mask `zz` is 0, and a mask
of 65 bits becomes one of 64. -/
theorem not_configurationExact :
    (parseRoot (fun _ => 0) true (scenario [("do_warmups", .bool true)] [])).map
        GlobalConfiguration.doWarmup = .ok false ∧
      (parseRoot (fun _ => 0) true (scenario [] [("sm_mask", .string "zz".toList)])).map
        GlobalConfiguration.masks = .ok [0] ∧
      (parseRoot (fun _ => 0) true
          (scenario [] [("sm_mask", .string "0x1ffffffffffffffff".toList)])).map
        GlobalConfiguration.masks = .ok [BitVec.allOnes 64] ∧
      ¬ ∀ cJSONParse outOfRange smctrl config,
        ConfigurationExact cJSONParse outOfRange smctrl config := by
  have haccepted : (parseRoot (fun _ => 0) true (scenario [("do_warmups", .bool true)] [])).map
      GlobalConfiguration.doWarmup = .ok false := by
    decide
  refine ⟨haccepted, by decide, by decide, ?_⟩
  intro hexact
  cases hresult : parseRoot (fun _ => 0) true (scenario [("do_warmups", .bool true)] []) with
  | error stop =>
      rw [hresult] at haccepted
      cases haccepted
  | ok c =>
      obtain ⟨root, hroot, hdocumented, -⟩ :=
        (hexact (fun _ => some (scenario [("do_warmups", .bool true)] [])) (fun _ => 0) true
          []).returned c hresult
      cases hroot
      have hkey := hdocumented.globalKeys _ List.mem_cons_self
      exact absurd hkey (by decide)

end A100Partitioning.Config
