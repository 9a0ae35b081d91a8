import A100Partitioning.Nvtaskset.ComposeList
import A100Partitioning.TaskHost.OutputLog
import Mathlib.Data.List.DropRight
import Mathlib.Tactic.Common

/-!
# The names of the log files

A log file is named after the file of its benchmark, unless the configuration names it.
The scan for the base name takes a dot at the start for no dot, and the check for names
that are too long comes after they were cut off.
-/

namespace A100Partitioning.TaskHost

open Support Json
open Nvtaskset (decimal)

/-! ## The code -/

/-- `.`. -/
def dot : Byte := 0x2e

/-- `/`. -/
def slash : Byte := 0x2f

/-- The variables of the scan in `GetFileBasename`. -/
structure NameScan where
  i : ℕ
  basenameEnd : ℕ
  basenameStart : ℕ
  deriving DecidableEq, Repr

/-- A turn of the scan. -/
def NameScan.step (s : NameScan) (c : Byte) : NameScan where
  i := s.i + 1
  basenameEnd := if c = dot then s.i else s.basenameEnd
  basenameStart := if c = slash then s.i + 1 else s.basenameStart

/-- The scan, with 0 for what is not found. -/
def scanName (name : List Byte) : NameScan := name.foldl NameScan.step ⟨0, 0, 0⟩

/-- `GetFileBasename`: the string that is left in a buffer of `max` zeros. -/
def getFileBasename (name : List Byte) (max : ℕ) : List Byte :=
  let scan := scanName name
  let basenameEnd := if scan.basenameEnd < scan.basenameStart then scan.i else scan.basenameEnd
  let copySize := basenameEnd - scan.basenameStart
  if copySize < max - 1 then (name.drop scan.basenameStart).take copySize
  else (name.drop scan.basenameStart).take (max - 1)

/-- `MAX_TEMP_FILENAME_SIZE`. -/
def maxTempFilenameSize : ℕ := 1000

/-- `temp_name`, a buffer of zeros, after `snprintf`. -/
def tempName (text : List Byte) : List Byte :=
  (text.take (maxTempFilenameSize - 1)).rightpad maxTempFilenameSize 0

/-- What `%d` prints. -/
def decimalBytes (n : ℤ) : List Byte := (decimal n).map fun c => BitVec.ofNat 8 c.toNat

/-- The text for `temp_name`. -/
def nameText (filename : CString) (logName : Option CString) (benchmarkIndex : BitVec 32) :
    List Byte :=
  match logName with
  | some name => name.bytes
  | none => getFileBasename filename.bytes 256 ++ ascii "_" ++
      decimalBytes benchmarkIndex.toInt ++ ascii ".json"

/-- What comes of `GetLogFileName`; more may be copied than was allocated. -/
inductive LogFileName where
  | null
  | path (name : List Byte)
  | overflow
  deriving DecidableEq, Repr

/-- The size of a path with its zero. -/
def pathSize (baseResultDirectory name : List Byte) : ℕ :=
  2 + baseResultDirectory.length + name.length

/-- The size that is allocated for it, which is an `int` on the way. -/
def allocated (size : ℕ) : ℕ := ((BitVec.ofNat 32 size).signExtend 64).toNat

/-- The end of `GetLogFileName`, with the sizes for which `malloc` succeeds. -/
def joinPath (malloc : ℕ → Bool) (baseResultDirectory name : List Byte) : LogFileName :=
  let totalPathLength := allocated (pathSize baseResultDirectory name)
  if malloc totalPathLength then
    if totalPathLength < pathSize baseResultDirectory name then .overflow
    else .path (baseResultDirectory ++ slash :: name)
  else .null

/-- `GetLogFileName`. -/
def getLogFileName (malloc : ℕ → Bool) (baseResultDirectory filename : CString)
    (logName : Option CString) (benchmarkIndex : BitVec 32) : LogFileName :=
  let text := nameText filename logName benchmarkIndex
  if logName.isSome ∧ text.head? = some slash then
    if malloc (text.length + 1) then .path text else .null
  else if (tempName text).getD (maxTempFilenameSize - 1) 0 ≠ 0 then .null
  else joinPath malloc baseResultDirectory.bytes ((tempName text).takeWhile (· ≠ 0))

/-! ## What is meant -/

/-- What is behind the last slash. -/
def lastComponent (name : List Byte) : List Byte := name.rtakeWhile (· ≠ slash)

/-- What is before the last dot, or everything if there is none. -/
def withoutExtension (component : List Byte) : List Byte :=
  if dot ∈ component then (component.rdropWhile (· ≠ dot)).dropLast else component

/-- The base name, which may be truncated. -/
def base (filename : CString) : List Byte :=
  (withoutExtension (lastComponent filename.bytes)).take 255

/-- The name of a log that is not given. -/
def defaultName (filename : CString) (benchmarkIndex : BitVec 32) : List Byte :=
  base filename ++ ascii "_" ++ decimalBytes benchmarkIndex.toInt ++ ascii ".json"

/-- The path is returned whenever there is memory for it. -/
def Returns (result : (ℕ → Bool) → LogFileName) (baseResultDirectory name : List Byte) : Prop :=
  ∀ malloc : ℕ → Bool, malloc (pathSize baseResultDirectory name) = true →
    result malloc = .path (baseResultDirectory ++ slash :: name)

/-- The names of logs are as documented. -/
structure LogFileNameExact (baseResultDirectory filename : CString) (logName : Option CString)
    (benchmarkIndex : BitVec 32) : Prop where
  default : logName = none →
    Returns
      (fun malloc => getLogFileName malloc baseResultDirectory filename logName benchmarkIndex)
      baseResultDirectory.bytes (defaultName filename benchmarkIndex)
  distinct : logName = none → ∀ malloc malloc' filename' benchmarkIndex' path,
    benchmarkIndex' ≠ benchmarkIndex →
    getLogFileName malloc baseResultDirectory filename logName benchmarkIndex = .path path →
    getLogFileName malloc' baseResultDirectory filename' none benchmarkIndex' ≠ .path path
  relative : ∀ name, logName = some name → name.bytes.head? ≠ some slash →
    name.bytes.length ≤ maxTempFilenameSize - 1 →
    Returns
      (fun malloc => getLogFileName malloc baseResultDirectory filename logName benchmarkIndex)
      baseResultDirectory.bytes name.bytes
  tooLong : ∀ name, logName = some name → name.bytes.head? ≠ some slash →
    maxTempFilenameSize - 1 < name.bytes.length → ∀ malloc,
    getLogFileName malloc baseResultDirectory filename logName benchmarkIndex = .null

/-- The condition for that. -/
def LogFileNameCondition (baseResultDirectory filename : CString) (benchmarkIndex : BitVec 32) :
    Option CString → Prop
  | none =>
      let size := pathSize baseResultDirectory.bytes (defaultName filename benchmarkIndex)
      (filename.bytes = [] ∨ dot ∈ filename.bytes ∨ slash ∈ filename.bytes) ∧
        allocated size = size
  | some name =>
      let size := pathSize baseResultDirectory.bytes name.bytes
      name.bytes.head? = some slash ∨
        name.bytes.length ≤ maxTempFilenameSize - 1 ∧ allocated size = size

/-! ## The base name -/

/-- What the scan has found. -/
structure Scanned (name : List Byte) (s : NameScan) : Prop where
  index : s.i = name.length
  start : s.basenameStart ≤ name.length
  component : name.drop s.basenameStart = lastComponent name
  slashed : slash ∈ name → 0 < s.basenameStart
  dotted : dot ∈ lastComponent name → s.basenameStart ≤ s.basenameEnd ∧
    (lastComponent name).take (s.basenameEnd - s.basenameStart) =
      withoutExtension (lastComponent name)
  noDot : dot ∉ lastComponent name → s.basenameEnd < s.basenameStart ∨
    s.basenameStart = 0 ∧ s.basenameEnd = 0
  stop : s.basenameEnd ≤ name.length

theorem lastComponent_concat_slash (name : List Byte) : lastComponent (name ++ [slash]) = [] :=
  List.rtakeWhile_concat_neg _ _ _ (by decide)

theorem lastComponent_concat {c : Byte} (hc : c ≠ slash) (name : List Byte) :
    lastComponent (name ++ [c]) = lastComponent name ++ [c] :=
  List.rtakeWhile_concat_pos _ _ _ (decide_eq_true hc)

theorem withoutExtension_concat_dot (component : List Byte) :
    withoutExtension (component ++ [dot]) = component := by
  have hmem : dot ∈ component ++ [dot] := List.mem_append_right _ (List.mem_singleton_self _)
  rw [withoutExtension, if_pos hmem, List.rdropWhile_concat_neg _ _ _ (by decide),
    List.dropLast_concat]

theorem withoutExtension_concat {c : Byte} (hc : c ≠ dot) {component : List Byte}
    (hdot : dot ∈ component) :
    withoutExtension (component ++ [c]) = withoutExtension component := by
  have hdrop : (component ++ [c]).rdropWhile (· ≠ dot) = component.rdropWhile (· ≠ dot) :=
    List.rdropWhile_concat_pos _ _ _ (decide_eq_true hc)
  rw [withoutExtension, withoutExtension, if_pos hdot, if_pos (List.mem_append_left _ hdot),
    hdrop]

/-- The length of the last component is what is left behind its start. -/
theorem Scanned.length_component {name : List Byte} {s : NameScan} (h : Scanned name s) :
    (lastComponent name).length = name.length - s.basenameStart := by
  rw [← h.component, List.length_drop]

theorem Scanned.step {name : List Byte} {s : NameScan} (h : Scanned name s) (c : Byte) :
    Scanned (name ++ [c]) (s.step c) := by
  have hlength : (name ++ [c]).length = name.length + 1 := List.length_append
  have hstart := h.start
  have hstop := h.stop
  by_cases hslash : c = slash
  · subst hslash
    have hnot : slash ≠ dot := by decide
    have hcomponent := lastComponent_concat_slash name
    refine ⟨?_, ?_, ?_, ?_, ?_, ?_, ?_⟩ <;>
      simp only [NameScan.step, if_pos, if_neg hnot, hlength, h.index, hcomponent]
    · exact le_rfl
    · exact List.drop_eq_nil_of_le hlength.le
    · exact fun _ => Nat.succ_pos _
    · exact fun hdot => (List.not_mem_nil hdot).elim
    · exact fun _ => .inl (Nat.lt_succ_of_le hstop)
    · exact Nat.le_succ_of_le hstop
  · have hcomponent := lastComponent_concat hslash name
    have hdrop : (name ++ [c]).drop s.basenameStart = lastComponent name ++ [c] := by
      rw [List.drop_append_of_le_length hstart, h.component]
    have hslashed : slash ∈ name ++ [c] → 0 < s.basenameStart := by
      intro hmem
      rcases List.mem_append.mp hmem with hmem | hmem
      · exact h.slashed hmem
      · exact absurd (List.mem_singleton.mp hmem).symm hslash
    by_cases hdot : c = dot
    · subst hdot
      have htake : (lastComponent name ++ [dot]).take (name.length - s.basenameStart) =
          withoutExtension (lastComponent name ++ [dot]) := by
        rw [← h.length_component, List.take_left, withoutExtension_concat_dot]
      refine ⟨?_, ?_, ?_, ?_, ?_, ?_, ?_⟩ <;>
        simp only [NameScan.step, if_pos, if_neg hslash, hlength, h.index, hcomponent]
      · exact Nat.le_succ_of_le hstart
      · exact hdrop
      · exact hslashed
      · exact fun _ => ⟨hstart, htake⟩
      · exact fun hnone => absurd (List.mem_append_right _ (List.mem_singleton_self _)) hnone
      · exact Nat.le_succ _
    · have hmem : dot ∈ lastComponent name ++ [c] ↔ dot ∈ lastComponent name := by
        rw [List.mem_append, List.mem_singleton]
        exact or_iff_left (Ne.symm hdot)
      refine ⟨?_, ?_, ?_, ?_, ?_, ?_, ?_⟩ <;>
        simp only [NameScan.step, if_neg hdot, if_neg hslash, hlength, h.index, hcomponent, hmem]
      · exact Nat.le_succ_of_le hstart
      · exact hdrop
      · exact hslashed
      · intro hdotted
        obtain ⟨hle, htake⟩ := h.dotted hdotted
        refine ⟨hle, ?_⟩
        have hshort : s.basenameEnd - s.basenameStart ≤ (lastComponent name).length := by
          rw [h.length_component]
          omega
        rw [List.take_append_of_le_length hshort, htake, withoutExtension_concat hdot hdotted]
      · exact h.noDot
      · exact Nat.le_succ_of_le hstop

theorem scanned (name : List Byte) : Scanned name (scanName name) := by
  induction name using List.reverseRecOn with
  | nil =>
      refine ⟨rfl, le_rfl, rfl, fun h => (List.not_mem_nil h).elim,
        fun h => (List.not_mem_nil h).elim, fun _ => .inr ⟨rfl, rfl⟩, le_rfl⟩
  | append_singleton name c ih =>
      have hstep : scanName (name ++ [c]) = (scanName name).step c :=
        List.foldl_concat _ _ _ _
      rw [hstep]
      exact ih.step c

theorem getFileBasename_of_take {name base : List Byte} {max : ℕ} {basenameEnd : ℕ}
    (hend : (if (scanName name).basenameEnd < (scanName name).basenameStart then
      (scanName name).i else (scanName name).basenameEnd) = basenameEnd)
    (htake : (lastComponent name).take (basenameEnd - (scanName name).basenameStart) = base)
    (hlength : base.length = basenameEnd - (scanName name).basenameStart) :
    getFileBasename name max = base.take (max - 1) := by
  have hdrop := (scanned name).component
  simp only [getFileBasename, hend, hdrop]
  split_ifs with hfits
  · rw [htake, List.take_of_length_le (by omega)]
  · rw [← htake, List.take_take, min_eq_left (by omega)]

theorem getFileBasename_nil (max : ℕ) : getFileBasename [] max = [] := by
  simp only [getFileBasename, List.drop_nil, List.take_nil, ite_self]

/-- A file in a directory or with an extension, or one without a name. -/
theorem getFileBasename_eq {name : List Byte}
    (h : name = [] ∨ dot ∈ name ∨ slash ∈ name) (max : ℕ) :
    getFileBasename name max = (withoutExtension (lastComponent name)).take (max - 1) := by
  have hscan := scanned name
  by_cases hdot : dot ∈ lastComponent name
  · obtain ⟨hle, htake⟩ := hscan.dotted hdot
    apply getFileBasename_of_take (if_neg (not_lt.mpr hle)) htake
    rw [← htake, List.length_take, hscan.length_component]
    have hstop := hscan.stop
    omega
  · rw [withoutExtension, if_neg hdot]
    have hlength := hscan.length_component
    rcases hscan.noDot hdot with hbefore | ⟨hstart, hend⟩
    · apply getFileBasename_of_take (if_pos hbefore)
      · rw [hscan.index, ← hlength, List.take_length]
      · rw [hscan.index, hlength]
    · -- without a slash, the name is its last component
      have hslash : slash ∉ name := fun hmem => absurd (hscan.slashed hmem) (by omega)
      have hcomponent := hscan.component
      rw [hstart, List.drop_zero] at hcomponent
      rw [← hcomponent] at hdot
      obtain rfl : name = [] := by tauto
      rw [getFileBasename_nil]
      exact List.take_nil.symm

/-- A plain name is taken for one that starts with its extension. -/
theorem getFileBasename_plain {name : List Byte} (hdot : dot ∉ name) (hslash : slash ∉ name)
    (max : ℕ) : getFileBasename name max = [] := by
  have hscan := scanned name
  have hself : lastComponent name = name := by
    rw [lastComponent, List.rtakeWhile_eq_self_iff]
    intro c hc
    apply decide_eq_true
    rintro rfl
    exact hslash hc
  have hlength := hscan.length_component
  rw [hself] at hlength
  have hstart := hscan.start
  rw [← hself] at hdot
  rcases hscan.noDot hdot with hbefore | ⟨hzero, hend⟩
  · omega
  · have hcondition : ¬ (scanName name).basenameEnd < (scanName name).basenameStart := by omega
    have hbase : getFileBasename name max = _ :=
      getFileBasename_of_take (if_neg hcondition) rfl
        (by rw [hend, Nat.zero_sub, List.take_zero]; rfl)
    rw [hend, Nat.zero_sub, List.take_zero, List.take_nil] at hbase
    exact hbase

/-! ## Printed indices -/

theorem decimal_chars {n : ℤ} {c : Char} (hc : c ∈ decimal n) : c = '-' ∨ c.isDigit = true := by
  cases n with
  | ofNat n => exact .inr (Nat.isDigit_of_mem_toDigits (by decide) le_rfl hc)
  | negSucc n =>
      rcases List.mem_cons.mp hc with rfl | hc
      · exact .inl rfl
      · exact .inr (Nat.isDigit_of_mem_toDigits (by decide) le_rfl hc)

theorem toDigits_injective : Function.Injective (Nat.toDigits 10) := by
  intro m n h
  calc
    m = Nat.ofDigitChars 10 (Nat.toDigits 10 m) 0 := Nat.ofDigitChars_ten_toDigits.symm
    _ = Nat.ofDigitChars 10 (Nat.toDigits 10 n) 0 := by rw [h]
    _ = n := Nat.ofDigitChars_ten_toDigits

theorem minus_notMem_toDigits (n : ℕ) : '-' ∉ Nat.toDigits 10 n := by
  intro h
  exact absurd (Nat.isDigit_of_mem_toDigits (by decide) le_rfl h) (by decide)

theorem decimal_injective : Function.Injective decimal := by
  intro m n h
  cases m with
  | ofNat m =>
      cases n with
      | ofNat n => exact congrArg Int.ofNat (toDigits_injective h)
      | negSucc n =>
          have hmem : '-' ∈ decimal (.ofNat m) := h ▸ List.mem_cons_self
          exact absurd hmem (minus_notMem_toDigits m)
  | negSucc m =>
      cases n with
      | ofNat n =>
          have hmem : '-' ∈ decimal (.ofNat n) := h ▸ List.mem_cons_self
          exact absurd hmem (minus_notMem_toDigits n)
      | negSucc n =>
          have heq := toDigits_injective (List.cons.inj h).2
          rw [Nat.succ.inj heq]

theorem byte_of_decimal {n : ℤ} {c : Char} (hc : c ∈ decimal n) :
    (BitVec.ofNat 8 c.toNat).toNat = c.toNat ∧ c.toNat ≠ 0x5f ∧ c.toNat ≠ 0 := by
  rw [BitVec.toNat_ofNat]
  rcases decimal_chars hc with rfl | hdigit
  · decide
  · rw [Char.isDigit_iff_toNat] at hdigit
    have hzero : '0'.toNat = 48 := rfl
    have hnine : '9'.toNat = 57 := rfl
    omega

theorem decimalBytes_injective : Function.Injective decimalBytes := by
  intro m n h
  have hback (k : ℤ) : (decimalBytes k).map (fun b => Char.ofNat b.toNat) = decimal k := by
    rw [decimalBytes, List.map_map]
    refine List.map_congr_left (fun c hc => ?_) |>.trans (List.map_id _)
    rw [Function.comp_apply, (byte_of_decimal hc).1, Char.ofNat_toNat]
    rfl
  apply decimal_injective
  rw [← hback m, ← hback n, h]

theorem notMem_decimalBytes (n : ℤ) : 0x5f ∉ decimalBytes n ∧ 0 ∉ decimalBytes n := by
  constructor <;>
  · intro hmem
    obtain ⟨c, hc, heq⟩ := List.mem_map.mp hmem
    obtain ⟨hbyte, hunderscore, hzero⟩ := byte_of_decimal hc
    have hvalue := congrArg BitVec.toNat heq
    rw [hbyte] at hvalue
    first
    | exact hunderscore hvalue
    | exact hzero hvalue

theorem length_decimalBytes (n : BitVec 32) : (decimalBytes n.toInt).length ≤ 11 := by
  have hlower := BitVec.le_toInt n
  have hupper := BitVec.toInt_lt (x := n)
  rw [decimalBytes, List.length_map]
  cases hn : n.toInt with
  | ofNat k =>
      rw [hn, Int.ofNat_eq_natCast] at hupper
      have hk : (Nat.toDigits 10 k).length ≤ 10 :=
        (Nat.length_toDigits_le_iff (by decide) (by decide)).mpr (by omega)
      exact Nat.le_succ_of_le hk
  | negSucc k =>
      rw [hn] at hlower
      have hk : (Nat.toDigits 10 (k + 1)).length ≤ 10 :=
        (Nat.length_toDigits_le_iff (by decide) (by decide)).mpr (by omega)
      rw [decimal, List.length_cons]
      exact Nat.succ_le_succ hk

theorem eq_of_underscore {b b' d d' : List Byte} (hd : 0x5f ∉ d) (hd' : 0x5f ∉ d')
    (h : b ++ ascii "_" ++ d ++ ascii ".json" = b' ++ ascii "_" ++ d' ++ ascii ".json") :
    d = d' := by
  have hlast {b d : List Byte} (hd : 0x5f ∉ d) :
      (b ++ ascii "_" ++ d).rtakeWhile (· ≠ 0x5f) = d := by
    have hall : ∀ c ∈ d.reverse, decide (c ≠ 0x5f) = true := by
      intro c hc
      apply decide_eq_true
      rintro rfl
      exact hd (List.mem_reverse.mp hc)
    have hstop : ((ascii "_").reverse ++ b.reverse).takeWhile
        (fun c : Byte => decide (c ≠ 0x5f)) = [] := rfl
    rw [List.rtakeWhile, List.reverse_append, List.reverse_append,
      List.takeWhile_append_of_pos hall, hstop, List.append_nil, List.reverse_reverse]
  have hbefore := List.append_cancel_right h
  rw [← hlast hd, ← hlast hd', hbefore]

/-! ## The buffer for the name -/

theorem getD_tempName (text : List Byte) :
    (tempName text).getD (maxTempFilenameSize - 1) 0 = 0 := by
  have hlength : (text.take (maxTempFilenameSize - 1)).length ≤ maxTempFilenameSize - 1 :=
    List.length_take_le _ _
  rw [tempName, List.rightpad, List.getD_append_right _ _ _ _ hlength,
    List.getD_eq_getElem?_getD, List.getElem?_replicate]
  split_ifs <;> rfl

theorem takeWhile_tempName {text : List Byte} (h : 0 ∉ text) :
    (tempName text).takeWhile (· ≠ 0) = text.take (maxTempFilenameSize - 1) := by
  have hall : ∀ c ∈ text.take (maxTempFilenameSize - 1), decide (c ≠ 0) = true := by
    intro c hc
    apply decide_eq_true
    rintro rfl
    exact h (List.mem_of_mem_take hc)
  rw [tempName, List.rightpad, List.takeWhile_append_of_pos hall, List.takeWhile_replicate]
  exact List.append_nil _

theorem zero_notMem_getFileBasename {name : List Byte} (h : 0 ∉ name) (max : ℕ) :
    0 ∉ getFileBasename name max := by
  intro hmem
  simp only [getFileBasename] at hmem
  split_ifs at hmem <;> exact h (List.mem_of_mem_drop (List.mem_of_mem_take hmem))

theorem length_getFileBasename (name : List Byte) (max : ℕ) :
    (getFileBasename name max).length ≤ max - 1 := by
  simp only [getFileBasename]
  split_ifs with hnoDot hfits hfits
  · exact (List.length_take_le _ _).trans (Nat.le_of_lt hfits)
  · exact List.length_take_le _ _
  · exact (List.length_take_le _ _).trans (Nat.le_of_lt hfits)
  · exact List.length_take_le _ _

theorem zero_notMem_nameText (filename : CString) (logName : Option CString)
    (benchmarkIndex : BitVec 32) : 0 ∉ nameText filename logName benchmarkIndex := by
  cases logName with
  | some name => exact name.noNul
  | none =>
      rw [nameText, List.mem_append, List.mem_append, List.mem_append, not_or, not_or, not_or]
      exact ⟨⟨⟨zero_notMem_getFileBasename filename.noNul 256, by decide⟩,
        (notMem_decimalBytes _).2⟩, by decide⟩

section Joined

variable {malloc : ℕ → Bool} {baseResultDirectory filename : CString}
  {logName : Option CString} {benchmarkIndex : BitVec 32}

/-- Any name but an absolute one is cut off and appended to the directory. -/
theorem getLogFileName_eq
    (h : ¬ (logName.isSome ∧ (nameText filename logName benchmarkIndex).head? = some slash)) :
    getLogFileName malloc baseResultDirectory filename logName benchmarkIndex =
      joinPath malloc baseResultDirectory.bytes
        ((nameText filename logName benchmarkIndex).take (maxTempFilenameSize - 1)) := by
  have hzero : ¬ (tempName (nameText filename logName benchmarkIndex)).getD
      (maxTempFilenameSize - 1) 0 ≠ 0 := not_not_intro (getD_tempName _)
  simp only [getLogFileName]
  rw [if_neg h, if_neg hzero,
    takeWhile_tempName (zero_notMem_nameText filename logName benchmarkIndex)]

theorem getLogFileName_none :
    getLogFileName malloc baseResultDirectory filename none benchmarkIndex =
      joinPath malloc baseResultDirectory.bytes (nameText filename none benchmarkIndex) := by
  have hbase := length_getFileBasename filename.bytes 256
  have hindex := length_decimalBytes benchmarkIndex
  have hunderscore : (ascii "_").length = 1 := rfl
  have hjson : (ascii ".json").length = 5 := rfl
  have hmax : maxTempFilenameSize - 1 = 999 := rfl
  have hrelative : ¬ ((none : Option CString).isSome = true ∧
      (nameText filename none benchmarkIndex).head? = some slash) :=
    fun h => Bool.false_ne_true h.1
  rw [getLogFileName_eq hrelative, List.take_of_length_le]
  rw [nameText, List.length_append, List.length_append, List.length_append, hunderscore, hjson,
    hmax]
  omega

theorem joinPath_eq_path {directory name path : List Byte}
    (h : joinPath malloc directory name = .path path) : path = directory ++ slash :: name := by
  simp only [joinPath] at h
  split_ifs at h
  cases h
  rfl

theorem joinPath_ne_null (directory name : List Byte) :
    joinPath (fun _ => true) directory name ≠ .null := by
  simp only [joinPath, if_pos]
  split_ifs <;> exact fun h => by cases h

/-- The right path is returned if its name is, and its size is allocated. -/
theorem returns_joinPath_iff (directory name name' : List Byte) :
    Returns (fun malloc => joinPath malloc directory name) directory name' ↔
      name = name' ∧ allocated (pathSize directory name') = pathSize directory name' := by
  constructor
  · intro h
    have hpath := joinPath_eq_path (h (fun _ => true) rfl)
    have hname : name' = name := (List.cons.inj (List.append_cancel_left hpath)).2
    subst hname
    refine ⟨rfl, ?_⟩
    by_contra hsize
    have hnull := h (fun size => decide (size = pathSize directory name')) (decide_eq_true rfl)
    have hfails : decide (allocated (pathSize directory name') = pathSize directory name') =
        false := decide_eq_false hsize
    simp only [joinPath, hfails, Bool.false_eq_true, if_false] at hnull
    cases hnull
  · rintro ⟨rfl, hsize⟩ malloc hmalloc
    simp only [joinPath, hsize, hmalloc, if_true, lt_irrefl, if_false]

end Joined

/-! ## Which names are as documented -/

theorem getFileBasename_eq_base_iff (filename : CString) :
    getFileBasename filename.bytes 256 = base filename ↔
      filename.bytes = [] ∨ dot ∈ filename.bytes ∨ slash ∈ filename.bytes := by
  constructor
  · intro h
    by_contra hplain
    rw [not_or, not_or] at hplain
    obtain ⟨hne, hdot, hslash⟩ := hplain
    have hself : lastComponent filename.bytes = filename.bytes := by
      rw [lastComponent, List.rtakeWhile_eq_self_iff]
      intro c hc
      apply decide_eq_true
      rintro rfl
      exact hslash hc
    rw [getFileBasename_plain hdot hslash, base, hself, withoutExtension, if_neg hdot] at h
    cases hname : filename.bytes with
    | nil => exact hne hname
    | cons c name =>
        rw [hname] at h
        cases h
  · exact fun h => getFileBasename_eq h 256

/-- The default names for different indices differ, whatever the files are. -/
theorem path_ne_of_index_ne {malloc malloc' : ℕ → Bool}
    {baseResultDirectory filename filename' : CString} {benchmarkIndex benchmarkIndex' : BitVec 32}
    {path : List Byte} (hindex : benchmarkIndex' ≠ benchmarkIndex)
    (h : getLogFileName malloc baseResultDirectory filename none benchmarkIndex = .path path) :
    getLogFileName malloc' baseResultDirectory filename' none benchmarkIndex' ≠ .path path := by
  intro h'
  rw [getLogFileName_none] at h h'
  have hpath := (joinPath_eq_path h').symm.trans (joinPath_eq_path h)
  have hname := (List.cons.inj (List.append_cancel_left hpath)).2
  have hdigits := eq_of_underscore (notMem_decimalBytes _).1 (notMem_decimalBytes _).1 hname
  exact hindex (BitVec.eq_of_toInt_eq (decimalBytes_injective hdigits))

/-- The names of logs are as documented exactly under the condition. -/
theorem logFileNameExact_iff (baseResultDirectory filename : CString)
    (logName : Option CString) (benchmarkIndex : BitVec 32) :
    LogFileNameExact baseResultDirectory filename logName benchmarkIndex ↔
      LogFileNameCondition baseResultDirectory filename benchmarkIndex logName := by
  cases logName with
  | none =>
      have hdefault : Returns (fun malloc =>
            getLogFileName malloc baseResultDirectory filename none benchmarkIndex)
          baseResultDirectory.bytes (defaultName filename benchmarkIndex) ↔
          LogFileNameCondition baseResultDirectory filename benchmarkIndex none := by
        simp only [getLogFileName_none]
        rw [returns_joinPath_iff, LogFileNameCondition, ← getFileBasename_eq_base_iff]
        apply and_congr_left'
        rw [nameText, defaultName, List.append_cancel_right_eq, List.append_cancel_right_eq,
          List.append_cancel_right_eq]
      constructor
      · exact fun h => hdefault.mp (h.default rfl)
      · intro h
        refine ⟨fun _ => hdefault.mpr h, ?_, ?_, ?_⟩
        · intro _ malloc malloc' filename' benchmarkIndex' path hindex hpath
          exact path_ne_of_index_ne hindex hpath
        · intro name hname
          cases hname
        · intro name hname
          cases hname
  | some name =>
      by_cases habsolute : name.bytes.head? = some slash
      · refine iff_of_true ⟨?_, ?_, ?_, ?_⟩ (.inl habsolute)
        · exact fun hnone => by cases hnone
        · exact fun hnone => by cases hnone
        · intro name' hname hrelative
          cases hname
          exact absurd habsolute hrelative
        · intro name' hname hrelative
          cases hname
          exact absurd habsolute hrelative
      · have hjoin (malloc : ℕ → Bool) :
            getLogFileName malloc baseResultDirectory filename (some name) benchmarkIndex =
              joinPath malloc baseResultDirectory.bytes
                (name.bytes.take (maxTempFilenameSize - 1)) :=
          getLogFileName_eq fun h => habsolute h.2
        constructor
        · intro h
          by_cases hlong : maxTempFilenameSize - 1 < name.bytes.length
          · have hnull := h.tooLong name rfl habsolute hlong fun _ => true
            rw [hjoin] at hnull
            exact absurd hnull (joinPath_ne_null _ _)
          · have hshort := not_lt.mp hlong
            have hreturns := h.relative name rfl habsolute hshort
            simp only [hjoin] at hreturns
            exact .inr ⟨hshort, ((returns_joinPath_iff _ _ _).mp hreturns).2⟩
        · rintro (habsolute' | ⟨hshort, hsize⟩)
          · exact absurd habsolute' habsolute
          · refine ⟨?_, ?_, ?_, ?_⟩
            · exact fun hnone => by cases hnone
            · exact fun hnone => by cases hnone
            · intro name' hname _ _
              cases hname
              simp only [hjoin]
              exact (returns_joinPath_iff _ _ _).mpr ⟨List.take_of_length_le hshort, hsize⟩
            · intro name' hname _ hlong
              cases hname
              exact absurd hlong (not_lt.mpr hshort)

set_option maxRecDepth 30000 in
/-- The file `bench` is logged in `d/_0.json`, and a name of 1000 characters is cut off. -/
theorem not_logFileNameExact :
    getLogFileName (fun _ => true) ⟨ascii "d", by decide⟩ ⟨ascii "bench", by decide⟩ none 0 =
        .path (ascii "d/_0.json") ∧
      getLogFileName (fun _ => true) ⟨ascii "d", by decide⟩ ⟨ascii "bench", by decide⟩
          (some ⟨List.replicate 1000 0x61, by decide⟩) 0 =
        .path (ascii "d/" ++ List.replicate 999 0x61) ∧
      ¬ ∀ baseResultDirectory filename logName benchmarkIndex,
        LogFileNameExact baseResultDirectory filename logName benchmarkIndex := by
  refine ⟨by decide, by decide, ?_⟩
  intro h
  have hreturns := (h ⟨ascii "d", by decide⟩ ⟨ascii "bench", by decide⟩ none 0).default rfl
    (fun _ => true) rfl
  revert hreturns
  decide

end A100Partitioning.TaskHost
