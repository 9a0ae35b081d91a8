import A100Partitioning.Support.WriteLog
import A100Partitioning.TaskHost.Strings
import Mathlib.Algebra.Group.Basic
import Mathlib.Algebra.Group.Nat.Defs
import Mathlib.Data.Nat.Basic
import Mathlib.Order.Basic
import Mathlib.Tactic.Common

/-!
# The buffer of `SanitizeJSONString`

The loop stops two bytes behind the buffer instead of two bytes before its end.  This
module follows it byte by byte, and says for which strings it stays within the buffer and
leaves a zero there.
-/

namespace A100Partitioning.TaskHost

open Support
open Json

/-! ## The code -/

/-- The `switch` in `SanitizeJSONString`: what is written behind the backslash. -/
def escapeLetter (c : Byte) : Option Byte :=
  if c = 0x08 then some 0x62
  else if c = 0x0c then some 0x66
  else if c = 0x0d then some 0x72
  else if c = 0x09 then some 0x74
  else if c = 0x5c then some 0x5c
  else if c = 0x22 then some 0x22
  else if c = 0x0a then some 0x6e
  else none

/-- The loop, on what is left of the input.  The index can leave the range of `int` only
after a write behind the buffer. -/
def sanitizeJSONStringLoop (signed : Bool) (outputSize : ℕ) :
    List Byte → ℕ → Logged Byte → Logged Byte
  | [], _, output => output
  | c :: input, outputIndex, output =>
      if (outputSize : ℤ) ≤ (outputIndex : ℤ) - 2 then output
      else if 0x7f ≤ charValue signed c then
        sanitizeJSONStringLoop signed outputSize input (outputIndex + 1)
          (output.put outputIndex 0x3f)
      else match escapeLetter c with
        | some letter =>
            sanitizeJSONStringLoop signed outputSize input (outputIndex + 1 + 1)
              ((output.put outputIndex 0x5c).put (outputIndex + 1) letter)
        | none =>
            sanitizeJSONStringLoop signed outputSize input (outputIndex + 1)
              (output.put outputIndex c)

/-- `SanitizeJSONString` on a memory that starts at `output`. -/
def sanitizeJSONStringInto (signed : Bool) (outputSize : ℕ) (input : CString)
    (output : ℕ → Byte) : Logged Byte :=
  sanitizeJSONStringLoop signed outputSize input.bytes 0
    (Logged.putAll ⟨output, []⟩ 0 (List.replicate outputSize 0))

/-! ## What is meant -/

/-- The bytes of a buffer before its first zero. -/
def stringIn (size : ℕ) (mem : ℕ → Byte) : List Byte :=
  ((List.range size).map mem).takeWhile (· ≠ 0)

/-- Behind every backslash that starts an escape there is its second character. -/
inductive WholeEscapes : List Byte → Prop where
  | nil : WholeEscapes []
  | char {c : Byte} {s : List Byte} (hc : c ≠ 0x5c) (hs : WholeEscapes s) :
      WholeEscapes (c :: s)
  | escape (letter : Byte) {s : List Byte} (hs : WholeEscapes s) :
      WholeEscapes (0x5c :: letter :: s)

/-- Only the buffer is written to, and what is left there is a string that does not end
within an escape. -/
structure StaysWithin (signed : Bool) (outputSize : ℕ) (input : CString)
    (output : ℕ → Byte) : Prop where
  inBuffer : ∀ i ∈ (sanitizeJSONStringInto signed outputSize input output).log, i < outputSize
  terminated : ∃ i < outputSize,
    (sanitizeJSONStringInto signed outputSize input output).mem i = 0
  whole : WholeEscapes
    (stringIn outputSize (sanitizeJSONStringInto signed outputSize input output).mem)

/-! ## A turn -/

variable {signed : Bool} {outputSize : ℕ}

theorem sanitizeByte_eq (signed : Bool) (c : Byte) :
    sanitizeByte signed c =
      if 0x7f ≤ charValue signed c then [0x3f]
      else (escapeLetter c).elim [c] fun letter => [0x5c, letter] := by
  have hall : ∀ signed (c : Byte), sanitizeByte signed c =
      if 0x7f ≤ charValue signed c then [0x3f]
      else (escapeLetter c).elim [c] fun letter => [0x5c, letter] := by
    decide
  exact hall signed c

theorem sanitizeJSONStringLoop_cons (c : Byte) (input : List Byte) (outputIndex : ℕ)
    (output : Logged Byte) :
    sanitizeJSONStringLoop signed outputSize (c :: input) outputIndex output =
      if outputSize + 2 ≤ outputIndex then output
      else sanitizeJSONStringLoop signed outputSize input
        (outputIndex + (sanitizeByte signed c).length)
        (output.putAll outputIndex (sanitizeByte signed c)) := by
  have hguard : (outputSize : ℤ) ≤ (outputIndex : ℤ) - 2 ↔ outputSize + 2 ≤ outputIndex := by
    omega
  rw [sanitizeJSONStringLoop, sanitizeByte_eq]
  simp only [hguard]
  split_ifs with hstop hascii
  · rfl
  · rfl
  · cases escapeLetter c with
    | none => rfl
    | some letter => rfl

theorem sanitizeJSONStringLoop_eq {input : List Byte} {outputIndex : ℕ}
    (hfits : outputIndex + (escaped signed input).length ≤ outputSize) (output : Logged Byte) :
    sanitizeJSONStringLoop signed outputSize input outputIndex output =
      output.putAll outputIndex (escaped signed input) := by
  induction input generalizing outputIndex output with
  | nil => rfl
  | cons c input ih =>
      rw [escaped_cons, List.length_append] at hfits
      rw [sanitizeJSONStringLoop_cons, if_neg (by omega), escaped_cons, Logged.putAll_append]
      apply ih
      omega

theorem log_subset_loop (input : List Byte) (outputIndex : ℕ) (output : Logged Byte) {i : ℕ}
    (h : i ∈ output.log) :
    i ∈ (sanitizeJSONStringLoop signed outputSize input outputIndex output).log := by
  induction input generalizing outputIndex output with
  | nil => exact h
  | cons c input ih =>
      rw [sanitizeJSONStringLoop_cons]
      split_ifs
      · exact h
      · apply ih
        exact (Logged.mem_log_putAll _ _ _ _).mpr (.inl h)

/-- If what is left does not fit, the first byte behind the buffer is written: the guard
lets two more bytes pass. -/
theorem outputSize_mem_log {input : List Byte} {outputIndex : ℕ}
    (hindex : outputIndex ≤ outputSize)
    (hlong : outputSize < outputIndex + (escaped signed input).length) (output : Logged Byte) :
    outputSize ∈ (sanitizeJSONStringLoop signed outputSize input outputIndex output).log := by
  induction input generalizing outputIndex output with
  | nil => exact absurd hlong (not_lt.mpr hindex)
  | cons c input ih =>
      rw [escaped_cons, List.length_append] at hlong
      rw [sanitizeJSONStringLoop_cons, if_neg (by omega)]
      by_cases hturn : outputIndex + (sanitizeByte signed c).length ≤ outputSize
      · apply ih hturn
        omega
      · apply log_subset_loop
        exact (Logged.mem_log_putAll _ _ _ _).mpr (.inr ⟨hindex, not_le.mp hturn⟩)

/-! ## What is left in the buffer -/

theorem wholeEscapes_escaped (s : List Byte) : WholeEscapes (escaped signed s) := by
  induction s with
  | nil => exact .nil
  | cons c s ih =>
      have hall : ∀ signed (c : Byte),
          sanitizeByte signed c = [0x5c, (sanitizeByte signed c).getD 1 0] ∨
            sanitizeByte signed c = [(sanitizeByte signed c).getD 0 0] ∧
              (sanitizeByte signed c).getD 0 0 ≠ 0x5c := by
        decide
      rw [escaped_cons]
      rcases hall signed c with hletter | ⟨hchar, hne⟩
      · rw [hletter]
        exact .escape _ ih
      · rw [hchar]
        exact .char hne ih

theorem zero_notMem_escaped {s : List Byte} (h : 0 ∉ s) : 0 ∉ escaped signed s := by
  have hall : ∀ signed (c : Byte), 0 ∈ sanitizeByte signed c → c = 0 := by
    decide
  intro hzero
  obtain ⟨c, hc, hmem⟩ := List.mem_flatMap.mp hzero
  rw [hall signed c hmem] at hc
  exact h hc

theorem stringIn_eq {size : ℕ} {mem : ℕ → Byte} {s : List Byte} (hlength : s.length < size)
    (hs : ∀ (k : ℕ) (hk : k < s.length), mem k = s[k]) (hzero : mem s.length = 0)
    (hnul : 0 ∉ s) : stringIn size mem = s := by
  have hsplit : size = s.length + (1 + (size - s.length - 1)) := by omega
  have hfirst : (List.range s.length).map mem = s := by
    apply List.ext_getElem
    · rw [List.length_map, List.length_range]
    · intro k hk hk'
      rw [List.getElem_map, List.getElem_range]
      exact hs k hk'
  have hall : ∀ c ∈ s, decide (c ≠ 0) = true := by
    intro c hc
    apply decide_eq_true
    rintro rfl
    exact hnul hc
  rw [stringIn, hsplit, List.range_add, List.map_append, hfirst, List.takeWhile_append_of_pos hall,
    List.range_add, List.map_append, List.map_append]
  simp [hzero]

section Contents

variable {input : CString} (output : ℕ → Byte)

theorem sanitizeJSONStringInto_eq
    (hfits : (escaped signed input.bytes).length ≤ outputSize) :
    sanitizeJSONStringInto signed outputSize input output =
      (Logged.putAll ⟨output, []⟩ 0 (List.replicate outputSize 0)).putAll 0
        (escaped signed input.bytes) := by
  apply sanitizeJSONStringLoop_eq
  rw [Nat.zero_add]
  exact hfits

theorem mem_sanitizeJSONStringInto
    (hfits : (escaped signed input.bytes).length ≤ outputSize) {k : ℕ}
    (hk : k < (escaped signed input.bytes).length) :
    (sanitizeJSONStringInto signed outputSize input output).mem k =
      (escaped signed input.bytes)[k] := by
  have hmem := Logged.putAll_mem
    (Logged.putAll ⟨output, []⟩ 0 (List.replicate outputSize (0 : Byte))) 0 _ k hk
  rw [Nat.zero_add] at hmem
  rw [sanitizeJSONStringInto_eq output hfits]
  exact hmem

theorem zero_sanitizeJSONStringInto
    (hfits : (escaped signed input.bytes).length ≤ outputSize) {k : ℕ}
    (hk : (escaped signed input.bytes).length ≤ k) (hsize : k < outputSize) :
    (sanitizeJSONStringInto signed outputSize input output).mem k = 0 := by
  have hlength : k < (List.replicate outputSize (0 : Byte)).length := by
    rw [List.length_replicate]
    exact hsize
  have hmem := Logged.putAll_mem ⟨output, []⟩ 0 (List.replicate outputSize (0 : Byte)) k hlength
  rw [Nat.zero_add, List.getElem_replicate] at hmem
  rw [sanitizeJSONStringInto_eq output hfits, Logged.putAll_of_outside _ (.inr (by omega))]
  exact hmem

/-- Only the buffer is written to if and only if the string fits, be it without a zero. -/
theorem inBuffer_iff :
    (∀ i ∈ (sanitizeJSONStringInto signed outputSize input output).log, i < outputSize) ↔
      (escaped signed input.bytes).length ≤ outputSize := by
  constructor
  · intro h
    by_contra hlong
    rw [not_le] at hlong
    have hmem := outputSize_mem_log (Nat.zero_le outputSize) (by rwa [Nat.zero_add])
      (Logged.putAll ⟨output, []⟩ 0 (List.replicate outputSize 0))
    exact lt_irrefl _ (h outputSize hmem)
  · intro hfits i hi
    rw [sanitizeJSONStringInto_eq output hfits, Logged.mem_log_putAll, Logged.mem_log_putAll,
      List.length_replicate] at hi
    rcases hi with (hnil | hset) | hstring
    · exact (List.not_mem_nil hnil).elim
    · omega
    · omega

/-- The list of bytes that the log is made of is what is left in the buffer. -/
theorem stringIn_sanitizeJSONStringInto
    (hfits : (escaped signed input.bytes).length < outputSize) :
    stringIn outputSize (sanitizeJSONStringInto signed outputSize input output).mem =
      escaped signed input.bytes :=
  stringIn_eq hfits (fun _ hk => mem_sanitizeJSONStringInto output hfits.le hk)
    (zero_sanitizeJSONStringInto output hfits.le le_rfl hfits)
    (zero_notMem_escaped input.noNul)

end Contents

/-- What `%s` prints is the string in the buffer, which is only defined when the function
stays within the buffer and leaves a zero there. -/
theorem printSanitized_eq_stringIn (input : CString) (output : ℕ → Byte) (printed : List Byte)
    (h : printSanitized signed input = some printed) :
    printed = stringIn sanitizeJSONBufferSize
      (sanitizeJSONStringInto signed sanitizeJSONBufferSize input output).mem := by
  rw [printSanitized_eq] at h
  split_ifs at h with hfits
  cases h
  exact (stringIn_sanitizeJSONStringInto output hfits).symm

/-- The buffer suffices exactly for strings that are shorter than it with their escapes. -/
theorem staysWithin_iff (signed : Bool) (outputSize : ℕ) (input : CString)
    (output : ℕ → Byte) :
    StaysWithin signed outputSize input output ↔
      (escaped signed input.bytes).length < outputSize := by
  constructor
  · intro h
    have hfits := (inBuffer_iff output).mp h.inBuffer
    obtain ⟨i, hi, hzero⟩ := h.terminated
    apply lt_of_le_of_ne hfits
    intro hfull
    have hindex : i < (escaped signed input.bytes).length := hfull ▸ hi
    rw [mem_sanitizeJSONStringInto output hfits hindex] at hzero
    exact zero_notMem_escaped input.noNul (hzero ▸ List.getElem_mem hindex)
  · intro hfits
    refine ⟨(inBuffer_iff output).mpr hfits.le, ?_, ?_⟩
    · exact ⟨_, hfits, zero_sanitizeJSONStringInto output hfits.le le_rfl hfits⟩
    · rw [stringIn_sanitizeJSONStringInto output hfits]
      exact wholeEscapes_escaped input.bytes

/-- Three characters fill a buffer of three bytes without a zero, and of a fourth one the
byte is written behind the buffer. -/
theorem not_staysWithin :
    (sanitizeJSONStringInto true 3 ⟨ascii "abcd", by decide⟩ fun _ => 0xff).mem 3 = 0x64 ∧
      ¬ ∀ signed outputSize input output, 3 ≤ outputSize →
        StaysWithin signed outputSize input output := by
  refine ⟨by decide, fun h => ?_⟩
  have hfits := (h true 3 ⟨ascii "abc", by decide⟩ (fun _ => 0) (le_refl 3)).terminated
  revert hfits
  decide

end A100Partitioning.TaskHost
