import A100Partitioning.Nvtaskset.ParseList
import A100Partitioning.Support.Tokens
import Mathlib.Data.Int.ConditionallyCompleteOrder
import Mathlib.Data.List.Sort
import Mathlib.Data.Nat.Cast.Order.Basic
import Mathlib.Order.ConditionallyCompleteLattice.Basic
import Mathlib.Tactic.Common

/-!
# The lists of the demos

The partitioning demos take lists such as `0,1,4-7` of TPCs, and lists such as `5-10,11-25` of
ranges of SMs.  All of them split the text at the commas and each item at its first dash, and
leave the numbers to `strtol`.
-/

namespace A100Partitioning.Demos

open Function
open Nvtaskset (isSpace isSpace_of_isDigit IsNumeral numeral)
open Support (Separated parseTokens parseTokens_nil parseTokens_eq_ok_iff takeWhile_ne_append
  dropWhile_ne_append exists_of_bind_ok)

/-! ## The code -/

/-- What `strtol` returns, where it has stopped, and whether it has set `errno`. -/
structure Strtol where
  value : ℤ
  rest : List Char
  outOfRange : Bool
  deriving DecidableEq, Repr

/-- The digits behind the sign.  Where there are none, `strtol` stops at the start of the
string; a number that is no `long` is the nearest one. -/
def Strtol.ofDigits (start : List Char) (negative : Bool) (cs : List Char) : Strtol :=
  let digits := cs.takeWhile Char.isDigit
  let value : ℤ := if negative then -numeral digits else numeral digits
  if digits = [] then ⟨0, start, false⟩
  else if value < -2 ^ 63 then ⟨-2 ^ 63, cs.dropWhile Char.isDigit, true⟩
  else if 2 ^ 63 - 1 < value then ⟨2 ^ 63 - 1, cs.dropWhile Char.isDigit, true⟩
  else ⟨value, cs.dropWhile Char.isDigit, false⟩

/-- `strtol` for base 10, on a C string without its null byte. -/
def strtol (s : List Char) : Strtol :=
  match s.dropWhile isSpace with
  | '-' :: cs => .ofDigits s true cs
  | '+' :: cs => .ofDigits s false cs
  | cs => .ofDigits s false cs

/-- `parse_int`, with what it stores. -/
def parseInt (s : List Char) : Option ℤ :=
  let v := strtol s
  if v.outOfRange ∨ v.rest ≠ [] then none
  else if v.value < -2 ^ 31 ∨ 2 ^ 31 - 1 < v.value then none
  else some v.value

/-- A device.  The demos have checked how many SMs there are for each TPC before they look at a
list; so the counts are in the range of an `int`. -/
structure Topology where
  numSms : ℕ
  numTpcs : ℕ
  numSms_lt : numSms < 2 ^ 31
  smsPerTpc_pos : 0 < numSms / numTpcs

/-- `sms_per_tpc`. -/
def Topology.smsPerTpc (device : Topology) : ℕ := device.numSms / device.numTpcs

/-- The messages of a parser. -/
structure Messages where
  emptyToken : String
  invalidIndex : String
  indexOutOfRange : String
  invalidRange : String
  rangeOutOfBounds : String
  nothingSelected : String

/-- A token with a dash. -/
def parseRange (msgs : Messages) (bound : ℕ) (tok : List Char) : Except String (ℤ × ℤ) :=
  match parseInt (tok.takeWhile (· ≠ '-')), parseInt (tok.dropWhile (· ≠ '-')).tail with
  | some a, some b =>
      let (lo, hi) := if b < a then (b, a) else (a, b)
      if lo < 0 ∨ (bound : ℤ) ≤ hi then .error msgs.rangeOutOfBounds else .ok (lo, hi)
  | _, _ => .error msgs.invalidRange

/-- A token of a list of TPCs. -/
def parseTpcToken (msgs : Messages) (numTpcs : ℕ) (tok : List Char) : Except String (ℤ × ℤ) :=
  if '-' ∉ tok then
    match parseInt tok with
    | some idx =>
        if idx < 0 ∨ (numTpcs : ℤ) ≤ idx then .error msgs.indexOutOfRange else .ok (idx, idx)
    | none => .error msgs.invalidIndex
  else parseRange msgs numTpcs tok

/-- The loop that selects the TPCs of a range. -/
def select (selected : ℕ → Bool) (r : ℤ × ℤ) : ℕ → Bool :=
  (List.range' r.1.toNat (r.2 + 1 - r.1).toNat).foldl (fun selected t => update selected t true)
    selected

/-- `out`, when all ranges have been selected. -/
def selectedTpcs (numTpcs : ℕ) (ranges : List (ℤ × ℤ)) : List ℕ :=
  (List.range numTpcs).filter (ranges.foldl select fun _ => false)

/-- What the parsers of lists of TPCs have in common. -/
def parseTpcs (msgs : Messages) (spec : List Char) (numTpcs : ℕ) : Except String (List ℕ) := do
  let ranges ← parseTokens ',' msgs.emptyToken (parseTpcToken msgs numTpcs) spec
  if selectedTpcs numTpcs ranges = [] then .error msgs.nothingSelected
  else .ok (selectedTpcs numTpcs ranges)

/-- `parse_tpc_set`. -/
def parseTpcSet : List Char → ℕ → Except String (List ℕ) :=
  parseTpcs ⟨"empty token in TPC list", "invalid TPC index in list", "TPC index out of range",
    "invalid TPC range in list", "TPC range out of bounds", "TPC set must not be empty"⟩

/-- `parse_tpc_set_or_all`. -/
def parseTpcSetOrAll (spec : List Char) (numTpcs : ℕ) : Except String (List ℕ) :=
  if numTpcs = 0 then .error "GPU reports zero TPCs"
  else if spec = [] then .ok (List.range numTpcs)
  else
    parseTpcs ⟨"empty token in --tpcs", "invalid tpc token", "tpc token out of range",
      "invalid tpc range", "tpc range out of range", "no TPCs selected"⟩ spec numTpcs

/-- A range of SMs with its mask, which is none where the code shifts too far. -/
structure SmRange where
  lo : ℤ
  hi : ℤ
  disableMask : Option (BitVec 128)
  deriving DecidableEq, Repr

/-- The mask with the TPC of an SM. -/
def enableTpcOf (device : Topology) (enableMask : BitVec 128) (sm : ℕ) : Option (BitVec 128) :=
  let tpc := sm / device.smsPerTpc
  if tpc < device.numTpcs then
    if tpc < 128 then some (enableMask ||| (1 : BitVec 128) <<< tpc) else none
  else some enableMask

/-- `build_disable_mask_for_sm_range`. -/
def buildDisableMask (device : Topology) (lo hi : ℤ) : Option (BitVec 128) := do
  let enableMask ← (List.range' lo.toNat (hi + 1 - lo).toNat).foldlM (enableTpcOf device) 0
  return ~~~enableMask

/-- The messages of `parse_sm_ranges`. -/
def smMessages : Messages where
  emptyToken := "empty token in --sm-ranges"
  invalidIndex := "each --sm-ranges token must be lo-hi"
  indexOutOfRange := "each --sm-ranges token must be lo-hi"
  invalidRange := "invalid --sm-ranges token"
  rangeOutOfBounds := "SM range out of bounds"
  nothingSelected := "no SM ranges selected"

/-- A token of a list of SM ranges. -/
def parseSmToken (device : Topology) (tok : List Char) : Except String (ℤ × ℤ) :=
  if '-' ∉ tok then .error smMessages.invalidIndex
  else parseRange smMessages device.numSms tok

/-- `parse_sm_ranges`. -/
def parseSmRanges (spec : List Char) (device : Topology) : Except String (List SmRange) := do
  if device.numSms = 0 ∨ device.smsPerTpc = 0 ∨ device.numTpcs = 0 then
    .error "invalid topology for SM-range parsing"
  else if spec = [] then .error "--sm-ranges must be provided"
  else
    let ranges ← parseTokens ',' smMessages.emptyToken (parseSmToken device) spec
    let out := ranges.map fun (lo, hi) => ⟨lo, hi, buildDisableMask device lo hi⟩
    if out = [] then .error smMessages.nothingSelected else .ok out

/-! ## What is meant -/

/-- A decimal number. -/
def IsDecimal (text : List Char) (value : ℤ) : Prop := IsNumeral text ∧ value = numeral text

/-- An `int` as `strtol` takes it: nothing at all, or digits behind white space and a sign. -/
def IsLoose (text : List Char) (value : ℤ) : Prop :=
  text = [] ∧ value = 0 ∨
    ∃ spaces sign digits, text = spaces ++ sign ++ digits ∧ (∀ c ∈ spaces, isSpace c) ∧
      IsNumeral digits ∧ -2 ^ 31 ≤ value ∧ value ≤ 2 ^ 31 - 1 ∧
      ((sign = [] ∨ sign = ['+']) ∧ value = numeral digits ∨
        sign = ['-'] ∧ value = -numeral digits)

/-- A range of such numbers, either end first. -/
def IsRange (number : List Char → ℤ → Prop) (bound : ℕ) (tok : List Char) (r : ℤ × ℤ) : Prop :=
  ∃ first last a b, tok = first ++ '-' :: last ∧ '-' ∉ first ∧ ',' ∉ tok ∧ number first a ∧
    number last b ∧ r = (min a b, max a b) ∧ 0 ≤ r.1 ∧ r.2 < bound

/-- A single number, or a range. -/
def IsItem (number : List Char → ℤ → Prop) (bound : ℕ) (tok : List Char) (r : ℤ × ℤ) : Prop :=
  (tok ≠ [] ∧ '-' ∉ tok ∧ ',' ∉ tok ∧ number tok r.1 ∧ r.2 = r.1 ∧ 0 ≤ r.1 ∧ r.2 < bound) ∨
    IsRange number bound tok r

/-- A list of TPCs, and the set it denotes, sorted and without duplicates. -/
def DenotesSet (atEnd : Prop) (number : List Char → ℤ → Prop) (numTpcs : ℕ) (spec : List Char)
    (set : List ℕ) : Prop :=
  ∃ ranges, Separated ',' atEnd (IsItem number numTpcs) spec ranges ∧ set.Pairwise (· < ·) ∧
    ∀ t : ℕ, t ∈ set ↔ ∃ r ∈ ranges, r.1 ≤ t ∧ t ≤ r.2

/-- A list of ranges of SMs, and the ranges in order. -/
def DenotesRanges (atEnd : Prop) (number : List Char → ℤ → Prop) (numSms : ℕ)
    (spec : List Char) (ranges : List (ℤ × ℤ)) : Prop :=
  Separated ',' atEnd (IsRange number numSms) spec ranges

/-- The parsers accept the lists that are meant and nothing else, and return what they
denote. -/
structure ParsersAreStrict (spec : List Char) (device : Topology) : Prop where
  tpcSet : ∀ set, parseTpcSet spec device.numTpcs = .ok set ↔
    DenotesSet False IsDecimal device.numTpcs spec set
  tpcSetOrAll : spec ≠ [] → ∀ set, parseTpcSetOrAll spec device.numTpcs = .ok set ↔
    DenotesSet False IsDecimal device.numTpcs spec set
  smRanges : ∀ ranges, (parseSmRanges spec device).map (List.map fun r => (r.lo, r.hi)) =
    .ok ranges ↔ DenotesRanges False IsDecimal device.numSms spec ranges

/-! ## Numbers -/

section Numbers

variable {s cs text : List Char} {v : ℤ}

/-- Where `strtol` stops at the end of the string, with an `int`. -/
theorem Strtol.ofDigits_iff (negative : Bool) :
    ((Strtol.ofDigits s negative cs).outOfRange = false ∧
        (Strtol.ofDigits s negative cs).rest = [] ∧ (Strtol.ofDigits s negative cs).value = v ∧
        -2 ^ 31 ≤ v ∧ v ≤ 2 ^ 31 - 1) ↔
      (cs.takeWhile Char.isDigit = [] ∧ s = [] ∧ v = 0) ∨
        (IsNumeral cs ∧ v = (if negative then -(numeral cs : ℤ) else numeral cs) ∧
          -2 ^ 31 ≤ v ∧ v ≤ 2 ^ 31 - 1) := by
  have hnumeral : IsNumeral cs ↔
      cs.takeWhile Char.isDigit ≠ [] ∧ cs.dropWhile Char.isDigit = [] := by
    rw [IsNumeral, List.dropWhile_eq_nil_iff]
    refine and_congr_left fun hdigits => ?_
    rw [List.takeWhile_eq_self_iff.mpr hdigits]
  have hwhole (h : cs.dropWhile Char.isDigit = []) : cs.takeWhile Char.isDigit = cs :=
    List.takeWhile_eq_self_iff.mpr (List.dropWhile_eq_nil_iff.mp h)
  rw [hnumeral, Strtol.ofDigits]
  by_cases hnone : cs.takeWhile Char.isDigit = []
  · simp only [hnone, if_true, ne_eq, not_true_eq_false, false_and, or_false, true_and]
    constructor
    · rintro ⟨hs, hv, -⟩
      exact ⟨hs, hv.symm⟩
    · rintro ⟨hs, rfl⟩
      exact ⟨hs, rfl, by decide, by decide⟩
  · simp only [hnone, if_false, false_and, false_or, ne_eq, not_false_eq_true, true_and]
    by_cases hrest : cs.dropWhile Char.isDigit = []
    · rw [hwhole hrest]
      generalize (if negative = true then -(numeral cs : ℤ) else numeral cs) = value
      split_ifs
      · refine iff_of_false (fun h => h.1.elim) fun ⟨_, hv, hlo, _⟩ => ?_
        omega
      · refine iff_of_false (fun h => h.1.elim) fun ⟨_, hv, _, hhi⟩ => ?_
        omega
      · exact ⟨fun ⟨_, hend, hv, hbounds⟩ => ⟨hend, hv.symm, hbounds⟩,
          fun ⟨hend, hv, hbounds⟩ => ⟨rfl, hend, hv.symm, hbounds⟩⟩
    · refine iff_of_false (fun ⟨_, hend, _⟩ => hrest ?_) fun ⟨hend, _⟩ => hrest hend
      split_ifs at hend <;> exact hend

theorem parseInt_eq_some_iff' :
    parseInt s = some v ↔ (strtol s).outOfRange = false ∧ (strtol s).rest = [] ∧
      (strtol s).value = v ∧ -2 ^ 31 ≤ v ∧ v ≤ 2 ^ 31 - 1 := by
  rw [parseInt]
  split_ifs with hstop hrange
  · refine iff_of_false (fun h => (nomatch h)) fun ⟨hin, hrest, _⟩ => ?_
    rcases hstop with hout | hne
    · exact Bool.false_ne_true (hin.symm.trans hout)
    · exact hne hrest
  · refine iff_of_false (fun h => (nomatch h)) fun ⟨_, _, hv, hlo, hhi⟩ => ?_
    omega
  · rw [not_or, Bool.not_eq_true, not_not] at hstop
    rw [Option.some_inj]
    constructor
    · rintro rfl
      exact ⟨hstop.1, hstop.2, rfl, by omega, by omega⟩
    · rintro ⟨-, -, hv, -⟩
      exact hv

theorem strtol_cases (s : List Char) :
    ∃ spaces sign cs, s = spaces ++ sign ++ cs ∧ (∀ c ∈ spaces, isSpace c) ∧
      ((sign = [] ∨ sign = ['+']) ∧ strtol s = .ofDigits s false cs ∨
        sign = ['-'] ∧ strtol s = .ofDigits s true cs) := by
  have hsplit := List.takeWhile_append_dropWhile (p := isSpace) (l := s)
  have hspaces : ∀ c ∈ s.takeWhile isSpace, isSpace c := fun c hc => List.mem_takeWhile_imp hc
  rw [strtol]
  split
  · next cs heq =>
      rw [heq] at hsplit
      refine ⟨_, ['-'], cs, ?_, hspaces, .inr ⟨rfl, rfl⟩⟩
      rw [List.append_assoc]
      exact hsplit.symm
  · next cs heq =>
      rw [heq] at hsplit
      refine ⟨_, ['+'], cs, ?_, hspaces, .inl ⟨.inr rfl, rfl⟩⟩
      rw [List.append_assoc]
      exact hsplit.symm
  · refine ⟨_, [], _, ?_, hspaces, .inl ⟨.inl rfl, rfl⟩⟩
    rw [List.append_nil]
    exact hsplit.symm

/-- Digits behind white space and a sign are read as they are meant. -/
theorem strtol_of_isNumeral {spaces digits : List Char} (sign : List Char)
    (hspaces : ∀ c ∈ spaces, isSpace c) (hdigits : IsNumeral digits) :
    ((sign = [] ∨ sign = ['+']) → strtol (spaces ++ sign ++ digits) =
        .ofDigits (spaces ++ sign ++ digits) false digits) ∧
      (sign = ['-'] → strtol (spaces ++ sign ++ digits) =
        .ofDigits (spaces ++ sign ++ digits) true digits) := by
  have hdrop (rest : List Char) : (spaces ++ rest).dropWhile isSpace = rest.dropWhile isSpace :=
    List.dropWhile_append_of_pos hspaces
  obtain ⟨c, cs, rfl⟩ := List.exists_cons_of_ne_nil hdigits.1
  have hc : c.isDigit := hdigits.2 c List.mem_cons_self
  have hspace : ¬ isSpace c = true := by
    rw [isSpace_of_isDigit hc]
    exact Bool.false_ne_true
  constructor
  · rintro (rfl | rfl)
    · rw [List.append_nil, strtol, hdrop, List.dropWhile_cons_of_neg hspace]
      split
      · next heq =>
          obtain ⟨rfl, -⟩ := List.cons.inj heq
          exact absurd hc (by decide)
      · next heq =>
          obtain ⟨rfl, -⟩ := List.cons.inj heq
          exact absurd hc (by decide)
      · rfl
    · rw [List.append_assoc, strtol, hdrop, List.singleton_append,
        List.dropWhile_cons_of_neg (by decide)]
      rfl
  · rintro rfl
    rw [List.append_assoc, strtol, hdrop, List.singleton_append,
      List.dropWhile_cons_of_neg (by decide)]
    rfl

/-- `parse_int` takes what is an `int` for `strtol`, up to the end of the string. -/
theorem parseInt_eq_some_iff : parseInt s = some v ↔ IsLoose s v := by
  rw [parseInt_eq_some_iff']
  constructor
  · intro h
    obtain ⟨spaces, sign, cs, hs, hspaces, ⟨hsign, heq⟩ | ⟨hsign, heq⟩⟩ := strtol_cases s <;>
      rw [heq, Strtol.ofDigits_iff] at h <;>
      obtain ⟨-, hnil, hv⟩ | ⟨hdigits, hv, hlo, hhi⟩ := h
    · exact .inl ⟨hnil, hv⟩
    · exact .inr ⟨spaces, sign, cs, hs, hspaces, hdigits, hlo, hhi, .inl ⟨hsign, hv⟩⟩
    · exact .inl ⟨hnil, hv⟩
    · exact .inr ⟨spaces, sign, cs, hs, hspaces, hdigits, hlo, hhi, .inr ⟨hsign, hv⟩⟩
  · rintro (⟨rfl, rfl⟩ | ⟨spaces, sign, digits, rfl, hspaces, hdigits, hlo, hhi, hv⟩)
    · exact ⟨rfl, rfl, rfl, by decide, by decide⟩
    · have hread := strtol_of_isNumeral sign hspaces hdigits
      rcases hv with ⟨hsign, hv⟩ | ⟨hsign, hv⟩
      · rw [hread.1 hsign, Strtol.ofDigits_iff]
        exact .inr ⟨hdigits, hv, hlo, hhi⟩
      · rw [hread.2 hsign, Strtol.ofDigits_iff]
        exact .inr ⟨hdigits, hv, hlo, hhi⟩

theorem IsDecimal.isLoose (h : IsDecimal s v) (hlt : v < 2 ^ 31) : IsLoose s v := by
  obtain ⟨hnumeral, rfl⟩ := h
  exact .inr ⟨[], [], s, rfl, fun c hc => absurd hc List.not_mem_nil, hnumeral, by omega,
    by omega, .inl ⟨.inl rfl, rfl⟩⟩

end Numbers

/-! ## Items -/

section Items

variable {msgs : Messages} {bound : ℕ} {tok : List Char} {r : ℤ × ℤ}

theorem parseRange_eq_ok_iff (hdash : '-' ∈ tok) (hcomma : ',' ∉ tok) :
    parseRange msgs bound tok = .ok r ↔ IsRange IsLoose bound tok r := by
  obtain ⟨first, last, rfl, hfirst⟩ := List.eq_append_cons_of_mem hdash
  rw [parseRange, takeWhile_ne_append hfirst, dropWhile_ne_append hfirst, List.tail_cons]
  constructor
  · intro h
    split at h
    · next a b ha hb =>
        refine ⟨first, last, a, b, rfl, hfirst, hcomma, parseInt_eq_some_iff.mp ha,
          parseInt_eq_some_iff.mp hb, ?_⟩
        by_cases hswap : b < a
        · rw [if_pos hswap] at h
          dsimp only at h
          split_ifs at h with hbounds
          cases h
          rw [min_eq_right hswap.le, max_eq_left hswap.le]
          exact ⟨rfl, by omega, by omega⟩
        · rw [if_neg hswap] at h
          dsimp only at h
          split_ifs at h with hbounds
          cases h
          rw [min_eq_left (not_lt.mp hswap), max_eq_right (not_lt.mp hswap)]
          exact ⟨rfl, by omega, by omega⟩
    · cases h
  · rintro ⟨first', last', a, b, heq, hfirst', -, ha, hb, rfl, hlo, hhi⟩
    have hhead := congrArg (List.takeWhile (· ≠ '-')) heq
    have htail := congrArg (List.dropWhile (· ≠ '-')) heq
    rw [takeWhile_ne_append hfirst, takeWhile_ne_append hfirst'] at hhead
    rw [dropWhile_ne_append hfirst, dropWhile_ne_append hfirst'] at htail
    obtain ⟨-, rfl⟩ := List.cons.inj htail
    subst hhead
    rw [parseInt_eq_some_iff.mpr ha, parseInt_eq_some_iff.mpr hb]
    dsimp only at hlo hhi ⊢
    by_cases hswap : b < a
    · rw [min_eq_right hswap.le] at hlo ⊢
      rw [max_eq_left hswap.le] at hhi ⊢
      rw [if_pos hswap]
      exact if_neg (by omega)
    · rw [min_eq_left (not_lt.mp hswap)] at hlo ⊢
      rw [max_eq_right (not_lt.mp hswap)] at hhi ⊢
      rw [if_neg hswap]
      exact if_neg (by omega)

theorem IsRange.mem_dash {number : List Char → ℤ → Prop} (h : IsRange number bound tok r) :
    '-' ∈ tok := by
  obtain ⟨first, last, -, -, rfl, -⟩ := h
  exact List.mem_append_right _ List.mem_cons_self

theorem parseTpcToken_eq_ok_iff :
    (tok ≠ [] ∧ ',' ∉ tok) ∧ parseTpcToken msgs bound tok = .ok r ↔
      IsItem IsLoose bound tok r := by
  rw [IsItem, parseTpcToken]
  by_cases hdash : '-' ∈ tok
  · rw [if_neg (not_not.mpr hdash), or_iff_right fun h => h.2.1 hdash]
    constructor
    · rintro ⟨⟨-, hcomma⟩, h⟩
      exact (parseRange_eq_ok_iff hdash hcomma).mp h
    · intro h
      have hcomma : ',' ∉ tok := by
        obtain ⟨-, -, -, -, -, -, hcomma, -⟩ := h
        exact hcomma
      exact ⟨⟨List.ne_nil_of_mem hdash, hcomma⟩, (parseRange_eq_ok_iff hdash hcomma).mpr h⟩
  · rw [if_pos hdash, or_iff_left fun h => hdash h.mem_dash]
    constructor
    · rintro ⟨⟨hne, hcomma⟩, h⟩
      split at h
      · next idx hidx =>
          split_ifs at h with hbounds
          cases h
          exact ⟨hne, hdash, hcomma, parseInt_eq_some_iff.mp hidx, rfl, by omega, by omega⟩
      · cases h
    · rintro ⟨hne, -, hcomma, hnumber, heq, hlo, hhi⟩
      refine ⟨⟨hne, hcomma⟩, ?_⟩
      rw [parseInt_eq_some_iff.mpr hnumber]
      obtain ⟨lo, hi⟩ := r
      cases heq
      exact if_neg (by omega)

theorem parseSmToken_eq_ok_iff {device : Topology} :
    (tok ≠ [] ∧ ',' ∉ tok) ∧ parseSmToken device tok = .ok r ↔
      IsRange IsLoose device.numSms tok r := by
  rw [parseSmToken]
  by_cases hdash : '-' ∈ tok
  · rw [if_neg (not_not.mpr hdash)]
    constructor
    · rintro ⟨⟨-, hcomma⟩, h⟩
      exact (parseRange_eq_ok_iff hdash hcomma).mp h
    · intro h
      have hcomma : ',' ∉ tok := by
        obtain ⟨-, -, -, -, -, -, hcomma, -⟩ := h
        exact hcomma
      exact ⟨⟨List.ne_nil_of_mem hdash, hcomma⟩, (parseRange_eq_ok_iff hdash hcomma).mpr h⟩
  · rw [if_pos hdash]
    exact iff_of_false (fun h => (nomatch h.2)) fun h => hdash h.mem_dash

theorem IsRange.isLoose (hbound : bound < 2 ^ 31) (h : IsRange IsDecimal bound tok r) :
    IsRange IsLoose bound tok r := by
  obtain ⟨first, last, a, b, htok, hdash, hcomma, ha, hb, rfl, hlo, hhi⟩ := h
  exact ⟨first, last, a, b, htok, hdash, hcomma, ha.isLoose (by omega), hb.isLoose (by omega),
    rfl, hlo, hhi⟩

theorem IsItem.isLoose (hbound : bound < 2 ^ 31) (h : IsItem IsDecimal bound tok r) :
    IsItem IsLoose bound tok r := by
  rcases h with ⟨hne, hdash, hcomma, hnumber, heq, hlo, hhi⟩ | h
  · exact .inl ⟨hne, hdash, hcomma, hnumber.isLoose (by omega), heq, hlo, hhi⟩
  · exact .inr (h.isLoose hbound)

theorem IsItem.bounds {number : List Char → ℤ → Prop} (h : IsItem number bound tok r) :
    0 ≤ r.1 ∧ r.1 ≤ r.2 ∧ r.2 < bound := by
  rcases h with ⟨-, -, -, -, heq, hlo, hhi⟩ | ⟨-, -, a, b, -, -, -, -, -, rfl, hlo, hhi⟩
  · exact ⟨hlo, heq.ge, hhi⟩
  · exact ⟨hlo, min_le_max, hhi⟩

end Items

/-! ## Sets of TPCs -/

section Sets

variable {msgs : Messages} {numTpcs : ℕ} {spec : List Char} {set : List ℕ}

theorem foldl_update_range' (selected : ℕ → Bool) (first count t : ℕ) :
    (List.range' first count).foldl (fun selected t => update selected t true) selected t = true ↔
      selected t = true ∨ first ≤ t ∧ t < first + count := by
  induction count generalizing first selected with
  | zero => exact (or_iff_left (by omega)).symm
  | succ count ih =>
      rw [List.range'_succ, List.foldl_cons, ih]
      by_cases ht : t = first
      · subst ht
        rw [update_self]
        exact iff_of_true (.inl rfl) (.inr (by omega))
      · rw [update_of_ne ht]
        refine or_congr_right ?_
        omega

theorem foldl_select {ranges : List (ℤ × ℤ)} (hlo : ∀ r ∈ ranges, 0 ≤ r.1)
    (selected : ℕ → Bool) (t : ℕ) :
    ranges.foldl select selected t = true ↔
      selected t = true ∨ ∃ r ∈ ranges, r.1 ≤ t ∧ t ≤ r.2 := by
  induction ranges generalizing selected with
  | nil => exact (or_iff_left fun ⟨r, hr, _⟩ => List.not_mem_nil hr).symm
  | cons r ranges ih =>
      have hr := hlo r List.mem_cons_self
      have hin : r.1.toNat ≤ t ∧ t < r.1.toNat + (r.2 + 1 - r.1).toNat ↔ r.1 ≤ t ∧ t ≤ r.2 := by
        omega
      rw [List.foldl_cons, ih fun r hr => hlo r (List.mem_cons_of_mem _ hr), select,
        foldl_update_range', hin, List.exists_mem_cons_iff, or_assoc]

theorem separated_ne_nil {ρ : Type} {atEnd : Prop} {item : List Char → ρ → Prop} {rs : List ρ}
    (hitem : ∀ r, ¬ item [] r) : ¬ Separated ',' atEnd item [] rs := by
  intro h
  generalize htext : ([] : List Char) = text at h
  cases h with
  | last first => exact hitem _ (htext ▸ first)
  | atEnd _ _ | cons _ _ =>
      exact List.append_ne_nil_of_right_ne_nil _ (List.cons_ne_nil _ _) htext.symm

theorem not_isRange_nil {number : List Char → ℤ → Prop} {bound : ℕ} (r : ℤ × ℤ) :
    ¬ IsRange number bound [] r := fun h => List.not_mem_nil h.mem_dash

theorem not_isItem_nil {number : List Char → ℤ → Prop} {bound : ℕ} (r : ℤ × ℤ) :
    ¬ IsItem number bound [] r := by
  rintro (h | h)
  · exact h.1 rfl
  · exact not_isRange_nil r h

theorem mem_selectedTpcs {ranges : List (ℤ × ℤ)}
    (h : Separated ',' True (IsItem IsLoose numTpcs) spec ranges) (t : ℕ) :
    t ∈ selectedTpcs numTpcs ranges ↔ ∃ r ∈ ranges, r.1 ≤ t ∧ t ≤ r.2 := by
  obtain ⟨-, hbounds⟩ := h.forall_mem fun _ _ hr => hr.bounds
  rw [selectedTpcs, List.mem_filter, List.mem_range, foldl_select fun r hr => (hbounds r hr).1,
    or_iff_right Bool.false_ne_true, and_iff_right_iff_imp]
  rintro ⟨r, hr, -, hle⟩
  have hlt := (hbounds r hr).2.2
  omega

theorem selectedTpcs_ne_nil {ranges : List (ℤ × ℤ)}
    (h : Separated ',' True (IsItem IsLoose numTpcs) spec ranges) :
    selectedTpcs numTpcs ranges ≠ [] := by
  obtain ⟨hne, hbounds⟩ := h.forall_mem fun _ _ hr => hr.bounds
  obtain ⟨r, hr⟩ := List.exists_mem_of_ne_nil _ hne
  have hbounds := hbounds r hr
  exact List.ne_nil_of_mem ((mem_selectedTpcs h r.1.toNat).mpr ⟨r, hr, by omega, by omega⟩)

theorem parseTokens_tpcs_eq_ok_iff {ranges : List (ℤ × ℤ)} (hne : spec ≠ []) :
    parseTokens ',' msgs.emptyToken (parseTpcToken msgs numTpcs) spec = .ok ranges ↔
      Separated ',' True (IsItem IsLoose numTpcs) spec ranges := by
  rw [parseTokens_eq_ok_iff hne]
  exact ⟨Separated.mono id fun tok r => parseTpcToken_eq_ok_iff.mp,
    Separated.mono id fun tok r => parseTpcToken_eq_ok_iff.mpr⟩

/-- The parsers of sets accept what is a list for `strtol`, also with a comma at the end. -/
theorem parseTpcs_eq_ok_iff :
    parseTpcs msgs spec numTpcs = .ok set ↔ DenotesSet True IsLoose numTpcs spec set := by
  rw [parseTpcs]
  constructor
  · intro h
    obtain ⟨ranges, hranges, h⟩ := exists_of_bind_ok h
    by_cases hne : spec = []
    · subst hne
      rw [parseTokens_nil] at hranges
      cases hranges
      have hnone : selectedTpcs numTpcs [] = [] :=
        List.filter_eq_nil_iff.mpr fun _ _ => Bool.false_ne_true
      rw [if_pos hnone] at h
      cases h
    · have hlist := (parseTokens_tpcs_eq_ok_iff hne).mp hranges
      rw [if_neg (selectedTpcs_ne_nil hlist)] at h
      cases h
      exact ⟨ranges, hlist, List.pairwise_lt_range.filter _, mem_selectedTpcs hlist⟩
  · rintro ⟨ranges, hlist, hset, hdenotes⟩
    have hne : spec ≠ [] := by
      rintro rfl
      exact separated_ne_nil not_isItem_nil hlist
    have heq : selectedTpcs numTpcs ranges = set := by
      refine (List.pairwise_lt_range.filter _).eq_of_mem_iff hset fun t => ?_
      exact (mem_selectedTpcs hlist t).trans (hdenotes t).symm
    rw [(parseTokens_tpcs_eq_ok_iff hne).mpr hlist, ← heq]
    exact if_neg (selectedTpcs_ne_nil hlist)

theorem parseTpcSetOrAll_eq_ok_iff (hspec : spec ≠ []) (hpos : 0 < numTpcs) :
    parseTpcSetOrAll spec numTpcs = .ok set ↔ DenotesSet True IsLoose numTpcs spec set := by
  rw [parseTpcSetOrAll, if_neg hpos.ne', if_neg hspec]
  exact parseTpcs_eq_ok_iff

end Sets

/-! ## Ranges of SMs -/

section Ranges

variable {device : Topology} {spec : List Char}

theorem Topology.numTpcs_pos (device : Topology) : 0 < device.numTpcs :=
  Nat.pos_of_ne_zero fun h => absurd device.smsPerTpc_pos (by rw [h, Nat.div_zero]; omega)

theorem Topology.numTpcs_le (device : Topology) : device.numTpcs ≤ device.numSms :=
  (Nat.div_pos_iff.mp device.smsPerTpc_pos).2

theorem parseSmRanges_of_ne_nil (hspec : spec ≠ []) :
    parseSmRanges spec device =
      parseTokens ',' smMessages.emptyToken (parseSmToken device) spec >>= fun ranges =>
        let out := ranges.map fun (lo, hi) => ⟨lo, hi, buildDisableMask device lo hi⟩
        if out = [] then .error smMessages.nothingSelected else .ok out := by
  have hpos := device.numTpcs_pos
  have hle := device.numTpcs_le
  have hsms : device.smsPerTpc ≠ 0 := device.smsPerTpc_pos.ne'
  rw [parseSmRanges, if_neg (by omega), if_neg hspec]

theorem parseTokens_sms_eq_ok_iff {ranges : List (ℤ × ℤ)} (hne : spec ≠ []) :
    parseTokens ',' smMessages.emptyToken (parseSmToken device) spec = .ok ranges ↔
      DenotesRanges True IsLoose device.numSms spec ranges := by
  rw [parseTokens_eq_ok_iff hne]
  exact ⟨Separated.mono id fun tok r => parseSmToken_eq_ok_iff.mp,
    Separated.mono id fun tok r => parseSmToken_eq_ok_iff.mpr⟩

/-- The ranges that are accepted are those of the list, each with its mask. -/
theorem parseSmRanges_eq_ok_iff {out : List SmRange} :
    parseSmRanges spec device = .ok out ↔
      ∃ ranges, DenotesRanges True IsLoose device.numSms spec ranges ∧
        out = ranges.map fun (lo, hi) => ⟨lo, hi, buildDisableMask device lo hi⟩ := by
  by_cases hne : spec = []
  · subst hne
    refine iff_of_false (fun h => ?_) fun ⟨ranges, h, _⟩ => separated_ne_nil not_isRange_nil h
    rw [parseSmRanges] at h
    split_ifs at h with _ hspec
    exact hspec rfl
  · rw [parseSmRanges_of_ne_nil hne]
    constructor
    · intro h
      obtain ⟨ranges, hranges, h⟩ := exists_of_bind_ok h
      refine ⟨ranges, (parseTokens_sms_eq_ok_iff hne).mp hranges, ?_⟩
      dsimp only at h
      split_ifs at h
      exact (Except.ok.inj h).symm
    · rintro ⟨ranges, hlist, rfl⟩
      obtain ⟨hranges, -⟩ := hlist.forall_mem fun _ _ _ => trivial
      rw [(parseTokens_sms_eq_ok_iff hne).mpr hlist]
      exact if_neg (mt List.map_eq_nil_iff.mp hranges)

theorem parseSmRanges_range {first last : List Char} {a b : ℕ} (ha : IsDecimal first a)
    (hb : IsDecimal last b) (hle : a ≤ b) (hlt : b < device.numSms) :
    parseSmRanges (first ++ '-' :: last) device = .ok [⟨a, b, buildDisableMask device a b⟩] := by
  have hbound := device.numSms_lt
  have hcomma {digits : List Char} (h : IsNumeral digits) : ',' ∉ digits :=
    fun hmem => absurd (h.2 _ hmem) (by decide)
  refine parseSmRanges_eq_ok_iff.mpr ⟨[(↑a, ↑b)], .last ⟨first, last, a, b, rfl,
    ha.1.not_mem_dash, ?_, ha.isLoose (by omega), hb.isLoose (by omega), ?_, by omega,
    by omega⟩, rfl⟩
  · rw [List.mem_append, List.mem_cons]
    rintro (h | h | h)
    · exact hcomma ha.1 h
    · exact absurd h (by decide)
    · exact hcomma hb.1 h
  · rw [min_eq_left (Nat.cast_le.mpr hle), max_eq_right (Nat.cast_le.mpr hle)]

/-- The ends of the ranges, without the masks. -/
theorem map_parseSmRanges_eq_ok_iff {ranges : List (ℤ × ℤ)} :
    (parseSmRanges spec device).map (List.map fun r => (r.lo, r.hi)) = .ok ranges ↔
      DenotesRanges True IsLoose device.numSms spec ranges := by
  have hends (ranges : List (ℤ × ℤ)) :
      (ranges.map fun (lo, hi) => SmRange.mk lo hi (buildDisableMask device lo hi)).map
        (fun r => (r.lo, r.hi)) = ranges := by
    rw [List.map_map]
    exact List.map_id ranges
  constructor
  · intro h
    cases hout : parseSmRanges spec device with
    | error e =>
        rw [hout] at h
        cases h
    | ok out =>
        obtain ⟨ranges', hlist, rfl⟩ := parseSmRanges_eq_ok_iff.mp hout
        rw [hout, Except.map, hends] at h
        cases h
        exact hlist
  · intro h
    rw [parseSmRanges_eq_ok_iff.mpr ⟨ranges, h, rfl⟩, Except.map, hends]

end Ranges

/-! ## Strictness -/

/-- A parser that accepts the looser of two readings is strict exactly where they agree. -/
theorem strict_iff {ρ : Type} (parse : Except String ρ) {strict loose : ρ → Prop}
    (hparse : ∀ r, parse = .ok r ↔ loose r) (hsub : ∀ r, strict r → loose r) :
    (∀ r, parse = .ok r ↔ strict r) ↔ (∃ r, strict r) ∨ ¬ ∃ r, loose r := by
  constructor
  · intro h
    rw [or_iff_not_imp_right, not_not]
    rintro ⟨r, hr⟩
    exact ⟨r, (h r).mp ((hparse r).mpr hr)⟩
  · rintro (⟨r, hr⟩ | hnone) s
    · have hr' := (hparse r).mpr (hsub r hr)
      refine ⟨fun hs => ?_, fun hs => (hparse s).mpr (hsub s hs)⟩
      cases hr'.symm.trans hs
      exact hr
    · exact iff_of_false (fun hs => hnone ⟨s, (hparse s).mp hs⟩) fun hs => hnone ⟨s, hsub s hs⟩

theorem DenotesSet.isLoose {spec : List Char} {numTpcs : ℕ} {set : List ℕ}
    (hbound : numTpcs < 2 ^ 31) (h : DenotesSet False IsDecimal numTpcs spec set) :
    DenotesSet True IsLoose numTpcs spec set := by
  obtain ⟨ranges, hlist, hset⟩ := h
  exact ⟨ranges, hlist.mono False.elim fun _ _ hr => hr.isLoose hbound, hset⟩

theorem DenotesRanges.isLoose {spec : List Char} {numSms : ℕ} {ranges : List (ℤ × ℤ)}
    (hbound : numSms < 2 ^ 31) (h : DenotesRanges False IsDecimal numSms spec ranges) :
    DenotesRanges True IsLoose numSms spec ranges :=
  h.mono False.elim fun _ _ hr => hr.isLoose hbound

/-- The parsers are strict for the lists that are meant and for those that are no list even
with a comma at the end and with numbers as `strtol` takes them. -/
theorem parsersAreStrict_iff (spec : List Char) (device : Topology) :
    ParsersAreStrict spec device ↔
      ((∃ set, DenotesSet False IsDecimal device.numTpcs spec set) ∨
          ¬ ∃ set, DenotesSet True IsLoose device.numTpcs spec set) ∧
        ((∃ ranges, DenotesRanges False IsDecimal device.numSms spec ranges) ∨
          ¬ ∃ ranges, DenotesRanges True IsLoose device.numSms spec ranges) := by
  have hbound : device.numTpcs < 2 ^ 31 := device.numTpcs_le.trans_lt device.numSms_lt
  have hset := strict_iff (parseTpcSet spec device.numTpcs)
    (fun _ => parseTpcs_eq_ok_iff) fun _ => DenotesSet.isLoose hbound
  have hranges := strict_iff
    ((parseSmRanges spec device).map (List.map fun r => (r.lo, r.hi)))
    (fun _ => map_parseSmRanges_eq_ok_iff) fun _ => DenotesRanges.isLoose device.numSms_lt
  rw [← hset, ← hranges]
  constructor
  · intro h
    exact ⟨h.tpcSet, h.smRanges⟩
  · rintro ⟨htpc, hsm⟩
    refine ⟨htpc, fun hne set => ?_, hsm⟩
    rw [parseTpcSetOrAll_eq_ok_iff hne device.numTpcs_pos, ← htpc set]
    exact parseTpcs_eq_ok_iff.symm

theorem isDecimal_digit {c : Char} (hc : c.isDigit = true) : IsDecimal [c] (numeral [c]) := by
  refine ⟨⟨List.cons_ne_nil _ _, fun d hd => ?_⟩, rfl⟩
  rwa [List.mem_singleton.mp hd]

/-- A range whose first end is missing is accepted as one from zero. -/
theorem not_parsersAreStrict :
    ¬ ParsersAreStrict ['-', '3'] ⟨8, 4, by decide, by decide⟩ := by
  intro h
  have hthree : IsDecimal ['3'] 3 := isDecimal_digit rfl
  have hloose : DenotesSet True IsLoose 4 ['-', '3'] [0, 1, 2, 3] := by
    refine ⟨[(0, 3)], .last (.inr ⟨[], ['3'], 0, 3, rfl, List.not_mem_nil, by decide,
      .inl ⟨rfl, rfl⟩, hthree.isLoose (by omega), rfl, by decide, by decide⟩), by decide,
      fun t => ?_⟩
    simp only [List.mem_cons, List.not_mem_nil, or_false, exists_eq_left]
    omega
  obtain ⟨ranges, hlist, -⟩ := (h.tpcSet [0, 1, 2, 3]).mp (parseTpcs_eq_ok_iff.mpr hloose)
  generalize htext : ['-', '3'] = text at hlist
  have hcomma : ',' ∉ text := htext ▸ by decide
  cases hlist with
  | last first =>
      subst htext
      rcases first with ⟨-, hdash, -⟩ | ⟨first, last, a, b, heq, hdash, -, hfirst, -⟩
      · exact hdash List.mem_cons_self
      · have hhead := congrArg (List.takeWhile (· ≠ '-')) heq
        rw [takeWhile_ne_append hdash] at hhead
        exact hfirst.1.1 hhead.symm
  | atEnd allowed _ => exact allowed
  | cons _ _ => exact hcomma (List.mem_append_right _ List.mem_cons_self)

end A100Partitioning.Demos
