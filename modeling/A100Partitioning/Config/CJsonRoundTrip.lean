import A100Partitioning.Config.CJsonParser
import A100Partitioning.Config.KnownKeys
import A100Partitioning.Support.Numerals

/-!
# Printed items are read back

What is printed of an item is parsed again as the same item, as far as the text of its numbers
tells.  The additional information for a benchmark goes this way: it is printed when the
configuration is read, and the benchmark parses the text.
-/

namespace A100Partitioning.Config

/-! ## Strings -/

theorem hex4_control : ∀ n < 32, hex4 n = ['0', '0', (n / 16).digitChar, (n % 16).digitChar] ∧
    parseHex4 '0' '0' (n / 16).digitChar (n % 16).digitChar = n ∧
    Ordinary (n / 16).digitChar ∧ Ordinary (n % 16).digitChar := by
  unfold Ordinary
  decide

theorem escape_cases (c : Char) :
    (escape c = [c] ∧ Ordinary c) ∨
      (∃ d, escape c = ['\\', d] ∧ d ≠ 'u' ∧ simpleEscape d = some c) ∨
      (∃ d₁ d₀, escape c = ['\\', 'u', '0', '0', d₁, d₀] ∧ c.toNat < 32 ∧
        parseHex4 '0' '0' d₁ d₀ = c.toNat ∧ Ordinary d₁ ∧ Ordinary d₀) := by
  rw [escape]
  split_ifs with hplain hbackslash hquote hb hf hn hr ht
  · exact .inl ⟨rfl, hplain.2⟩
  · subst hbackslash
    exact .inr (.inl ⟨_, rfl, by decide, by decide⟩)
  · subst hquote
    exact .inr (.inl ⟨_, rfl, by decide, by decide⟩)
  · subst hb
    exact .inr (.inl ⟨_, rfl, by decide, by decide⟩)
  · subst hf
    exact .inr (.inl ⟨_, rfl, by decide, by decide⟩)
  · subst hn
    exact .inr (.inl ⟨_, rfl, by decide, by decide⟩)
  · subst hr
    exact .inr (.inl ⟨_, rfl, by decide, by decide⟩)
  · subst ht
    exact .inr (.inl ⟨_, rfl, by decide, by decide⟩)
  · have hsmall : c.toNat < 32 := by
      by_contra hlarge
      exact hplain ⟨by omega, hquote, hbackslash⟩
    obtain ⟨hdigits, hvalue, h₁, h₀⟩ := hex4_control c.toNat hsmall
    exact .inr (.inr ⟨_, _, by rw [hdigits], hsmall, hvalue, h₁, h₀⟩)

theorem scanString_escape (c : Char) (text : List Char) :
    scanString (escape c ++ text) =
      (scanString text).map fun (inner, rest) => (escape c ++ inner, rest) := by
  rcases escape_cases c with ⟨hc, hplain⟩ | ⟨d, hc, -⟩ | ⟨d₁, d₀, hc, -, -, h₁, h₀⟩
  · rw [hc]
    exact scanString_ordinary hplain text
  · rw [hc]
    rfl
  · have hzero : Ordinary '0' := ⟨by decide, by decide⟩
    have hpair (text : List Char) : scanString ('\\' :: 'u' :: text) =
        (scanString text).map fun (inner, rest) => ('\\' :: 'u' :: inner, rest) := rfl
    simp only [hc, List.cons_append, List.nil_append, hpair, scanString_ordinary hzero,
      scanString_ordinary h₁, scanString_ordinary h₀, Option.map_map]
    rfl

theorem scanString_printed (s rest : List Char) :
    scanString (s.flatMap escape ++ '"' :: rest) = some (s.flatMap escape, rest) := by
  induction s with
  | nil => rfl
  | cons c s ih =>
      rw [List.flatMap_cons, List.append_assoc, scanString_escape, ih]
      rfl

theorem unescape_ordinary {c : Char} (h : c ≠ '\\') (input : List Char) :
    unescape (c :: input) = (unescape input).map (c :: ·) := by
  rw [unescape.eq_def]
  split <;> grind

theorem unescape_simple {d c : Char} (hd : d ≠ 'u') (h : simpleEscape d = some c)
    (input : List Char) : unescape ('\\' :: d :: input) = (unescape input).map (c :: ·) := by
  rw [unescape.eq_def]
  split <;> grind

theorem unescape_hex4 {c₃ c₂ c₁ c₀ : Char} (hpos : parseHex4 c₃ c₂ c₁ c₀ ≠ 0)
    (hsmall : parseHex4 c₃ c₂ c₁ c₀ < 0xd800) (input : List Char) :
    unescape ('\\' :: 'u' :: c₃ :: c₂ :: c₁ :: c₀ :: input) =
      (unescape input).map (utf8 (parseHex4 c₃ c₂ c₁ c₀) ++ ·) := by
  rw [unescape.eq_def]
  refine (if_neg ?_).trans (if_neg ?_)
  · omega
  · omega

theorem unescape_escape {c : Char} (hc : c ≠ '\x00') (input : List Char) :
    unescape (escape c ++ input) = (unescape input).map (c :: ·) := by
  rcases escape_cases c with ⟨h, hplain⟩ | ⟨d, h, hd, hsimple⟩ | ⟨d₁, d₀, h, hsmall, hvalue, -⟩
  · rw [h]
    exact unescape_ordinary hplain.2 input
  · rw [h]
    exact unescape_simple hd hsimple input
  · have hpos : c.toNat ≠ 0 := fun hzero => hc (Char.toNat_inj.mp hzero)
    have hutf8 : utf8 c.toNat = [c] := by
      rw [utf8, if_pos (by omega), Char.ofNat_toNat]
    rw [h]
    simp only [List.cons_append, List.nil_append]
    rw [unescape_hex4 (by omega) (by omega), hvalue, hutf8]
    rfl

/-- A string without a terminator inside is read back. -/
theorem parseString_printString {s : List Char} (hs : '\x00' ∉ s) (rest : List Char) :
    parseString (printString s ++ rest) = some (s, rest) := by
  have hunescape : unescape (s.flatMap escape) = some s := by
    induction s with
    | nil => rfl
    | cons c s ih =>
        rw [List.mem_cons, not_or] at hs
        rw [List.flatMap_cons, unescape_escape (Ne.symm hs.1), ih hs.2]
        rfl
  rw [printString, List.cons_append, List.append_assoc, List.singleton_append, parseString,
    scanString_printed]
  simp [hunescape]

/-! ## Items -/

namespace CJson

mutual

/-- An item as its text tells it.  There is no text for an infinite number, and `read` is what
the text of another one is read as. -/
def reread (read : ℚ → Double) : CJson → CJson
  | .number (.infinite _) => .null
  | .number (.finite q) => .number (read q)
  | .array elems => .array (rereadElems read elems)
  | .object members => .object (rereadMembers read members)
  | item => item

/-- `reread` for what is in an array. -/
def rereadElems (read : ℚ → Double) : List CJson → List CJson
  | [] => []
  | elem :: elems => elem.reread read :: rereadElems read elems

/-- `reread` for what is in an object. -/
def rereadMembers (read : ℚ → Double) :
    List (List Char × CJson) → List (List Char × CJson)
  | [] => []
  | (name, value) :: members => (name, value.reread read) :: rereadMembers read members

end

end CJson

/-- What stands behind an item in a printed text. -/
def Follows (rest : List Char) : Prop :=
  ∀ c ∈ rest.head?, c = ',' ∨ c = ']' ∨ c = '}' ∨ c = '\n'

/-- The first character of an item, which is neither space nor the end of a list. -/
def Starts (c : Char) : Prop := 32 < c.toNat ∧ c ≠ ']' ∧ c ≠ '}'

theorem skipWhitespace_of_starts {c : Char} (hc : Starts c) (text : List Char) :
    skipWhitespace (c :: text) = c :: text := by
  rw [skipWhitespace, List.dropWhile_cons_of_neg]
  simpa using hc.1

theorem skipWhitespace_formatted {space : List Char} (hspace : ∀ c ∈ space, c.toNat ≤ 32)
    (format : Bool) (text : List Char) :
    skipWhitespace (formatted format space ++ text) = skipWhitespace text := by
  cases format with
  | false => rfl
  | true =>
      rw [skipWhitespace, skipWhitespace, formatted, if_pos rfl]
      exact List.dropWhile_append_of_pos (by simpa using hspace)

theorem skipWhitespace_formatted_char {c : Char} (hc : c.toNat ≤ 32) (format : Bool)
    (text : List Char) : skipWhitespace (formatted format [c] ++ text) = skipWhitespace text :=
  skipWhitespace_formatted (fun _ hmem => List.mem_singleton.mp hmem ▸ hc) format text

section RoundTrip

variable (strtod : List Char → Option (Double × List Char)) (sprintfE sprintfF : ℚ → List Char)
  (read : ℚ → Double)

/-- A text is read as a number wherever it is printed. -/
def ReadsAs (text : List Char) (d : Double) : Prop :=
  (∃ c ∈ text.head?, c = '-' ∨ c.isDigit) ∧
    ∀ rest, Follows rest → strtod (text ++ rest) = some (d, rest)

/-- The text of a number is read as `read` says. -/
def Rereads : Double → Prop
  | .infinite _ => True
  | .finite q => ReadsAs strtod (printNumber sprintfE sprintfF (.finite q)) (read q)

variable {strtod sprintfE sprintfF read}

theorem starts_of_number {c : Char} (hc : c = '-' ∨ c.isDigit) : Starts c := by
  rcases hc with rfl | hdigit
  · unfold Starts
    decide
  · have hle : '0'.toNat ≤ c.toNat ∧ c.toNat ≤ '9'.toNat := by
      simpa [Char.isDigit, UInt32.le_iff_toNat_le] using hdigit
    have hne : c ≠ ']' ∧ c ≠ '}' := by
      constructor <;> rintro rfl <;> exact absurd hle (by decide)
    exact ⟨lt_of_lt_of_le (by decide) hle.1, hne⟩

theorem exists_starts_printValue (format : Bool) (depth : ℕ) {item : CJson}
    (h : item.Holds NulFree (Rereads strtod sprintfE sprintfF read)) :
    ∃ c text, printValue sprintfE sprintfF format depth item = c :: text ∧ Starts c := by
  cases item with
  | null => exact ⟨_, _, by rw [printValue], by unfold Starts; decide⟩
  | bool value => cases value <;> exact ⟨_, _, by rw [printValue], by unfold Starts; decide⟩
  | number d =>
      rw [printValue]
      cases d with
      | infinite negative => exact ⟨_, _, by rw [printNumber], by unfold Starts; decide⟩
      | finite q =>
          rw [CJson.Holds, Rereads, ReadsAs] at h
          obtain ⟨⟨c, hhead, hc⟩, -⟩ := h
          obtain ⟨text, htext⟩ := List.head?_eq_some_iff.mp hhead
          refine ⟨c, text, htext, ?_⟩
          exact starts_of_number hc
  | string s => exact ⟨_, _, by rw [printValue, printString], by unfold Starts; decide⟩
  | array elems => exact ⟨_, _, by rw [printValue], by unfold Starts; decide⟩
  | object members => exact ⟨_, _, by rw [printValue], by unfold Starts; decide⟩

theorem skipWhitespace_printValue (format : Bool) (depth : ℕ) {item : CJson}
    (h : item.Holds NulFree (Rereads strtod sprintfE sprintfF read)) (rest : List Char) :
    skipWhitespace (printValue sprintfE sprintfF format depth item ++ rest) =
      printValue sprintfE sprintfF format depth item ++ rest := by
  obtain ⟨c, text, htext, hc⟩ := exists_starts_printValue format depth h
  rw [htext, List.cons_append, skipWhitespace_of_starts hc]

theorem skipWhitespace_printString (s rest : List Char) :
    skipWhitespace (printString s ++ rest) = printString s ++ rest := rfl

theorem parseElems_congr (fuel : ℕ) {text text' : List Char}
    (h : skipWhitespace text = skipWhitespace text') :
    parseElems strtod fuel text = parseElems strtod fuel text' := by
  cases fuel with
  | zero => rfl
  | succ fuel => rw [parseElems, parseElems, h]

theorem parseMembers_congr (fuel : ℕ) {text text' : List Char}
    (h : skipWhitespace text = skipWhitespace text') :
    parseMembers strtod fuel text = parseMembers strtod fuel text' := by
  cases fuel with
  | zero => rfl
  | succ fuel => rw [parseMembers, parseMembers, h]

theorem parseMembers_skipWhitespace (fuel : ℕ) (text : List Char) :
    parseMembers strtod fuel (skipWhitespace text) = parseMembers strtod fuel text :=
  parseMembers_congr fuel (skipWhitespace_skipWhitespace text)

theorem exists_starts_printElems (format : Bool) (depth : ℕ) {elem : CJson} {elems : List CJson}
    (h : elem.Holds NulFree (Rereads strtod sprintfE sprintfF read)) :
    ∃ c text, printElems sprintfE sprintfF format depth (elem :: elems) = c :: text ∧
      Starts c := by
  obtain ⟨c, text, htext, hc⟩ := exists_starts_printValue format (depth + 1) h
  cases elems with
  | nil => exact ⟨c, text, by rw [printElems, htext], hc⟩
  | cons next elems => exact ⟨c, _, by rw [printElems, htext, List.cons_append], hc⟩

theorem follows_nil : Follows [] := nofun

theorem follows_cons {c : Char} {rest : List Char}
    (hc : c = ',' ∨ c = ']' ∨ c = '}' ∨ c = '\n') : Follows (c :: rest) := by
  intro c' hc'
  rw [List.head?_cons, Option.mem_some_iff] at hc'
  rwa [← hc']

theorem follows_formatted (format : Bool) (depth : ℕ) (rest : List Char) :
    Follows (formatted format ['\n'] ++
      (formatted format (List.replicate depth '\t') ++ '}' :: rest)) := by
  cases format <;> simp [Follows, formatted]

theorem skipWhitespace_formatted_tail (format : Bool) (depth : ℕ) (rest : List Char) :
    skipWhitespace (formatted format ['\n'] ++
      (formatted format (List.replicate depth '\t') ++ '}' :: rest)) = '}' :: rest := by
  rw [skipWhitespace_formatted (by simp), skipWhitespace_formatted (by simp)]
  rfl

theorem parseString_formatted (format : Bool) (depth : ℕ) {s : List Char} (hs : '\x00' ∉ s)
    (rest : List Char) :
    parseString (skipWhitespace (formatted format (List.replicate depth '\t') ++
      (printString s ++ rest))) = some (s, rest) := by
  rw [skipWhitespace_formatted (by simp), skipWhitespace_printString]
  exact parseString_printString hs rest

theorem exists_skipWhitespace_printMembers (sprintfE sprintfF : ℚ → List Char) (format : Bool)
    (depth : ℕ) (name : List Char) (value : CJson) (members : List (List Char × CJson))
    (rest : List Char) :
    ∃ text, skipWhitespace (printMembers sprintfE sprintfF format depth
      ((name, value) :: members) ++ rest) = '"' :: text := by
  cases members with
  | nil =>
      rw [printMembers]
      simp only [List.append_assoc]
      rw [skipWhitespace_formatted (by simp), skipWhitespace_printString]
      exact ⟨_, rfl⟩
  | cons member members =>
      rw [printMembers]
      simp only [List.append_assoc]
      rw [skipWhitespace_formatted (by simp), skipWhitespace_printString]
      exact ⟨_, rfl⟩

mutual

/-- A printed item is parsed again, and nothing of what is behind it is used up. -/
theorem parseValue_printValue (format : Bool) : ∀ (item : CJson) (depth fuel : ℕ)
    (rest : List Char), item.Holds NulFree (Rereads strtod sprintfE sprintfF read) → Follows rest →
    (printValue sprintfE sprintfF format depth item).length < fuel →
    parseValue strtod fuel (printValue sprintfE sprintfF format depth item ++ rest) =
      some (item.reread read, rest)
  | _, _, 0, _, _, _, hfuel => absurd hfuel (Nat.not_lt_zero _)
  | .null, depth, fuel + 1, rest, _, _, _ => by
      simp [printValue, parseValue, CJson.reread]
  | .bool false, depth, fuel + 1, rest, _, _, _ => by
      simp [printValue, parseValue, CJson.reread]
  | .bool true, depth, fuel + 1, rest, _, _, _ => by
      simp [printValue, parseValue, CJson.reread]
  | .number (.infinite negative), depth, fuel + 1, rest, _, _, _ => by
      simp [printValue, printNumber, parseValue, CJson.reread]
  | .number (.finite q), depth, fuel + 1, rest, h, hrest, _ => by
      rw [CJson.Holds, Rereads, ReadsAs] at h
      obtain ⟨⟨c, hhead, hc⟩, hread⟩ := h
      obtain ⟨text, htext⟩ := List.head?_eq_some_iff.mp hhead
      have hstrtod := hread rest hrest
      rw [htext, List.cons_append] at hstrtod
      rw [printValue, htext, List.cons_append, parseValue_number fuel hc, hstrtod, CJson.reread]
      rfl
  | .string s, depth, fuel + 1, rest, h, _, _ => by
      have hparse := parseString_printString h rest
      rw [printString, List.cons_append] at hparse
      rw [printValue, printString, List.cons_append, parseValue_string, hparse, CJson.reread]
      · rfl
      all_goals simp
  | .array [], depth, fuel + 1, rest, _, _, _ => by
      simp [printValue, printElems, parseValue, skipWhitespace, CJson.reread, CJson.rereadElems]
  | .array (elem :: elems), depth, fuel + 1, rest, h, _, hfuel => by
      rw [CJson.Holds] at h
      rw [printValue, List.length_cons, List.length_append, List.length_singleton] at hfuel
      have hparse := parseElems_printElems format elem elems depth fuel rest h (by omega)
      obtain ⟨c, text, htext, hc⟩ := exists_starts_printElems format depth h.1
      rw [htext, List.cons_append] at hparse
      rw [printValue, List.cons_append, List.append_assoc, List.singleton_append, htext,
        List.cons_append, parseValue_array fuel hc.2.1 (skipWhitespace_of_starts hc _), hparse,
        CJson.reread]
      rfl
  | .object [], depth, fuel + 1, rest, _, _, _ => by
      simp only [printValue, printMembers, List.nil_append, List.cons_append, List.append_assoc]
      rw [parseValue_object_nil fuel (skipWhitespace_formatted_tail format depth rest)]
      rfl
  | .object ((name, value) :: members), depth, fuel + 1, rest, h, _, hfuel => by
      rw [CJson.Holds] at h
      rw [printValue] at hfuel ⊢
      simp only [List.length_append, List.length_cons] at hfuel
      have hparse := parseMembers_printMembers format name value members depth fuel rest h
        (by omega)
      simp only [List.cons_append, List.append_assoc, List.nil_append]
      obtain ⟨text, htext⟩ := exists_skipWhitespace_printMembers sprintfE sprintfF format depth
        name value members (formatted format (List.replicate depth '\t') ++ '}' :: rest)
      rw [parseValue_object fuel (by decide)
        ((skipWhitespace_formatted (by simp) format _).trans htext), ← htext,
        parseMembers_skipWhitespace, hparse, CJson.reread]
      rfl

theorem parseElems_printElems (format : Bool) : ∀ (elem : CJson) (elems : List CJson)
    (depth fuel : ℕ) (rest : List Char),
    CJson.HoldsElems NulFree (Rereads strtod sprintfE sprintfF read) (elem :: elems) →
    (printElems sprintfE sprintfF format depth (elem :: elems)).length + 1 < fuel →
    parseElems strtod fuel (printElems sprintfE sprintfF format depth (elem :: elems) ++
        ']' :: rest) =
      some (CJson.rereadElems read (elem :: elems), rest)
  | _, _, _, 0, _, _, hfuel => absurd hfuel (Nat.not_lt_zero _)
  | elem, [], depth, fuel + 1, rest, h, hfuel => by
      rw [printElems] at hfuel ⊢
      have hvalue := parseValue_printValue format elem (depth + 1) fuel (']' :: rest) h.1
        (follows_cons (by simp)) (by omega)
      rw [← skipWhitespace_printValue format (depth + 1) h.1] at hvalue
      exact parseElems_last hvalue rfl
  | elem, next :: elems, depth, fuel + 1, rest, h, hfuel => by
      obtain ⟨c, text, htext, hc⟩ := exists_starts_printValue format (depth + 1) h.1
      rw [printElems, List.length_append, List.length_cons, List.length_append] at hfuel
      have hpos : 0 < (printValue sprintfE sprintfF format (depth + 1) elem).length := by
        rw [htext]
        exact Nat.succ_pos _
      have helems := parseElems_printElems format next elems depth fuel rest h.2 (by omega)
      rw [← parseElems_congr fuel (skipWhitespace_formatted_char (by decide : ' '.toNat ≤ 32)
        format _)] at helems
      have hvalue := parseValue_printValue format elem (depth + 1) fuel
        (',' :: (formatted format [' '] ++ (printElems sprintfE sprintfF format depth
          (next :: elems) ++ ']' :: rest))) h.1 (follows_cons (by simp)) (by omega)
      rw [← skipWhitespace_printValue format (depth + 1) h.1] at hvalue
      rw [printElems, List.append_assoc, List.cons_append, List.append_assoc]
      exact parseElems_comma hvalue rfl helems

theorem parseMembers_printMembers (format : Bool) : ∀ (name : List Char) (value : CJson)
    (members : List (List Char × CJson)) (depth fuel : ℕ) (rest : List Char),
    CJson.HoldsMembers NulFree (Rereads strtod sprintfE sprintfF read) ((name, value) :: members) →
    (printMembers sprintfE sprintfF format depth ((name, value) :: members)).length < fuel →
    parseMembers strtod fuel
        (printMembers sprintfE sprintfF format depth ((name, value) :: members) ++
          (formatted format (List.replicate depth '\t') ++ '}' :: rest)) =
      some (CJson.rereadMembers read ((name, value) :: members), rest)
  | _, _, _, _, 0, _, _, hfuel => absurd hfuel (Nat.not_lt_zero _)
  | name, value, [], depth, fuel + 1, rest, h, hfuel => by
      rw [printMembers] at hfuel ⊢
      simp only [List.length_append, List.length_cons] at hfuel
      simp only [List.append_assoc, List.cons_append]
      apply parseMembers_last (parseString_formatted format (depth + 1) h.1 _) rfl _
        (skipWhitespace_formatted_tail format depth rest)
      rw [skipWhitespace_formatted (by simp) format,
        skipWhitespace_printValue format (depth + 1) h.2.1]
      exact parseValue_printValue format value (depth + 1) fuel _ h.2.1
        (follows_formatted format depth rest) (by omega)
  | name, value, (next, value') :: members, depth, fuel + 1, rest, h, hfuel => by
      rw [printMembers] at hfuel ⊢
      simp only [List.length_append, List.length_cons] at hfuel
      have hmembers := parseMembers_printMembers format next value' members depth fuel rest
        h.2.2 (by omega)
      rw [← parseMembers_congr fuel (skipWhitespace_formatted_char (by decide : '\n'.toNat ≤ 32)
        format _)] at hmembers
      simp only [List.append_assoc, List.cons_append]
      have hvalue := parseValue_printValue format value (depth + 1) fuel
        (',' :: (formatted format ['\n'] ++ (printMembers sprintfE sprintfF format depth
          ((next, value') :: members) ++
            (formatted format (List.replicate depth '\t') ++ '}' :: rest)))) h.2.1
        (follows_cons (by simp)) (by omega)
      rw [← skipWhitespace_printValue format (depth + 1) h.2.1,
        ← skipWhitespace_formatted_char (by decide : '\t'.toNat ≤ 32) format] at hvalue
      exact parseMembers_comma (parseString_formatted format (depth + 1) h.1 _) rfl hvalue rfl
        hmembers

end

theorem cJSONParse_printed (format : Bool) (item : CJson)
    (h : item.Holds NulFree (Rereads strtod sprintfE sprintfF read)) :
    cJSONParse strtod (cJSONPrint sprintfE sprintfF format item) = some (item.reread read) := by
  have hparse := parseValue_printValue format item 0
    ((cJSONPrint sprintfE sprintfF format item).length + 1) [] h follows_nil
    (Nat.lt_succ_self _)
  have hskip := skipWhitespace_printValue format 0 h []
  rw [List.append_nil] at hparse hskip
  rw [cJSONParse, cJSONPrint, hskip]
  exact congrArg (Option.map Prod.fst) hparse

end RoundTrip

/-! ## What holds of an item -/

namespace CJson

variable {string : List Char → Prop} {number : Double → Prop}

theorem HoldsElems.of_mem {elems : List CJson} (h : HoldsElems string number elems)
    {elem : CJson} (helem : elem ∈ elems) : elem.Holds string number := by
  induction elems with
  | nil => cases helem
  | cons first elems ih =>
      rcases List.mem_cons.mp helem with rfl | hmem
      · exact h.1
      · exact ih h.2 hmem

theorem HoldsMembers.of_mem {members : List (List Char × CJson)}
    (h : HoldsMembers string number members) {member : List Char × CJson}
    (hmember : member ∈ members) : member.2.Holds string number := by
  induction members with
  | nil => cases hmember
  | cons first members ih =>
      rcases List.mem_cons.mp hmember with rfl | hmem
      · exact h.2.1
      · exact ih h.2.2 hmem

theorem Holds.getObjectItem {item value : CJson} {name : String}
    (h : item.Holds string number) (hvalue : item.getObjectItem name = some value) :
    value.Holds string number := by
  obtain ⟨member, hfind, rfl⟩ := Option.map_eq_some_iff.mp hvalue
  have hmem := List.mem_of_find?_eq_some hfind
  cases item with
  | object members => exact HoldsMembers.of_mem h hmem
  | _ => cases hmem

mutual

theorem Holds.imp {string₁ string₂ string₃ : List Char → Prop}
    {number₁ number₂ number₃ : Double → Prop}
    (hstring : ∀ s, string₁ s → string₂ s → string₃ s)
    (hnumber : ∀ d, number₁ d → number₂ d → number₃ d) :
    ∀ {item : CJson}, item.Holds string₁ number₁ → item.Holds string₂ number₂ →
      item.Holds string₃ number₃
  | .null, _, _ => trivial
  | .bool _, _, _ => trivial
  | .string s, h₁, h₂ => hstring s h₁ h₂
  | .number d, h₁, h₂ => hnumber d h₁ h₂
  | .array _, h₁, h₂ => HoldsElems.imp hstring hnumber h₁ h₂
  | .object _, h₁, h₂ => HoldsMembers.imp hstring hnumber h₁ h₂

theorem HoldsElems.imp {string₁ string₂ string₃ : List Char → Prop}
    {number₁ number₂ number₃ : Double → Prop}
    (hstring : ∀ s, string₁ s → string₂ s → string₃ s)
    (hnumber : ∀ d, number₁ d → number₂ d → number₃ d) :
    ∀ {elems : List CJson}, HoldsElems string₁ number₁ elems →
      HoldsElems string₂ number₂ elems → HoldsElems string₃ number₃ elems
  | [], _, _ => trivial
  | _ :: _, h₁, h₂ =>
      ⟨Holds.imp hstring hnumber h₁.1 h₂.1, HoldsElems.imp hstring hnumber h₁.2 h₂.2⟩

theorem HoldsMembers.imp {string₁ string₂ string₃ : List Char → Prop}
    {number₁ number₂ number₃ : Double → Prop}
    (hstring : ∀ s, string₁ s → string₂ s → string₃ s)
    (hnumber : ∀ d, number₁ d → number₂ d → number₃ d) :
    ∀ {members : List (List Char × CJson)}, HoldsMembers string₁ number₁ members →
      HoldsMembers string₂ number₂ members → HoldsMembers string₃ number₃ members
  | [], _, _ => trivial
  | (name, _) :: _, h₁, h₂ =>
      ⟨hstring name h₁.1 h₂.1, Holds.imp hstring hnumber h₁.2.1 h₂.2.1,
        HoldsMembers.imp hstring hnumber h₁.2.2 h₂.2.2⟩

end

mutual

/-- An item whose numbers are read back exactly is read back exactly. -/
theorem reread_eq {read : ℚ → Double}
    (hread : ∀ d, number d → ∃ q, d = .finite q ∧ read q = d) :
    ∀ {item : CJson}, item.Holds string number → item.reread read = item
  | .null, _ => rfl
  | .bool _, _ => rfl
  | .string _, _ => rfl
  | .number d, h => by
      obtain ⟨q, rfl, hq⟩ := hread d h
      rw [reread, hq]
  | .array _, h => by rw [reread, rereadElems_eq hread h]
  | .object _, h => by rw [reread, rereadMembers_eq hread h]

theorem rereadElems_eq {read : ℚ → Double}
    (hread : ∀ d, number d → ∃ q, d = .finite q ∧ read q = d) :
    ∀ {elems : List CJson}, HoldsElems string number elems → rereadElems read elems = elems
  | [], _ => rfl
  | _ :: _, h => by rw [rereadElems, reread_eq hread h.1, rereadElems_eq hread h.2]

theorem rereadMembers_eq {read : ℚ → Double}
    (hread : ∀ d, number d → ∃ q, d = .finite q ∧ read q = d) :
    ∀ {members : List (List Char × CJson)}, HoldsMembers string number members →
      rereadMembers read members = members
  | [], _ => rfl
  | (_, _) :: _, h => by rw [rereadMembers, reread_eq hread h.2.1, rereadMembers_eq hread h.2.2]

end

end CJson

/-! ## Whole numbers -/

/-- A whole number with at most 60 digits. -/
def Whole (d : Double) : Prop := ∃ n : ℤ, d = .ofInt n ∧ |n| < 10 ^ 60

/-- What is relied on of `strtod`: it returns what is behind the number, and reads each whole
number that it can return from its digits. -/
structure ReadsDigits (strtod : List Char → Option (Double × List Char)) : Prop where
  consumes : ConsumesNumber strtod
  decimal : ∀ n : ℤ, IsReadNumber strtod (.ofInt n) → ∀ rest, Follows rest →
    strtod (decimal n ++ rest) = some (.ofInt n, rest)

theorem isDigit_of_mem_toDigits {n : ℕ} {c : Char} (hc : c ∈ Nat.toDigits 10 n) :
    c.isDigit := by
  obtain ⟨d, hd, rfl⟩ := Support.exists_digitChar_of_mem_toDigits (by decide) hc
  interval_cases d <;> rfl

theorem exists_head_decimal (n : ℤ) : ∃ c ∈ (decimal n).head?, c = '-' ∨ c.isDigit := by
  rw [decimal]
  split_ifs
  · exact ⟨'-', rfl, .inl rfl⟩
  · obtain ⟨c, digits, hdigits⟩ := List.exists_cons_of_ne_nil
      (List.length_pos_iff.mp (Nat.length_toDigits_pos (b := 10) (n := n.natAbs)))
    rw [hdigits]
    exact ⟨c, rfl, .inr (isDigit_of_mem_toDigits (hdigits ▸ List.mem_cons_self))⟩

theorem printNumber_ofInt (sprintfE sprintfF : ℚ → List Char) {n : ℤ} (hn : |n| < 10 ^ 60) :
    printNumber sprintfE sprintfF (.ofInt n) = decimal n := by
  have habs : |(n : ℚ)| < 10 ^ 60 := by exact_mod_cast hn
  rw [Double.ofInt, printNumber, Int.floor_intCast, sub_self, abs_zero, if_pos]
  exact ⟨by positivity, habs⟩

theorem rereads_of_whole {strtod : List Char → Option (Double × List Char)}
    (hstrtod : ReadsDigits strtod) (sprintfE sprintfF : ℚ → List Char) {d : Double}
    (hread : IsReadNumber strtod d) (hwhole : Whole d) :
    Rereads strtod sprintfE sprintfF .finite d := by
  obtain ⟨n, rfl, hn⟩ := hwhole
  rw [Double.ofInt, Rereads, ReadsAs, ← Double.ofInt, printNumber_ofInt _ _ hn]
  exact ⟨exists_head_decimal n, hstrtod.decimal n hread⟩

/-- The digits at the head of a text. -/
def readDigits (cs : List Char) : Option (ℕ × List Char) :=
  if cs.takeWhile Char.isDigit = [] then none
  else some ((cs.takeWhile Char.isDigit).foldl (fun n c => 10 * n + (c.toNat - '0'.toNat)) 0,
    cs.dropWhile Char.isDigit)

/-- `strtod` on a text that begins with a whole number. -/
def strtodWhole : List Char → Option (Double × List Char)
  | '-' :: cs => (readDigits cs).map fun (n, rest) => (.ofInt (-n), rest)
  | cs => (readDigits cs).map fun (n, rest) => (.ofInt n, rest)

theorem behind_of_readDigits {cs rest : List Char} {n : ℕ} (h : readDigits cs = some (n, rest)) :
    Behind rest cs := by
  rw [readDigits] at h
  split_ifs at h with hdigits
  cases h
  refine ⟨List.dropWhile_suffix _, ?_⟩
  have hlength := congrArg List.length
    (List.takeWhile_append_dropWhile (p := Char.isDigit) (l := cs))
  have hpos := List.length_pos_iff.mpr hdigits
  rw [List.length_append] at hlength
  omega

theorem readDigits_toDigits (n : ℕ) {rest : List Char} (hrest : Follows rest) :
    readDigits (Nat.toDigits 10 n ++ rest) = some (n, rest) := by
  have hdigits : ∀ c ∈ Nat.toDigits 10 n, c.isDigit := fun c => isDigit_of_mem_toDigits
  have hend : rest.takeWhile Char.isDigit = [] ∧ rest.dropWhile Char.isDigit = rest := by
    cases rest with
    | nil => exact ⟨rfl, rfl⟩
    | cons c rest => rcases hrest c rfl with rfl | rfl | rfl | rfl <;> exact ⟨rfl, rfl⟩
  have hvalue : (Nat.toDigits 10 n).foldl (fun n c => 10 * n + (c.toNat - '0'.toNat)) 0 = n := by
    have hfold := @Support.foldl_toDigits ℕ 10 id (fun n c => 10 * n + (c.toNat - '0'.toNat))
      (by decide) (fun n d hd => by interval_cases d <;> rfl) 0 n
    rwa [mul_zero, zero_add] at hfold
  rw [readDigits, List.takeWhile_append_of_pos hdigits, List.dropWhile_append_of_pos hdigits,
    hend.1, hend.2, List.append_nil, if_neg, hvalue]
  exact List.length_pos_iff.mp Nat.length_toDigits_pos

theorem consumesNumber_strtodWhole : ConsumesNumber strtodWhole := by
  intro text d rest h
  rw [strtodWhole.eq_def] at h
  split at h
  · obtain ⟨⟨n, rest'⟩, hread, heq⟩ := Option.map_eq_some_iff.mp h
    cases heq
    exact .cons (behind_of_readDigits hread).1 _
  · obtain ⟨⟨n, rest'⟩, hread, heq⟩ := Option.map_eq_some_iff.mp h
    cases heq
    exact behind_of_readDigits hread

theorem strtodWhole_decimal (n : ℤ) {rest : List Char} (hrest : Follows rest) :
    strtodWhole (decimal n ++ rest) = some (.ofInt n, rest) := by
  have hread := readDigits_toDigits n.natAbs hrest
  rw [decimal]
  split_ifs with hneg
  · have hvalue : -(n.natAbs : ℤ) = n := by omega
    rw [List.cons_append, strtodWhole, hread, Option.map_some]
    dsimp only
    rw [hvalue]
  · have hvalue : (n.natAbs : ℤ) = n := by omega
    obtain ⟨c, digits, hdigits⟩ := List.exists_cons_of_ne_nil
      (List.length_pos_iff.mp (Nat.length_toDigits_pos (b := 10) (n := n.natAbs)))
    have hc : c.isDigit := isDigit_of_mem_toDigits (hdigits ▸ List.mem_cons_self)
    rw [hdigits, List.cons_append] at hread ⊢
    rw [strtodWhole, hread, Option.map_some]
    · dsimp only
      rw [hvalue]
    · intro cs hhead
      rw [List.cons.injEq] at hhead
      exact absurd (hhead.1 ▸ hc) (by decide)

theorem readsDigits_strtodWhole : ReadsDigits strtodWhole where
  consumes := consumesNumber_strtodWhole
  decimal n _ _ hrest := strtodWhole_decimal n hrest

/-! ## The end of a printed text -/

theorem NulFree.append {s t : List Char} (hs : NulFree s) (ht : NulFree t) : NulFree (s ++ t) :=
  fun hmem => (List.mem_append.mp hmem).elim hs ht

theorem NulFree.cons {c : Char} {s : List Char} (hc : c ≠ '\x00') (hs : NulFree s) :
    NulFree (c :: s) := fun hmem => (List.mem_cons.mp hmem).elim (Ne.symm hc) hs

theorem nulFree_nil : NulFree [] := List.not_mem_nil

theorem nulFree_formatted {space : List Char} (hspace : NulFree space) (format : Bool) :
    NulFree (formatted format space) := by
  cases format with
  | false => exact nulFree_nil
  | true => exact hspace

theorem nulFree_replicate (n : ℕ) : NulFree (List.replicate n '\t') :=
  fun hmem => absurd (List.eq_of_mem_replicate hmem) (by decide)

theorem nulFree_escape {c : Char} (hc : c ≠ '\x00') : NulFree (escape c) := by
  have hescape : ∀ n < 32, NulFree (hex4 n) := by decide
  rw [escape]
  split_ifs with hplain
  · exact nulFree_nil.cons hc
  all_goals first | exact nulFree_nil.cons (by decide) |>.cons (by decide) | skip
  have hsmall : c.toNat < 32 := by
    by_contra hlarge
    exact hplain ⟨by omega, by assumption, by assumption⟩
  exact ((hescape c.toNat hsmall).cons (by decide)).cons (by decide)

theorem nulFree_printString {s : List Char} (hs : NulFree s) : NulFree (printString s) := by
  have hflat : NulFree (s.flatMap escape) := by
    intro hmem
    obtain ⟨c, hc, hescape⟩ := List.mem_flatMap.mp hmem
    exact nulFree_escape (fun heq => hs (heq ▸ hc)) hescape
  exact (hflat.append (nulFree_nil.cons (by decide))).cons (by decide)

section Terminator

variable {sprintfE sprintfF : ℚ → List Char}

mutual

theorem nulFree_printValue (format : Bool) : ∀ (depth : ℕ) {item : CJson},
    item.Holds NulFree (fun d => NulFree (printNumber sprintfE sprintfF d)) →
    NulFree (printValue sprintfE sprintfF format depth item)
  | _, .null, _ => by
      rw [printValue]
      decide
  | _, .bool false, _ => by
      rw [printValue]
      decide
  | _, .bool true, _ => by
      rw [printValue]
      decide
  | _, .number d, h => by
      rw [printValue]
      exact h
  | _, .string s, h => by
      rw [printValue]
      exact nulFree_printString h
  | depth, .array elems, h => by
      rw [printValue]
      exact ((nulFree_printElems format depth h).append (nulFree_nil.cons (by decide))).cons
        (by decide)
  | depth, .object members, h => by
      rw [printValue]
      have hopen := nulFree_formatted (nulFree_nil.cons (by decide : '\n' ≠ '\x00')) format
      have htabs := nulFree_formatted (nulFree_replicate depth) format
      exact (((hopen.append (nulFree_printMembers format depth h)).append htabs).append
        (nulFree_nil.cons (by decide))).cons (by decide)

theorem nulFree_printElems (format : Bool) : ∀ (depth : ℕ) {elems : List CJson},
    CJson.HoldsElems NulFree (fun d => NulFree (printNumber sprintfE sprintfF d)) elems →
    NulFree (printElems sprintfE sprintfF format depth elems)
  | _, [], _ => by
      rw [printElems]
      exact nulFree_nil
  | depth, [value], h => by
      rw [printElems]
      exact nulFree_printValue format (depth + 1) h.1
  | depth, value :: next :: elems, h => by
      rw [printElems]
      have hspace := nulFree_formatted (nulFree_nil.cons (by decide : ' ' ≠ '\x00')) format
      exact (nulFree_printValue format (depth + 1) h.1).append
        ((hspace.append (nulFree_printElems format depth h.2)).cons (by decide))

theorem nulFree_printMembers (format : Bool) :
    ∀ (depth : ℕ) {members : List (List Char × CJson)},
    CJson.HoldsMembers NulFree (fun d => NulFree (printNumber sprintfE sprintfF d)) members →
    NulFree (printMembers sprintfE sprintfF format depth members)
  | _, [], _ => by
      rw [printMembers]
      exact nulFree_nil
  | depth, [(name, value)], h => by
      rw [printMembers]
      have htabs := nulFree_formatted (nulFree_replicate (depth + 1)) format
      have htab := nulFree_formatted (nulFree_nil.cons (by decide : '\t' ≠ '\x00')) format
      have hend := nulFree_formatted (nulFree_nil.cons (by decide : '\n' ≠ '\x00')) format
      have hvalue := nulFree_printValue format (depth + 1) h.2.1
      exact (htabs.append (nulFree_printString h.1)).append
        (((htab.append hvalue).append hend).cons (by decide))
  | depth, (name, value) :: member :: members, h => by
      rw [printMembers]
      have htabs := nulFree_formatted (nulFree_replicate (depth + 1)) format
      have htab := nulFree_formatted (nulFree_nil.cons (by decide : '\t' ≠ '\x00')) format
      have hend := nulFree_formatted (nulFree_nil.cons (by decide : '\n' ≠ '\x00')) format
      have hvalue := nulFree_printValue format (depth + 1) h.2.1
      have hmembers := nulFree_printMembers format depth h.2.2
      exact (htabs.append (nulFree_printString h.1)).append
        (((htab.append hvalue).append ((hend.append hmembers).cons (by decide))).cons (by decide))

end

theorem nulFree_decimal (n : ℤ) : NulFree (decimal n) := by
  have hdigits : NulFree (Nat.toDigits 10 n.natAbs) :=
    fun hmem => absurd (isDigit_of_mem_toDigits hmem) (by decide)
  rw [decimal]
  split_ifs
  · exact hdigits.cons (by decide)
  · exact hdigits

theorem nulFree_cJSONPrint (format : Bool) {item : CJson} (h : item.Holds NulFree Whole) :
    NulFree (cJSONPrint sprintfE sprintfF format item) := by
  apply nulFree_printValue format 0
  refine h.imp (fun s hs _ => hs) (fun d hd _ => ?_) h
  obtain ⟨n, rfl, hn⟩ := hd
  rw [printNumber_ofInt _ _ hn]
  exact nulFree_decimal n

end Terminator

/-! ## Additional information -/

theorem additionalInfo_of_parseBenchmark {outOfRange : Double → ℤ} {smctrl sync : Bool}
    {benchmark : CJson} {c : BenchmarkConfiguration}
    (h : parseBenchmark outOfRange smctrl sync benchmark = .ok c) :
    c.additionalInfo = benchmark.getObjectItem "additional_info" := by
  iterate 15
    obtain ⟨_, -, h⟩ := Support.exists_of_bind_ok h
  cases h
  rfl

/-- What holds of a configuration holds of the additional information in it. -/
theorem holds_additionalInfo {string : List Char → Prop} {number : Double → Prop}
    {outOfRange : Double → ℤ} {smctrl : Bool} {root item : CJson} {config : GlobalConfiguration}
    {c : BenchmarkConfiguration} (hroot : root.Holds string number)
    (hconfig : parseRoot outOfRange smctrl root = .ok config) (hc : c ∈ config.benchmarks)
    (hitem : c.additionalInfo = some item) : item.Holds string number := by
  obtain ⟨benchmark, hmem, hbenchmark⟩ : ∃ benchmark ∈ benchmarkList root,
      parseBenchmark outOfRange smctrl (syncs root) benchmark = .ok c := by
    obtain ⟨i, hi, hget⟩ := List.mem_iff_getElem.mp hc
    have hbenchmarks := List.forall₂_iff_get.mp (benchmarks_of_parseRoot hconfig)
    have hlt : i < (benchmarkList root).length := hbenchmarks.1 ▸ hi
    refine ⟨(benchmarkList root).get ⟨i, hlt⟩, List.get_mem _ _, ?_⟩
    rw [← hget]
    exact hbenchmarks.2 i hlt hi
  have hlist : benchmark.Holds string number := by
    rw [benchmarkList] at hmem
    cases hvalue : root.getObjectItem "benchmarks" with
    | none =>
        rw [hvalue] at hmem
        cases hmem
    | some value =>
        rw [hvalue] at hmem
        have hholds := hroot.getObjectItem hvalue
        cases value with
        | array elems =>
            cases elems with
            | nil => cases hmem
            | cons elem elems => exact CJson.HoldsElems.of_mem hholds hmem
        | _ => cases hmem
  rw [additionalInfo_of_parseBenchmark hbenchmark] at hitem
  exact hlist.getObjectItem hitem

/-! ## Texts of whole numbers -/

theorem cJSONParse_printed_whole (sprintfE sprintfF : ℚ → List Char) (format : Bool)
    {item : CJson} (h : item.Holds NulFree Whole) :
    cJSONParse strtodWhole (cJSONPrint sprintfE sprintfF format item) = some item := by
  have hrereads : item.Holds NulFree (Rereads strtodWhole sprintfE sprintfF .finite) := by
    refine h.imp (fun s hs _ => hs) (fun d hd _ => ?_) h
    apply rereads_of_whole readsDigits_strtodWhole sprintfE sprintfF _ hd
    obtain ⟨n, rfl, -⟩ := hd
    exact ⟨_, [], strtodWhole_decimal n follows_nil⟩
  rw [cJSONParse_printed format item hrereads, CJson.reread_eq _ h]
  rintro d ⟨n, rfl, -⟩
  exact ⟨n, rfl, rfl⟩

theorem whole_zero : Whole (.ofInt 0) := ⟨0, rfl, by decide⟩

theorem whole_one : Whole (.ofInt 1) := ⟨1, rfl, by decide⟩

theorem holds_benchmark : CJson.HoldsMembers NulFree Whole (named
    [("filename", CJson.string "b".toList), ("thread_count", CJson.number (.ofInt 1)),
      ("block_count", CJson.number (.ofInt 1)), ("data_size", CJson.number (.ofInt 0))]) := by
  have hname : NulFree "b".toList := by decide
  refine ⟨?_, hname, ?_, whole_one, ?_, whole_one, ?_, whole_zero, trivial⟩
  all_goals decide

theorem holds_scenario (settings : List (String × CJson))
    (hsettings : CJson.HoldsMembers NulFree Whole (named (settings ++
      [("filename", CJson.string "b".toList), ("thread_count", CJson.number (.ofInt 1)),
        ("block_count", CJson.number (.ofInt 1)), ("data_size", CJson.number (.ofInt 0))]))) :
    (scenario [] settings).Holds NulFree Whole := by
  have hbenchmarks : NulFree "benchmarks".toList := by decide
  have hname : NulFree "n".toList := by decide
  refine ⟨?_, whole_one, ?_, whole_zero, ?_, whole_zero, ?_, hname, hbenchmarks,
    ⟨hsettings, trivial⟩, trivial⟩
  all_goals decide

/-! ## Results -/

/-- What is printed of an item, in any of the two forms, is parsed as the item again but for
the numbers, which are what their texts are read as. -/
theorem cJSONParse_cJSONPrint (strtod : List Char → Option (Double × List Char))
    (sprintfE sprintfF : ℚ → List Char) (read : ℚ → Double) (item : CJson)
    (h : item.Holds NulFree (Rereads strtod sprintfE sprintfF read)) (format : Bool) :
    cJSONParse strtod (cJSONPrint sprintfE sprintfF format item) = some (item.reread read) :=
  cJSONParse_printed format item h

/-- An item of all kinds.  Its infinite number is not read back. -/
theorem cJSONParse_cJSONPrint_kinds :
    ∃ item : CJson, item = .object [("dims".toList, .array [.number (.ofInt (-32)), .null]),
        ("text".toList, .string ['a', '"', '\n', '\x01', '\\']), ("flag".toList, .bool true),
        ("limit".toList, .number (.infinite false)), ([], .object [])] ∧
      ∀ format, cJSONParse strtodWhole (cJSONPrint (fun _ => []) (fun _ => []) format item) =
        some (.object [("dims".toList, .array [.number (.ofInt (-32)), .null]),
          ("text".toList, .string ['a', '"', '\n', '\x01', '\\']), ("flag".toList, .bool true),
          ("limit".toList, .null), ([], .object [])]) := by
  refine ⟨_, rfl, cJSONParse_cJSONPrint strtodWhole _ _ .finite _ ?_⟩
  have hwhole : Whole (.ofInt (-32)) := ⟨-32, rfl, by decide⟩
  have hread : IsReadNumber strtodWhole (.ofInt (-32)) :=
    ⟨_, [], strtodWhole_decimal (-32) follows_nil⟩
  have hnumber := rereads_of_whole readsDigits_strtodWhole (fun _ => []) (fun _ => []) hread hwhole
  have hstring : NulFree ['a', '"', '\n', '\x01', '\\'] := by decide
  refine ⟨?_, ⟨hnumber, trivial, trivial⟩, ?_, hstring, ?_, trivial, ?_, trivial, ?_, trivial,
    trivial⟩
  all_goals decide

/-- The additional information for a benchmark, when its numbers are whole, reaches the
benchmark as it stands in the configuration, in a text that no terminator cuts short; in
particular `task_host` as a benchmark is configured by it. -/
theorem additionalInfo_reaches_benchmark (strtod : List Char → Option (Double × List Char))
    (sprintfE sprintfF : ℚ → List Char) (hstrtod : ReadsDigits strtod)
    (outOfRange : Double → ℤ) (smctrl : Bool) (text : List Char) (htext : NulFree text)
    (config : GlobalConfiguration)
    (hconfig : parseConfiguration (cJSONParse strtod) outOfRange smctrl text = .ok config)
    (c : BenchmarkConfiguration) (hc : c ∈ config.benchmarks) (item : CJson)
    (hitem : c.additionalInfo = some item) (hwhole : item.Holds (fun _ => True) Whole) :
    NulFree (cJSONPrint sprintfE sprintfF false item) ∧
      cJSONParse strtod (cJSONPrint sprintfE sprintfF false item) = some item ∧
      parseConfiguration (cJSONParse strtod) outOfRange smctrl
          (cJSONPrint sprintfE sprintfF false item) =
        parseRoot outOfRange smctrl item := by
  obtain ⟨root, hroot, hparsed⟩ : ∃ root, cJSONParse strtod text = some root ∧
      parseRoot outOfRange smctrl root = .ok config := by
    rw [parseConfiguration] at hconfig
    split at hconfig
    · cases hconfig
    · exact ⟨_, by assumption, hconfig⟩
  have hholds := holds_additionalInfo (holds_of_cJSONParse hstrtod.consumes htext hroot) hparsed
    hc hitem
  have hprintable : item.Holds NulFree Whole :=
    hholds.imp (fun s hs _ => hs) (fun d _ hd => hd) hwhole
  have hrereads : item.Holds NulFree (Rereads strtod sprintfE sprintfF .finite) :=
    hholds.imp (fun s hs _ => hs)
      (fun d hd hdwhole => rereads_of_whole hstrtod sprintfE sprintfF hd hdwhole) hwhole
  have hparse : cJSONParse strtod (cJSONPrint sprintfE sprintfF false item) = some item := by
    rw [cJSONParse_printed false item hrereads, CJson.reread_eq _ hwhole]
    rintro d ⟨n, rfl, -⟩
    exact ⟨n, rfl, rfl⟩
  refine ⟨nulFree_cJSONPrint false hprintable, hparse, ?_⟩
  rw [parseConfiguration, hparse]

/-- A scenario inside of another one. -/
theorem additionalInfo_reaches_benchmark_scenario :
    ∃ text config c, parseConfiguration (cJSONParse strtodWhole) (fun _ => 0) false text =
        .ok config ∧
      c ∈ config.benchmarks ∧ c.additionalInfo = some (scenario [] []) ∧
      parseConfiguration (cJSONParse strtodWhole) (fun _ => 0) false
          (cJSONPrint (fun _ => []) (fun _ => []) false (scenario [] [])) =
        parseRoot (fun _ => 0) false (scenario [] []) := by
  have hplain : (scenario [] []).Holds NulFree Whole := holds_scenario [] holds_benchmark
  have hroot : (scenario [] [("additional_info", scenario [] [])]).Holds NulFree Whole :=
    holds_scenario _ ⟨by decide, hplain, holds_benchmark⟩
  have hwhole : (scenario [] []).Holds (fun _ => True) Whole :=
    hplain.imp (fun _ _ _ => trivial) (fun _ hd _ => hd) hplain
  have hconfig : parseConfiguration (cJSONParse strtodWhole) (fun _ => 0) false
      (cJSONPrint (fun _ => []) (fun _ => []) true
        (scenario [] [("additional_info", scenario [] [])])) =
      parseRoot (fun _ => 0) false (scenario [] [("additional_info", scenario [] [])]) := by
    rw [parseConfiguration, cJSONParse_printed_whole _ _ true hroot]
  refine ⟨_, _, _, hconfig.trans rfl, List.mem_cons_self, rfl, ?_⟩
  exact (additionalInfo_reaches_benchmark strtodWhole (fun _ => []) (fun _ => [])
    readsDigits_strtodWhole (fun _ => 0) false _ (nulFree_cJSONPrint true hroot) _
    (hconfig.trans rfl) _ List.mem_cons_self _ rfl hwhole).2.2

end A100Partitioning.Config
