import A100Partitioning.Config.CJsonText

/-!
# What the parser of cJSON accepts

Each call of the parser takes one of a few steps, uses up at least a character, and puts no
terminator into a string.  The number of nested calls is at most the length of the text, so
that the parser is not cut short.
-/

namespace A100Partitioning.Config

/-! ## Whitespace -/

theorem skipWhitespace_suffix (text : List Char) : skipWhitespace text <:+ text :=
  List.dropWhile_suffix _

theorem skipWhitespace_skipWhitespace (text : List Char) :
    skipWhitespace (skipWhitespace text) = skipWhitespace text :=
  List.dropWhile_idempotent _ text

/-- What is left of a text of which at least a character is used up. -/
def Behind (rest text : List Char) : Prop := rest <:+ text ∧ rest.length < text.length

theorem Behind.cons {rest text : List Char} (h : rest <:+ text) (c : Char) :
    Behind rest (c :: text) :=
  ⟨h.trans (List.suffix_cons c text), Nat.lt_succ_of_le h.length_le⟩

theorem Behind.trans_suffix {rest text text' : List Char} (h : Behind rest text)
    (htext : text <:+ text') : Behind rest text' :=
  ⟨h.1.trans htext, lt_of_lt_of_le h.2 htext.length_le⟩

theorem Behind.trans {rest text text' : List Char} (h : Behind rest text)
    (htext : Behind text text') : Behind rest text' := h.trans_suffix htext.1

theorem skipWhitespace_append {text : List Char} {c : Char} {rest : List Char}
    (h : skipWhitespace text = c :: rest) (tail : List Char) :
    skipWhitespace (text ++ tail) = c :: (rest ++ tail) := by
  rw [skipWhitespace, List.dropWhile_append]
  rw [skipWhitespace] at h
  rw [h]
  rfl

/-! ## Strings -/

/-- A character that neither ends a string nor begins an escape. -/
def Ordinary (c : Char) : Prop := c ≠ '"' ∧ c ≠ '\\'

theorem scanString_ordinary {c : Char} (h : Ordinary c) (text : List Char) :
    scanString (c :: text) = (scanString text).map fun (inner, rest) => (c :: inner, rest) := by
  rw [scanString.eq_def]
  split <;> grind [Ordinary]

theorem scanString_inv {text inner rest : List Char} (h : scanString text = some (inner, rest)) :
    Behind rest text ∧ inner ⊆ text := by
  fun_induction scanString text generalizing inner rest with
  | case1 => cases h
  | case2 text =>
      cases h
      exact ⟨.cons (List.suffix_refl _) _, List.nil_subset _⟩
  | case3 => cases h
  | case4 c text ih =>
      rw [Option.map_eq_some_iff] at h
      obtain ⟨⟨inner', rest'⟩, hscan, heq⟩ := h
      cases heq
      obtain ⟨hrest, hinner⟩ := ih hscan
      exact ⟨.cons (hrest.1.trans (List.suffix_cons c text)) _,
        List.cons_subset_cons _ (List.cons_subset_cons _ hinner)⟩
  | case5 c text _ _ _ ih =>
      rw [Option.map_eq_some_iff] at h
      obtain ⟨⟨inner', rest'⟩, hscan, heq⟩ := h
      cases heq
      obtain ⟨hrest, hinner⟩ := ih hscan
      exact ⟨.cons hrest.1 _, List.cons_subset_cons _ hinner⟩

theorem hexNibble_lt {c : Char} {d : ℕ} (h : hexNibble c = some d) : d < 16 := by
  have hle {a b : Char} (hab : a ≤ b) : a.toNat ≤ b.toNat := UInt32.le_iff_toNat_le.mp hab
  rw [hexNibble] at h
  split_ifs at h with hdigit hupper hlower <;> rw [Option.some.injEq] at h
  · have hhigh : c.toNat ≤ 57 := hle hdigit.2
    have hzero : '0'.toNat = 48 := rfl
    omega
  · have hhigh : c.toNat ≤ 70 := hle hupper.2
    have hten : 'A'.toNat = 65 := rfl
    omega
  · have hhigh : c.toNat ≤ 102 := hle hlower.2
    have hten : 'a'.toNat = 97 := rfl
    omega

theorem parseHex4_lt (c₃ c₂ c₁ c₀ : Char) : parseHex4 c₃ c₂ c₁ c₀ < 0x10000 := by
  rw [parseHex4]
  split
  · rename_i d₃ d₂ d₁ d₀ h₃ h₂ h₁ h₀
    have hd₃ := hexNibble_lt h₃
    have hd₂ := hexNibble_lt h₂
    have hd₁ := hexNibble_lt h₁
    have hd₀ := hexNibble_lt h₀
    omega
  · decide

theorem ofNat_ne_nul {n : ℕ} (hpos : 0 < n) (hlt : n < 0xd800) : '\x00' ≠ Char.ofNat n := by
  intro h
  have hvalid : n.isValidChar := Or.inl hlt
  have hnat : 0 = (Char.ofNat n).toNat := congrArg Char.toNat h
  rw [Char.toNat_ofNat, if_pos hvalid] at hnat
  exact hpos.ne hnat

theorem nul_not_mem_utf8 {n : ℕ} (hpos : 0 < n) (hlt : n < 0x110000) : '\x00' ∉ utf8 n := by
  intro h
  have hbyte {m : ℕ} (hm : 0 < m ∧ m < 0xd800) : '\x00' ≠ Char.ofNat m :=
    ofNat_ne_nul hm.1 hm.2
  rw [utf8] at h
  split_ifs at h <;> simp only [List.mem_cons, List.not_mem_nil, or_false] at h
  · exact hbyte (by omega) h
  · rcases h with h | h <;> exact hbyte (by omega) h
  · rcases h with h | h | h <;> exact hbyte (by omega) h
  · rcases h with h | h | h | h <;> exact hbyte (by omega) h

theorem nul_not_mem_simpleEscape {c d : Char} (h : simpleEscape c = some d) : '\x00' ≠ d := by
  rw [simpleEscape] at h
  split_ifs at h with hb hf hn hr ht hself <;> rw [Option.some.injEq] at h <;> subst h
  all_goals try decide
  rcases hself with rfl | rfl | rfl <;> decide

theorem nul_not_mem_of_map {inner s : List Char} (bytes : List Char)
    (h : (unescape inner).map (bytes ++ ·) = some s) (hbytes : '\x00' ∉ bytes)
    (hinner : ∀ {s}, unescape inner = some s → '\x00' ∉ s) : '\x00' ∉ s := by
  obtain ⟨s', hs', rfl⟩ := Option.map_eq_some_iff.mp h
  rw [List.mem_append, not_or]
  exact ⟨hbytes, hinner hs'⟩

theorem nul_not_mem_unescape {inner s : List Char} (h : unescape inner = some s)
    (hinner : '\x00' ∉ inner) : '\x00' ∉ s := by
  fun_induction unescape inner generalizing s with
  | case1 =>
      cases h
      exact hinner
  | case2 => cases h
  | case3 => cases h
  | case4 c₃ c₂ c₁ c₀ first hfirst hhigh e₃ e₂ e₁ e₀ input second hsecond =>
      rename_i ih
      apply nul_not_mem_of_map _ h (nul_not_mem_utf8 (by omega) (by omega))
      intro s hs
      exact ih hs (by simp_all)
  | case5 => cases h
  | case6 c₃ c₂ c₁ c₀ input first hfirst hhigh =>
      rename_i ih
      have hlt : first < 0x10000 := parseHex4_lt _ _ _ _
      apply nul_not_mem_of_map _ h (nul_not_mem_utf8 (by omega) (by omega))
      intro s hs
      exact ih hs (by simp_all)
  | case7 c input hu d hd ih =>
      apply nul_not_mem_of_map [d] h
      · rw [List.mem_singleton]
        exact nul_not_mem_simpleEscape hd
      · intro s hs
        exact ih hs (by simp_all)
  | case8 => cases h
  | case9 c input hu hescape ih =>
      rw [List.mem_cons, not_or] at hinner
      apply nul_not_mem_of_map [c] h
      · rw [List.mem_singleton]
        exact hinner.1
      · intro s hs
        exact ih hs hinner.2

theorem exists_quote_of_parseString {text s rest : List Char}
    (h : parseString text = some (s, rest)) : ∃ inner, text = '"' :: inner := by
  rw [parseString.eq_def] at h
  split at h
  · exact ⟨_, rfl⟩
  · cases h

theorem parseString_inv {text s rest : List Char} (h : parseString text = some (s, rest)) :
    Behind rest text ∧ ('\x00' ∉ text → '\x00' ∉ s) := by
  rw [parseString.eq_def] at h
  split at h
  · simp only [Option.bind_eq_bind, Option.bind_eq_some_iff, Prod.exists] at h
    obtain ⟨inner, rest', hscan, s', hs', heq⟩ := h
    cases heq
    obtain ⟨hrest, hinner⟩ := scanString_inv hscan
    refine ⟨.cons hrest.1 _, fun htext => nul_not_mem_unescape hs' ?_⟩
    exact fun hmem => htext (List.mem_cons_of_mem _ (hinner hmem))
  · cases h

theorem scanString_append {text inner rest : List Char} (h : scanString text = some (inner, rest))
    (tail : List Char) : scanString (text ++ tail) = some (inner, rest ++ tail) := by
  fun_induction scanString text generalizing inner rest with
  | case1 => cases h
  | case2 text =>
      cases h
      rfl
  | case3 => cases h
  | case4 c text ih =>
      rw [Option.map_eq_some_iff] at h
      obtain ⟨⟨inner', rest'⟩, hscan, heq⟩ := h
      cases heq
      rw [List.cons_append, List.cons_append, scanString, ih hscan]
      rfl
  | case5 c text hquote hlast hescape ih =>
      rw [Option.map_eq_some_iff] at h
      obtain ⟨⟨inner', rest'⟩, hscan, heq⟩ := h
      cases heq
      have hordinary : Ordinary c := by
        refine ⟨hquote, ?_⟩
        rintro rfl
        cases text with
        | nil => exact hlast rfl rfl
        | cons next text => exact hescape next text rfl rfl
      rw [List.cons_append, scanString_ordinary hordinary, ih hscan]
      rfl

theorem parseString_append {text s rest : List Char} (h : parseString text = some (s, rest))
    (tail : List Char) : parseString (text ++ tail) = some (s, rest ++ tail) := by
  obtain ⟨inner, rfl⟩ := exists_quote_of_parseString h
  rw [parseString] at h
  simp only [Option.bind_eq_bind, Option.bind_eq_some_iff, Prod.exists] at h
  obtain ⟨inner', rest', hscan, s', hs', heq⟩ := h
  cases heq
  simp only [List.cons_append, parseString, scanString_append hscan tail, hs',
    Option.bind_eq_bind, Option.bind_some]
  rfl

/-! ## The steps of the parser -/

section Steps

variable (strtod : List Char → Option (Double × List Char))

/-- What `parse_value` can do with a text. -/
inductive ValueStep (fuel : ℕ) (input : List Char) : CJson → List Char → Prop
  | null (rest : List Char) (hinput : input = ['n', 'u', 'l', 'l'] ++ rest) :
      ValueStep fuel input .null rest
  | bool (value : Bool) (rest : List Char)
      (hinput : input =
        (if value then ['t', 'r', 'u', 'e'] else ['f', 'a', 'l', 's', 'e']) ++ rest) :
      ValueStep fuel input (.bool value) rest
  | string (s rest : List Char) (h : parseString input = some (s, rest)) :
      ValueStep fuel input (.string s) rest
  | number (c : Char) (text : List Char) (d : Double) (rest : List Char)
      (hinput : input = c :: text) (hc : c = '-' ∨ c.isDigit)
      (h : strtod input = some (d, rest)) : ValueStep fuel input (.number d) rest
  | emptyArray (text rest : List Char) (hinput : input = '[' :: text)
      (h : skipWhitespace text = ']' :: rest) : ValueStep fuel input (.array []) rest
  | array (text : List Char) (elems : List CJson) (rest : List Char)
      (hinput : input = '[' :: text)
      (h : parseElems strtod fuel (skipWhitespace text) = some (elems, rest)) :
      ValueStep fuel input (.array elems) rest
  | emptyObject (text rest : List Char) (hinput : input = '{' :: text)
      (h : skipWhitespace text = '}' :: rest) : ValueStep fuel input (.object []) rest
  | object (text : List Char) (members : List (List Char × CJson)) (rest : List Char)
      (hinput : input = '{' :: text)
      (h : parseMembers strtod fuel (skipWhitespace text) = some (members, rest)) :
      ValueStep fuel input (.object members) rest

/-- What a turn of the loop in `parse_array` can do. -/
inductive ElemsStep (fuel : ℕ) (input : List Char) : List CJson → List Char → Prop
  | last (value : CJson) (after rest : List Char)
      (h : parseValue strtod fuel (skipWhitespace input) = some (value, after))
      (hafter : skipWhitespace after = ']' :: rest) : ElemsStep fuel input [value] rest
  | comma (value : CJson) (after text : List Char) (elems : List CJson) (rest : List Char)
      (h : parseValue strtod fuel (skipWhitespace input) = some (value, after))
      (hafter : skipWhitespace after = ',' :: text)
      (helems : parseElems strtod fuel text = some (elems, rest)) :
      ElemsStep fuel input (value :: elems) rest

/-- What a turn of the loop in `parse_object` can do. -/
inductive MembersStep (fuel : ℕ) (input : List Char) :
    List (List Char × CJson) → List Char → Prop
  | last (name colon text : List Char) (value : CJson) (after rest : List Char)
      (hname : parseString (skipWhitespace input) = some (name, colon))
      (hcolon : skipWhitespace colon = ':' :: text)
      (h : parseValue strtod fuel (skipWhitespace text) = some (value, after))
      (hafter : skipWhitespace after = '}' :: rest) : MembersStep fuel input [(name, value)] rest
  | comma (name colon text : List Char) (value : CJson) (after next : List Char)
      (members : List (List Char × CJson)) (rest : List Char)
      (hname : parseString (skipWhitespace input) = some (name, colon))
      (hcolon : skipWhitespace colon = ':' :: text)
      (h : parseValue strtod fuel (skipWhitespace text) = some (value, after))
      (hafter : skipWhitespace after = ',' :: next)
      (hmembers : parseMembers strtod fuel next = some (members, rest)) :
      MembersStep fuel input ((name, value) :: members) rest

variable {strtod} {fuel : ℕ} {input rest : List Char}

theorem valueStep_of_parseValue {item : CJson}
    (h : parseValue strtod (fuel + 1) input = some (item, rest)) :
    ValueStep strtod fuel input item rest := by
  rw [parseValue.eq_def] at h
  dsimp only at h
  split_ifs at h with hnull hfalse htrue
  · cases h
    exact .null _ (List.prefix_iff_eq_append.mp hnull).symm
  · cases h
    exact .bool false _ (List.prefix_iff_eq_append.mp hfalse).symm
  · cases h
    exact .bool true _ (List.prefix_iff_eq_append.mp htrue).symm
  · split at h
    · cases h
    · rename_i c text
      split_ifs at h with hquote hdigit harray hobject
      · obtain ⟨⟨s, rest'⟩, hs, heq⟩ := Option.map_eq_some_iff.mp h
        cases heq
        exact .string s _ hs
      · obtain ⟨⟨d, rest'⟩, hd, heq⟩ := Option.map_eq_some_iff.mp h
        cases heq
        exact .number c text d _ rfl hdigit hd
      · subst harray
        split at h
        · rename_i rest' hempty
          cases h
          exact .emptyArray text _ rfl hempty
        · obtain ⟨⟨elems, rest'⟩, helems, heq⟩ := Option.map_eq_some_iff.mp h
          cases heq
          exact .array text elems _ rfl helems
      · subst hobject
        split at h
        · rename_i rest' hempty
          cases h
          exact .emptyObject text _ rfl hempty
        · obtain ⟨⟨members, rest'⟩, hmembers, heq⟩ := Option.map_eq_some_iff.mp h
          cases heq
          exact .object text members _ rfl hmembers

theorem elemsStep_of_parseElems {elems : List CJson}
    (h : parseElems strtod (fuel + 1) input = some (elems, rest)) :
    ElemsStep strtod fuel input elems rest := by
  simp only [parseElems, Option.bind_eq_bind, Option.bind_eq_some_iff, Prod.exists] at h
  obtain ⟨value, after, hvalue, h⟩ := h
  split at h
  · rename_i text hafter
    simp only [Option.bind_eq_some_iff, Prod.exists] at h
    obtain ⟨elems', rest', helems, heq⟩ := h
    cases heq
    exact .comma value after text elems' _ hvalue hafter helems
  · rename_i rest' hafter
    cases h
    exact .last value after _ hvalue hafter
  · cases h

theorem membersStep_of_parseMembers {members : List (List Char × CJson)}
    (h : parseMembers strtod (fuel + 1) input = some (members, rest)) :
    MembersStep strtod fuel input members rest := by
  simp only [parseMembers, Option.bind_eq_bind, Option.bind_eq_some_iff, Prod.exists] at h
  obtain ⟨name, colon, hname, h⟩ := h
  split at h
  · rename_i text hcolon
    simp only [Option.bind_eq_some_iff, Prod.exists] at h
    obtain ⟨value, after, hvalue, h⟩ := h
    split at h
    · rename_i next hafter
      simp only [Option.bind_eq_some_iff, Prod.exists] at h
      obtain ⟨members', rest', hmembers, heq⟩ := h
      cases heq
      exact .comma name colon text value after next members' _ hname hcolon hvalue hafter hmembers
    · rename_i rest' hafter
      cases h
      exact .last name colon text value after _ hname hcolon hvalue hafter
    · cases h
  · cases h

theorem parseElems_last {value : CJson} {after : List Char}
    (h : parseValue strtod fuel (skipWhitespace input) = some (value, after))
    (hafter : skipWhitespace after = ']' :: rest) :
    parseElems strtod (fuel + 1) input = some ([value], rest) := by
  simp only [parseElems, h, Option.bind_eq_bind, Option.bind_some, hafter]
  rfl

theorem parseElems_comma {value : CJson} {after text : List Char} {elems : List CJson}
    (h : parseValue strtod fuel (skipWhitespace input) = some (value, after))
    (hafter : skipWhitespace after = ',' :: text)
    (helems : parseElems strtod fuel text = some (elems, rest)) :
    parseElems strtod (fuel + 1) input = some (value :: elems, rest) := by
  simp only [parseElems, h, Option.bind_eq_bind, Option.bind_some, hafter, helems]
  rfl

theorem parseMembers_last {name colon text after : List Char} {value : CJson}
    (hname : parseString (skipWhitespace input) = some (name, colon))
    (hcolon : skipWhitespace colon = ':' :: text)
    (h : parseValue strtod fuel (skipWhitespace text) = some (value, after))
    (hafter : skipWhitespace after = '}' :: rest) :
    parseMembers strtod (fuel + 1) input = some ([(name, value)], rest) := by
  simp only [parseMembers, hname, Option.bind_eq_bind, Option.bind_some, hcolon, h, hafter]
  rfl

theorem parseMembers_comma {name colon text after next : List Char} {value : CJson}
    {members : List (List Char × CJson)}
    (hname : parseString (skipWhitespace input) = some (name, colon))
    (hcolon : skipWhitespace colon = ':' :: text)
    (h : parseValue strtod fuel (skipWhitespace text) = some (value, after))
    (hafter : skipWhitespace after = ',' :: next)
    (hmembers : parseMembers strtod fuel next = some (members, rest)) :
    parseMembers strtod (fuel + 1) input = some ((name, value) :: members, rest) := by
  simp only [parseMembers, hname, Option.bind_eq_bind, Option.bind_some, hcolon, h, hafter,
    hmembers]
  rfl

theorem parseValue_string (fuel : ℕ) (text : List Char) :
    parseValue strtod (fuel + 1) ('"' :: text) =
      (parseString ('"' :: text)).map fun (s, rest) => (.string s, rest) := by
  simp [parseValue]

theorem parseValue_number (fuel : ℕ) {c : Char} (hc : c = '-' ∨ c.isDigit) (text : List Char) :
    parseValue strtod (fuel + 1) (c :: text) =
      (strtod (c :: text)).map fun (d, rest) => (.number d, rest) := by
  have hne : c ≠ 'n' ∧ c ≠ 'f' ∧ c ≠ 't' ∧ c ≠ '"' := by
    rcases hc with rfl | hdigit
    · decide
    · refine ⟨?_, ?_, ?_, ?_⟩ <;> rintro rfl <;> exact absurd hdigit (by decide)
  obtain ⟨hn, hf, ht, hquote⟩ := hne
  simp [parseValue, hn.symm, hf.symm, ht.symm, hquote, hc]

theorem parseValue_array_nil (fuel : ℕ) {space rest : List Char}
    (hspace : skipWhitespace space = ']' :: rest) :
    parseValue strtod (fuel + 1) ('[' :: space) = some (.array [], rest) := by
  simp [parseValue, hspace]

theorem parseValue_array (fuel : ℕ) {c : Char} (hc : c ≠ ']') {space text : List Char}
    (hspace : skipWhitespace space = c :: text) :
    parseValue strtod (fuel + 1) ('[' :: space) =
      (parseElems strtod fuel (c :: text)).map fun (elems, rest) => (.array elems, rest) := by
  simp [parseValue, hspace, hc]

theorem parseValue_object_nil (fuel : ℕ) {space rest : List Char}
    (hspace : skipWhitespace space = '}' :: rest) :
    parseValue strtod (fuel + 1) ('{' :: space) = some (.object [], rest) := by
  simp [parseValue, hspace]

theorem parseValue_object (fuel : ℕ) {c : Char} (hc : c ≠ '}') {space text : List Char}
    (hspace : skipWhitespace space = c :: text) :
    parseValue strtod (fuel + 1) ('{' :: space) =
      (parseMembers strtod fuel (c :: text)).map
        fun (members, rest) => (.object members, rest) := by
  simp [parseValue, hspace, hc]

theorem exists_head_of_parseElems {elems : List CJson}
    (h : parseElems strtod fuel (skipWhitespace input) = some (elems, rest)) :
    ∃ c text, skipWhitespace input = c :: text ∧ c ≠ ']' := by
  have hvalue : ∃ fuel value after,
      parseValue strtod fuel (skipWhitespace input) = some (value, after) := by
    cases fuel with
    | zero => cases h
    | succ fuel =>
        cases elemsStep_of_parseElems h with
        | last value after _ hvalue _ =>
            rw [skipWhitespace_skipWhitespace] at hvalue
            exact ⟨fuel, value, after, hvalue⟩
        | comma value after _ _ _ hvalue _ _ =>
            rw [skipWhitespace_skipWhitespace] at hvalue
            exact ⟨fuel, value, after, hvalue⟩
  obtain ⟨fuel, value, after, hvalue⟩ := hvalue
  cases fuel with
  | zero => cases hvalue
  | succ fuel =>
      cases htext : skipWhitespace input with
      | nil =>
          rw [htext] at hvalue
          simp [parseValue] at hvalue
      | cons c text =>
          refine ⟨c, text, rfl, ?_⟩
          rintro rfl
          rw [htext] at hvalue
          simp [parseValue] at hvalue

theorem exists_head_of_parseMembers {members : List (List Char × CJson)}
    (h : parseMembers strtod fuel (skipWhitespace input) = some (members, rest)) :
    ∃ c text, skipWhitespace input = c :: text ∧ c ≠ '}' := by
  have hname : ∃ name colon, parseString (skipWhitespace input) = some (name, colon) := by
    cases fuel with
    | zero => cases h
    | succ fuel =>
        cases membersStep_of_parseMembers h with
        | last name colon _ _ _ _ hname _ _ _ =>
            rw [skipWhitespace_skipWhitespace] at hname
            exact ⟨name, colon, hname⟩
        | comma name colon _ _ _ _ _ _ hname _ _ _ _ =>
            rw [skipWhitespace_skipWhitespace] at hname
            exact ⟨name, colon, hname⟩
  obtain ⟨name, colon, hname⟩ := hname
  obtain ⟨text, htext⟩ := exists_quote_of_parseString hname
  exact ⟨'"', text, htext, by decide⟩

theorem parseValue_of_valueStep {item : CJson} (h : ValueStep strtod fuel input item rest) :
    parseValue strtod (fuel + 1) input = some (item, rest) := by
  cases h with
  | null _ hinput => simp [hinput, parseValue]
  | bool value _ hinput => cases value <;> simp [hinput, parseValue]
  | string s _ hs =>
      obtain ⟨text, rfl⟩ := exists_quote_of_parseString hs
      rw [parseValue_string, hs]
      rfl
  | number c text d _ hinput hc hd =>
      rw [hinput] at hd ⊢
      rw [parseValue_number fuel hc, hd]
      rfl
  | emptyArray text _ hinput hempty =>
      rw [hinput]
      exact parseValue_array_nil fuel hempty
  | array text elems _ hinput helems =>
      obtain ⟨c, tail, htext, hc⟩ := exists_head_of_parseElems helems
      rw [hinput, parseValue_array fuel hc htext, ← htext, helems]
      rfl
  | emptyObject text _ hinput hempty =>
      rw [hinput]
      exact parseValue_object_nil fuel hempty
  | object text members _ hinput hmembers =>
      obtain ⟨c, tail, htext, hc⟩ := exists_head_of_parseMembers hmembers
      rw [hinput, parseValue_object fuel hc htext, ← htext, hmembers]
      rfl

end Steps

/-! ## What is accepted -/

namespace CJson

mutual

/-- Every string in an item, also each name, is as `string` says, and every number as `number`
says. -/
def Holds (string : List Char → Prop) (number : Double → Prop) : CJson → Prop
  | .number d => number d
  | .string s => string s
  | .array elems => HoldsElems string number elems
  | .object members => HoldsMembers string number members
  | _ => True

/-- `Holds` for what is in an array. -/
def HoldsElems (string : List Char → Prop) (number : Double → Prop) : List CJson → Prop
  | [] => True
  | elem :: elems => elem.Holds string number ∧ HoldsElems string number elems

/-- `Holds` for what is in an object. -/
def HoldsMembers (string : List Char → Prop) (number : Double → Prop) :
    List (List Char × CJson) → Prop
  | [] => True
  | (name, value) :: members =>
      string name ∧ value.Holds string number ∧ HoldsMembers string number members

end

end CJson

/-- A string whose bytes end where it ends. -/
def NulFree (s : List Char) : Prop := '\x00' ∉ s

instance (s : List Char) : Decidable (NulFree s) := inferInstanceAs (Decidable ('\x00' ∉ s))

/-- A text begins with a space or with what ends an item in a list. -/
def Separated (text : List Char) : Prop :=
  ∃ c ∈ text.head?, c.toNat ≤ 32 ∨ c = ',' ∨ c = ']' ∨ c = '}'

theorem separated_of_skipWhitespace {after rest : List Char} {c : Char}
    (h : skipWhitespace after = c :: rest) (hc : c = ',' ∨ c = ']' ∨ c = '}') :
    Separated after := by
  cases after with
  | nil => cases h
  | cons first after =>
      refine ⟨first, rfl, ?_⟩
      by_cases hspace : first.toNat ≤ 32
      · exact .inl hspace
      · rw [skipWhitespace, List.dropWhile_cons_of_neg (by simpa using hspace)] at h
        cases h
        exact .inr hc

section Accepted

variable (strtod : List Char → Option (Double × List Char))

/-- `strtod` returns what is behind the number, of which there is at least a character. -/
def ConsumesNumber : Prop := ∀ text d rest, strtod text = some (d, rest) → Behind rest text

/-- A number that `strtod` can return. -/
def IsReadNumber (d : Double) : Prop := ∃ text rest, strtod text = some (d, rest)

variable {strtod}

theorem behind_of_skipWhitespace {rest text : List Char} (h : Behind rest (skipWhitespace text)) :
    Behind rest text := h.trans_suffix (skipWhitespace_suffix text)

theorem behind_of_separator {c : Char} {rest after : List Char}
    (h : skipWhitespace after = c :: rest) : Behind rest after := by
  apply behind_of_skipWhitespace
  rw [h]
  exact .cons (List.suffix_refl rest) c

theorem parse_behind (hstrtod : ConsumesNumber strtod) (fuel : ℕ) :
    (∀ {input item rest}, parseValue strtod fuel input = some (item, rest) →
      Behind rest input) ∧
    (∀ {input elems rest}, parseElems strtod fuel input = some (elems, rest) →
      Behind rest input) ∧
    (∀ {input members rest}, parseMembers strtod fuel input = some (members, rest) →
      Behind rest input) := by
  induction fuel with
  | zero => exact ⟨nofun, nofun, nofun⟩
  | succ fuel ih =>
      obtain ⟨ihValue, ihElems, ihMembers⟩ := ih
      refine ⟨fun h => ?_, fun h => ?_, fun h => ?_⟩
      · cases valueStep_of_parseValue h with
        | null _ hinput =>
            rw [hinput]
            exact .cons (List.suffix_append ['u', 'l', 'l'] _) 'n'
        | bool value _ hinput =>
            rw [hinput]
            cases value with
            | true => exact .cons (List.suffix_append ['r', 'u', 'e'] _) 't'
            | false => exact .cons (List.suffix_append ['a', 'l', 's', 'e'] _) 'f'
        | string s _ hs => exact (parseString_inv hs).1
        | number c text d _ _ _ hd => exact hstrtod _ _ _ hd
        | emptyArray text _ hinput hempty =>
            rw [hinput]
            exact .cons (behind_of_separator hempty).1 _
        | array text elems _ hinput helems =>
            rw [hinput]
            exact .cons (behind_of_skipWhitespace (ihElems helems)).1 _
        | emptyObject text _ hinput hempty =>
            rw [hinput]
            exact .cons (behind_of_separator hempty).1 _
        | object text members _ hinput hmembers =>
            rw [hinput]
            exact .cons (behind_of_skipWhitespace (ihMembers hmembers)).1 _
      · cases elemsStep_of_parseElems h with
        | last value after _ hvalue hafter =>
            exact (behind_of_separator hafter).trans
              (behind_of_skipWhitespace (ihValue hvalue))
        | comma value after text elems _ hvalue hafter helems =>
            exact ((ihElems helems).trans (behind_of_separator hafter)).trans
              (behind_of_skipWhitespace (ihValue hvalue))
      · cases membersStep_of_parseMembers h with
        | last name colon text value after _ hname hcolon hvalue hafter =>
            exact (((behind_of_separator hafter).trans
              (behind_of_skipWhitespace (ihValue hvalue))).trans
              (behind_of_separator hcolon)).trans
              (behind_of_skipWhitespace (parseString_inv hname).1)
        | comma name colon text value after next members _ hname hcolon hvalue hafter hmembers =>
            exact ((((ihMembers hmembers).trans (behind_of_separator hafter)).trans
              (behind_of_skipWhitespace (ihValue hvalue))).trans
              (behind_of_separator hcolon)).trans
              (behind_of_skipWhitespace (parseString_inv hname).1)

theorem nul_not_mem_of_suffix {rest text : List Char} (htext : '\x00' ∉ text)
    (h : rest <:+ text) : '\x00' ∉ rest := fun hmem => htext (h.subset hmem)

theorem nul_not_mem_skipWhitespace {text : List Char} (htext : '\x00' ∉ text) :
    '\x00' ∉ skipWhitespace text := nul_not_mem_of_suffix htext (skipWhitespace_suffix text)

/-- The strings in a parsed item end where their bytes do, and its numbers are from `strtod`. -/
theorem parse_holds (hstrtod : ConsumesNumber strtod) (fuel : ℕ) :
    (∀ {input item rest}, parseValue strtod fuel input = some (item, rest) →
      '\x00' ∉ input → item.Holds NulFree (IsReadNumber strtod)) ∧
    (∀ {input elems rest}, parseElems strtod fuel input = some (elems, rest) →
      '\x00' ∉ input → CJson.HoldsElems NulFree (IsReadNumber strtod) elems) ∧
    (∀ {input members rest}, parseMembers strtod fuel input = some (members, rest) →
      '\x00' ∉ input → CJson.HoldsMembers NulFree (IsReadNumber strtod) members) := by
  induction fuel with
  | zero => exact ⟨nofun, nofun, nofun⟩
  | succ fuel ih =>
      obtain ⟨ihValue, ihElems, ihMembers⟩ := ih
      obtain ⟨behindValue, behindElems, behindMembers⟩ := parse_behind hstrtod fuel
      refine ⟨fun h hinput => ?_, fun h hinput => ?_, fun h hinput => ?_⟩
      · cases valueStep_of_parseValue h with
        | null _ _ => exact trivial
        | bool value _ _ => exact trivial
        | string s _ hs => exact (parseString_inv hs).2 hinput
        | number c text d _ _ _ hd => exact ⟨_, _, hd⟩
        | emptyArray _ _ _ _ => exact trivial
        | array text elems _ htext helems =>
            rw [htext, List.mem_cons, not_or] at hinput
            exact ihElems helems (nul_not_mem_skipWhitespace hinput.2)
        | emptyObject _ _ _ _ => exact trivial
        | object text members _ htext hmembers =>
            rw [htext, List.mem_cons, not_or] at hinput
            exact ihMembers hmembers (nul_not_mem_skipWhitespace hinput.2)
      · have hskip := nul_not_mem_skipWhitespace hinput
        cases elemsStep_of_parseElems h with
        | last value after _ hvalue _ => exact ⟨ihValue hvalue hskip, trivial⟩
        | comma value after text elems _ hvalue hafter helems =>
            have hrest := (behind_of_separator hafter).trans (behindValue hvalue)
            exact ⟨ihValue hvalue hskip, ihElems helems (nul_not_mem_of_suffix hskip hrest.1)⟩
      · have hskip := nul_not_mem_skipWhitespace hinput
        cases membersStep_of_parseMembers h with
        | last name colon text value after _ hname hcolon hvalue _ =>
            obtain ⟨hbehind, hnul⟩ := parseString_inv hname
            have htext := nul_not_mem_of_suffix hskip ((behind_of_separator hcolon).trans hbehind).1
            exact ⟨hnul hskip, ihValue hvalue (nul_not_mem_skipWhitespace htext), trivial⟩
        | comma name colon text value after next members _ hname hcolon hvalue hafter hmembers =>
            obtain ⟨hbehind, hnul⟩ := parseString_inv hname
            have htext := nul_not_mem_of_suffix hskip ((behind_of_separator hcolon).trans hbehind).1
            have hnext := (behind_of_separator hafter).trans
              (behind_of_skipWhitespace (behindValue hvalue))
            exact ⟨hnul hskip, ihValue hvalue (nul_not_mem_skipWhitespace htext),
              ihMembers hmembers (nul_not_mem_of_suffix htext hnext.1)⟩

/-- A parse that uses up no more characters than it may have nested calls does not depend on
how many of them it may have. -/
theorem parse_fuel (hstrtod : ConsumesNumber strtod) (fuel : ℕ) :
    (∀ {input item rest n}, parseValue strtod fuel input = some (item, rest) →
      input.length ≤ n + rest.length → parseValue strtod n input = some (item, rest)) ∧
    (∀ {input elems rest n}, parseElems strtod fuel input = some (elems, rest) →
      input.length ≤ n + rest.length → parseElems strtod n input = some (elems, rest)) ∧
    (∀ {input members rest n}, parseMembers strtod fuel input = some (members, rest) →
      input.length ≤ n + rest.length →
      parseMembers strtod n input = some (members, rest)) := by
  induction fuel with
  | zero => exact ⟨nofun, nofun, nofun⟩
  | succ fuel ih =>
      obtain ⟨ihValue, ihElems, ihMembers⟩ := ih
      obtain ⟨behindValue, behindElems, behindMembers⟩ := parse_behind hstrtod (fuel + 1)
      refine ⟨fun {input item rest n} h hn => ?_, fun {input elems rest n} h hn => ?_,
        fun {input members rest n} h hn => ?_⟩
      · have hless := (behindValue h).2
        obtain ⟨n, rfl⟩ : ∃ m, n = m + 1 := ⟨n - 1, by omega⟩
        apply parseValue_of_valueStep
        cases valueStep_of_parseValue h with
        | null _ hinput => exact .null _ hinput
        | bool value _ hinput => exact .bool value _ hinput
        | string s _ hs => exact .string s _ hs
        | number c text d _ hinput hc hd => exact .number c text d _ hinput hc hd
        | emptyArray text _ hinput hempty => exact .emptyArray text _ hinput hempty
        | array text elems _ hinput helems =>
            have hskip := (skipWhitespace_suffix text).length_le
            have hlength := congrArg List.length hinput
            rw [List.length_cons] at hlength
            exact .array text elems _ hinput (ihElems helems (by omega))
        | emptyObject text _ hinput hempty => exact .emptyObject text _ hinput hempty
        | object text members _ hinput hmembers =>
            have hskip := (skipWhitespace_suffix text).length_le
            have hlength := congrArg List.length hinput
            rw [List.length_cons] at hlength
            exact .object text members _ hinput (ihMembers hmembers (by omega))
      · have hless := (behindElems h).2
        have hskip := (skipWhitespace_suffix input).length_le
        obtain ⟨n, rfl⟩ : ∃ m, n = m + 1 := ⟨n - 1, by omega⟩
        cases elemsStep_of_parseElems h with
        | last value after _ hvalue hafter =>
            have hrest := (behind_of_separator hafter).2
            exact parseElems_last (ihValue hvalue (by omega)) hafter
        | comma value after text elems _ hvalue hafter helems =>
            have hrest := (parse_behind hstrtod fuel).2.1 helems
            have htext := (behind_of_separator hafter).2
            have hbehind := ((parse_behind hstrtod fuel).1 hvalue).2
            have hlt := hrest.2
            exact parseElems_comma (ihValue hvalue (by omega)) hafter
              (ihElems helems (by omega))
      · have hless := (behindMembers h).2
        have hskip := (skipWhitespace_suffix input).length_le
        obtain ⟨n, rfl⟩ : ∃ m, n = m + 1 := ⟨n - 1, by omega⟩
        cases membersStep_of_parseMembers h with
        | last name colon text value after _ hname hcolon hvalue hafter =>
            have hstring := (parseString_inv hname).1.2
            have htext := (behind_of_separator hcolon).2
            have hrest := (behind_of_separator hafter).2
            have hskip' := (skipWhitespace_suffix text).length_le
            exact parseMembers_last hname hcolon (ihValue hvalue (by omega)) hafter
        | comma name colon text value after next members _ hname hcolon hvalue hafter hmembers =>
            have hstring := (parseString_inv hname).1.2
            have htext := (behind_of_separator hcolon).2
            have hnext := (behind_of_separator hafter).2
            have hskip' := (skipWhitespace_suffix text).length_le
            have hbehind := ((parse_behind hstrtod fuel).1 hvalue).2
            have hrest := ((parse_behind hstrtod fuel).2.2 hmembers).2
            exact parseMembers_comma hname hcolon (ihValue hvalue (by omega)) hafter
              (ihMembers hmembers (by omega))

theorem skipWhitespace_append_of_parseValue {fuel : ℕ} {input : List Char}
    {result : CJson × List Char}
    (h : parseValue strtod fuel (skipWhitespace input) = some result) (tail : List Char) :
    skipWhitespace (input ++ tail) = skipWhitespace input ++ tail := by
  cases htext : skipWhitespace input with
  | nil =>
      rw [htext] at h
      cases fuel with
      | zero => cases h
      | succ fuel => simp [parseValue] at h
  | cons c text => exact skipWhitespace_append htext tail

theorem skipWhitespace_append_of_parseString {input : List Char}
    {result : List Char × List Char} (h : parseString (skipWhitespace input) = some result)
    (tail : List Char) : skipWhitespace (input ++ tail) = skipWhitespace input ++ tail := by
  obtain ⟨inner, htext⟩ := exists_quote_of_parseString h
  rw [htext]
  exact skipWhitespace_append htext tail

variable (strtod) in
/-- A number that ends in front of a separator ends there whatever is behind. -/
def StopsAtSeparator : Prop := ∀ text d rest tail, strtod text = some (d, rest) →
  Separated rest → strtod (text ++ tail) = some (d, rest ++ tail)

/-- What the parser has accepted does not depend on what is behind it. -/
theorem parse_append (hstrtod : StopsAtSeparator strtod) (tail : List Char) (fuel : ℕ) :
    (∀ {input item rest}, parseValue strtod fuel input = some (item, rest) →
      (∀ d, item = .number d → Separated rest) →
      parseValue strtod fuel (input ++ tail) = some (item, rest ++ tail)) ∧
    (∀ {input elems rest}, parseElems strtod fuel input = some (elems, rest) →
      parseElems strtod fuel (input ++ tail) = some (elems, rest ++ tail)) ∧
    (∀ {input members rest}, parseMembers strtod fuel input = some (members, rest) →
      parseMembers strtod fuel (input ++ tail) = some (members, rest ++ tail)) := by
  induction fuel with
  | zero => exact ⟨nofun, nofun, nofun⟩
  | succ fuel ih =>
      obtain ⟨ihValue, ihElems, ihMembers⟩ := ih
      refine ⟨fun {input item rest} h hseparated => ?_, fun {input elems rest} h => ?_,
        fun {input members rest} h => ?_⟩
      · apply parseValue_of_valueStep
        cases valueStep_of_parseValue h with
        | null _ hinput => exact .null _ (by rw [hinput, List.append_assoc])
        | bool value _ hinput => exact .bool value _ (by rw [hinput, List.append_assoc])
        | string s _ hs => exact .string s _ (parseString_append hs tail)
        | number c text d _ hinput hc hd =>
            exact .number c (text ++ tail) d _ (by rw [hinput, List.cons_append]) hc
              (hstrtod _ d _ tail hd (hseparated d rfl))
        | emptyArray text _ hinput hempty =>
            exact .emptyArray (text ++ tail) _ (by rw [hinput, List.cons_append])
              (skipWhitespace_append hempty tail)
        | array text elems _ hinput helems =>
            obtain ⟨c, inner, htext, -⟩ := exists_head_of_parseElems helems
            have hcall := ihElems helems
            rw [htext, List.cons_append, ← skipWhitespace_append htext] at hcall
            exact .array (text ++ tail) elems _ (by rw [hinput, List.cons_append]) hcall
        | emptyObject text _ hinput hempty =>
            exact .emptyObject (text ++ tail) _ (by rw [hinput, List.cons_append])
              (skipWhitespace_append hempty tail)
        | object text members _ hinput hmembers =>
            obtain ⟨c, inner, htext, -⟩ := exists_head_of_parseMembers hmembers
            have hcall := ihMembers hmembers
            rw [htext, List.cons_append, ← skipWhitespace_append htext] at hcall
            exact .object (text ++ tail) members _ (by rw [hinput, List.cons_append]) hcall
      · cases elemsStep_of_parseElems h with
        | last value after _ hvalue hafter =>
            have hcall := ihValue hvalue fun d _ => separated_of_skipWhitespace hafter (by simp)
            rw [← skipWhitespace_append_of_parseValue hvalue] at hcall
            exact parseElems_last hcall (skipWhitespace_append hafter tail)
        | comma value after text elems _ hvalue hafter helems =>
            have hcall := ihValue hvalue fun d _ => separated_of_skipWhitespace hafter (by simp)
            rw [← skipWhitespace_append_of_parseValue hvalue] at hcall
            exact parseElems_comma hcall (skipWhitespace_append hafter tail) (ihElems helems)
      · cases membersStep_of_parseMembers h with
        | last name colon text value after _ hname hcolon hvalue hafter =>
            have hstring := parseString_append hname tail
            rw [← skipWhitespace_append_of_parseString hname] at hstring
            have hcall := ihValue hvalue fun d _ => separated_of_skipWhitespace hafter (by simp)
            rw [← skipWhitespace_append_of_parseValue hvalue] at hcall
            exact parseMembers_last hstring (skipWhitespace_append hcolon tail) hcall
              (skipWhitespace_append hafter tail)
        | comma name colon text value after next members _ hname hcolon hvalue hafter hmembers =>
            have hstring := parseString_append hname tail
            rw [← skipWhitespace_append_of_parseString hname] at hstring
            have hcall := ihValue hvalue fun d _ => separated_of_skipWhitespace hafter (by simp)
            rw [← skipWhitespace_append_of_parseValue hvalue] at hcall
            exact parseMembers_comma hstring (skipWhitespace_append hcolon tail) hcall
              (skipWhitespace_append hafter tail) (ihMembers hmembers)

theorem cJSONParse_eq_some_iff (hstrtod : ConsumesNumber strtod) {text : List Char}
    {item : CJson} :
    cJSONParse strtod text = some item ↔
      ∃ fuel rest, parseValue strtod fuel (skipWhitespace text) = some (item, rest) := by
  have hskip := (skipWhitespace_suffix text).length_le
  rw [cJSONParse, Option.map_eq_some_iff]
  constructor
  · rintro ⟨⟨_, rest⟩, hparse, rfl⟩
    exact ⟨_, rest, hparse⟩
  · rintro ⟨fuel, rest, hparse⟩
    exact ⟨(item, rest), (parse_fuel hstrtod fuel).1 hparse (by omega), rfl⟩

theorem holds_of_cJSONParse (hstrtod : ConsumesNumber strtod) {text : List Char}
    {item : CJson} (htext : '\x00' ∉ text) (h : cJSONParse strtod text = some item) :
    item.Holds NulFree (IsReadNumber strtod) := by
  rw [cJSONParse, Option.map_eq_some_iff] at h
  obtain ⟨⟨_, rest⟩, hparse, rfl⟩ := h
  exact (parse_holds hstrtod _).1 hparse (nul_not_mem_skipWhitespace htext)

end Accepted

end A100Partitioning.Config
