import A100Partitioning.Config.ParseConfiguration

/-!
# JSON texts of cJSON

`cJSON_Parse` and the printing of an item.  A text is a C string, whose bytes are the characters
below 256; it ends with the list.
-/

namespace A100Partitioning.Config

/-! ## Strings -/

/-- The value of a hexadecimal digit in `parse_hex4`. -/
def hexNibble (c : Char) : Option ℕ :=
  if '0' ≤ c ∧ c ≤ '9' then some (c.toNat - '0'.toNat)
  else if 'A' ≤ c ∧ c ≤ 'F' then some (10 + c.toNat - 'A'.toNat)
  else if 'a' ≤ c ∧ c ≤ 'f' then some (10 + c.toNat - 'a'.toNat)
  else none

/-- `parse_hex4`, which returns 0 for anything but digits. -/
def parseHex4 (c₃ c₂ c₁ c₀ : Char) : ℕ :=
  match hexNibble c₃, hexNibble c₂, hexNibble c₁, hexNibble c₀ with
  | some d₃, some d₂, some d₁, some d₀ => ((d₃ * 16 + d₂) * 16 + d₁) * 16 + d₀
  | _, _, _, _ => 0

/-- The bytes that encode a character. -/
def utf8 (codepoint : ℕ) : List Char :=
  if codepoint < 0x80 then [Char.ofNat codepoint]
  else if codepoint < 0x800 then
    [Char.ofNat (0xc0 + codepoint / 0x40), Char.ofNat (0x80 + codepoint % 0x40)]
  else if codepoint < 0x10000 then
    [Char.ofNat (0xe0 + codepoint / 0x1000), Char.ofNat (0x80 + codepoint / 0x40 % 0x40),
      Char.ofNat (0x80 + codepoint % 0x40)]
  else
    [Char.ofNat (0xf0 + codepoint / 0x40000), Char.ofNat (0x80 + codepoint / 0x1000 % 0x40),
      Char.ofNat (0x80 + codepoint / 0x40 % 0x40), Char.ofNat (0x80 + codepoint % 0x40)]

/-- The byte that an escape of two characters stands for. -/
def simpleEscape (c : Char) : Option Char :=
  if c = 'b' then some '\x08'
  else if c = 'f' then some '\x0c'
  else if c = 'n' then some '\n'
  else if c = 'r' then some '\r'
  else if c = 't' then some '\t'
  else if c = '"' ∨ c = '\\' ∨ c = '/' then some c
  else none

/-- The second loop in `parse_string`, over what is between the quotes. -/
def unescape : List Char → Option (List Char)
  | [] => some []
  | '\\' :: 'u' :: c₃ :: c₂ :: c₁ :: c₀ :: input =>
      let first := parseHex4 c₃ c₂ c₁ c₀
      if 0xdc00 ≤ first ∧ first ≤ 0xdfff ∨ first = 0 then none
      else if 0xd800 ≤ first ∧ first ≤ 0xdbff then
        match input with
        | '\\' :: 'u' :: e₃ :: e₂ :: e₁ :: e₀ :: input =>
            let second := parseHex4 e₃ e₂ e₁ e₀
            if second < 0xdc00 ∨ 0xdfff < second then none
            else (unescape input).map
              (utf8 (0x10000 + (first % 0x400 * 0x400 + second % 0x400)) ++ ·)
        | _ => none
      else (unescape input).map (utf8 first ++ ·)
  | '\\' :: c :: input =>
      match simpleEscape c with
      | some c => (unescape input).map (c :: ·)
      | none => none
  | c :: input => (unescape input).map (c :: ·)

/-- The first loop in `parse_string`: what is in front of the closing quote, and behind it. -/
def scanString : List Char → Option (List Char × List Char)
  | [] => none
  | '"' :: input => some ([], input)
  | ['\\'] => none
  | '\\' :: c :: input => (scanString input).map fun (inner, rest) => ('\\' :: c :: inner, rest)
  | c :: input => (scanString input).map fun (inner, rest) => (c :: inner, rest)

/-- `parse_string`. -/
def parseString : List Char → Option (List Char × List Char)
  | '"' :: input => do
      let (inner, rest) ← scanString input
      return (← unescape inner, rest)
  | _ => none

/-! ## Items -/

/-- `skip_whitespace`. -/
def skipWhitespace (text : List Char) : List Char := text.dropWhile fun c => c.toNat ≤ 32

section Parse

variable (strtod : List Char → Option (Double × List Char))

mutual

/-- `parse_value`, whose calls for what an item contains go on with less text. -/
def parseValue : ℕ → List Char → Option (CJson × List Char)
  | 0, _ => none
  | fuel + 1, input =>
      if ['n', 'u', 'l', 'l'] <+: input then some (.null, input.drop 4)
      else if ['f', 'a', 'l', 's', 'e'] <+: input then some (.bool false, input.drop 5)
      else if ['t', 'r', 'u', 'e'] <+: input then some (.bool true, input.drop 4)
      else match input with
        | [] => none
        | c :: rest =>
            if c = '"' then (parseString input).map fun (s, rest) => (.string s, rest)
            else if c = '-' ∨ c.isDigit then
              (strtod input).map fun (d, rest) => (.number d, rest)
            else if c = '[' then
              match skipWhitespace rest with
              | ']' :: rest => some (.array [], rest)
              | rest => (parseElems fuel rest).map fun (elems, rest) => (.array elems, rest)
            else if c = '{' then
              match skipWhitespace rest with
              | '}' :: rest => some (.object [], rest)
              | rest =>
                  (parseMembers fuel rest).map fun (members, rest) => (.object members, rest)
            else none

/-- The loop in `parse_array`. -/
def parseElems : ℕ → List Char → Option (List CJson × List Char)
  | 0, _ => none
  | fuel + 1, input => do
      let (value, rest) ← parseValue fuel (skipWhitespace input)
      match skipWhitespace rest with
      | ',' :: rest =>
          let (elems, rest) ← parseElems fuel rest
          return (value :: elems, rest)
      | ']' :: rest => return ([value], rest)
      | _ => none

/-- The loop in `parse_object`. -/
def parseMembers : ℕ → List Char → Option (List (List Char × CJson) × List Char)
  | 0, _ => none
  | fuel + 1, input => do
      let (name, rest) ← parseString (skipWhitespace input)
      match skipWhitespace rest with
      | ':' :: rest =>
          let (value, rest) ← parseValue fuel (skipWhitespace rest)
          match skipWhitespace rest with
          | ',' :: rest =>
              let (members, rest) ← parseMembers fuel rest
              return ((name, value) :: members, rest)
          | '}' :: rest => return ([(name, value)], rest)
          | _ => none
      | _ => none

end

/-- `cJSON_Parse`, which does not look behind the item. -/
def cJSONParse (text : List Char) : Option CJson :=
  (parseValue strtod (text.length + 1) (skipWhitespace text)).map Prod.fst

end Parse

/-! ## Printing -/

/-- `%04x`. -/
def hex4 (n : ℕ) : List Char := (Nat.toDigits 16 n).leftpad 4 '0'

/-- A character of a string in `print_string_ptr`. -/
def escape (c : Char) : List Char :=
  if 31 < c.toNat ∧ c ≠ '"' ∧ c ≠ '\\' then [c]
  else if c = '\\' then ['\\', '\\']
  else if c = '"' then ['\\', '"']
  else if c = '\x08' then ['\\', 'b']
  else if c = '\x0c' then ['\\', 'f']
  else if c = '\n' then ['\\', 'n']
  else if c = '\r' then ['\\', 'r']
  else if c = '\t' then ['\\', 't']
  else '\\' :: 'u' :: hex4 c.toNat

/-- `print_string_ptr`. -/
def printString (s : List Char) : List Char := '"' :: (s.flatMap escape ++ ['"'])

/-- `%d` of an integer, which is `%.0f` of the number. -/
def decimal (n : ℤ) : List Char :=
  if n < 0 then '-' :: Nat.toDigits 10 n.natAbs else Nat.toDigits 10 n.natAbs

/-- `trim_trailing_zeroes`. -/
def trimTrailingZeroes (text : List Char) : List Char :=
  match text.reverse.dropWhile (· = '0') with
  | '.' :: text => text.reverse
  | text => text.reverse

section Print

-- The formats `%e` and `%f`.
variable (sprintfE sprintfF : ℚ → List Char)

/-- `print_number`.  The bounds, which are doubles in the source, are compared exactly. -/
def printNumber : Double → List Char
  | .infinite _ => ['n', 'u', 'l', 'l']
  | .finite d =>
      if |(⌊d⌋ : ℚ) - d| ≤ 1 / 2 ^ 52 ∧ |d| < 10 ^ 60 then decimal ⌊d⌋
      else if |d| < 1 / 10 ^ 6 ∨ 10 ^ 9 < |d| then sprintfE d
      else trimTrailingZeroes (sprintfF d)

variable (format : Bool)

/-- What only stands in a formatted text. -/
def formatted (format : Bool) (text : List Char) : List Char := if format then text else []

mutual

/-- `print_value`. -/
def printValue : ℕ → CJson → List Char
  | _, .null => ['n', 'u', 'l', 'l']
  | _, .bool false => ['f', 'a', 'l', 's', 'e']
  | _, .bool true => ['t', 'r', 'u', 'e']
  | _, .number d => printNumber sprintfE sprintfF d
  | _, .string s => printString s
  | depth, .array elems => '[' :: (printElems depth elems ++ [']'])
  | depth, .object members =>
      '{' :: (formatted format ['\n'] ++ printMembers depth members ++
        formatted format (List.replicate depth '\t') ++ ['}'])

/-- The loop in `print_array`. -/
def printElems : ℕ → List CJson → List Char
  | _, [] => []
  | depth, [value] => printValue (depth + 1) value
  | depth, value :: elem :: elems =>
      printValue (depth + 1) value ++ ',' :: (formatted format [' '] ++
        printElems depth (elem :: elems))

/-- The loop in `print_object`. -/
def printMembers : ℕ → List (List Char × CJson) → List Char
  | _, [] => []
  | depth, [(name, value)] =>
      formatted format (List.replicate (depth + 1) '\t') ++ printString name ++
        ':' :: (formatted format ['\t'] ++ printValue (depth + 1) value ++ formatted format ['\n'])
  | depth, (name, value) :: member :: members =>
      formatted format (List.replicate (depth + 1) '\t') ++ printString name ++
        ':' :: (formatted format ['\t'] ++ printValue (depth + 1) value ++
          ',' :: (formatted format ['\n'] ++ printMembers depth (member :: members)))

end

/-- `cJSON_Print` and `cJSON_PrintUnformatted`. -/
def cJSONPrint (item : CJson) : List Char := printValue sprintfE sprintfF format 0 item

end Print

end A100Partitioning.Config
