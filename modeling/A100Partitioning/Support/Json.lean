import Mathlib.Data.List.Basic

/-!
# JSON texts

A text is a list of bytes.  A lexer, which is a state machine over the bytes, turns
it into tokens; a text denotes a value if its tokens are those of this value.
Bytes above ASCII are accepted in strings as they are.
-/

namespace A100Partitioning.Support

/-- A byte of a text. -/
abbrev Byte := BitVec 8

/-- The bytes of an ASCII text. -/
def ascii (s : String) : List Byte := s.toList.map fun c => BitVec.ofNat 8 c.toNat

namespace Json

/-! ## Numbers -/

/-- A decimal digit. -/
def isDigit (b : Byte) : Bool := 0x30 ≤ b && b ≤ 0x39

/-- The bytes of numbers and of the three literal names. -/
def isWordByte (b : Byte) : Bool :=
  isDigit b || (0x41 ≤ b && b ≤ 0x5a) || (0x61 ≤ b && b ≤ 0x7a) ||
    b == 0x2b || b == 0x2d || b == 0x2e

/-- One digit or more, and nothing else. -/
def isDigits (t : List Byte) : Bool := !t.isEmpty && t.all isDigit

/-- An exponent, or nothing. -/
def isExponent : List Byte → Bool
  | [] => true
  | e :: t =>
      (e == 0x65 || e == 0x45) &&
        match t with
        | [] => false
        | sign :: t' =>
            if sign = 0x2b ∨ sign = 0x2d then isDigits t' else isDigits (sign :: t')

/-- A fraction and an exponent, each of which may be missing. -/
def isFraction : List Byte → Bool
  | [] => true
  | b :: t =>
      if b = 0x2e then isDigits (t.takeWhile isDigit) && isExponent (t.dropWhile isDigit)
      else isExponent (b :: t)

/-- A number without its sign. -/
def isUnsigned : List Byte → Bool
  | [] => false
  | b :: t =>
      if b = 0x30 then isFraction t else isDigit b && isFraction (t.dropWhile isDigit)

/-- The grammar of numbers. -/
def isNumber (t : List Byte) : Bool :=
  t.all isWordByte &&
    match t with
    | [] => false
    | b :: t' => if b = 0x2d then isUnsigned t' else isUnsigned (b :: t')

/-- The text of a number. -/
structure Numeral where
  text : List Byte
  isNumber : isNumber text = true
  deriving DecidableEq

/-! ## Tokens -/

/-- The tokens, with what strings stand for. -/
inductive Token where
  | beginObject
  | endObject
  | beginArray
  | endArray
  | colon
  | comma
  | null
  | bool (value : Bool)
  | num (numeral : Numeral)
  | str (content : List Byte)
  deriving DecidableEq

/-- A number or a literal name. -/
def wordToken (w : List Byte) : Option Token :=
  if h : isNumber w = true then some (.num ⟨w, h⟩)
  else if w = ascii "null" then some .null
  else if w = ascii "true" then some (.bool true)
  else if w = ascii "false" then some (.bool false)
  else none

/-- White space. -/
def isSpace (b : Byte) : Bool := b == 0x20 || b == 0x09 || b == 0x0a || b == 0x0d

/-- The tokens of one byte. -/
def punctuation (b : Byte) : Option Token :=
  if b = 0x7b then some .beginObject
  else if b = 0x7d then some .endObject
  else if b = 0x5b then some .beginArray
  else if b = 0x5d then some .endArray
  else if b = 0x3a then some .colon
  else if b = 0x2c then some .comma
  else none

/-- The byte that an escape of two bytes stands for. -/
def unescape (b : Byte) : Option Byte :=
  if b = 0x22 ∨ b = 0x5c ∨ b = 0x2f then some b
  else if b = 0x62 then some 0x08
  else if b = 0x66 then some 0x0c
  else if b = 0x6e then some 0x0a
  else if b = 0x72 then some 0x0d
  else if b = 0x74 then some 0x09
  else none

/-- The value of a hexadecimal digit. -/
def hexDigit (b : Byte) : Option ℕ :=
  if isDigit b then some (b.toNat - 0x30)
  else if 0x41 ≤ b ∧ b ≤ 0x46 then some (b.toNat - 0x37)
  else if 0x61 ≤ b ∧ b ≤ 0x66 then some (b.toNat - 0x57)
  else none

/-- The bytes that encode a character of up to 16 bits. -/
def utf8 (n : ℕ) : List Byte :=
  if n < 0x80 then [.ofNat 8 n]
  else if n < 0x800 then [.ofNat 8 (0xc0 + n / 0x40), .ofNat 8 (0x80 + n % 0x40)]
  else [.ofNat 8 (0xe0 + n / 0x1000), .ofNat 8 (0x80 + n / 0x40 % 0x40),
    .ofNat 8 (0x80 + n % 0x40)]

/-! ## The lexer -/

/-- Where the lexer is: between tokens, in a number or a name, or in a string; there it
can be in an escape. -/
inductive LexState where
  | between
  | word (w : List Byte)
  | string (content : List Byte)
  | escaped (content : List Byte)
  | unicode (content : List Byte) (digits : List ℕ)
  deriving DecidableEq

/-- A byte between tokens. -/
def start (b : Byte) : Option (List Token × LexState) :=
  if isSpace b then some ([], .between)
  else if b = 0x22 then some ([], .string [])
  else if isWordByte b then some ([], .word [b])
  else (punctuation b).map fun t => ([t], .between)

/-- One byte: the tokens that end with it or before it, and the next state. -/
def step (state : LexState) (b : Byte) : Option (List Token × LexState) :=
  match state with
  | .between => start b
  | .word w =>
      if isWordByte b then some ([], .word (w ++ [b]))
      else
        match wordToken w with
        | none => none
        | some t => (start b).map fun p => (t :: p.1, p.2)
  | .string content =>
      if b = 0x22 then some ([.str content], .between)
      else if b = 0x5c then some ([], .escaped content)
      else if b.toNat < 0x20 then none
      else some ([], .string (content ++ [b]))
  | .escaped content =>
      if b = 0x75 then some ([], .unicode content [])
      else (unescape b).map fun c => ([], .string (content ++ [c]))
  | .unicode content digits =>
      (hexDigit b).map fun digit =>
        if digits.length < 3 then ([], .unicode content (digits ++ [digit]))
        else ([], .string (content ++
          utf8 ((digits ++ [digit]).foldl (fun n d => n * 16 + d) 0)))

/-- All bytes of a text, one after another. -/
def run (state : LexState) : List Byte → Option (List Token × LexState)
  | [] => some ([], state)
  | b :: text =>
      (step state b).bind fun p =>
        (run p.2 text).map fun q => (p.1 ++ q.1, q.2)

/-- The last token may end with the text. -/
def finish : LexState → Option (List Token)
  | .between => some []
  | .word w => (wordToken w).map fun t => [t]
  | _ => none

/-- The tokens of the rest of a text. -/
def lexFrom (state : LexState) (text : List Byte) : Option (List Token) :=
  (run state text).bind fun p => (finish p.2).map fun ts => p.1 ++ ts

/-- The tokens of a text. -/
def lex (text : List Byte) : Option (List Token) := lexFrom .between text

/-! ## Values -/

/-- A value. -/
inductive Value where
  | null
  | bool (value : Bool)
  | num (numeral : Numeral)
  | str (content : List Byte)
  | arr (elems : List Value)
  | obj (members : List (List Byte × Value))

mutual

/-- The tokens of a value. -/
def tokens : Value → List Token
  | .null => [.null]
  | .bool value => [.bool value]
  | .num numeral => [.num numeral]
  | .str content => [.str content]
  | .arr elems => .beginArray :: arrayTokens elems
  | .obj members => .beginObject :: objectTokens members

/-- The tokens after the start of an array. -/
def arrayTokens : List Value → List Token
  | [] => [.endArray]
  | elem :: elems => tokens elem ++ moreElems elems

/-- The tokens after an element. -/
def moreElems : List Value → List Token
  | [] => [.endArray]
  | elem :: elems => .comma :: tokens elem ++ moreElems elems

/-- The tokens after the start of an object. -/
def objectTokens : List (List Byte × Value) → List Token
  | [] => [.endObject]
  | member :: members => .str member.1 :: .colon :: tokens member.2 ++ moreMembers members

/-- The tokens after a member. -/
def moreMembers : List (List Byte × Value) → List Token
  | [] => [.endObject]
  | member :: members =>
      .comma :: .str member.1 :: .colon :: tokens member.2 ++ moreMembers members

end

/-- The text is well-formed, and has this value. -/
def Denotes (text : List Byte) (value : Value) : Prop := lex text = some (tokens value)

/-! ## Parts of texts -/

/-- What a string stands for so far. -/
def LexState.content : LexState → Option (List Byte)
  | .string before => some before
  | .escaped before => some before
  | .unicode before _ => some before
  | _ => none

section Parts

variable {state state' : LexState} {text text' content : List Byte} {ts : List Token}

theorem run_append (state : LexState) (text text' : List Byte) :
    run state (text ++ text') =
      (run state text).bind fun p => (run p.2 text').map fun q => (p.1 ++ q.1, q.2) := by
  induction text generalizing state with
  | nil =>
      rw [List.nil_append, run, Option.bind_some]
      cases run state text' <;> rfl
  | cons b text ih =>
      rw [List.cons_append, run, run]
      cases step state b with
      | none => rfl
      | some p =>
          rw [Option.bind_some, Option.bind_some, ih]
          cases run p.2 text with
          | none => rfl
          | some q =>
              rw [Option.bind_some, Option.map_some, Option.bind_some]
              cases run q.2 text' with
              | none => rfl
              | some q' => simp only [Option.map_some, List.append_assoc]

theorem lexFrom_append (h : run state text = some (ts, state')) (text' : List Byte) :
    lexFrom state (text ++ text') = (lexFrom state' text').map (ts ++ ·) := by
  rw [lexFrom, lexFrom, run_append, h, Option.bind_some]
  cases run state' text' with
  | none => rfl
  | some q =>
      rw [Option.map_some, Option.bind_some, Option.bind_some]
      cases finish q.2 with
      | none => rfl
      | some ts' => simp only [Option.map_some, List.append_assoc]

theorem lexFrom_append_of_none (h : run state text = none) (text' : List Byte) :
    lexFrom state (text ++ text') = none := by
  rw [lexFrom, run_append, h]
  rfl

theorem lexFrom_cons (b : Byte) (text : List Byte) :
    lexFrom state (b :: text) =
      (step state b).bind fun p => (lexFrom p.2 text).map (p.1 ++ ·) := by
  cases h : step state b with
  | none =>
      rw [lexFrom, run, h]
      rfl
  | some p =>
      have hrun : run state [b] = some (p.1, p.2) := by
        rw [run, h, Option.bind_some, run]
        simp only [Option.map_some, List.append_nil]
      exact lexFrom_append hrun text

theorem lexFrom_append_nil (h : run state text = some ([], state')) (text' : List Byte) :
    lexFrom state (text ++ text') = lexFrom state' text' := by
  rw [lexFrom_append h]
  exact Option.map_id'

theorem run_word (w : List Byte) (h : ∀ b ∈ text, isWordByte b = true) :
    run (.word w) text = some ([], .word (w ++ text)) := by
  induction text generalizing w with
  | nil =>
      rw [run, List.append_nil]
  | cons b text ih =>
      rw [run, step, if_pos (h b List.mem_cons_self), Option.bind_some,
        ih _ fun b' hb' => h b' (List.mem_cons_of_mem b hb')]
      simp only [Option.map_some, List.nil_append, List.append_assoc, List.cons_append]

theorem Numeral.isWordByte (n : Numeral) : ∀ b ∈ n.text, Json.isWordByte b = true := by
  have h := n.isNumber
  rw [Json.isNumber.eq_def, Bool.and_eq_true] at h
  exact List.all_eq_true.mp h.1

theorem wordToken_numeral (n : Numeral) : wordToken n.text = some (.num n) :=
  dif_pos n.isNumber

theorem start_of_isWordByte {b : Byte} (h : isWordByte b = true) :
    start b = some ([], .word [b]) := by
  have hall : ∀ b : Byte, Json.isWordByte b = true → start b = some ([], .word [b]) := by
    decide
  exact hall b h

theorem run_numeral (n : Numeral) : run .between n.text = some ([], .word n.text) := by
  have hword := n.isWordByte
  have hnumber := n.isNumber
  cases htext : n.text with
  | nil =>
      rw [htext] at hnumber
      cases hnumber
  | cons b text =>
      rw [htext] at hword
      rw [run, step, start_of_isWordByte (hword b List.mem_cons_self), Option.bind_some,
        run_word _ fun b' hb' => hword b' (List.mem_cons_of_mem b hb')]
      rfl

theorem step_numeral (n : Numeral) {b : Byte} (hb : isWordByte b = false) :
    step (.word n.text) b = (start b).map fun p => (.num n :: p.1, p.2) := by
  rw [step, if_neg (ne_true_of_eq_false hb), wordToken_numeral]

theorem step_content {b : Byte} (hcontent : state.content = some content)
    (hstep : step state b = some (ts, state')) :
    ts = [.str content] ∨ ts = [] ∧ ∃ more, state'.content = some (content ++ more) := by
  cases state with
  | between => cases hcontent
  | word w => cases hcontent
  | string content' =>
      cases hcontent
      rw [step] at hstep
      split_ifs at hstep
      · cases hstep
        exact .inl rfl
      · cases hstep
        exact .inr ⟨rfl, [], congrArg some (List.append_nil _).symm⟩
      · cases hstep
        exact .inr ⟨rfl, [b], rfl⟩
  | escaped content' =>
      cases hcontent
      rw [step] at hstep
      split_ifs at hstep
      · cases hstep
        exact .inr ⟨rfl, [], congrArg some (List.append_nil _).symm⟩
      · obtain ⟨c, -, hc⟩ := Option.map_eq_some_iff.mp hstep
        cases hc
        exact .inr ⟨rfl, [c], rfl⟩
  | unicode content' digits =>
      cases hcontent
      rw [step] at hstep
      obtain ⟨digit, -, hdigit⟩ := Option.map_eq_some_iff.mp hstep
      split_ifs at hdigit
      · cases hdigit
        exact .inr ⟨rfl, [], congrArg some (List.append_nil _).symm⟩
      · cases hdigit
        exact .inr ⟨rfl, _, rfl⟩

/-- Inside a string, the next token is a string that begins like this. -/
theorem lexFrom_content (hcontent : state.content = some content)
    (hlex : lexFrom state text = some ts) :
    ∃ more ts', ts = .str (content ++ more) :: ts' := by
  induction text generalizing state content ts with
  | nil =>
      cases state with
      | between => cases hcontent
      | word w => cases hcontent
      | string content' => cases hlex
      | escaped content' => cases hlex
      | unicode content' digits => cases hlex
  | cons b text ih =>
      rw [lexFrom_cons] at hlex
      obtain ⟨⟨ts₁, state₁⟩, hstep, hrest⟩ := Option.bind_eq_some_iff.mp hlex
      obtain ⟨ts₂, hlex₂, rfl⟩ := Option.map_eq_some_iff.mp hrest
      rcases step_content hcontent hstep with rfl | ⟨rfl, more, hmore⟩
      · exact ⟨[], ts₂, by rw [List.append_nil]; rfl⟩
      · obtain ⟨more', ts', rfl⟩ := ih hmore hlex₂
        exact ⟨more ++ more', ts', by rw [List.append_assoc]; rfl⟩

/-- Bytes of an escape that were read, where it may stand for as many. -/
def LexState.allowance : LexState → ℕ
  | .unicode _ digits => digits.length
  | _ => 0

theorem length_utf8_le (n : ℕ) : (utf8 n).length ≤ 3 := by
  rw [utf8]
  split_ifs
  · exact Nat.le_add_left 1 2
  · exact Nat.le_succ 2
  · exact Nat.le_refl 3

theorem step_allowance {b : Byte} {more : List Byte} (hcontent : state.content = some content)
    (hstep : step state b = some ([], state'))
    (hmore : state'.content = some (content ++ more)) :
    more.length + state'.allowance ≤ 1 + state.allowance := by
  cases state with
  | between => cases hcontent
  | word w => cases hcontent
  | string content' =>
      cases hcontent
      rw [step] at hstep
      split_ifs at hstep
      · cases hstep
      · cases hstep
        rw [List.self_eq_append_right.mp (Option.some.inj hmore)]
        exact Nat.zero_le _
      · cases hstep
        rw [← List.append_cancel_left (Option.some.inj hmore)]
        exact Nat.le_refl _
  | escaped content' =>
      cases hcontent
      rw [step] at hstep
      split_ifs at hstep
      · cases hstep
        rw [List.self_eq_append_right.mp (Option.some.inj hmore)]
        exact Nat.zero_le _
      · obtain ⟨c, -, hc⟩ := Option.map_eq_some_iff.mp hstep
        cases hc
        rw [← List.append_cancel_left (Option.some.inj hmore)]
        exact Nat.le_refl _
  | unicode content' digits =>
      cases hcontent
      rw [step] at hstep
      obtain ⟨digit, -, hdigit⟩ := Option.map_eq_some_iff.mp hstep
      split_ifs at hdigit with hlength
      · cases hdigit
        rw [List.self_eq_append_right.mp (Option.some.inj hmore)]
        simp only [LexState.allowance, List.length_append, List.length_nil,
          List.length_singleton]
        omega
      · cases hdigit
        rw [← List.append_cancel_left (Option.some.inj hmore)]
        have hutf8 := length_utf8_le ((digits ++ [digit]).foldl (fun n d => n * 16 + d) 0)
        simp only [LexState.allowance]
        omega

theorem byte_of_escaped {b : Byte} (hcontent : state.content = some content)
    {content' : List Byte} (hstep : step state b = some ([], .escaped content')) :
    b = 0x5c := by
  cases state with
  | between => cases hcontent
  | word w => cases hcontent
  | string before =>
      rw [step] at hstep
      split_ifs at hstep with hquote hescape
      · cases hstep
      · exact hescape
      · cases hstep
  | escaped before =>
      rw [step] at hstep
      split_ifs at hstep
      · cases hstep
      · obtain ⟨c, -, hc⟩ := Option.map_eq_some_iff.mp hstep
        cases hc
  | unicode before digits =>
      rw [step] at hstep
      obtain ⟨digit, -, hdigit⟩ := Option.map_eq_some_iff.mp hstep
      split_ifs at hdigit
      · cases hdigit
      · cases hdigit

/-- A byte of a string that stands for itself. -/
def isPlain (b : Byte) : Bool := 0x20 ≤ b.toNat && b != 0x22 && b != 0x5c

theorem step_plain {b : Byte} (h : isPlain b = true) (before : List Byte) :
    step (.string before) b = some ([], .string (before ++ [b])) := by
  rw [isPlain, Bool.and_eq_true, Bool.and_eq_true, decide_eq_true_eq, bne_iff_ne,
    bne_iff_ne] at h
  rw [step, if_neg h.1.2, if_neg h.2, if_neg (Nat.not_lt.mpr h.1.1)]

theorem run_plain {b : Byte} (h : isPlain b = true) (before : List Byte) :
    run (.string before) [b] = some ([], .string (before ++ [b])) := by
  rw [run, step_plain h]
  rfl

theorem run_control {b : Byte} (h : b.toNat < 0x20) (before : List Byte) :
    run (.string before) [b] = none := by
  have hall : ∀ b : Byte, b.toNat < 0x20 → b ≠ 0x22 ∧ b ≠ 0x5c := by
    decide
  rw [run, step, if_neg (hall b h).1, if_neg (hall b h).2, if_pos h]
  rfl

theorem run_unescape {e c : Byte} (h : unescape e = some c) (before : List Byte) :
    run (.string before) [0x5c, e] = some ([], .string (before ++ [c])) := by
  have hne : e ≠ 0x75 := by
    rintro rfl
    cases h
  have hstep : step (.string before) 0x5c = some ([], .escaped before) := rfl
  rw [run, hstep, Option.bind_some, run, step, if_neg hne, h]
  rfl

end Parts

end Json

end A100Partitioning.Support
