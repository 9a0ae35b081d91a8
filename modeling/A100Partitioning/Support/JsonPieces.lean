import A100Partitioning.Support.Json

/-!
# Texts printed piece by piece

A program prints a JSON text as a list of pieces: fixed text, numbers, and strings that
stand for some content.  Where the pieces have the right tokens if every string did what
it is for, the text has them if and only if every string does.
-/

namespace A100Partitioning.Support.Json

/-- A piece of a text.  A string is printed between quotes, of which the first one is
in the piece before it. -/
inductive Piece where
  | text (text : List Byte)
  | number (numeral : Numeral)
  | quoted (printed content : List Byte)

/-- What is printed. -/
def Piece.bytes : Piece → List Byte
  | .text s => s
  | .number numeral => numeral.text
  | .quoted printed _ => printed ++ [0x22]

/-- The text of some pieces. -/
def bytes (pieces : List Piece) : List Byte := pieces.flatMap Piece.bytes

/-- What the lexer should make of a piece. -/
def Piece.intended (state : LexState) : Piece → Option (List Token × LexState)
  | .text s => run state s
  | .number numeral => run state numeral.text
  | .quoted _ content =>
      match state with
      | .string content' => some ([.str (content' ++ content)], .between)
      | _ => none

/-- The tokens that some pieces should have. -/
def intended (state : LexState) : List Piece → Option (List Token)
  | [] => finish state
  | piece :: pieces =>
      (piece.intended state).bind fun p => (intended p.2 pieces).map (p.1 ++ ·)

/-- What is printed stands for its content. -/
def Faithful (printed content : List Byte) : Prop :=
  ∀ before, run (.string before) printed = some ([], .string (before ++ content))

/-- If it is not faithful, then it is seen as something else, whatever follows. -/
def Detectable (printed content after : List Byte) : Prop :=
  ∀ before ts, lexFrom (.string before) (printed ++ [0x22] ++ after) =
    some (.str (before ++ content) :: ts) → Faithful printed content

section Pieces

variable {state : LexState} {pieces : List Piece} {ts : List Token}

theorem bytes_cons (piece : Piece) (pieces : List Piece) :
    bytes (piece :: pieces) = piece.bytes ++ bytes pieces :=
  List.flatMap_cons

theorem intended_text (text : List Byte) :
    intended state (.text text :: pieces) =
      (run state text).bind fun p => (intended p.2 pieces).map (p.1 ++ ·) := rfl

theorem run_quoted {printed content : List Byte} (h : Faithful printed content)
    (before : List Byte) :
    run (.string before) (printed ++ [0x22]) =
      some ([.str (before ++ content)], .between) := by
  rw [run_append, h before]
  rfl

/-- If every string is faithful, the tokens are those intended. -/
theorem lexFrom_of_faithful (hintended : intended state pieces = some ts)
    (hfaithful : ∀ printed content, Piece.quoted printed content ∈ pieces →
      Faithful printed content) :
    lexFrom state (bytes pieces) = some ts := by
  induction pieces generalizing state ts with
  | nil =>
      rw [intended] at hintended
      rw [bytes, List.flatMap_nil, lexFrom, run, Option.bind_some, hintended]
      rfl
  | cons piece pieces ih =>
      rw [intended] at hintended
      obtain ⟨⟨ts₁, state₁⟩, hpiece, hrest⟩ := Option.bind_eq_some_iff.mp hintended
      obtain ⟨ts₂, hts₂, rfl⟩ := Option.map_eq_some_iff.mp hrest
      have hlater := ih hts₂ fun printed content hmem =>
        hfaithful printed content (List.mem_cons_of_mem _ hmem)
      have hrun : run state piece.bytes = some (ts₁, state₁) := by
        cases piece with
        | text text => exact hpiece
        | number numeral => exact hpiece
        | quoted printed content =>
            cases state with
            | string before =>
                cases hpiece
                exact run_quoted (hfaithful printed content List.mem_cons_self) before
            | _ => cases hpiece
      rw [bytes, List.flatMap_cons, lexFrom_append hrun]
      exact congrArg (Option.map (ts₁ ++ ·)) hlater

/-- Strings that are not faithful are seen. -/
def AllDetectable : List Piece → Prop
  | [] => True
  | .quoted printed content :: pieces =>
      Detectable printed content (bytes pieces) ∧ AllDetectable pieces
  | _ :: pieces => AllDetectable pieces

/-- If the tokens are those intended, every string is faithful. -/
theorem faithful_of_lexFrom (hintended : intended state pieces = some ts)
    (hdetectable : AllDetectable pieces) (hlex : lexFrom state (bytes pieces) = some ts) :
    ∀ printed content, Piece.quoted printed content ∈ pieces →
      Faithful printed content := by
  induction pieces generalizing state ts with
  | nil =>
      intro printed content hmem
      cases hmem
  | cons piece pieces ih =>
      rw [intended] at hintended
      obtain ⟨⟨ts₁, state₁⟩, hpiece, hrest⟩ := Option.bind_eq_some_iff.mp hintended
      obtain ⟨ts₂, hts₂, rfl⟩ := Option.map_eq_some_iff.mp hrest
      rw [bytes, List.flatMap_cons] at hlex
      -- Where this piece is what it should be, so are the later ones.
      have hsame : run state piece.bytes = some (ts₁, state₁) → AllDetectable pieces →
          ∀ printed content, Piece.quoted printed content ∈ pieces →
            Faithful printed content := by
        intro hrun hdetectable
        rw [lexFrom_append hrun] at hlex
        obtain ⟨ts₃, hts₃, heq⟩ := Option.map_eq_some_iff.mp hlex
        rw [List.append_cancel_left heq] at hts₃
        exact ih hts₂ hdetectable hts₃
      intro printed content hmem
      cases piece with
      | text text =>
          exact hsame hpiece hdetectable _ _ (List.mem_of_ne_of_mem Piece.noConfusion hmem)
      | number numeral =>
          exact hsame hpiece hdetectable _ _ (List.mem_of_ne_of_mem Piece.noConfusion hmem)
      | quoted printed' content' =>
          cases state with
          | string before =>
              cases hpiece
              have hfirst := hdetectable.1 before ts₂ hlex
              rcases List.mem_cons.mp hmem with heq | hmem
              · cases heq
                exact hfirst
              · exact hsame (run_quoted hfirst before) hdetectable.2 _ _ hmem
          | _ => cases hpiece

/-! ## Parts of a list of pieces -/

/-- What these pieces should yield, and the state of the lexer after them. -/
def Yields (state : LexState) (pieces : List Piece) (ts : List Token) (state' : LexState) :
    Prop :=
  ∀ rest, intended state (pieces ++ rest) = (intended state' rest).map (ts ++ ·)

theorem map_map_append (o : Option (List Token)) (ts ts' : List Token) :
    (o.map (ts' ++ ·)).map (ts ++ ·) = o.map (ts ++ ts' ++ ·) := by
  cases o with
  | none => rfl
  | some ts'' => exact congrArg some (List.append_assoc ts ts' ts'').symm

theorem Yields.nil : Yields state [] [] state := fun _ => Option.map_id'.symm

theorem Yields.congr {state' : LexState} {ts' : List Token} (h : Yields state pieces ts state')
    (hts : ts = ts') : Yields state pieces ts' state' := hts ▸ h

theorem Yields.append {state' state'' : LexState} {pieces' : List Piece} {ts' : List Token}
    (h : Yields state pieces ts state') (h' : Yields state' pieces' ts' state'') :
    Yields state (pieces ++ pieces') (ts ++ ts') state'' := by
  intro rest
  rw [List.append_assoc, h, h', map_map_append]

theorem Yields.text {state' state'' : LexState} {text : List Byte} {ts' : List Token}
    (hrun : run state text = some (ts, state')) (h : Yields state' pieces ts' state'') :
    Yields state (.text text :: pieces) (ts ++ ts') state'' := by
  intro rest
  rw [List.cons_append, intended_text, hrun, Option.bind_some, h, map_map_append]

theorem Yields.last {state' : LexState} {text : List Byte}
    (hrun : run state text = some (ts, state')) : Yields state [.text text] ts state' := by
  have h := Yields.text hrun Yields.nil
  rw [List.append_nil] at h
  exact h

theorem Yields.quoted {state' : LexState} {printed before content : List Byte}
    (h : Yields .between pieces ts state') :
    Yields (.string before) (.quoted printed content :: pieces)
      (.str (before ++ content) :: ts) state' := by
  intro rest
  rw [List.cons_append, intended, Piece.intended, Option.bind_some, h, map_map_append]
  rfl

theorem Yields.number {state' : LexState} {numeral : Numeral} {text : List Byte}
    (hend : text.head?.map isWordByte = some false)
    (h : Yields .between (.text text :: pieces) ts state') :
    Yields .between (.number numeral :: .text text :: pieces) (.num numeral :: ts)
      state' := by
  intro rest
  have hrest := h rest
  obtain ⟨b, text, rfl⟩ : ∃ b text', text = b :: text' := by
    cases text with
    | nil => cases hend
    | cons b text => exact ⟨b, text, rfl⟩
  have hb : isWordByte b = false := Option.some.inj hend
  rw [List.cons_append, intended_text, run, step] at hrest
  rw [List.cons_append, List.cons_append, intended, Piece.intended, run_numeral,
    Option.bind_some, intended_text, run, step_numeral numeral hb]
  cases hstart : start b with
  | none =>
      rw [hstart] at hrest
      cases hstate : intended state' rest with
      | none => rfl
      | some ts' =>
          rw [hstate] at hrest
          cases hrest
  | some p =>
      rw [hstart, Option.bind_some] at hrest
      rw [Option.map_some, Option.bind_some]
      cases hrun : run p.2 text with
      | none =>
          rw [hrun] at hrest
          cases hstate : intended state' rest with
          | none => rfl
          | some ts' =>
              rw [hstate] at hrest
              cases hrest
      | some q =>
          rw [hrun, Option.map_some, Option.bind_some] at hrest
          rw [Option.map_some, Option.bind_some, ← List.singleton_append, List.append_assoc,
            ← map_map_append, hrest, map_map_append, map_map_append]
          rfl

theorem intended_empty : intended state (.text [] :: pieces) = intended state pieces := by
  rw [intended_text, run, Option.bind_some]
  exact Option.map_id'

theorem intended_number_empty (numeral : Numeral) (pieces : List Piece) :
    intended state (.number numeral :: .text [] :: pieces) =
      intended state (.number numeral :: pieces) := by
  rw [intended, intended]
  simp only [intended_empty]

/-- A list of numbers, with commas between them, and a piece without text at the end. -/
def separated : List Numeral → List Piece
  | [] => []
  | [x] => [.number x, .text []]
  | x :: y :: l => .number x :: .text [0x2c] :: separated (y :: l)

theorem yields_separated {state' : LexState} {text : List Byte}
    (hend : text.head?.map isWordByte = some false)
    (h : Yields .between (.text text :: pieces) (.endArray :: ts) state') (l : List Numeral) :
    Yields .between (separated l ++ .text text :: pieces)
      (arrayTokens (l.map .num) ++ ts) state' := by
  induction l with
  | nil => exact h
  | cons x l ih =>
      cases l with
      | nil =>
          intro rest
          exact (intended_number_empty x _).trans (Yields.number hend h rest)
      | cons y l =>
          have hcomma := Yields.text (rfl : run .between (ascii ", ") = some ([.comma], _)) ih
          exact Yields.number rfl hcomma

/-! ## Code that writes pieces -/

/-- Every string is faithful. -/
def AllFaithful (pieces : List Piece) : Prop :=
  ∀ printed content, Piece.quoted printed content ∈ pieces → Faithful printed content

/-- One after another, if both are defined. -/
def andThen (written written' : Option (List Piece)) : Option (List Piece) :=
  written.bind fun pieces => written'.map (pieces ++ ·)

/-- The code writes these tokens under a condition, and under no other. -/
structure Writes (written : Option (List Piece)) (ts : List Token) (condition : Prop) :
    Prop where
  isSome : condition → ∃ pieces, written = some pieces
  yields : ∀ pieces, written = some pieces → Yields .between pieces ts .between
  detectable : ∀ pieces, written = some pieces → ∀ rest, AllDetectable rest →
    AllDetectable (pieces ++ rest)
  allFaithful_iff : ∀ pieces, written = some pieces → (AllFaithful pieces ↔ condition)

theorem allFaithful_append {pieces' : List Piece} :
    AllFaithful (pieces ++ pieces') ↔ AllFaithful pieces ∧ AllFaithful pieces' := by
  simp only [AllFaithful, List.mem_append, or_imp, forall_and]

theorem Writes.andThen {written written' : Option (List Piece)} {ts' : List Token}
    {condition condition' : Prop} (h : Writes written ts condition)
    (h' : Writes written' ts' condition') :
    Writes (andThen written written') (ts ++ ts') (condition ∧ condition') := by
  have hparts : ∀ pieces, Json.andThen written written' = some pieces →
      ∃ pieces₁ pieces₂, written = some pieces₁ ∧ written' = some pieces₂ ∧
        pieces = pieces₁ ++ pieces₂ := by
    intro pieces hpieces
    obtain ⟨pieces₁, h₁, hrest⟩ := Option.bind_eq_some_iff.mp hpieces
    obtain ⟨pieces₂, h₂, heq⟩ := Option.map_eq_some_iff.mp hrest
    exact ⟨pieces₁, pieces₂, h₁, h₂, heq.symm⟩
  constructor
  · rintro ⟨hcondition, hcondition'⟩
    obtain ⟨pieces₁, rfl⟩ := h.isSome hcondition
    obtain ⟨pieces₂, rfl⟩ := h'.isSome hcondition'
    exact ⟨_, rfl⟩
  · intro pieces hpieces
    obtain ⟨pieces₁, pieces₂, h₁, h₂, rfl⟩ := hparts pieces hpieces
    exact (h.yields _ h₁).append (h'.yields _ h₂)
  · intro pieces hpieces rest hrest
    obtain ⟨pieces₁, pieces₂, h₁, h₂, rfl⟩ := hparts pieces hpieces
    rw [List.append_assoc]
    exact h.detectable _ h₁ _ (h'.detectable _ h₂ rest hrest)
  · intro pieces hpieces
    obtain ⟨pieces₁, pieces₂, h₁, h₂, rfl⟩ := hparts pieces hpieces
    rw [allFaithful_append, h.allFaithful_iff _ h₁, h'.allFaithful_iff _ h₂]

/-- A piece that is not a string. -/
def Piece.isFixed : Piece → Bool
  | .quoted _ _ => false
  | _ => true

theorem allDetectable_append_of_fixed (hfixed : pieces.all Piece.isFixed = true)
    {rest : List Piece} (hrest : AllDetectable rest) : AllDetectable (pieces ++ rest) := by
  induction pieces with
  | nil => exact hrest
  | cons piece pieces ih =>
      rw [List.all_cons, Bool.and_eq_true] at hfixed
      cases piece with
      | text text => exact ih hfixed.2
      | number numeral => exact ih hfixed.2
      | quoted printed content => cases hfixed.1

theorem allFaithful_of_fixed (hfixed : pieces.all Piece.isFixed = true) :
    AllFaithful pieces := by
  intro printed content hmem
  cases List.all_eq_true.mp hfixed _ hmem

theorem allFaithful_quoted {text text' printed content : List Byte} :
    AllFaithful [.text text, .quoted printed content, .text text'] ↔
      Faithful printed content := by
  constructor
  · intro hfaithful
    exact hfaithful _ _ (List.mem_cons_of_mem _ List.mem_cons_self)
  · intro hfaithful printed' content' hmem
    rw [List.mem_cons, List.mem_cons, List.mem_singleton] at hmem
    rcases hmem with heq | heq | heq
    · cases heq
    · cases heq
      exact hfaithful
    · cases heq

/-- Pieces without strings are always what they should be. -/
theorem writes_fixed (hfixed : pieces.all Piece.isFixed = true)
    (hyields : Yields .between pieces ts .between) : Writes (some pieces) ts True := by
  constructor
  · intro _
    exact ⟨pieces, rfl⟩
  · intro pieces' heq
    cases heq
    exact hyields
  · intro pieces' heq rest hrest
    cases heq
    exact allDetectable_append_of_fixed hfixed hrest
  · intro pieces' heq
    cases heq
    exact iff_true_intro (allFaithful_of_fixed hfixed)

theorem Writes.congr {written written' : Option (List Piece)} {ts' : List Token}
    {condition condition' : Prop} (h : Writes written ts condition)
    (hwritten : written' = written) (hts : ts' = ts) (hcondition : condition' ↔ condition) :
    Writes written' ts' condition' := by
  rw [hwritten, hts, propext hcondition]
  exact h

/-- The text has the right tokens exactly under the condition. -/
theorem Writes.denotes_iff {written : Option (List Piece)} {value : Value}
    {condition : Prop} (h : Writes written (tokens value) condition) :
    (∃ pieces, written = some pieces ∧ Denotes (bytes pieces) value) ↔ condition := by
  have hintended : ∀ pieces, written = some pieces →
      intended .between pieces = some (tokens value) := by
    intro pieces hpieces
    have hnil := h.yields pieces hpieces []
    rw [List.append_nil, intended, finish, Option.map_some, List.append_nil] at hnil
    exact hnil
  constructor
  · rintro ⟨pieces, hpieces, hdenotes⟩
    rw [← h.allFaithful_iff pieces hpieces]
    have hdetectable := h.detectable pieces hpieces [] trivial
    rw [List.append_nil] at hdetectable
    exact faithful_of_lexFrom (hintended pieces hpieces) hdetectable hdenotes
  · intro hcondition
    obtain ⟨pieces, hpieces⟩ := h.isSome hcondition
    exact ⟨pieces, hpieces, lexFrom_of_faithful (hintended pieces hpieces)
      ((h.allFaithful_iff pieces hpieces).mpr hcondition)⟩

end Pieces

end A100Partitioning.Support.Json
