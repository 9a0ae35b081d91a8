import A100Partitioning.TaskHost.OutputLog

/-!
# Strings in the log

`SanitizeJSONString` leaves some control characters as they are, and, where `char` has a
sign, also everything that is not ASCII.  It does not stop at the end of its buffer.
-/

namespace A100Partitioning.TaskHost

open Support Json

/-! ## Sanitized strings -/

section Sanitized

variable {signed : Bool} {b : Byte} {s : List Byte}

/-- What is written for a string, if there is room. -/
def escaped (signed : Bool) (s : List Byte) : List Byte := s.flatMap (sanitizeByte signed)

theorem escaped_cons (b : Byte) (s : List Byte) :
    escaped signed (b :: s) = sanitizeByte signed b ++ escaped signed s :=
  List.flatMap_cons

theorem sanitizeJSONString_eq {outputSize : ℕ} {output : List Byte}
    (hroom : output.length ≤ outputSize) :
    sanitizeJSONString signed outputSize s output =
      if (output ++ escaped signed s).length ≤ outputSize then
        some (output ++ escaped signed s)
      else none := by
  induction s generalizing output with
  | nil =>
      rw [sanitizeJSONString, escaped, List.flatMap_nil, List.append_nil, if_pos hroom]
  | cons b s ih =>
      rw [sanitizeJSONString, if_neg (by omega), escaped_cons, ← List.append_assoc]
      split
      · rw [if_neg]
        simp only [List.length_append]
        omega
      · apply ih
        rw [List.length_append]
        omega

/-- A string is printed if what is written for it is shorter than the buffer. -/
theorem printSanitized_eq (s : CString) :
    printSanitized signed s =
      if (escaped signed s.bytes).length < sanitizeJSONBufferSize then
        some (escaped signed s.bytes)
      else none := by
  rw [printSanitized, sanitizeJSONString_eq (Nat.zero_le _), List.nil_append]
  split
  · rfl
  · rw [if_neg (by omega)]
    rfl

theorem fitting_eq {room : ℕ} (h : (escaped signed s).length ≤ room) :
    fitting signed room s = s := by
  induction s generalizing room with
  | nil => rfl
  | cons b s ih =>
      rw [escaped_cons, List.length_append] at h
      rw [fitting, if_pos (by omega), ih (by omega)]

/-- A character that is printed as what it is, or as a question mark if it is not ASCII. -/
def IsSanitizable (signed : Bool) (b : Byte) : Prop :=
  b ∈ ([0x08, 0x09, 0x0a, 0x0c, 0x0d] : List Byte) ∨ 0x20 ≤ b.toNat ∧ b.toNat < 0x7f ∨
    signed = false ∧ 0x80 ≤ b.toNat

instance (signed : Bool) (b : Byte) : Decidable (IsSanitizable signed b) :=
  inferInstanceAs (Decidable (_ ∨ _ ∨ _))

theorem sanitizeByte_cases (h : IsSanitizable signed b) :
    (sanitizeByte signed b = [questionMark b] ∧ isPlain (questionMark b) = true) ∨
      ∃ e ∈ ascii "bfrtn\\\"", sanitizeByte signed b = [0x5c, e] ∧
        unescape e = some (questionMark b) := by
  have hall : ∀ signed (b : Byte), IsSanitizable signed b →
      (sanitizeByte signed b = [questionMark b] ∧ isPlain (questionMark b) = true) ∨
        ∃ e ∈ ascii "bfrtn\\\"", sanitizeByte signed b = [0x5c, e] ∧
          unescape e = some (questionMark b) := by
    decide +kernel
  exact hall signed b h

/-- Any other character is written as something that is not allowed in a string, or that
stands for another character. -/
theorem sanitizeByte_of_not (h : ¬ IsSanitizable signed b) (hnul : b ≠ 0) :
    ∃ c, sanitizeByte signed b = [c] ∧
      (c.toNat < 0x20 ∨ isPlain c = true ∧ c ≠ questionMark b) := by
  have hall : ∀ signed (b : Byte), ¬ IsSanitizable signed b → b ≠ 0 →
      sanitizeByte signed b = [(sanitizeByte signed b).headD 0] ∧
        (((sanitizeByte signed b).headD 0).toNat < 0x20 ∨
          isPlain ((sanitizeByte signed b).headD 0) = true ∧
            (sanitizeByte signed b).headD 0 ≠ questionMark b) := by
    decide +kernel
  exact ⟨_, hall signed b h hnul⟩

theorem head_of_lexFrom {before text content : List Byte} {b c : Byte} {ts : List Token}
    (hlex : lexFrom (.string (before ++ [c])) text = some
      (.str (before ++ b :: content) :: ts)) :
    c = b := by
  obtain ⟨more, ts', heq⟩ := lexFrom_content rfl hlex
  rw [List.cons.injEq, Token.str.injEq, List.append_assoc,
    List.append_cancel_left_eq] at heq
  exact (List.cons.inj heq.1).1.symm

theorem run_sanitizeByte (h : IsSanitizable signed b) (before : List Byte) :
    run (.string before) (sanitizeByte signed b) =
      some ([], .string (before ++ [questionMark b])) := by
  rcases sanitizeByte_cases h with ⟨heq, hplain⟩ | ⟨e, -, heq, hunescape⟩
  · rw [heq]
    exact run_plain hplain before
  · rw [heq]
    exact run_unescape hunescape before

theorem faithful_escaped (h : ∀ b ∈ s, IsSanitizable signed b) :
    Faithful (escaped signed s) (s.map questionMark) := by
  intro before
  induction s generalizing before with
  | nil =>
      rw [List.map_nil, List.append_nil]
      rfl
  | cons b s ih =>
      rw [escaped_cons, run_append, run_sanitizeByte (h b List.mem_cons_self),
        Option.bind_some, ih fun b' hb' => h b' (List.mem_cons_of_mem b hb'), List.map_cons]
      simp only [Option.map_some, List.nil_append, List.append_assoc, List.cons_append]

/-- If a sanitized string is seen as what it should stand for, then every character is one
of those. -/
theorem sanitizable_of_lexFrom {before after : List Byte} {ts : List Token}
    (hnul : 0 ∉ s) (hlex : lexFrom (.string before) (escaped signed s ++ [0x22] ++ after) =
      some (.str (before ++ s.map questionMark) :: ts)) :
    ∀ b ∈ s, IsSanitizable signed b := by
  induction s generalizing before with
  | nil =>
      intro b hb
      cases hb
  | cons b s ih =>
      rw [List.mem_cons, not_or] at hnul
      rw [escaped_cons, List.append_assoc, List.append_assoc, List.map_cons] at hlex
      have hgood : IsSanitizable signed b := by
        by_contra hbad
        obtain ⟨c, heq, hc⟩ := sanitizeByte_of_not hbad (Ne.symm hnul.1)
        rw [heq] at hlex
        rcases hc with hc | ⟨hplain, hne⟩
        · rw [lexFrom_append_of_none (run_control hc before)] at hlex
          cases hlex
        · rw [lexFrom_append_nil (run_plain hplain before)] at hlex
          exact hne (head_of_lexFrom hlex)
      rw [lexFrom_append_nil (run_sanitizeByte hgood before), ← List.append_assoc,
        List.append_cons before (questionMark b) (s.map questionMark)] at hlex
      intro b' hb'
      rcases List.mem_cons.mp hb' with rfl | hmem
      · exact hgood
      · exact ih hnul.2 hlex b' hmem

end Sanitized

/-! ## Other strings -/

section Raw

variable {state : LexState} {s content : List Byte}

/-- A character that stands for itself, whether or not it is sanitized. -/
def IsPlainAscii (b : Byte) : Prop := isPlain b = true ∧ b.toNat < 0x80

instance (b : Byte) : Decidable (IsPlainAscii b) := inferInstanceAs (Decidable (_ ∧ _))

theorem questionMark_of_plainAscii {b : Byte} (h : IsPlainAscii b) : questionMark b = b :=
  if_neg (Nat.not_le.mpr h.2)

theorem faithful_raw (h : ∀ b ∈ s, IsPlainAscii b) : Faithful s (s.map questionMark) := by
  intro before
  induction s generalizing before with
  | nil =>
      rw [List.map_nil, List.append_nil]
      rfl
  | cons b s ih =>
      have hb := h b List.mem_cons_self
      rw [← List.singleton_append, run_append, run_plain hb.1, Option.bind_some,
        ih fun b' hb' => h b' (List.mem_cons_of_mem b hb'), List.map_append, List.map_cons,
        questionMark_of_plainAscii hb]
      simp only [Option.map_some, List.nil_append, List.append_assoc, List.cons_append,
        List.map_nil]

/-- What follows the name of a kernel: its quote, and the next key. -/
def afterName (rest : List Byte) : List Byte := 0x22 :: 0x2c :: 0x20 :: 0x22 :: rest

/-- The string is not longer than what is printed, unless a backslash takes the quote away,
and the string then ends at the next key. -/
theorem length_of_lexFrom {w rest : List Byte} {ts : List Token}
    (hcontent : state.content = some content)
    (hlex : lexFrom state (s ++ afterName rest) = some (.str (content ++ w) :: ts)) :
    w.length ≤ s.length + state.allowance ∨
      w.getLast? = some 0x20 ∧
        ((s = [] ∧ state = .escaped content) ∨ s.getLast? = some 0x5c) := by
  induction s generalizing state content w ts with
  | nil =>
      cases state with
      | between => cases hcontent
      | word v => cases hcontent
      | string content' =>
          cases hcontent
          rw [List.nil_append, afterName, lexFrom_cons] at hlex
          obtain ⟨ts', -, heq⟩ := Option.map_eq_some_iff.mp hlex
          left
          have hw : content = content ++ w := (Token.str.inj (List.cons.inj heq).1)
          rw [List.self_eq_append_right.mp hw]
          exact Nat.zero_le _
      | escaped content' =>
          cases hcontent
          have hrun : run (.escaped content) [0x22, 0x2c, 0x20, 0x22] =
              some ([.str (content ++ [0x22] ++ [0x2c] ++ [0x20])], .between) := rfl
          have hsplit : [] ++ afterName rest = [0x22, 0x2c, 0x20, 0x22] ++ rest := rfl
          rw [hsplit, lexFrom_append hrun] at hlex
          obtain ⟨ts', -, heq⟩ := Option.map_eq_some_iff.mp hlex
          have hw : content ++ [0x22] ++ [0x2c] ++ [0x20] = content ++ w :=
            Token.str.inj (List.cons.inj heq).1
          rw [List.append_assoc, List.append_assoc, List.append_cancel_left_eq] at hw
          right
          exact ⟨hw ▸ rfl, .inl ⟨rfl, rfl⟩⟩
      | unicode content' digits => cases hlex
  | cons b s ih =>
      rw [List.cons_append, lexFrom_cons] at hlex
      obtain ⟨⟨ts₁, state₁⟩, hstep, hrest⟩ := Option.bind_eq_some_iff.mp hlex
      obtain ⟨ts₂, hlex₂, heq⟩ := Option.map_eq_some_iff.mp hrest
      rcases step_content hcontent hstep with rfl | ⟨rfl, more, hmore⟩
      · left
        have hw : content = content ++ w := Token.str.inj (List.cons.inj heq).1
        rw [List.self_eq_append_right.mp hw]
        exact Nat.zero_le _
      · obtain ⟨more', ts', hts₂⟩ := lexFrom_content hmore hlex₂
        rw [hts₂] at heq hlex₂
        have hw : content ++ more ++ more' = content ++ w :=
          Token.str.inj (List.cons.inj heq).1
        rw [List.append_assoc, List.append_cancel_left_eq] at hw
        have hallowance := step_allowance hcontent hstep hmore
        rcases ih hmore hlex₂ with hlength | ⟨hlast, hend⟩
        · left
          rw [← hw, List.length_append, List.length_cons]
          omega
        · right
          constructor
          · rw [← hw, List.getLast?_append, hlast]
            rfl
          · right
            rcases hend with ⟨rfl, rfl⟩ | hend
            · rw [byte_of_escaped hcontent hstep]
              rfl
            · rw [List.getLast?_cons, hend]
              rfl

/-- If such a string is seen as what it should stand for, then there is nothing in it that
would have to be sanitized. -/
theorem plainAscii_of_lexFrom {before rest : List Byte} {ts : List Token}
    (hlex : lexFrom (.string before) (s ++ afterName rest) =
      some (.str (before ++ s.map questionMark) :: ts)) :
    ∀ b ∈ s, IsPlainAscii b := by
  induction s generalizing before with
  | nil =>
      intro b hb
      cases hb
  | cons b s ih =>
      rw [List.map_cons, List.cons_append] at hlex
      have hstep := hlex
      rw [lexFrom_cons, step] at hstep
      split_ifs at hstep with hquote hescape hcontrol
      · obtain ⟨ts', -, heq⟩ := Option.map_eq_some_iff.mp hstep
        have hw := Token.str.inj (List.cons.inj heq).1
        rw [List.self_eq_append_right] at hw
        cases hw
      · obtain ⟨ts', hts', heq⟩ := Option.map_eq_some_iff.mp hstep
        rw [List.nil_append] at heq
        rw [heq] at hts'
        subst hescape
        rcases length_of_lexFrom rfl hts' with hlength | ⟨hlast, hend⟩
        · rw [List.length_cons, List.length_map] at hlength
          exact absurd hlength (Nat.not_succ_le_self _)
        · rw [List.getLast?_cons, List.getLast?_map] at hlast
          rcases hend with ⟨rfl, -⟩ | hend
          · cases hlast
          · rw [hend] at hlast
            cases hlast
      · cases hstep
      · have hplain : isPlain b = true := by
          rw [isPlain, Bool.and_eq_true, Bool.and_eq_true, decide_eq_true_eq, bne_iff_ne,
            bne_iff_ne]
          exact ⟨⟨Nat.not_lt.mp hcontrol, hquote⟩, hescape⟩
        rw [← List.singleton_append, lexFrom_append_nil (run_plain hplain before)] at hlex
        have hself : b = questionMark b := head_of_lexFrom hlex
        have hascii : b.toNat < 0x80 := by
          by_contra hhigh
          rw [questionMark, if_pos (Nat.not_lt.mp hhigh)] at hself
          subst hself
          exact hhigh (by decide)
        rw [List.append_cons before (questionMark b) (s.map questionMark), ← hself] at hlex
        intro b' hb'
        rcases List.mem_cons.mp hb' with rfl | hmem
        · exact ⟨hplain, hascii⟩
        · exact ih hlex b' hmem

end Raw

end A100Partitioning.TaskHost
