import A100Partitioning.Support.Checks
import Mathlib.Data.List.TakeWhile

/-!
# Lists with a separator

A loop takes one token after the other off a text, up to the next separator, and stops when
nothing is left.  It accepts the texts in which items and separators alternate; a separator at
the end makes no difference to it.
-/

namespace A100Partitioning.Support

variable {α ρ ε : Type}

/-- Items with a separator between them, and the results of the items; there may be one at
the end if this is allowed. -/
inductive Separated (sep : α) (atEnd : Prop) (item : List α → ρ → Prop) :
    List α → List ρ → Prop where
  | last {tok : List α} {r : ρ} (first : item tok r) : Separated sep atEnd item tok [r]
  | atEnd {tok : List α} {r : ρ} (allowed : atEnd) (first : item tok r) :
      Separated sep atEnd item (tok ++ [sep]) [r]
  | cons {tok text : List α} {r : ρ} {rs : List ρ} (first : item tok r)
      (rest : Separated sep atEnd item text rs) :
      Separated sep atEnd item (tok ++ sep :: text) (r :: rs)

theorem Separated.mono {sep : α} {p q : Prop} {item item' : List α → ρ → Prop}
    (hend : p → q) (hitem : ∀ tok r, item tok r → item' tok r) {text : List α} {rs : List ρ}
    (h : Separated sep p item text rs) : Separated sep q item' text rs := by
  induction h with
  | last first => exact .last (hitem _ _ first)
  | atEnd allowed first => exact .atEnd (hend allowed) (hitem _ _ first)
  | cons first rest ih => exact .cons (hitem _ _ first) ih

theorem Separated.forall_mem {sep : α} {p : Prop} {item : List α → ρ → Prop} {good : ρ → Prop}
    (hitem : ∀ tok r, item tok r → good r) {text : List α} {rs : List ρ}
    (h : Separated sep p item text rs) : rs ≠ [] ∧ ∀ r ∈ rs, good r := by
  induction h with
  | last first | atEnd _ first =>
      refine ⟨List.cons_ne_nil _ _, fun r hr => ?_⟩
      rw [List.mem_singleton.mp hr]
      exact hitem _ _ first
  | cons first rest ih =>
      refine ⟨List.cons_ne_nil _ _, fun r hr => ?_⟩
      rcases List.mem_cons.mp hr with rfl | hr
      · exact hitem _ _ first
      · exact ih.2 r hr

variable [DecidableEq α]

/-- The loop; an empty token is an error. -/
def parseTokens (sep : α) (empty : ε) (item : List α → Except ε ρ) (text : List α) :
    Except ε (List ρ) :=
  if text = [] then .ok []
  else
    let tok := text.takeWhile (· ≠ sep)
    if tok = [] then .error empty
    else
      match _htext : text.dropWhile (· ≠ sep) with
      | [] => do
          let r ← item tok
          return [r]
      | _ :: rest => do
          let r ← item tok
          let rs ← parseTokens sep empty item rest
          return r :: rs
termination_by text.length
decreasing_by
  have hle := (List.dropWhile_suffix (l := text) (· ≠ sep)).length_le
  rw [_htext, List.length_cons] at hle
  exact hle

section Tokens

variable {sep : α} {empty : ε} {item : List α → Except ε ρ} {tok text : List α} {rs : List ρ}

theorem forall_ne_of_notMem (h : sep ∉ tok) : ∀ c ∈ tok, decide (c ≠ sep) = true := by
  intro c hc
  refine decide_eq_true fun heq => h ?_
  rwa [← heq]

theorem takeWhile_ne_of_notMem (h : sep ∉ tok) : tok.takeWhile (· ≠ sep) = tok :=
  List.takeWhile_eq_self_iff.mpr (forall_ne_of_notMem h)

theorem dropWhile_ne_of_notMem (h : sep ∉ tok) : tok.dropWhile (· ≠ sep) = [] :=
  List.dropWhile_eq_nil_iff.mpr (forall_ne_of_notMem h)

theorem takeWhile_ne_append (h : sep ∉ tok) :
    (tok ++ sep :: text).takeWhile (· ≠ sep) = tok := by
  rw [List.takeWhile_append_of_pos (forall_ne_of_notMem h),
    List.takeWhile_cons_of_neg (by simp), List.append_nil]

theorem dropWhile_ne_append (h : sep ∉ tok) :
    (tok ++ sep :: text).dropWhile (· ≠ sep) = sep :: text := by
  rw [List.dropWhile_append_of_pos (forall_ne_of_notMem h),
    List.dropWhile_cons_of_neg (by simp)]

theorem parseTokens_nil : parseTokens sep empty item [] = .ok [] := by
  rw [parseTokens, if_pos rfl]

theorem parseTokens_of_notMem (hne : tok ≠ []) (h : sep ∉ tok) :
    parseTokens sep empty item tok = item tok >>= fun r => .ok [r] := by
  rw [parseTokens, if_neg hne]
  simp only [takeWhile_ne_of_notMem h, if_neg hne]
  split
  · rfl
  · next htext =>
      rw [dropWhile_ne_of_notMem h] at htext
      cases htext

theorem parseTokens_append (h : sep ∉ tok) :
    parseTokens sep empty item (tok ++ sep :: text) =
      if tok = [] then .error empty
      else item tok >>= fun r => parseTokens sep empty item text >>= fun rs => .ok (r :: rs) := by
  rw [parseTokens, if_neg (List.append_ne_nil_of_right_ne_nil _ (List.cons_ne_nil _ _))]
  simp only [takeWhile_ne_append h]
  split_ifs
  · rfl
  · split
    · next htext =>
        rw [dropWhile_ne_append h] at htext
        cases htext
    · next htext =>
        rw [dropWhile_ne_append h] at htext
        obtain ⟨-, rfl⟩ := List.cons.inj htext
        rfl

/-- The loop accepts a text that is not empty exactly when it is a list of tokens that are
accepted, with or without a separator at the end. -/
theorem parseTokens_eq_ok_iff (hne : text ≠ []) :
    parseTokens sep empty item text = .ok rs ↔
      Separated sep True (fun tok r => (tok ≠ [] ∧ sep ∉ tok) ∧ item tok = .ok r) text rs := by
  constructor
  · intro h
    -- by the length of the text, which each turn makes shorter
    induction hlen : text.length using Nat.strong_induction_on generalizing text rs with
    | _ n ih =>
        by_cases hmem : sep ∈ text
        · obtain ⟨tok, rest, rfl, hnot⟩ := List.eq_append_cons_of_mem hmem
          rw [parseTokens_append hnot] at h
          split_ifs at h with htok
          obtain ⟨r, hr, h⟩ := exists_of_bind_ok h
          obtain ⟨rs, hrs, h⟩ := exists_of_bind_ok h
          cases h
          by_cases hrest : rest = []
          · subst hrest
            rw [parseTokens_nil] at hrs
            cases hrs
            exact .atEnd trivial ⟨⟨htok, hnot⟩, hr⟩
          · refine .cons ⟨⟨htok, hnot⟩, hr⟩ (ih rest.length ?_ hrest hrs rfl)
            rw [← hlen, List.length_append, List.length_cons]
            omega
        · rw [parseTokens_of_notMem hne hmem] at h
          obtain ⟨r, hr, h⟩ := exists_of_bind_ok h
          cases h
          exact .last ⟨⟨hne, hmem⟩, hr⟩
  · intro h
    induction h with
    | last first =>
        obtain ⟨⟨htok, hnot⟩, hr⟩ := first
        rw [parseTokens_of_notMem htok hnot, hr]
        rfl
    | atEnd _ first =>
        obtain ⟨⟨htok, hnot⟩, hr⟩ := first
        rw [parseTokens_append hnot, if_neg htok, hr, parseTokens_nil]
        rfl
    | @cons tok text r rs first rest ih =>
        obtain ⟨⟨htok, hnot⟩, hr⟩ := first
        have hrest : text ≠ [] := by
          cases rest with
          | last first => exact first.1.1
          | atEnd _ first => exact List.append_ne_nil_of_right_ne_nil _ (List.cons_ne_nil _ _)
          | cons first _ => exact List.append_ne_nil_of_right_ne_nil _ (List.cons_ne_nil _ _)
        rw [parseTokens_append hnot, if_neg htok, hr, ih hrest]
        rfl

end Tokens

end A100Partitioning.Support
