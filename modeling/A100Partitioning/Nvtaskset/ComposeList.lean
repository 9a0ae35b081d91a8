import A100Partitioning.Nvtaskset.ParseList
import Mathlib.Data.List.Basic
import Mathlib.Data.Nat.Bitwise
import Mathlib.Tactic.Common
import Mathlib.Tactic.NormNum
import Mathlib.Tactic.Ring
import Mathlib.Tactic.Ring.Basic

/-!
# Printing lists of TPCs and GPCs

`nvtaskset` prints the set bits of a mask in one pass, as a list with a range
for every run of bits.  Reading such a list restores the mask, but for a run
that ends at the last bit, a mask without any bits, and the flag that the pass
starts with.
-/

namespace A100Partitioning.Nvtaskset

/-! ## The code -/

/-- The conversion `%d`. -/
def decimal : ℤ → List Char
  | .ofNat n => Nat.toDigits 10 n
  | .negSucc n => '-' :: Nat.toDigits 10 (n + 1)

/-- The variables of `compose_list`, with what is printed so far. -/
structure Compose where
  inRange : Bool
  lastEnabled : ℤ
  text : List Char
  deriving DecidableEq, Repr

/-- One turn of the loop. -/
def Compose.step (mask : BitVec 128) (s : Compose) (i : ℕ) : Compose :=
  let enabled := mask.getLsbD i
  if s.inRange then
    if enabled then { s with lastEnabled := i }
    else { s with
      text := s.text ++ decimal s.lastEnabled ++ [',']
      inRange := false }
  else if enabled then
    if s.lastEnabled = i - 1 then
      { inRange := true, text := s.text ++ ['-'], lastEnabled := i }
    else { s with text := s.text ++ decimal i, lastEnabled := i }
  else if s.lastEnabled = i - 1 then { s with text := s.text ++ [','] }
  else s

/-- The variables after some turns.  The code does not initialise `in_range`. -/
def composeAt (mask : BitVec 128) (inRange : Bool) (turns : ℕ) : Compose :=
  (List.range turns).foldl (Compose.step mask) ⟨inRange, -2, []⟩

/-- `compose_list`, which prints into a static buffer.  When it prints nothing,
the byte that it tests for a comma is in front of the buffer, and it returns the
list that an earlier call has left. -/
def composeList (stale : List Char) (inRange : Bool) (mask : BitVec 128) :
    List Char :=
  let text := (composeAt mask inRange 128).text
  if text = [] then stale
  else if text.getLast? = some ',' then text.dropLast
  else text

/-- What calls can leave in the static buffer. -/
inductive Leaves : List Char → Prop where
  | start : Leaves []
  | call {stale : List Char} (before : Leaves stale) (inRange : Bool)
      (mask : BitVec 128) : Leaves (composeList stale inRange mask)

/-! ## Runs -/

/-- The item for a run of bits. -/
def render (run : ℕ × ℕ) : List Char :=
  if run.1 = run.2 then Nat.toDigits 10 run.1
  else Nat.toDigits 10 run.1 ++ '-' :: Nat.toDigits 10 run.2

/-- Items with a comma behind each. -/
def commas (items : List (List Char)) : List Char :=
  items.flatMap (· ++ [','])

/-- What is printed of a run of bits that goes up to the current one. -/
def pendingText (i a : ℕ) : List Char :=
  Nat.toDigits 10 a ++ if a + 1 < i then ['-'] else []

/-- After the turns up to `i` the pass has printed, behind some other items, the
runs of bits since `j`, and has perhaps begun one. -/
structure Renders (mask : BitVec 128) (items : List (List Char)) (j i : ℕ)
    (s : Compose) (runs : List (ℕ × ℕ)) (pending : Option ℕ) : Prop where
  text : s.text = commas (items ++ runs.map render) ++
    (pending.map (pendingText i)).getD []
  idle : pending = none → s.inRange = false ∧ s.lastEnabled + 1 < i
  begun : ∀ a, pending = some a → j ≤ a ∧ a < i ∧ s.lastEnabled = i - 1 ∧
    s.inRange = decide (a + 1 < i)
  within : ∀ r ∈ runs, j ≤ r.1 ∧ r.1 ≤ r.2 ∧ r.2 + 1 < i ∧
    mask.getLsbD (r.2 + 1) = false
  bits : ∀ id, j ≤ id → id < i → (mask.getLsbD id = true ↔
    (∃ r ∈ runs, r.1 ≤ id ∧ id ≤ r.2) ∨ ∃ a, pending = some a ∧ a ≤ id)

theorem commas_append (xs ys : List (List Char)) :
    commas (xs ++ ys) = commas xs ++ commas ys := List.flatMap_append

theorem commas_singleton (item : List Char) : commas [item] = item ++ [','] := by
  rw [commas, List.flatMap_singleton]

theorem decimal_natCast (n : ℕ) : decimal n = Nat.toDigits 10 n := rfl

section Step

variable {mask : BitVec 128} {items : List (List Char)} {j i : ℕ} {s : Compose}
  {runs : List (ℕ × ℕ)}

theorem Renders.step_idle_clear (h : Renders mask items j i s runs none)
    (hbit : mask.getLsbD i = false) :
    Renders mask items j (i + 1) (s.step mask i) runs none := by
  obtain ⟨hrange, hlast⟩ := h.idle rfl
  have hstep : s.step mask i = s := by
    rw [Compose.step, hbit, hrange, if_neg Bool.false_ne_true,
      if_neg Bool.false_ne_true, if_neg (by omega)]
  rw [hstep]
  refine ⟨h.text, fun _ => ⟨hrange, by omega⟩, fun a ha => (nomatch ha),
    fun r hr => ?_, fun id hj hid => ?_⟩
  · obtain ⟨hfirst, hle, hltr, hclear⟩ := h.within r hr
    exact ⟨hfirst, hle, by omega, hclear⟩
  · by_cases hi : id = i
    · subst hi
      refine iff_of_false (by rw [hbit]; exact Bool.false_ne_true) ?_
      rintro (⟨r, hr, -, hlt⟩ | ⟨a, ha, -⟩)
      · exact absurd (h.within r hr).2.2.1 (by omega)
      · cases ha
    · exact h.bits id hj (by omega)

theorem Renders.step_idle_set (h : Renders mask items j i s runs none)
    (hj : j ≤ i) (hbit : mask.getLsbD i = true) :
    Renders mask items j (i + 1) (s.step mask i) runs (some i) := by
  obtain ⟨hrange, hlast⟩ := h.idle rfl
  have hstep : s.step mask i =
      ⟨false, i, s.text ++ Nat.toDigits 10 i⟩ := by
    rw [Compose.step, hbit, hrange, if_neg Bool.false_ne_true, if_pos rfl,
      if_neg (by omega), decimal_natCast]
  rw [hstep]
  refine ⟨?_, fun h => (nomatch h), fun a ha => ?_, fun r hr => ?_,
    fun id hid hlt => ?_⟩
  · dsimp only
    rw [h.text, Option.map_none, Option.getD_none, List.append_nil, Option.map_some,
      Option.getD_some, pendingText, if_neg (by omega), List.append_nil]
  · cases ha
    exact ⟨hj, by omega, by push_cast; ring, (decide_eq_false (by omega)).symm⟩
  · obtain ⟨hfirst, hle, hltr, hclear⟩ := h.within r hr
    exact ⟨hfirst, hle, by omega, hclear⟩
  · by_cases hi : id = i
    · subst hi
      exact iff_of_true hbit (.inr ⟨id, rfl, le_rfl⟩)
    · rw [h.bits id hid (by omega)]
      refine or_congr_right (iff_of_false ?_ ?_)
      · rintro ⟨a, ha, -⟩
        cases ha
      · rintro ⟨a, ha, hle⟩
        cases ha
        omega

theorem Renders.step_begun_set {a : ℕ}
    (h : Renders mask items j i s runs (some a)) (hbit : mask.getLsbD i = true) :
    Renders mask items j (i + 1) (s.step mask i) runs (some a) := by
  obtain ⟨hj, hlt, hlast, hrange⟩ := h.begun a rfl
  have hstep : s.step mask i =
      ⟨true, i, s.text ++ if a + 1 < i then [] else ['-']⟩ := by
    rw [Compose.step, hbit, hrange]
    by_cases hlong : a + 1 < i
    · rw [decide_eq_true hlong, if_pos rfl, if_pos rfl, if_pos hlong,
        List.append_nil]
    · rw [decide_eq_false hlong, if_neg Bool.false_ne_true, if_pos rfl,
        if_pos hlast, if_neg hlong]
  rw [hstep]
  refine ⟨?_, fun h => (nomatch h), fun b hb => ?_, fun r hr => ?_,
    fun id hid hltid => ?_⟩
  · dsimp only
    rw [h.text, Option.map_some, Option.getD_some, Option.map_some,
      Option.getD_some, pendingText, pendingText, if_pos (by omega : a + 1 < i + 1)]
    split_ifs <;> simp only [List.append_assoc, List.append_nil]
  · cases hb
    exact ⟨hj, by omega, by push_cast; ring, (decide_eq_true (by omega)).symm⟩
  · obtain ⟨hfirst, hle, hltr, hclear⟩ := h.within r hr
    exact ⟨hfirst, hle, by omega, hclear⟩
  · by_cases hi : id = i
    · subst hi
      exact iff_of_true hbit (.inr ⟨a, rfl, hlt.le⟩)
    · exact h.bits id hid (by omega)

theorem Renders.step_begun_clear {a : ℕ}
    (h : Renders mask items j i s runs (some a)) (hbit : mask.getLsbD i = false) :
    Renders mask items j (i + 1) (s.step mask i) (runs ++ [(a, i - 1)]) none := by
  obtain ⟨hj, hlt, hlast, hrange⟩ := h.begun a rfl
  have hcast : ((i - 1 : ℕ) : ℤ) = i - 1 := by omega
  have hstep : s.step mask i = ⟨false, s.lastEnabled,
      s.text ++ if a + 1 < i then Nat.toDigits 10 (i - 1) ++ [','] else [',']⟩ := by
    rw [Compose.step, hbit, hrange]
    by_cases hlong : a + 1 < i
    · rw [decide_eq_true hlong, if_pos rfl, if_neg Bool.false_ne_true, if_pos hlong,
        hlast, ← hcast, decimal_natCast, List.append_assoc]
    · rw [decide_eq_false hlong, if_neg Bool.false_ne_true,
        if_neg Bool.false_ne_true, if_pos hlast, if_neg hlong]
  rw [hstep]
  refine ⟨?_, fun _ => ⟨rfl, ?_⟩, fun b hb => (nomatch hb), fun r hr => ?_,
    fun id hid hltid => ?_⟩
  · have hclosed : commas (items ++ (runs ++ [(a, i - 1)]).map render) =
        commas (items ++ runs.map render) ++ (render (a, i - 1) ++ [',']) := by
      rw [List.map_append, ← List.append_assoc, commas_append, List.map_singleton,
        commas_singleton]
    dsimp only
    rw [h.text, Option.map_some, Option.getD_some, pendingText, Option.map_none,
      Option.getD_none, List.append_nil, hclosed, render]
    by_cases hlong : a + 1 < i
    · rw [if_pos hlong, if_pos hlong, if_neg (by dsimp only; omega)]
      simp only [List.append_assoc, List.cons_append, List.nil_append]
    · rw [if_neg hlong, if_neg hlong, if_pos (by dsimp only; omega)]
      simp only [List.append_assoc, List.nil_append]
  · rw [hlast]
    push_cast
    omega
  · rcases List.mem_append.mp hr with hr | hr
    · obtain ⟨hfirst, hle, hltr, hclear⟩ := h.within r hr
      exact ⟨hfirst, hle, by omega, hclear⟩
    · rw [List.mem_singleton] at hr
      subst hr
      have hsucc : i - 1 + 1 = i := by omega
      exact ⟨hj, by dsimp only; omega, by dsimp only; omega, by rwa [hsucc]⟩
  · by_cases hi : id = i
    · subst hi
      refine iff_of_false (by rw [hbit]; exact Bool.false_ne_true) ?_
      rintro (⟨r, hr, -, hle⟩ | ⟨b, hb, -⟩)
      · rcases List.mem_append.mp hr with hr | hr
        · exact absurd (h.within r hr).2.2.1 (by omega)
        · rw [List.mem_singleton] at hr
          subst hr
          dsimp only at hle
          omega
      · cases hb
    · rw [h.bits id hid (by omega)]
      constructor
      · rintro (⟨r, hr, hin⟩ | ⟨b, hb, hle⟩)
        · exact .inl ⟨r, List.mem_append_left _ hr, hin⟩
        · cases hb
          exact .inl ⟨(a, i - 1), List.mem_append_right _ (List.mem_singleton_self _),
            hle, by dsimp only; omega⟩
      · rintro (⟨r, hr, hin⟩ | ⟨b, hb, -⟩)
        · rcases List.mem_append.mp hr with hr | hr
          · exact .inl ⟨r, hr, hin⟩
          · rw [List.mem_singleton] at hr
            subst hr
            exact .inr ⟨a, rfl, hin.1⟩
        · cases hb

end Step

theorem composeAt_succ (mask : BitVec 128) (inRange : Bool) (i : ℕ) :
    composeAt mask inRange (i + 1) = (composeAt mask inRange i).step mask i := by
  rw [composeAt, List.range_succ, List.foldl_append]
  rfl

/-- Once the pass stands between runs, it renders all runs that follow. -/
theorem Renders.exists_of_le {mask : BitVec 128} {inRange : Bool}
    {items : List (List Char)} {j : ℕ}
    (h : Renders mask items j j (composeAt mask inRange j) [] none) {i : ℕ}
    (hij : j ≤ i) :
    ∃ runs pending, Renders mask items j i (composeAt mask inRange i) runs pending := by
  induction i, hij using Nat.le_induction with
  | base => exact ⟨[], none, h⟩
  | succ i hij ih =>
      obtain ⟨runs, pending, hi⟩ := ih
      rw [composeAt_succ]
      cases hbit : mask.getLsbD i with
      | false =>
          cases pending with
          | none => exact ⟨_, _, hi.step_idle_clear hbit⟩
          | some a => exact ⟨_, _, hi.step_begun_clear hbit⟩
      | true =>
          cases pending with
          | none => exact ⟨_, _, hi.step_idle_set hij hbit⟩
          | some a => exact ⟨_, _, hi.step_begun_set hbit⟩

theorem renders_start (mask : BitVec 128) :
    Renders mask [] 0 0 (composeAt mask false 0) [] none :=
  ⟨rfl, fun _ => ⟨rfl, (by decide : (-2 : ℤ) + 1 < 0)⟩, fun a ha => (nomatch ha),
    fun r hr => absurd hr List.not_mem_nil, fun id _ h => absurd h (Nat.not_lt_zero id)⟩

/-- The last of the set bits at the start of a mask; -2 if there are none. -/
def lastLeading (k : ℕ) : ℤ := if k = 0 then -2 else k - 1

/-- With the flag set, the bits at the start are a range that has no beginning. -/
theorem composeAt_leading {mask : BitVec 128} {k : ℕ}
    (h : ∀ i < k, mask.getLsbD i = true) :
    composeAt mask true k = ⟨true, lastLeading k, []⟩ := by
  induction k with
  | zero => rfl
  | succ k ih =>
      have hlast : lastLeading (k + 1) = k := by
        rw [lastLeading, if_neg k.succ_ne_zero]
        push_cast
        ring
      rw [composeAt_succ, ih fun i hi => h i (by omega), Compose.step,
        h k (by omega), if_pos rfl, if_pos rfl, hlast]

theorem renders_leading {mask : BitVec 128} {k : ℕ}
    (hset : ∀ i < k, mask.getLsbD i = true) (hclear : mask.getLsbD k = false) :
    Renders mask [decimal (lastLeading k)] (k + 1) (k + 1)
      (composeAt mask true (k + 1)) [] none := by
  have hstate : composeAt mask true (k + 1) =
      ⟨false, lastLeading k, decimal (lastLeading k) ++ [',']⟩ := by
    rw [composeAt_succ, composeAt_leading hset, Compose.step, hclear, if_pos rfl,
      if_neg Bool.false_ne_true, List.nil_append]
  rw [hstate]
  refine ⟨?_, fun _ => ⟨rfl, ?_⟩, fun a ha => (nomatch ha),
    fun r hr => absurd hr List.not_mem_nil, fun id hj h => absurd hj (by omega)⟩
  · rw [List.map_nil, List.append_nil, commas_singleton, Option.map_none,
      Option.getD_none, List.append_nil]
  · rw [lastLeading]
    split_ifs with hk
    · rw [hk]
      decide
    · push_cast
      omega

/-! ## The finished list -/

/-- The unfinished run at the end of the mask, as an item. -/
def lastItems (pending : Option ℕ) : List (List Char) :=
  pending.toList.map (pendingText 128)

theorem intercalate_append_singleton (items : List (List Char)) (item : List Char) :
    [','].intercalate (items ++ [item]) = commas items ++ item := by
  induction items with
  | nil => rw [List.nil_append, List.intercalate_singleton]; rfl
  | cons first items ih =>
      rw [List.cons_append, List.intercalate_cons_of_ne_nil
        (List.append_ne_nil_of_right_ne_nil _ (List.cons_ne_nil _ _)), ih]
      exact (List.append_assoc _ _ _).symm

theorem isNumeral_toDigits (n : ℕ) : IsNumeral (Nat.toDigits 10 n) :=
  ⟨Nat.toDigits_ne_nil, fun _ hc => Nat.isDigit_of_mem_toDigits (by decide) le_rfl hc⟩

theorem not_mem_comma_toDigits (n : ℕ) : ',' ∉ Nat.toDigits 10 n :=
  fun h => absurd ((isNumeral_toDigits n).2 _ h) (by decide)

theorem not_mem_comma_pendingText (i a : ℕ) : ',' ∉ pendingText i a := by
  rw [pendingText, List.mem_append]
  rintro (h | h)
  · exact not_mem_comma_toDigits a h
  · split_ifs at h
    · exact absurd h (by decide)
    · exact absurd h List.not_mem_nil

theorem not_mem_comma_render (run : ℕ × ℕ) : ',' ∉ render run := by
  rw [render]
  split_ifs
  · exact not_mem_comma_toDigits _
  · rw [List.mem_append, List.mem_cons]
    rintro (h | h | h)
    · exact not_mem_comma_toDigits _ h
    · exact absurd h (by decide)
    · exact not_mem_comma_toDigits _ h

theorem Renders.composeList_eq {mask : BitVec 128} {inRange : Bool}
    {items : List (List Char)} {j : ℕ} {runs : List (ℕ × ℕ)} {pending : Option ℕ}
    (h : Renders mask items j 128 (composeAt mask inRange 128) runs pending)
    (stale : List Char) :
    composeList stale inRange mask =
      if items ++ runs.map render ++ lastItems pending = [] then stale
      else [','].intercalate (items ++ runs.map render ++ lastItems pending) := by
  rw [composeList, h.text, lastItems]
  cases pending with
  | none =>
      rw [Option.map_none, Option.getD_none, List.append_nil, Option.toList_none,
        List.map_nil, List.append_nil]
      rcases List.eq_nil_or_concat (items ++ runs.map render) with
        hnil | ⟨before, item, hlast⟩
      · rw [hnil]
        rfl
      · rw [hlast, List.concat_eq_append, intercalate_append_singleton, commas_append,
          commas_singleton, ← List.append_assoc, List.getLast?_concat,
          List.dropLast_concat, if_neg (List.concat_ne_nil _ _), if_pos rfl,
          if_neg (List.concat_ne_nil _ _)]
  | some a =>
      rw [Option.map_some, Option.getD_some, Option.toList_some, List.map_singleton,
        intercalate_append_singleton]
      have hne : pendingText 128 a ≠ [] :=
        List.append_ne_nil_of_left_ne_nil Nat.toDigits_ne_nil _
      have hlast : ∀ text : List Char, (text ++ pendingText 128 a).getLast? ≠ some ',' := by
        intro text hlast
        rw [List.getLast?_append_of_ne_nil _ hne] at hlast
        exact not_mem_comma_pendingText 128 a (List.mem_of_getLast? hlast)
      rw [if_neg (List.append_ne_nil_of_right_ne_nil _ hne), if_neg (hlast _),
        if_neg (List.append_ne_nil_of_right_ne_nil _ (List.cons_ne_nil _ _))]

/-- The mask ends with a run that has no end in a list. -/
def EndsInRange (mask : BitVec 128) : Prop :=
  mask.getLsbD 126 = true ∧ mask.getLsbD 127 = true

instance (mask : BitVec 128) : Decidable (EndsInRange mask) :=
  inferInstanceAs (Decidable (_ ∧ _))

/-- A list whose last item is a range without an end. -/
def Unclosed (list : List Char) : Prop :=
  ∃ items a, (∀ item ∈ items, ',' ∉ item) ∧ a < 127 ∧
    list = [','].intercalate (items ++ [Nat.toDigits 10 a ++ ['-']])

/-- Runs of bits that end at 128 at the latest. -/
def AreRuns (runs : List (ℕ × ℕ)) : Prop := ∀ r ∈ runs, r.1 ≤ r.2 ∧ r.2 < 128

theorem Renders.lastItems_of_endsInRange {mask : BitVec 128}
    {items : List (List Char)} {j : ℕ} {s : Compose} {runs : List (ℕ × ℕ)}
    {pending : Option ℕ} (h : Renders mask items j 128 s runs pending)
    (hj : j ≤ 126) (hends : EndsInRange mask) :
    ∃ a, a < 127 ∧ lastItems pending = [Nat.toDigits 10 a ++ ['-']] := by
  have hopen : ∃ a, pending = some a ∧ a ≤ 126 := by
    rcases (h.bits 126 hj (by decide)).mp hends.1 with ⟨r, hr, -, hle⟩ | hopen
    · obtain ⟨-, -, hlt, hclear⟩ := h.within r hr
      have hlast : r.2 + 1 = 127 := by omega
      rw [hlast, hends.2] at hclear
      cases hclear
    · exact hopen
  obtain ⟨a, rfl, ha⟩ := hopen
  refine ⟨a, by omega, ?_⟩
  rw [lastItems, Option.toList_some, List.map_singleton, pendingText,
    if_pos (by omega)]

theorem Renders.exists_runs {mask : BitVec 128} {items : List (List Char)}
    {j : ℕ} {s : Compose} {runs : List (ℕ × ℕ)} {pending : Option ℕ}
    (h : Renders mask items j 128 s runs pending) (hends : ¬ EndsInRange mask) :
    ∃ all, AreRuns all ∧ (∀ r ∈ all, j ≤ r.1) ∧
      runs.map render ++ lastItems pending = all.map render ∧
      ∀ id, j ≤ id → id < 128 → (mask.getLsbD id = true ↔
        ∃ r ∈ all, r.1 ≤ id ∧ id ≤ r.2) := by
  have hruns : AreRuns runs := fun r hr =>
    ⟨(h.within r hr).2.1, by have := (h.within r hr).2.2.1; omega⟩
  have hfirst : ∀ r ∈ runs, j ≤ r.1 := fun r hr => (h.within r hr).1
  cases pending with
  | none =>
      refine ⟨runs, hruns, hfirst, List.append_nil _, fun id hj hid => ?_⟩
      rw [h.bits id hj hid, or_iff_left]
      rintro ⟨a, ha, -⟩
      cases ha
  | some a =>
      obtain ⟨hja, hlt, -⟩ := h.begun a rfl
      have ha : a = 127 := by
        by_contra hne
        exact hends ⟨(h.bits 126 (by omega) (by decide)).mpr (.inr ⟨a, rfl, by omega⟩),
          (h.bits 127 (by omega) (by decide)).mpr (.inr ⟨a, rfl, by omega⟩)⟩
      subst ha
      refine ⟨runs ++ [(127, 127)], ?_, ?_, ?_, fun id hj hid => ?_⟩
      · rintro r hr
        rcases List.mem_append.mp hr with hr | hr
        · exact hruns r hr
        · rw [List.mem_singleton.mp hr]
          decide
      · rintro r hr
        rcases List.mem_append.mp hr with hr | hr
        · exact hfirst r hr
        · rw [List.mem_singleton.mp hr]
          exact hja
      · rw [List.map_append]
        rfl
      · rw [h.bits id hj hid]
        simp only [List.mem_append, List.mem_singleton, or_and_right, exists_or,
          exists_eq_left, Option.some.injEq, exists_eq_left']
        exact or_congr_right (by omega)

theorem not_mem_comma_map_render (runs : List (ℕ × ℕ)) :
    ∀ item ∈ runs.map render, ',' ∉ item := by
  rintro item hitem
  obtain ⟨r, -, rfl⟩ := List.mem_map.mp hitem
  exact not_mem_comma_render r

theorem composeList_false {mask : BitVec 128} (hmask : mask ≠ 0)
    (stale : List Char) :
    (EndsInRange mask → Unclosed (composeList stale false mask)) ∧
    (¬ EndsInRange mask → ∃ runs, runs ≠ [] ∧ AreRuns runs ∧
      composeList stale false mask = [','].intercalate (runs.map render) ∧
      ∀ id, id < 128 → (mask.getLsbD id = true ↔
        ∃ r ∈ runs, r.1 ≤ id ∧ id ≤ r.2)) := by
  obtain ⟨runs, pending, h⟩ := (renders_start mask).exists_of_le (Nat.zero_le 128)
  rw [h.composeList_eq, List.nil_append]
  refine ⟨fun hends => ?_, fun hends => ?_⟩
  · obtain ⟨a, ha, hlast⟩ := h.lastItems_of_endsInRange (Nat.zero_le 126) hends
    rw [hlast, if_neg (List.concat_ne_nil _ _)]
    exact ⟨_, a, not_mem_comma_map_render runs, ha, rfl⟩
  · obtain ⟨all, hall, -, heq, hbits⟩ := h.exists_runs hends
    have hne : all ≠ [] := by
      rintro rfl
      refine hmask (BitVec.eq_of_getLsbD_eq fun i hi => ?_)
      have hclear : ¬ mask.getLsbD i = true := by
        rw [hbits i (Nat.zero_le i) hi]
        rintro ⟨r, hr, -⟩
        cases hr
      exact (Bool.eq_false_iff.mpr hclear).trans BitVec.getLsbD_zero.symm
    rw [heq, if_neg (by rwa [List.map_eq_nil_iff])]
    exact ⟨all, hne, hall, rfl, fun id hid => hbits id (Nat.zero_le id) hid⟩

theorem not_mem_comma_lastLeading (k : ℕ) : ',' ∉ decimal (lastLeading k) := by
  cases k with
  | zero => decide
  | succ k =>
      have hlast : lastLeading (k + 1) = k := by
        rw [lastLeading, if_neg k.succ_ne_zero]
        push_cast
        ring
      rw [hlast, decimal_natCast]
      exact not_mem_comma_toDigits k

theorem composeList_true {mask : BitVec 128} {k : ℕ} (hk : k < 128)
    (hset : ∀ i < k, mask.getLsbD i = true) (hclear : mask.getLsbD k = false)
    (stale : List Char) :
    (EndsInRange mask → Unclosed (composeList stale true mask)) ∧
    (¬ EndsInRange mask → ∃ runs, AreRuns runs ∧ (∀ r ∈ runs, k < r.1) ∧
      composeList stale true mask =
        [','].intercalate (decimal (lastLeading k) :: runs.map render) ∧
      ∀ id, k < id → id < 128 → (mask.getLsbD id = true ↔
        ∃ r ∈ runs, r.1 ≤ id ∧ id ≤ r.2)) := by
  obtain ⟨runs, pending, h⟩ := (renders_leading hset hclear).exists_of_le hk
  rw [h.composeList_eq, List.singleton_append, List.cons_append,
    if_neg (List.cons_ne_nil _ _)]
  refine ⟨fun hends => ?_, fun hends => ?_⟩
  · have hne : k ≠ 126 ∧ k ≠ 127 := by
      constructor <;> rintro rfl
      · exact Bool.false_ne_true (hclear.symm.trans hends.1)
      · exact Bool.false_ne_true (hclear.symm.trans hends.2)
    obtain ⟨a, ha, hlast⟩ := h.lastItems_of_endsInRange (by omega) hends
    rw [hlast]
    exact ⟨_ :: _, a, List.forall_mem_cons.mpr
      ⟨not_mem_comma_lastLeading k, not_mem_comma_map_render runs⟩, ha, rfl⟩
  · obtain ⟨all, hall, hfirst, heq, hbits⟩ := h.exists_runs hends
    rw [heq]
    exact ⟨all, hall, hfirst, rfl, hbits⟩

/-! ## Reading a printed list -/

theorem numeral_toDigits (n : ℕ) : numeral (Nat.toDigits 10 n) = n :=
  Nat.ofDigitChars_ten_toDigits

theorem denote_render (r : ℕ × ℕ) : denote (render r) = some r := by
  rw [render]
  split_ifs with hsame
  · rw [denote_of_isNumeral (isNumeral_toDigits _), numeral_toDigits]
    exact congrArg some (Prod.ext rfl hsame)
  · rw [denote_range (isNumeral_toDigits _) (isNumeral_toDigits _),
      numeral_toDigits, numeral_toDigits]

theorem lt_of_mem_dash_render {r : ℕ × ℕ} (hle : r.1 ≤ r.2)
    (h : '-' ∈ render r) : r.1 < r.2 := by
  refine lt_of_le_of_ne hle fun hsame => ?_
  rw [render, if_pos hsame] at h
  exact (isNumeral_toDigits _).not_mem_dash h

/-- The items of a printed list are the ones that were printed. -/
theorem splitOn_runs {runs : List (ℕ × ℕ)} (hne : runs ≠ []) :
    ([','].intercalate (runs.map render)).splitOn ',' = runs.map render :=
  List.splitOn_intercalate ',' (not_mem_comma_map_render runs)
    (by rwa [Ne, List.map_eq_nil_iff])

theorem lists_runs {runs : List (ℕ × ℕ)} (hne : runs ≠ []) (id : ℕ) :
    Lists ([','].intercalate (runs.map render)) id ↔
      ∃ r ∈ runs, r.1 ≤ id ∧ id ≤ r.2 := by
  rw [Lists, splitOn_runs hne]
  constructor
  · rintro ⟨item, hitem, first, last, hdenote, hid⟩
    obtain ⟨r, hr, rfl⟩ := List.mem_map.mp hitem
    rw [denote_render] at hdenote
    cases hdenote
    exact ⟨_, hr, hid⟩
  · rintro ⟨r, hr, hid⟩
    exact ⟨render r, List.mem_map_of_mem hr, r.1, r.2, denote_render r, hid⟩

theorem wellFormed_runs {runs : List (ℕ × ℕ)} (hne : runs ≠ []) {count : ℕ}
    (hruns : ∀ r ∈ runs, r.1 ≤ r.2 ∧ r.2 < count) :
    WellFormed count ([','].intercalate (runs.map render)) := by
  rw [WellFormed, splitOn_runs hne]
  intro item hitem
  obtain ⟨r, hr, rfl⟩ := List.mem_map.mp hitem
  exact ⟨r.1, r.2, denote_render r, hruns r hr⟩

theorem getLsbD_bits_none (n : BitVec 32) (id i : ℕ) :
    ((⟨n, none⟩ : Xpcs).bits id).getLsbD i = true ↔ id = i ∧ i < 128 := by
  change ((1 : BitVec 128) <<< id).getLsbD i = true ↔ _
  rw [BitVec.getLsbD_shiftLeft]
  constructor
  · intro h
    simp only [Bool.and_eq_true, decide_eq_true_eq, Bool.not_eq_true',
      decide_eq_false_iff_not] at h
    obtain ⟨⟨hi, hle⟩, hone⟩ := h
    have hzero : i - id = 0 := by
      by_contra hne
      have hclear : (1 : BitVec 128).getLsbD (i - id) = false := by
        rw [show (1 : BitVec 128) = 1#128 from rfl, BitVec.getLsbD_one,
          decide_eq_false hne, Bool.and_false]
      rw [hclear] at hone
      cases hone
    omega
  · rintro ⟨rfl, hi⟩
    simp only [Nat.sub_self, lt_irrefl, decide_false, Bool.not_false, Bool.and_true,
      Bool.and_eq_true, decide_eq_true_eq]
    exact ⟨hi, rfl⟩

theorem parseList_runs {n : BitVec 32} (hn : n.toNat ≤ 128)
    {runs : List (ℕ × ℕ)} (hne : runs ≠ [])
    (hruns : ∀ r ∈ runs, r.1 ≤ r.2 ∧ r.2 < n.toNat) :
    ∃ mask, parseList ⟨n, none⟩ ([','].intercalate (runs.map render)) = .ok mask ∧
      ∀ i, mask.getLsbD i = true ↔ ∃ r ∈ runs, r.1 ≤ i ∧ i ≤ r.2 := by
  have hcovers : ∀ item ∈ ([','].intercalate (runs.map render)).splitOn ',',
      ∀ first last, denote item = some (first, last) →
        (⟨n, none⟩ : Xpcs).Covers item first last := by
    rw [splitOn_runs hne]
    intro item hitem first last hdenote
    obtain ⟨r, hr, rfl⟩ := List.mem_map.mp hitem
    rw [denote_render] at hdenote
    cases hdenote
    obtain ⟨hle, hlt⟩ := hruns _ hr
    refine ⟨lt_of_lt_of_le hlt hn, ?_⟩
    split_ifs with hdash
    · exact ⟨lt_of_mem_dash_render hle hdash, by omega⟩
    · omega
  obtain ⟨mask, hparse, hbits⟩ :=
    parseList_of_covers (wellFormed_runs hne hruns) hcovers
  refine ⟨mask, hparse, fun i => ?_⟩
  rw [hbits]
  constructor
  · rintro ⟨id, hid, hbit⟩
    obtain ⟨rfl, -⟩ := (getLsbD_bits_none n id i).mp hbit
    exact (lists_runs hne id).mp hid
  · rintro ⟨r, hr, hid⟩
    have hlt := (hruns r hr).2
    exact ⟨i, (lists_runs hne i).mpr ⟨r, hr, hid⟩,
      (getLsbD_bits_none n i i).mpr ⟨rfl, by omega⟩⟩

/-- The item of a range without an end. -/
theorem Unclosed.exists_item {list : List Char} (h : Unclosed list) :
    ∃ a, a < 127 ∧ Nat.toDigits 10 a ++ ['-'] ∈ list.splitOn ',' := by
  obtain ⟨items, a, hitems, ha, rfl⟩ := h
  refine ⟨a, ha, ?_⟩
  have hcomma : ',' ∉ Nat.toDigits 10 a ++ ['-'] := by
    rw [List.mem_append]
    rintro (hmem | hmem)
    · exact not_mem_comma_toDigits a hmem
    · exact absurd hmem (by decide)
  rw [List.splitOn_intercalate ',' _ (List.concat_ne_nil _ _)]
  · exact List.mem_append_right _ (List.mem_singleton_self _)
  · rintro item hitem
    rcases List.mem_append.mp hitem with hitem | hitem
    · exact hitems item hitem
    · rwa [List.mem_singleton.mp hitem]

theorem Unclosed.parseList_ne_ok {list : List Char} (h : Unclosed list)
    (x : Xpcs) (mask : BitVec 128) : parseList x list ≠ .ok mask := by
  obtain ⟨a, ha, hitem⟩ := h.exists_item
  intro hparse
  rw [parseList_eq] at hparse
  have hnot := (x.taken_of_addItems_ok hparse _ hitem).1
  have hread : readItem (Nat.toDigits 10 a ++ ['-']) =
      (BitVec.ofNat 32 a, []) := by
    rw [readItem_range (isNumeral_toDigits a).not_mem_dash List.not_mem_nil,
      atoi_of_isNumeral (isNumeral_toDigits a) (by rw [numeral_toDigits]; omega),
      numeral_toDigits]
  have hnat : (BitVec.ofNat 32 a).toNat = a := Nat.mod_eq_of_lt (by omega)
  refine hnot (.inr ?_)
  rw [itemEnd, hread]
  refine ⟨fun heq => ?_, ?_⟩
  · have hall : (-1 : BitVec 32).toNat = 2 ^ 32 - 1 := rfl
    dsimp only at heq
    rw [heq] at hnat
    omega
  · have hzero : (atoi []).toInt = 0 := by decide
    dsimp only
    rw [hzero]
    rcases toInt_cases (BitVec.ofNat 32 a) with ⟨-, hint⟩ | ⟨hge, -⟩ <;> omega

/-! ## Restoring a mask -/

/-- A list of TPCs that is accepted sets the bits that its items are read as. -/
theorem getLsbD_of_parseList_tpcs {n : BitVec 32} {list : List Char}
    {mask : BitVec 128} (h : parseList ⟨n, none⟩ list = .ok mask) {i : ℕ}
    (hi : i < 128) : mask.getLsbD i = true ↔
      ∃ item ∈ list.splitOn ',', (itemStart item).toNat ≤ i ∧
        i ≤ (itemEnd item).toNat := by
  rw [getLsbD_of_parseList_ok h]
  constructor
  · rintro ⟨item, hitem, id, hfirst, hlast, hbit⟩
    obtain ⟨rfl, -⟩ := (getLsbD_bits_none n id i).mp hbit
    exact ⟨item, hitem, hfirst, Nat.lt_succ_iff.mp hlast⟩
  · rintro ⟨item, hitem, hfirst, hlast⟩
    exact ⟨item, hitem, i, hfirst, Nat.lt_succ_of_le hlast,
      (getLsbD_bits_none n i i).mpr ⟨rfl, hi⟩⟩

theorem readItem_render {r : ℕ × ℕ} (hle : r.1 ≤ r.2) (hlt : r.2 < 128) :
    (itemStart (render r)).toNat = r.1 ∧ (itemEnd (render r)).toNat = r.2 :=
  (Xpcs.taken_iff_covers ⟨128, none⟩ (denote_render r) hle hlt).2

theorem exists_mem_map_render {runs : List (ℕ × ℕ)} (hruns : AreRuns runs)
    (i : ℕ) :
    (∃ item ∈ runs.map render, (itemStart item).toNat ≤ i ∧
      i ≤ (itemEnd item).toNat) ↔ ∃ r ∈ runs, r.1 ≤ i ∧ i ≤ r.2 := by
  simp only [List.mem_map, exists_exists_and_eq_and]
  refine exists_congr fun r => and_congr_right fun hr => ?_
  obtain ⟨hstart, hend⟩ := readItem_render (hruns r hr).1 (hruns r hr).2
  rw [hstart, hend]

/-- What can be read from the list for a mask, when the flag starts out clear. -/
theorem getLsbD_of_parseList_false {n : BitVec 32} {mask mask' : BitVec 128}
    (hmask : mask ≠ 0) {stale : List Char}
    (h : parseList ⟨n, none⟩ (composeList stale false mask) = .ok mask') :
    ¬ EndsInRange mask ∧
      ∀ i, i < 128 → (mask'.getLsbD i = true ↔ mask.getLsbD i = true) := by
  obtain ⟨hopen, hclosed⟩ := composeList_false hmask stale
  have hends : ¬ EndsInRange mask := fun hends =>
    (hopen hends).parseList_ne_ok _ _ h
  obtain ⟨runs, hne, hruns, heq, hbits⟩ := hclosed hends
  refine ⟨hends, fun i hi => ?_⟩
  rw [getLsbD_of_parseList_tpcs h hi, heq, splitOn_runs hne,
    exists_mem_map_render hruns, hbits i hi]

/-- What can be read from it when the flag starts out set: the first bits are
lost but for the last of them. -/
theorem getLsbD_of_parseList_true {n : BitVec 32} {mask mask' : BitVec 128}
    {k : ℕ} (hk : k < 128) (hset : ∀ i < k, mask.getLsbD i = true)
    (hclear : mask.getLsbD k = false) {stale : List Char}
    (h : parseList ⟨n, none⟩ (composeList stale true mask) = .ok mask') :
    ¬ EndsInRange mask ∧ ∀ i, i < 128 → (mask'.getLsbD i = true ↔
      (if k = 0 then i ≤ 2 else i + 1 = k) ∨ k < i ∧ mask.getLsbD i = true) := by
  obtain ⟨hopen, hclosed⟩ := composeList_true hk hset hclear stale
  have hends : ¬ EndsInRange mask := fun hends =>
    (hopen hends).parseList_ne_ok _ _ h
  obtain ⟨runs, hruns, hfirst, heq, hbits⟩ := hclosed hends
  refine ⟨hends, fun i hi => ?_⟩
  have hsplit : (composeList stale true mask).splitOn ',' =
      decimal (lastLeading k) :: runs.map render := by
    rw [heq]
    exact List.splitOn_intercalate ',' (List.forall_mem_cons.mpr
      ⟨not_mem_comma_lastLeading k, not_mem_comma_map_render runs⟩)
      (List.cons_ne_nil _ _)
  have hlead : ((itemStart (decimal (lastLeading k))).toNat ≤ i ∧
      i ≤ (itemEnd (decimal (lastLeading k))).toNat) ↔
        if k = 0 then i ≤ 2 else i + 1 = k := by
    cases k with
    | zero =>
        have hstart : (itemStart (decimal (lastLeading 0))).toNat = 0 := by decide
        have hend : (itemEnd (decimal (lastLeading 0))).toNat = 2 := by decide
        rw [hstart, hend, if_pos rfl, and_iff_right (Nat.zero_le i)]
    | succ k =>
        have hitem : decimal (lastLeading (k + 1)) = render (k, k) := by
          rw [lastLeading, if_neg k.succ_ne_zero, render, if_pos rfl,
            ← decimal_natCast]
          push_cast
          rw [add_sub_cancel_right]
        obtain ⟨hstart, hend⟩ :=
          readItem_render (r := (k, k)) le_rfl (by dsimp only; omega)
        rw [hitem, hstart, hend, if_neg k.succ_ne_zero]
        dsimp only
        omega
  rw [getLsbD_of_parseList_tpcs h hi, hsplit]
  simp only [List.mem_cons, exists_eq_or_imp]
  rw [hlead, exists_mem_map_render hruns]
  refine or_congr_right ⟨?_, fun ⟨hki, hbit⟩ => (hbits i hki hi).mp hbit⟩
  rintro ⟨r, hr, hin⟩
  have hki : k < i := lt_of_lt_of_le (hfirst r hr) hin.1
  exact ⟨hki, (hbits i hki hi).mpr ⟨r, hr, hin⟩⟩

theorem exists_leading {mask : BitVec 128} (h : mask ≠ BitVec.allOnes 128) :
    ∃ k < 128, (∀ i < k, mask.getLsbD i = true) ∧ mask.getLsbD k = false := by
  have hexists : ∃ k, k < 128 ∧ mask.getLsbD k = false := by
    by_contra hnone
    refine h (BitVec.eq_of_getLsbD_eq fun i hi => ?_)
    rw [BitVec.getLsbD_allOnes, decide_eq_true hi]
    by_contra hbit
    exact hnone ⟨i, hi, Bool.eq_false_iff.mpr hbit⟩
  refine ⟨Nat.find hexists, (Nat.find_spec hexists).1, fun i hi => ?_,
    (Nat.find_spec hexists).2⟩
  by_contra hbit
  exact Nat.find_min hexists hi
    ⟨hi.trans (Nat.find_spec hexists).1, Bool.eq_false_iff.mpr hbit⟩

/-- The list names exactly the set bits. -/
def ListsBits (count : ℕ) (list : List Char) (mask : BitVec 128) : Prop :=
  WellFormed count list ∧ ∀ id, Lists list id ↔ mask.getLsbD id = true

theorem listsBits_of_runs {count : ℕ} {mask : BitVec 128}
    (hlt : ∀ id, mask.getLsbD id = true → id < count) {runs : List (ℕ × ℕ)}
    (hne : runs ≠ []) (hruns : AreRuns runs)
    (hbits : ∀ id, id < 128 → (mask.getLsbD id = true ↔
      ∃ r ∈ runs, r.1 ≤ id ∧ id ≤ r.2)) :
    ListsBits count ([','].intercalate (runs.map render)) mask := by
  refine ⟨wellFormed_runs hne fun r hr => ⟨(hruns r hr).1, hlt r.2 ?_⟩, fun id => ?_⟩
  · exact (hbits r.2 (hruns r hr).2).mpr ⟨r, hr, (hruns r hr).1, le_rfl⟩
  · rw [lists_runs hne]
    by_cases hid : id < 128
    · exact (hbits id hid).symm
    · refine iff_of_false ?_ ?_
      · rintro ⟨r, hr, -, hle⟩
        have hlast := (hruns r hr).2
        omega
      · rw [BitVec.getLsbD_of_ge mask id (not_lt.mp hid)]
        exact Bool.false_ne_true

theorem getLsbD_iff_cons {mask : BitVec 128} (hset : mask.getLsbD 0 = true)
    (hclear : mask.getLsbD 1 = false) {runs : List (ℕ × ℕ)}
    (hfirst : ∀ r ∈ runs, 1 < r.1)
    (hbits : ∀ id, 1 < id → id < 128 → (mask.getLsbD id = true ↔
      ∃ r ∈ runs, r.1 ≤ id ∧ id ≤ r.2)) (id : ℕ) (hid : id < 128) :
    mask.getLsbD id = true ↔ ∃ r ∈ (0, 0) :: runs, r.1 ≤ id ∧ id ≤ r.2 := by
  simp only [List.mem_cons, exists_eq_or_imp]
  rcases Nat.lt_trichotomy id 1 with hlow | rfl | hhigh
  · rw [Nat.lt_one_iff.mp hlow]
    exact iff_of_true hset (.inl ⟨le_rfl, le_rfl⟩)
  · refine iff_of_false (by rw [hclear]; exact Bool.false_ne_true) ?_
    rintro (⟨-, hle⟩ | ⟨r, hr, hle, -⟩)
    · exact absurd hle (by decide)
    · exact absurd (hfirst r hr) (by omega)
  · rw [hbits id hhigh hid, or_iff_right]
    rintro ⟨-, hle⟩
    omega

/-- When the list for a mask, all of whose ranges have an end, names its bits. -/
theorem composeList_listsBits_iff {mask : BitVec 128} (hmask : mask ≠ 0)
    (hends : ¬ EndsInRange mask) {count : ℕ}
    (hlt : ∀ id, mask.getLsbD id = true → id < count) (stale : List Char)
    (inRange : Bool) :
    ListsBits count (composeList stale inRange mask) mask ↔
      (inRange = true → mask.getLsbD 0 = true ∧ mask.getLsbD 1 = false) := by
  cases inRange with
  | false =>
      obtain ⟨runs, hne, hruns, heq, hbits⟩ :=
        (composeList_false hmask stale).2 hends
      rw [heq]
      exact iff_of_true (listsBits_of_runs hlt hne hruns hbits) fun h => (nomatch h)
  | true =>
      have hfull : mask ≠ BitVec.allOnes 128 := by
        rintro rfl
        exact hends (by decide)
      obtain ⟨k, hk, hset, hclear⟩ := exists_leading hfull
      obtain ⟨runs, hruns, hfirst, heq, hbits⟩ :=
        (composeList_true hk hset hclear stale).2 hends
      rw [heq, imp_iff_right rfl]
      match k, hk, hset, hclear, hfirst, hbits with
      | 0, hk, hset, hclear, hfirst, hbits =>
          refine iff_of_false (fun h => ?_)
            fun h => Bool.false_ne_true (hclear.symm.trans h.1)
          obtain ⟨first, last, hdenote, -⟩ := h.1 (decimal (lastLeading 0)) (by
            rw [List.splitOn_intercalate ',' (List.forall_mem_cons.mpr
              ⟨not_mem_comma_lastLeading 0, not_mem_comma_map_render runs⟩)
              (List.cons_ne_nil _ _)]
            exact List.mem_cons_self)
          have hnone : denote (decimal (lastLeading 0)) = none := by decide
          rw [hnone] at hdenote
          cases hdenote
      | 1, hk, hset, hclear, hfirst, hbits =>
          have hbits := getLsbD_iff_cons (hset 0 Nat.one_pos) hclear hfirst hbits
          exact iff_of_true (listsBits_of_runs hlt
            (List.cons_ne_nil _ _) (List.forall_mem_cons.mpr ⟨by decide, hruns⟩)
            hbits) ⟨hset 0 Nat.one_pos, hclear⟩
      | k + 2, hk, hset, hclear, hfirst, hbits =>
          refine iff_of_false (fun h => ?_)
            fun h => Bool.false_ne_true (h.2.symm.trans (hset 1 (by omega)))
          have hitem : decimal (lastLeading (k + 2)) = render (k + 1, k + 1) := by
            rw [lastLeading, if_neg (Nat.succ_ne_zero _), render, if_pos rfl,
              ← decimal_natCast]
            exact congrArg decimal (by push_cast; ring)
          rw [hitem, ← List.map_cons] at h
          obtain ⟨r, hr, hle, -⟩ := (lists_runs (List.cons_ne_nil _ _) 0).mp
            ((h.2 0).mpr (hset 0 (by omega)))
          rcases List.mem_cons.mp hr with rfl | hr
          · exact absurd hle (by omega)
          · have hlow := hfirst r hr
            omega

set_option maxRecDepth 30000 in
/-- When nothing is printed, what is returned is left from an earlier call. -/
theorem composeList_zero (stale : List Char) : composeList stale false 0 = stale := by
  have htext : (composeAt 0 false 128).text = [] := by decide
  rw [composeList, if_pos htext]

set_option maxRecDepth 30000 in
/-- With the flag set, the empty mask is a range without a beginning. -/
theorem composeList_true_zero (stale : List Char) :
    composeList stale true 0 = ['-', '2'] := by
  have htext : (composeAt 0 true 128).text = ['-', '2', ','] := by decide
  rw [composeList, htext, if_neg (by decide), if_pos (by decide)]
  rfl

set_option maxRecDepth 30000 in
theorem composeList_allOnes (stale : List Char) :
    composeList stale true (BitVec.allOnes 128) = stale := by
  have htext : (composeAt (BitVec.allOnes 128) true 128).text = [] := by
    decide
  rw [composeList, if_pos htext]

theorem Leaves.parseList_ne_allOnes {stale : List Char} (h : Leaves stale)
    (n : BitVec 32) : parseList ⟨n, none⟩ stale ≠ .ok (BitVec.allOnes 128) := by
  have hall : ∀ i < 128, (BitVec.allOnes 128).getLsbD i = true := fun i hi => by
    rw [BitVec.getLsbD_allOnes, decide_eq_true hi]
  induction h with
  | start =>
      intro hparse
      obtain ⟨item, hitem, -, hle⟩ :=
        (getLsbD_of_parseList_tpcs hparse (i := 1) (by decide)).mp (hall 1 (by decide))
      rw [List.splitOn_nil, List.mem_singleton] at hitem
      have hend : (itemEnd []).toNat = 0 := by decide
      rw [hitem, hend] at hle
      exact absurd hle (by decide)
  | @call stale before inRange mask ih =>
      intro hparse
      cases inRange with
      | false =>
          by_cases hmask : mask = 0
          · rw [hmask, composeList_zero] at hparse
            exact ih hparse
          · obtain ⟨hends, hbits⟩ := getLsbD_of_parseList_false hmask hparse
            exact hends ⟨(hbits 126 (by decide)).mp (hall 126 (by decide)),
              (hbits 127 (by decide)).mp (hall 127 (by decide))⟩
      | true =>
          by_cases hmask : mask = BitVec.allOnes 128
          · rw [hmask, composeList_allOnes] at hparse
            exact ih hparse
          · obtain ⟨k, hk, hset, hclear⟩ := exists_leading hmask
            obtain ⟨hends, hbits⟩ := getLsbD_of_parseList_true hk hset hclear hparse
            by_cases hzero : k = 0
            · have hbit : ∀ i, 2 < i → i < 128 → mask.getLsbD i = true := by
                intro i hlow hi
                rcases (hbits i hi).mp (hall i hi) with hlead | ⟨-, hbit⟩
                · rw [if_pos hzero] at hlead
                  omega
                · exact hbit
              exact hends ⟨hbit 126 (by decide) (by decide),
                hbit 127 (by decide) (by decide)⟩
            · rcases (hbits k hk).mp (hall k hk) with hlead | ⟨hlt, -⟩
              · rw [if_neg hzero] at hlead
                omega
              · exact absurd hlt (lt_irrefl k)

/-- The list for a mask restores it, and there is none for the empty mask. -/
def Restores (stale : List Char) (inRange : Bool) (n : BitVec 32)
    (mask : BitVec 128) : Prop :=
  (mask ≠ 0 →
    parseList ⟨n, none⟩ (composeList stale inRange mask) = .ok mask) ∧
  (mask = 0 → composeList stale inRange mask = [])

theorem lt_of_getLsbD {n : ℕ} {mask : BitVec 128} (hmask : mask.toNat < 2 ^ n)
    {i : ℕ} (h : mask.getLsbD i = true) : i < n := by
  by_contra hle
  have hclear : mask.toNat.testBit i = false := Nat.testBit_eq_false_of_lt
    (hmask.trans_le (Nat.pow_le_pow_right (by decide) (not_lt.mp hle)))
  exact Bool.false_ne_true (hclear.symm.trans h)

/-- Reading the list for a mask, if it has an item for each run of bits. -/
theorem parseList_of_runs {n : BitVec 32} (hn : n.toNat ≤ 128)
    {mask : BitVec 128} (hlt : mask.toNat < 2 ^ n.toNat) {runs : List (ℕ × ℕ)}
    (hne : runs ≠ []) (hruns : AreRuns runs)
    (hbits : ∀ id, id < 128 → (mask.getLsbD id = true ↔
      ∃ r ∈ runs, r.1 ≤ id ∧ id ≤ r.2)) :
    parseList ⟨n, none⟩ ([','].intercalate (runs.map render)) = .ok mask := by
  have hbelow : ∀ r ∈ runs, r.1 ≤ r.2 ∧ r.2 < n.toNat := fun r hr =>
    ⟨(hruns r hr).1, lt_of_getLsbD hlt
      ((hbits r.2 (hruns r hr).2).mpr ⟨r, hr, (hruns r hr).1, le_rfl⟩)⟩
  obtain ⟨mask', hparse, hbits'⟩ := parseList_runs hn hne hbelow
  rw [hparse]
  refine congrArg _ (BitVec.eq_of_getLsbD_eq fun i hi => ?_)
  rw [Bool.eq_iff_iff, hbits', hbits i hi]

/-- When the list for a mask, given back to `nvtaskset`, restores the mask. -/
theorem composeList_restores_iff {stale : List Char} (hstale : Leaves stale)
    (inRange : Bool) {n : BitVec 32} (hn : n.toNat ≤ 128) {mask : BitVec 128}
    (hlt : mask.toNat < 2 ^ n.toNat) :
    Restores stale inRange n mask ↔
      (mask ≠ 0 → ¬ EndsInRange mask ∧
        (inRange = true → mask.getLsbD 0 = true ∧ mask.getLsbD 1 = false)) ∧
      (mask = 0 → inRange = false ∧ stale = []) := by
  rw [Restores]
  refine and_congr (imp_congr_right fun hmask => ?_)
    (forall_congr' fun hmask => ?_)
  · cases inRange with
    | false =>
        refine ⟨fun hparse => ⟨(getLsbD_of_parseList_false hmask hparse).1,
          fun h => (nomatch h)⟩, fun h => ?_⟩
        obtain ⟨runs, hne, hruns, heq, hbits⟩ :=
          (composeList_false hmask stale).2 h.1
        rw [heq]
        exact parseList_of_runs hn hlt hne hruns hbits
    | true =>
        constructor
        · intro hparse
          have hfull : mask ≠ BitVec.allOnes 128 := by
            rintro rfl
            rw [composeList_allOnes] at hparse
            exact hstale.parseList_ne_allOnes n hparse
          obtain ⟨k, hk, hset, hclear⟩ := exists_leading hfull
          obtain ⟨hends, hbits⟩ := getLsbD_of_parseList_true hk hset hclear hparse
          refine ⟨hends, fun _ => ?_⟩
          have hone : k = 1 := by
            by_cases hzero : k = 0
            · have hbit := (hbits 0 (by decide)).mpr
                (.inl (by rw [if_pos hzero]; exact Nat.zero_le 2))
              rw [hzero, hbit] at hclear
              cases hclear
            · rcases (hbits 0 (by decide)).mp (hset 0 (by omega)) with
                hlead | ⟨hlow, -⟩
              · rw [if_neg hzero] at hlead
                exact hlead.symm
              · exact absurd hlow (Nat.not_lt_zero k)
          subst hone
          exact ⟨hset 0 (by decide), hclear⟩
        · rintro ⟨hends, hlead⟩
          obtain ⟨hset, hclear⟩ := hlead rfl
          obtain ⟨runs, hruns, hfirst, heq, hbits⟩ :=
            (composeList_true (k := 1) (by decide)
              (fun i hi => by rwa [Nat.lt_one_iff.mp hi]) hclear stale).2 hends
          rw [heq]
          exact parseList_of_runs hn hlt
            (List.cons_ne_nil _ _) (List.forall_mem_cons.mpr ⟨by decide, hruns⟩)
            (getLsbD_iff_cons hset hclear hfirst hbits)
  · rw [hmask]
    cases inRange with
    | false => rw [composeList_zero, eq_self_iff_true, true_and]
    | true =>
        rw [composeList_true_zero]
        exact iff_of_false (List.cons_ne_nil _ _) fun h => (nomatch h.1)

set_option maxRecDepth 30000 in
/-- The last two TPCs of 128, as they were printed by the first call. -/
theorem composeList_last :
    composeList [] false (3 <<< 126) = ['1', '2', '6', '-'] ∧
      ¬ Restores [] false 128 (3 <<< 126) := by
  have hlist : composeList [] false (3 <<< 126) = ['1', '2', '6', '-'] := by
    decide
  refine ⟨hlist, fun h => ?_⟩
  have hparse := h.1 (by decide)
  rw [hlist] at hparse
  have hreject : parseList ⟨128, none⟩ ['1', '2', '6', '-'] = .error .malformedRange := by
    decide
  rw [hreject] at hparse
  cases hparse

/-- On a GPU with 64 TPCs, the list `0-3,8` comes from the mask that it gives. -/
theorem composeList_restores_iff_next :
    parseList ⟨64, none⟩ (composeList [] false 0x10f) = .ok 0x10f := by
  have hrestores : Restores [] false 64 0x10f :=
    (composeList_restores_iff Leaves.start false (by decide) (by decide)).mpr
      ⟨fun _ => ⟨fun h => absurd h.1 (by decide), fun h => (nomatch h)⟩,
        fun h => absurd h (by decide)⟩
  exact hrestores.1 (by decide)

end A100Partitioning.Nvtaskset
