import A100Partitioning.Config.CJson

/-!
# Thread and block counts

A count is a number or an array of up to three numbers.  The array is walked twice: once
for its length, and once for its values.
-/

namespace A100Partitioning.Config

/-! ## The code -/

/-- Why parsing stops: the configuration is rejected, or a null pointer is read. -/
inductive Stop where
  | rejected
  | nullPointer
  deriving DecidableEq, Repr

/-- The first walk, from the second item on. -/
def arrayLength : List CJson → ℕ → Except Stop ℕ
  | [], length => .ok length
  | _ :: element, length =>
      if 3 < length + 1 then .error .rejected else arrayLength element (length + 1)

/-- The second walk, with the number of turns that are left.  Nothing moves `element` on. -/
def fillDims (element : CJson) : ℕ → ℕ → List ℤ → Except Stop (List ℤ)
  | 0, _, dim3 => .ok dim3
  | turns + 1, i, dim3 =>
      match element with
      | .number value =>
          if value.valueint ≤ 0 then .error .rejected
          else fillDims element turns (i + 1) (dim3.set i value.valueint)
      | _ => .error .rejected

/-- `ParseDim3OrInt`.  Without an entry, `entry->type` is read through a null pointer. -/
def parseDim3OrInt : Option CJson → Except Stop (List ℤ)
  | none => .error .nullPointer
  | some (.number value) =>
      if value.valueint ≤ 0 then .error .rejected else .ok [value.valueint, 1, 1]
  | some (.array (element :: rest)) => do
      let length ← arrayLength rest 1
      fillDims element length 0 [1, 1, 1]
  | some _ => .error .rejected

/-! ## Counts -/

/-- The numbers of a count: a positive number, or one to three in an array. -/
def IsCount (entry : Option CJson) (numbers : List Double) : Prop :=
  (∀ value ∈ numbers, value.Positive) ∧
    ((∃ value, entry = some (.number value) ∧ numbers = [value]) ∨
      entry = some (.array (numbers.map .number)) ∧ 1 ≤ numbers.length ∧ numbers.length ≤ 3)

/-- The numbers of a count up to the third, which is 1 if it is not given. -/
def padded (numbers : List Double) : List Double :=
  numbers ++ List.replicate (3 - numbers.length) (.ofInt 1)

/-- Exactly the counts are accepted, with their numbers, and no null pointer is read. -/
structure DimsExact (entry : Option CJson) : Prop where
  accepted : ∀ dim3, parseDim3OrInt entry = .ok dim3 →
    ∃ numbers, IsCount entry numbers ∧ dim3.map Double.ofInt = padded numbers
  rejected : parseDim3OrInt entry = .error .rejected → ∀ numbers, ¬ IsCount entry numbers
  defined : parseDim3OrInt entry ≠ .error .nullPointer

/-- The condition for that.  Only the first number of an array is looked at. -/
def DimsCondition : Option CJson → Prop
  | none => False
  | some (.number value) => value.Positive → value.IsInt
  | some (.array (.number value :: rest)) =>
      rest.length ≤ 2 → value.Positive →
        if 0 < value.valueint then value.IsInt ∧ ∀ item ∈ rest, item = .number value
        else ∃ item ∈ rest, ∀ other, item = .number other → ¬ other.Positive
  | some _ => True

theorem arrayLength_eq (rest : List CJson) (length : ℕ) (hlength : length ≤ 3) :
    arrayLength rest length =
      if length + rest.length ≤ 3 then .ok (length + rest.length) else .error .rejected := by
  induction rest generalizing length with
  | nil =>
      rw [List.length_nil, Nat.add_zero, if_pos hlength]
      rfl
  | cons item rest ih =>
      rw [arrayLength, List.length_cons]
      split_ifs with hlong hfits hfits
      · omega
      · rfl
      · rw [ih (length + 1) (by omega), if_pos (by omega)]
        congr 1
        omega
      · rw [ih (length + 1) (by omega), if_neg (by omega)]

theorem parseDim3OrInt_array (element : CJson) (rest : List CJson) :
    parseDim3OrInt (some (.array (element :: rest))) =
      if rest.length ≤ 2 then fillDims element (rest.length + 1) 0 [1, 1, 1]
      else .error .rejected := by
  have hlength := arrayLength_eq rest 1 (by decide)
  rw [Nat.add_comm 1] at hlength
  rw [parseDim3OrInt]
  split_ifs with hshort
  · rw [hlength, if_pos (by omega)]
    rfl
  · rw [hlength, if_neg (by omega)]
    rfl

theorem fillDims_number {value : Double} (h : 0 < value.valueint) {more : ℕ}
    (hmore : more ≤ 2) :
    fillDims (.number value) (more + 1) 0 [1, 1, 1] =
      .ok (List.replicate (more + 1) value.valueint ++ List.replicate (2 - more) 1) := by
  have hcheck : ¬ value.valueint ≤ 0 := not_le.mpr h
  obtain rfl | rfl | rfl : more = 0 ∨ more = 1 ∨ more = 2 := by omega
  all_goals
    simp only [fillDims, if_neg hcheck]
    rfl

theorem fillDims_error {element : CJson}
    (h : ∀ value, element = .number value → value.valueint ≤ 0) (turns i : ℕ)
    (dim3 : List ℤ) : fillDims element (turns + 1) i dim3 = .error .rejected := by
  cases element with
  | number value =>
      rw [fillDims]
      exact if_pos (h value rfl)
  | null => rfl
  | bool value => rfl
  | string valuestring => rfl
  | array elems => rfl
  | object members => rfl

/-! ## Which counts are read exactly -/

theorem isCount_number_iff (value : Double) (numbers : List Double) :
    IsCount (some (.number value)) numbers ↔ value.Positive ∧ numbers = [value] := by
  constructor
  · rintro ⟨hpos, ⟨value', hentry, rfl⟩ | ⟨hentry, -⟩⟩
    · cases hentry
      exact ⟨hpos value List.mem_cons_self, rfl⟩
    · cases hentry
  · rintro ⟨hpos, rfl⟩
    refine ⟨?_, .inl ⟨value, rfl, rfl⟩⟩
    intro value' hvalue
    rw [List.mem_singleton.mp hvalue]
    exact hpos

theorem isCount_array_iff (element : CJson) (rest : List CJson) (numbers : List Double) :
    IsCount (some (.array (element :: rest))) numbers ↔
      element :: rest = numbers.map .number ∧ (∀ value ∈ numbers, value.Positive) ∧
        rest.length ≤ 2 := by
  constructor
  · rintro ⟨hpos, ⟨value, hentry, -⟩ | ⟨hentry, -, hlength⟩⟩
    · cases hentry
    · have heq : element :: rest = numbers.map .number :=
        CJson.array.inj (Option.some.inj hentry)
      have hlen := congrArg List.length heq
      rw [List.length_cons, List.length_map] at hlen
      exact ⟨heq, hpos, by omega⟩
  · rintro ⟨heq, hpos, hlength⟩
    have hlen := congrArg List.length heq
    rw [List.length_cons, List.length_map] at hlen
    exact ⟨hpos, .inr ⟨by rw [heq], by omega, by omega⟩⟩

theorem dimsExact_number_iff (value : Double) :
    DimsExact (some (.number value)) ↔ (value.Positive → value.IsInt) := by
  by_cases hint : value.valueint ≤ 0
  · have hparse : parseDim3OrInt (some (.number value)) = .error .rejected := if_pos hint
    constructor
    · intro h hpos
      exact absurd ((isCount_number_iff value [value]).mpr ⟨hpos, rfl⟩) (h.rejected hparse _)
    · intro h
      refine ⟨?_, ?_, ?_⟩
      · intro dim3 haccepted
        rw [hparse] at haccepted
        cases haccepted
      · intro _ numbers hcount
        obtain ⟨hpos, -⟩ := (isCount_number_iff value numbers).mp hcount
        obtain ⟨n, hmin, hmax, rfl⟩ := h hpos
        rw [Double.valueint_ofInt hmin hmax] at hint
        rw [Double.ofInt, Double.Positive] at hpos
        exact absurd (by exact_mod_cast hpos) (not_lt.mpr hint)
      · rw [hparse]
        exact fun h => by cases h
  · have hparse : parseDim3OrInt (some (.number value)) = .ok [value.valueint, 1, 1] :=
      if_neg hint
    have hpos := Double.positive_of_valueint (not_le.mp hint)
    constructor
    · intro h _
      obtain ⟨numbers, hcount, heq⟩ := h.accepted _ hparse
      obtain ⟨-, rfl⟩ := (isCount_number_iff value numbers).mp hcount
      exact (Double.ofInt_valueint_iff value).mp (List.cons.inj heq).1
    · intro h
      have hvalue := (Double.ofInt_valueint_iff value).mpr (h hpos)
      refine ⟨?_, ?_, ?_⟩
      · intro dim3 haccepted
        rw [hparse] at haccepted
        cases haccepted
        refine ⟨[value], (isCount_number_iff value _).mpr ⟨hpos, rfl⟩, ?_⟩
        rw [List.map_cons, hvalue]
        rfl
      · intro hrejected
        rw [hparse] at hrejected
        cases hrejected
      · rw [hparse]
        exact fun h => by cases h

theorem exists_numbers {items : List CJson}
    (h : ∀ item ∈ items, ∃ value, item = .number value ∧ value.Positive) :
    ∃ numbers : List Double, items = numbers.map .number ∧ ∀ value ∈ numbers, value.Positive := by
  induction items with
  | nil => exact ⟨[], rfl, fun _ hvalue => (List.not_mem_nil hvalue).elim⟩
  | cons item items ih =>
      obtain ⟨value, rfl, hpos⟩ := h item List.mem_cons_self
      obtain ⟨numbers, rfl, hnumbers⟩ := ih fun item hitem => h item (List.mem_cons_of_mem _ hitem)
      exact ⟨value :: numbers, rfl, List.forall_mem_cons.mpr ⟨hpos, hnumbers⟩⟩

theorem dimsExact_of_rejected {element : CJson} {rest : List CJson}
    (h : parseDim3OrInt (some (.array (element :: rest))) = .error .rejected) :
    DimsExact (some (.array (element :: rest))) ↔
      ∀ numbers, ¬ IsCount (some (.array (element :: rest))) numbers := by
  constructor
  · exact fun hexact => hexact.rejected h
  · intro hnone
    refine ⟨?_, fun _ => hnone, ?_⟩
    · intro dim3 haccepted
      rw [h] at haccepted
      cases haccepted
    · rw [h]
      exact fun h => by cases h

theorem dimsExact_of_accepted {value : Double} {rest : List CJson}
    (hvalue : 0 < value.valueint) (hshort : rest.length ≤ 2) :
    DimsExact (some (.array (.number value :: rest))) ↔
      value.IsInt ∧ ∀ item ∈ rest, item = .number value := by
  have hparse := (parseDim3OrInt_array (.number value) rest).trans (if_pos hshort)
  rw [fillDims_number hvalue hshort] at hparse
  constructor
  · intro h
    obtain ⟨numbers, hcount, heq⟩ := h.accepted _ hparse
    obtain ⟨hitems, -, -⟩ := (isCount_array_iff _ rest numbers).mp hcount
    have hlength : numbers.length = rest.length + 1 := by
      have hlen := congrArg List.length hitems
      rw [List.length_cons, List.length_map] at hlen
      exact hlen.symm
    rw [padded, List.map_append, List.map_replicate] at heq
    have hall := List.append_inj_left heq (by rw [List.length_replicate, hlength])
    rw [← hall, List.map_replicate, List.replicate_succ, List.cons.injEq] at hitems
    have hint : Double.ofInt value.valueint = value := (CJson.number.inj hitems.1).symm
    refine ⟨(Double.ofInt_valueint_iff value).mp hint, fun item hitem => ?_⟩
    rw [hitems.2, hint] at hitem
    exact List.eq_of_mem_replicate hitem
  · rintro ⟨hint, hsame⟩
    have hrest : rest = List.replicate rest.length (.number value) :=
      List.eq_replicate_iff.mpr ⟨rfl, hsame⟩
    refine ⟨?_, ?_, ?_⟩
    · intro dim3 haccepted
      rw [hparse] at haccepted
      cases haccepted
      refine ⟨List.replicate (rest.length + 1) value,
        (isCount_array_iff _ rest _).mpr ⟨?_, ?_, hshort⟩, ?_⟩
      · rw [List.map_replicate, List.replicate_succ, ← hrest]
      · intro other hother
        rw [List.eq_of_mem_replicate hother]
        exact Double.positive_of_valueint hvalue
      · have hpad : 3 - (rest.length + 1) = 2 - rest.length := by omega
        rw [padded, List.length_replicate, hpad, List.map_append, List.map_replicate,
          List.map_replicate, (Double.ofInt_valueint_iff value).mpr hint]
    · intro hrejected
      rw [hparse] at hrejected
      cases hrejected
    · rw [hparse]
      exact fun h => by cases h

theorem dimsExact_array_iff (value : Double) (rest : List CJson) :
    DimsExact (some (.array (.number value :: rest))) ↔
      DimsCondition (some (.array (.number value :: rest))) := by
  rw [DimsCondition]
  have hparse := parseDim3OrInt_array (.number value) rest
  by_cases hshort : rest.length ≤ 2
  · by_cases hvalue : 0 < value.valueint
    · rw [dimsExact_of_accepted hvalue hshort, if_pos hvalue]
      exact ⟨fun h _ _ => h, fun h => h hshort (Double.positive_of_valueint hvalue)⟩
    · have hfirst (other : Double) (h : CJson.number value = .number other) :
          other.valueint ≤ 0 := by
        cases h
        exact not_lt.mp hvalue
      rw [if_pos hshort, fillDims_error hfirst] at hparse
      rw [dimsExact_of_rejected hparse, if_neg hvalue]
      constructor
      · intro hnone _ hpos
        by_contra hall
        push Not at hall
        obtain ⟨numbers, hitems, hnumbers⟩ := exists_numbers hall
        refine hnone (value :: numbers) ((isCount_array_iff _ rest _).mpr ⟨?_, ?_, hshort⟩)
        · rw [hitems]
          rfl
        · exact List.forall_mem_cons.mpr ⟨hpos, hnumbers⟩
      · intro h numbers hcount
        obtain ⟨hitems, hpos, -⟩ := (isCount_array_iff _ rest numbers).mp hcount
        cases numbers with
        | nil => cases hitems
        | cons first numbers =>
            rw [List.map_cons, List.cons.injEq] at hitems
            have hsame : value = first := CJson.number.inj hitems.1
            obtain ⟨item, hitem, hother⟩ :=
              h hshort (hsame ▸ hpos first List.mem_cons_self)
            rw [hitems.2] at hitem
            obtain ⟨other, hmem, heq⟩ := List.mem_map.mp hitem
            exact hother other heq.symm (hpos other (List.mem_cons_of_mem _ hmem))
  · rw [if_neg hshort] at hparse
    rw [dimsExact_of_rejected hparse]
    refine iff_of_true ?_ fun h => absurd h hshort
    intro numbers hcount
    exact hshort ((isCount_array_iff _ rest numbers).mp hcount).2.2

theorem dimsExact_of_other {entry : CJson} (hparse : parseDim3OrInt (some entry) = .error .rejected)
    (hnumber : ∀ value, entry ≠ .number value)
    (harray : ∀ value items, entry ≠ .array (.number value :: items)) :
    DimsExact (some entry) := by
  refine ⟨?_, ?_, ?_⟩
  · intro dim3 haccepted
    rw [hparse] at haccepted
    cases haccepted
  · rintro - numbers ⟨-, ⟨value, hentry, -⟩ | ⟨hentry, hlength, -⟩⟩
    · exact hnumber value (Option.some.inj hentry)
    · cases numbers with
      | nil => exact absurd hlength (by decide)
      | cons value numbers => exact harray value _ (Option.some.inj hentry)
  · rw [hparse]
    exact fun h => by cases h

/-- A count is read exactly under the condition, and only then. -/
theorem dimsExact_iff (entry : Option CJson) : DimsExact entry ↔ DimsCondition entry := by
  cases entry with
  | none => exact iff_of_false (fun h => h.defined rfl) (fun h => h)
  | some item =>
      cases item with
      | number value => exact dimsExact_number_iff value
      | array elems =>
          cases elems with
          | nil =>
              exact iff_of_true (dimsExact_of_other rfl (fun _ h => by cases h)
                (fun _ _ h => by cases h)) trivial
          | cons element rest =>
              cases element with
              | number value => exact dimsExact_array_iff value rest
              | _ =>
                  refine iff_of_true (dimsExact_of_other ?_ (fun _ h => by cases h)
                    (fun _ _ h => by cases h)) trivial
                  rw [parseDim3OrInt_array, fillDims_error (fun _ h => by cases h), ite_self]
      | _ =>
          exact iff_of_true (dimsExact_of_other rfl (fun _ h => by cases h)
            (fun _ _ h => by cases h)) trivial

/-- A missing count is read through a null pointer, `[2, 3]` is taken for `[2, 2]`, and
`[2, "x"]` for a count. -/
theorem not_dimsExact :
    parseDim3OrInt none = .error .nullPointer ∧
      parseDim3OrInt (some (.array [.number (.ofInt 2), .number (.ofInt 3)])) =
        .ok [2, 2, 1] ∧
      parseDim3OrInt (some (.array [.number (.ofInt 2), .string ['x']])) = .ok [2, 2, 1] ∧
      ¬ ∀ entry, DimsExact entry := by
  refine ⟨rfl, by decide, by decide, fun h => ?_⟩
  exact (h none).defined rfl

end A100Partitioning.Config
