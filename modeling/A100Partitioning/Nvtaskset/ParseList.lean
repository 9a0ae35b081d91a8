import Mathlib.Algebra.Group.Int.Defs
import Mathlib.Algebra.Group.Nat.Defs
import Mathlib.Data.Int.Order.Basic
import Mathlib.Data.List.TakeWhile
import Mathlib.Tactic.Common

/-!
# Lists of TPCs and GPCs

`nvtaskset` reads lists such as `0,2,4-7` in one pass: a comma or the end of the
list completes an item, and a dash sets aside what it has read as the start of a
range.
-/

namespace A100Partitioning.Nvtaskset

/-! ## The code -/

/-- Whether `strtol` skips a character. -/
def isSpace (c : Char) : Bool :=
  c == ' ' || (9 ≤ c.toNat && c.toNat ≤ 13)

/-- The number at the start of a text, zero when there is none. -/
def leadingNumber (text : List Char) : ℕ :=
  Nat.ofDigitChars 10 (text.takeWhile Char.isDigit) 0

/-- `strtol` for base 10, which saturates. -/
def strtol (text : List Char) : ℤ :=
  match text.dropWhile isSpace with
  | '-' :: cs => max (-2 ^ 63) (-leadingNumber cs)
  | '+' :: cs => min (2 ^ 63 - 1) (leadingNumber cs)
  | cs => min (2 ^ 63 - 1) (leadingNumber cs)

/-- `atoi`: what `strtol` returns, as an `int`. -/
def atoi (text : List Char) : BitVec 32 := BitVec.ofInt 32 (strtol text)

/-- The TPCs or GPCs that a list is about.  For GPCs there are the masks of
their TPCs. -/
structure Xpcs where
  count : BitVec 32
  masks : Option (ℕ → BitVec 128)

/-- How a call ends that does not return.  The last one is not an error of the
program: an array is indexed outside, or a shift or an `int` is out of range. -/
inductive Failure where
  | invalidId (text : List Char)
  | malformedRange
  | notGpcs
  | undefined
  deriving DecidableEq, Repr

/-- Whether the program itself reports the failure. -/
def Failure.IsError (e : Failure) : Prop := e ≠ .undefined

/-- The ids for which there is a mask. -/
def Xpcs.limit (x : Xpcs) : ℕ := if x.masks.isSome then x.count.toNat else 128

/-- The TPCs of one TPC or GPC. -/
def Xpcs.bits (x : Xpcs) (id : ℕ) : BitVec 128 :=
  match x.masks with
  | some masks => masks id
  | none => (1 : BitVec 128) <<< id

/-- `masks[xpc]`, or `(uint128_t)1 << xpc`. -/
def Xpcs.mask (x : Xpcs) (xpc : BitVec 32) : Except Failure (BitVec 128) :=
  if 0 ≤ xpc.toInt ∧ xpc.toInt < x.limit then .ok (x.bits xpc.toNat)
  else .error .undefined

/-- The loop over a range, with the number of turns that are left.  Increasing
the largest `int` is undefined. -/
def Xpcs.addRange (x : Xpcs) :
    ℕ → BitVec 32 → BitVec 128 → Except Failure (BitVec 128)
  | 0, _, mask => .ok mask
  | turns + 1, rangeStart, mask => do
      let bits ← x.mask rangeStart
      if rangeStart = BitVec.intMax 32 then .error .undefined
      else x.addRange turns (rangeStart + 1) (mask ||| bits)

/-- What happens at the end of an item, whose last part is `text`. -/
def Xpcs.addItem (x : Xpcs) (mask : BitVec 128) (rangeStart : BitVec 32)
    (text : List Char) : Except Failure (BitVec 128) :=
  let xpc := atoi text
  if (x.count - 1).toNat < xpc.toNat then .error (.invalidId text)
  else if rangeStart ≠ -1 then
    if xpc.toInt ≤ rangeStart.toInt then .error .malformedRange
    else x.addRange (xpc.toInt + 1 - rangeStart.toInt).toNat rangeStart mask
  else do
    let bits ← x.mask xpc
    return mask ||| bits

/-- The pass over the list; `text` is what stands between `start` and the
current character. -/
def Xpcs.scan (x : Xpcs) (mask : BitVec 128) (rangeStart : BitVec 32)
    (text : List Char) : List Char → Except Failure (BitVec 128)
  | [] => x.addItem mask rangeStart text
  | c :: cs =>
      if c = ',' then do
        let mask ← x.addItem mask rangeStart text
        x.scan mask (-1) [] cs
      else if c = '-' then x.scan mask (atoi text) [] cs
      else x.scan mask rangeStart (text ++ [c]) cs

/-- `parse_list`.  The list stands for a C string without its null byte. -/
def parseList (x : Xpcs) (list : List Char) : Except Failure (BitVec 128) :=
  x.scan 0 (-1) [] list

/-! ## The lists of `taskset` -/

/-- A digit string. -/
def IsNumeral (text : List Char) : Prop := text ≠ [] ∧ ∀ c ∈ text, c.isDigit

instance (text : List Char) : Decidable (IsNumeral text) :=
  inferInstanceAs (Decidable (_ ∧ _))

/-- The number that a digit string denotes. -/
def numeral (text : List Char) : ℕ := Nat.ofDigitChars 10 text 0

/-- The first and the last id of an item: a single id, or a range. -/
def denote (item : List Char) : Option (ℕ × ℕ) :=
  match item.splitOn '-' with
  | [id] => if IsNumeral id then some (numeral id, numeral id) else none
  | [first, last] =>
      if IsNumeral first ∧ IsNumeral last then some (numeral first, numeral last)
      else none
  | _ => none

/-- A comma-separated list of ids and ranges below a count. -/
def WellFormed (count : ℕ) (list : List Char) : Prop :=
  ∀ item ∈ list.splitOn ',', ∃ first last, denote item = some (first, last) ∧
    first ≤ last ∧ last < count

/-- The list contains an id. -/
def Lists (list : List Char) (id : ℕ) : Prop :=
  ∃ item ∈ list.splitOn ',', ∃ first last, denote item = some (first, last) ∧
    first ≤ id ∧ id ≤ last

/-! ## Items -/

/-- What the pass remembers of an item: the start of a range, and the last
part. -/
def readChar (read : BitVec 32 × List Char) (c : Char) : BitVec 32 × List Char :=
  if c = '-' then (atoi read.2, []) else (read.1, read.2 ++ [c])

/-- The start of the range, -1 for none, and the last part of an item. -/
def readItem (item : List Char) : BitVec 32 × List Char :=
  item.foldl readChar (-1, [])

/-- The part of the pass after an item has been read. -/
def Xpcs.addRead (x : Xpcs) (mask : BitVec 128) (read : BitVec 32 × List Char) :
    Except Failure (BitVec 128) :=
  x.addItem mask read.1 read.2

theorem Xpcs.scan_eq (x : Xpcs) (cs : List Char) {item : List Char}
    {items : List (List Char)} (hitems : cs.splitOn ',' = item :: items)
    (mask : BitVec 128) (rangeStart : BitVec 32) (text : List Char) :
    x.scan mask rangeStart text cs =
      x.addRead mask (item.foldl readChar (rangeStart, text)) >>= fun mask =>
        items.foldlM (fun mask item => x.addRead mask (readItem item)) mask := by
  induction cs generalizing item items mask rangeStart text with
  | nil =>
      rw [List.splitOn_nil] at hitems
      obtain ⟨rfl, rfl⟩ := List.cons.inj hitems
      rw [Xpcs.scan, List.foldl_nil, Xpcs.addRead]
      cases x.addItem mask rangeStart text <;> rfl
  | cons c cs ih =>
      obtain ⟨next, rest, hcs⟩ :=
        List.exists_cons_of_ne_nil (List.splitOn_ne_nil ',' cs)
      rw [List.splitOn_cons_eq_if_modifyHead, hcs] at hitems
      rw [Xpcs.scan]
      by_cases hc : c = ','
      · rw [if_pos (beq_iff_eq.mpr hc)] at hitems
        obtain ⟨rfl, rfl⟩ := List.cons.inj hitems
        rw [if_pos hc, List.foldl_nil, Xpcs.addRead]
        refine congrArg _ (funext fun mask => ?_)
        rw [ih hcs, List.foldlM_cons, readItem]
      · rw [if_neg (by simpa using hc), List.modifyHead_cons] at hitems
        obtain ⟨rfl, rfl⟩ := List.cons.inj hitems
        rw [if_neg hc, List.foldl_cons]
        by_cases hdash : c = '-'
        · rw [if_pos hdash, ih hcs, readChar, if_pos hdash]
        · rw [if_neg hdash, ih hcs, readChar, if_neg hdash]

theorem parseList_eq (x : Xpcs) (list : List Char) :
    parseList x list = (list.splitOn ',').foldlM
      (fun mask item => x.addRead mask (readItem item)) 0 := by
  obtain ⟨item, items, hitems⟩ :=
    List.exists_cons_of_ne_nil (List.splitOn_ne_nil ',' list)
  rw [parseList, x.scan_eq list hitems, hitems, List.foldlM_cons, readItem]

/-- The last id of an item, as the pass reads it. -/
def itemEnd (item : List Char) : BitVec 32 := atoi (readItem item).2

/-- The first id of an item, as the pass reads it. -/
def itemStart (item : List Char) : BitVec 32 :=
  if (readItem item).1 = -1 then itemEnd item else (readItem item).1

/-- The item is visibly bad: its end is not below the count, which wraps around
for zero, or its range does not go up. -/
def Xpcs.Rejects (x : Xpcs) (item : List Char) : Prop :=
  (x.count - 1).toNat < (itemEnd item).toNat ∨
    (readItem item).1 ≠ -1 ∧ (itemEnd item).toInt ≤ (readItem item).1.toInt

/-- There are masks for all of an item, and its loop does not overflow. -/
def Xpcs.Holds (x : Xpcs) (item : List Char) : Prop :=
  0 ≤ (itemStart item).toInt ∧ (itemEnd item).toInt < x.limit ∧
    ((readItem item).1 ≠ -1 → itemEnd item ≠ BitVec.intMax 32)

/-- A set of bits with those of the ids in a range added. -/
def Xpcs.Adds (x : Xpcs) (mask : BitVec 128) (first last : ℕ)
    (mask' : BitVec 128) : Prop :=
  ∀ i, mask'.getLsbD i = true ↔ mask.getLsbD i = true ∨
    ∃ id, first ≤ id ∧ id < last ∧ (x.bits id).getLsbD i = true

theorem toInt_cases (n : BitVec 32) :
    n.toNat < 2 ^ 31 ∧ n.toInt = n.toNat ∨
      2 ^ 31 ≤ n.toNat ∧ n.toInt = n.toNat - 2 ^ 32 := by
  rw [BitVec.toInt_eq_toNat_cond]
  split_ifs with h
  · exact .inl ⟨by omega, rfl⟩
  · exact .inr ⟨by omega, rfl⟩

theorem Xpcs.limit_lt (x : Xpcs) : x.limit < 2 ^ 32 := by
  rw [Xpcs.limit]
  split_ifs
  · exact x.count.isLt
  · decide

theorem Xpcs.mask_eq (x : Xpcs) (xpc : BitVec 32) :
    x.mask xpc = if xpc.toNat < 2 ^ 31 ∧ xpc.toNat < x.limit then
      .ok (x.bits xpc.toNat) else .error .undefined := by
  rw [Xpcs.mask]
  refine if_congr ?_ rfl rfl
  rcases toInt_cases xpc with ⟨hlt, hint⟩ | ⟨hge, hint⟩ <;> rw [hint] <;> omega

theorem toNat_add_one {n : BitVec 32} (h : n.toNat < 2 ^ 31) :
    (n + 1).toNat = n.toNat + 1 := by
  have hone : (1 : BitVec 32).toNat = 1 := rfl
  rw [BitVec.toNat_add, hone]
  omega

theorem eq_intMax_iff {n : BitVec 32} :
    n = BitVec.intMax 32 ↔ n.toNat = 2 ^ 31 - 1 := by
  rw [← BitVec.toNat_inj]
  exact Iff.rfl

theorem Xpcs.addRange_ok (x : Xpcs) {turns : ℕ} {rangeStart : BitVec 32}
    (hlimit : rangeStart.toNat + turns ≤ x.limit)
    (hint : rangeStart.toNat + turns < 2 ^ 31) (mask : BitVec 128) :
    ∃ mask', x.addRange turns rangeStart mask = .ok mask' ∧
      x.Adds mask rangeStart.toNat (rangeStart.toNat + turns) mask' := by
  induction turns generalizing rangeStart mask with
  | zero =>
      refine ⟨mask, rfl, fun i => ⟨.inl, ?_⟩⟩
      rintro (h | ⟨id, hfirst, hlast, -⟩)
      · exact h
      · omega
  | succ turns ih =>
      have hnext := toNat_add_one (n := rangeStart) (by omega)
      have hmask : x.mask rangeStart = .ok (x.bits rangeStart.toNat) := by
        rw [x.mask_eq, if_pos ⟨by omega, by omega⟩]
      obtain ⟨mask', hrest, hadds⟩ := @ih (rangeStart + 1)
        (by omega) (by omega) (mask ||| x.bits rangeStart.toNat)
      refine ⟨mask', ?_, fun i => ?_⟩
      · rw [Xpcs.addRange, hmask]
        have hne : rangeStart ≠ BitVec.intMax 32 := by
          rw [Ne, eq_intMax_iff]
          omega
        exact (if_neg hne).trans hrest
      · rw [hadds, BitVec.getLsbD_or, Bool.or_eq_true, hnext, or_assoc]
        refine or_congr_right ⟨?_, ?_⟩
        · rintro (h | ⟨id, hfirst, hlast, h⟩)
          · exact ⟨rangeStart.toNat, le_rfl, by omega, h⟩
          · exact ⟨id, by omega, by omega, h⟩
        · rintro ⟨id, hfirst, hlast, h⟩
          by_cases hid : id = rangeStart.toNat
          · exact .inl (hid ▸ h)
          · exact .inr ⟨id, by omega, by omega, h⟩

theorem Xpcs.addRange_undefined (x : Xpcs) {turns : ℕ} {rangeStart : BitVec 32}
    (hturns : 0 < turns)
    (h : x.limit < rangeStart.toNat + turns ∨ 2 ^ 31 ≤ rangeStart.toNat + turns)
    (mask : BitVec 128) :
    x.addRange turns rangeStart mask = .error .undefined := by
  induction turns generalizing rangeStart mask with
  | zero => exact absurd hturns (lt_irrefl 0)
  | succ turns ih =>
      rw [Xpcs.addRange, x.mask_eq]
      by_cases hbounds : rangeStart.toNat < 2 ^ 31 ∧ rangeStart.toNat < x.limit
      · rw [if_pos hbounds]
        by_cases hmax : rangeStart = BitVec.intMax 32
        · exact if_pos hmax
        · refine (if_neg hmax).trans ?_
          have hnext := toNat_add_one hbounds.1
          rw [eq_intMax_iff] at hmax
          exact ih (by omega) (by omega) _
      · rw [if_neg hbounds]
        rfl

theorem Xpcs.addRead_of_rejects (x : Xpcs) {item : List Char}
    (h : x.Rejects item) (mask : BitVec 128) :
    ∃ e, x.addRead mask (readItem item) = .error e ∧ e.IsError := by
  rw [Xpcs.addRead, Xpcs.addItem]
  by_cases hid : (x.count - 1).toNat < (itemEnd item).toNat
  · exact ⟨_, if_pos hid, fun h => by cases h⟩
  · obtain ⟨hrange, hle⟩ := h.resolve_left hid
    exact ⟨_, (if_neg hid).trans ((if_pos hrange).trans (if_pos hle)),
      fun h => by cases h⟩

/-- Any other item is taken if there are masks for it, and else undefined. -/
theorem Xpcs.addRead_of_not_rejects (x : Xpcs) {item : List Char}
    (h : ¬ x.Rejects item) (mask : BitVec 128) :
    (x.Holds item → ∃ mask', x.addRead mask (readItem item) = .ok mask' ∧
      x.Adds mask (itemStart item).toNat ((itemEnd item).toNat + 1) mask') ∧
    (¬ x.Holds item →
      x.addRead mask (readItem item) = .error .undefined) := by
  rw [Xpcs.Rejects, not_or, not_and] at h
  obtain ⟨hid, hup⟩ := h
  have hlimit := x.limit_lt
  have hread : x.addRead mask (readItem item) =
      if (readItem item).1 ≠ -1 then
        x.addRange ((itemEnd item).toInt + 1 - (readItem item).1.toInt).toNat
          (readItem item).1 mask
      else do
        let bits ← x.mask (itemEnd item)
        return mask ||| bits := by
    rw [Xpcs.addRead, Xpcs.addItem]
    refine (if_neg hid).trans ?_
    split_ifs with hrange hle
    · exact absurd hle (hup hrange)
    · rfl
    · rfl
  rw [hread, Xpcs.Holds, itemStart]
  by_cases hrange : (readItem item).1 = -1
  · rw [if_neg (not_not_intro hrange), if_pos hrange, x.mask_eq]
    rcases toInt_cases (itemEnd item) with ⟨hend, hint⟩ | ⟨hend, hint⟩
    · refine ⟨fun ⟨_, hlt, _⟩ => ?_, fun hnot => ?_⟩
      · rw [if_pos ⟨hend, by omega⟩]
        refine ⟨_, rfl, fun i => ?_⟩
        rw [BitVec.getLsbD_or, Bool.or_eq_true]
        refine or_congr_right ⟨fun h => ⟨_, le_rfl, by omega, h⟩, ?_⟩
        rintro ⟨id, hfirst, hlast, h⟩
        rwa [show id = (itemEnd item).toNat by omega] at h
      · rw [if_neg fun hbounds => hnot
          ⟨by omega, by omega, fun hne => absurd hrange hne⟩]
        rfl
    · refine ⟨fun ⟨hnonneg, _⟩ => absurd hnonneg (by omega), fun _ => ?_⟩
      rw [if_neg fun hbounds => absurd hbounds.1 (by omega)]
      rfl
  · rw [if_pos hrange, if_neg hrange]
    have hlt := hup hrange
    have hturns : 0 <
        ((itemEnd item).toInt + 1 - (readItem item).1.toInt).toNat := by omega
    rcases toInt_cases (readItem item).1 with ⟨hstart, hint⟩ | ⟨hstart, hint⟩
    · have hend : (itemEnd item).toInt = (itemEnd item).toNat := by
        rcases toInt_cases (itemEnd item) with ⟨-, h⟩ | ⟨-, h⟩ <;> omega
      have hsum : (readItem item).1.toNat +
          ((itemEnd item).toInt + 1 - (readItem item).1.toInt).toNat =
            (itemEnd item).toNat + 1 := by omega
      refine ⟨fun ⟨_, hbound, hmax⟩ => ?_, fun hnot => ?_⟩
      · have hne := hmax hrange
        rw [Ne, eq_intMax_iff] at hne
        rw [← hsum]
        rcases toInt_cases (itemEnd item) with ⟨h, -⟩ | ⟨-, h⟩
        · exact x.addRange_ok (by omega) (by omega) mask
        · omega
      · refine x.addRange_undefined hturns ?_ mask
        by_contra hbounds
        refine hnot ⟨by omega, by omega, fun _ => ?_⟩
        rw [Ne, eq_intMax_iff]
        omega
    · refine ⟨fun ⟨hnonneg, _⟩ => absurd hnonneg (by omega), fun _ => ?_⟩
      exact x.addRange_undefined hturns (by omega) mask

/-! ## Whole lists -/

/-- The items that a list still has. -/
def Xpcs.addItems (x : Xpcs) (mask : BitVec 128) (items : List (List Char)) :
    Except Failure (BitVec 128) :=
  items.foldlM (fun mask item => x.addRead mask (readItem item)) mask

theorem Xpcs.addItems_cons_ok (x : Xpcs) {mask mask' : BitVec 128}
    {item : List Char} (h : x.addRead mask (readItem item) = .ok mask')
    (items : List (List Char)) :
    x.addItems mask (item :: items) = x.addItems mask' items := by
  rw [Xpcs.addItems, List.foldlM_cons, h]
  rfl

theorem Xpcs.addItems_cons_error (x : Xpcs) {mask : BitVec 128} {e : Failure}
    {item : List Char} (h : x.addRead mask (readItem item) = .error e)
    (items : List (List Char)) : x.addItems mask (item :: items) = .error e := by
  rw [Xpcs.addItems, List.foldlM_cons, h]
  rfl

/-- A list whose items are all taken gives the bits of all their ids. -/
theorem Xpcs.addItems_ok (x : Xpcs) {items : List (List Char)}
    (h : ∀ item ∈ items, ¬ x.Rejects item ∧ x.Holds item) (mask : BitVec 128) :
    ∃ mask', x.addItems mask items = .ok mask' ∧
      ∀ i, mask'.getLsbD i = true ↔ mask.getLsbD i = true ∨
        ∃ item ∈ items, ∃ id, (itemStart item).toNat ≤ id ∧
          id < (itemEnd item).toNat + 1 ∧ (x.bits id).getLsbD i = true := by
  induction items generalizing mask with
  | nil =>
      refine ⟨mask, rfl, fun i => ⟨.inl, ?_⟩⟩
      rintro (h | ⟨item, hitem, -⟩)
      · exact h
      · cases hitem
  | cons item items ih =>
      obtain ⟨hrejects, hholds⟩ := h item List.mem_cons_self
      obtain ⟨mask₁, hread, hadds⟩ :=
        (x.addRead_of_not_rejects hrejects mask).1 hholds
      obtain ⟨mask', hrest, hbits⟩ :=
        ih (fun next hnext => h next (List.mem_cons_of_mem _ hnext)) mask₁
      refine ⟨mask', (x.addItems_cons_ok hread items).trans hrest, fun i => ?_⟩
      rw [hbits, hadds, or_assoc]
      simp only [List.mem_cons, exists_eq_or_imp]

theorem Xpcs.taken_of_addItems_ok (x : Xpcs) {items : List (List Char)}
    {mask mask' : BitVec 128} (h : x.addItems mask items = .ok mask') :
    ∀ item ∈ items, ¬ x.Rejects item ∧ x.Holds item := by
  induction items generalizing mask with
  | nil => exact fun item hitem => absurd hitem List.not_mem_nil
  | cons item items ih =>
      by_cases hrejects : x.Rejects item
      · obtain ⟨e, he, -⟩ := x.addRead_of_rejects hrejects mask
        rw [x.addItems_cons_error he] at h
        cases h
      · obtain ⟨hok, hundefined⟩ := x.addRead_of_not_rejects hrejects mask
        by_cases hholds : x.Holds item
        · obtain ⟨mask₁, hread, -⟩ := hok hholds
          rw [x.addItems_cons_ok hread] at h
          exact List.forall_mem_cons.mpr ⟨⟨hrejects, hholds⟩, ih h⟩
        · rw [x.addItems_cons_error (hundefined hholds)] at h
          cases h

/-- Some item is visibly bad, and the ones before it are within the bounds. -/
def Xpcs.RejectsAmong (x : Xpcs) (items : List (List Char)) : Prop :=
  ∃ before item after, items = before ++ item :: after ∧ x.Rejects item ∧
    ∀ item ∈ before, x.Holds item

theorem Xpcs.rejectsAmong_cons (x : Xpcs) {item : List Char}
    {items : List (List Char)} : x.RejectsAmong (item :: items) ↔
      x.Rejects item ∨ x.Holds item ∧ x.RejectsAmong items := by
  constructor
  · rintro ⟨before, bad, after, heq, hbad, hbefore⟩
    cases before with
    | nil =>
        obtain ⟨rfl, -⟩ := List.cons.inj heq
        exact .inl hbad
    | cons first before =>
        obtain ⟨rfl, hrest⟩ := List.cons.inj heq
        obtain ⟨hholds, hbefore⟩ := List.forall_mem_cons.mp hbefore
        exact .inr ⟨hholds, before, bad, after, hrest, hbad, hbefore⟩
  · rintro (hbad | ⟨hholds, before, bad, after, heq, hbad, hbefore⟩)
    · exact ⟨[], item, items, rfl, hbad, fun _ h => absurd h List.not_mem_nil⟩
    · exact ⟨item :: before, bad, after, congrArg _ heq, hbad,
        List.forall_mem_cons.mpr ⟨hholds, hbefore⟩⟩

theorem Xpcs.addItems_error_iff (x : Xpcs) (items : List (List Char))
    (mask : BitVec 128) :
    (∃ e, x.addItems mask items = .error e ∧ e.IsError) ↔
      x.RejectsAmong items := by
  induction items generalizing mask with
  | nil =>
      refine iff_of_false (fun ⟨e, he, _⟩ => by cases he) ?_
      rintro ⟨before, item, after, heq, -⟩
      exact List.append_ne_nil_of_right_ne_nil before (List.cons_ne_nil _ _) heq.symm
  | cons item items ih =>
      rw [x.rejectsAmong_cons]
      by_cases hrejects : x.Rejects item
      · obtain ⟨e, he, herror⟩ := x.addRead_of_rejects hrejects mask
        exact iff_of_true ⟨e, x.addItems_cons_error he items, herror⟩ (.inl hrejects)
      · obtain ⟨hok, hundefined⟩ := x.addRead_of_not_rejects hrejects mask
        rw [or_iff_right hrejects]
        by_cases hholds : x.Holds item
        · obtain ⟨mask₁, hread, -⟩ := hok hholds
          rw [x.addItems_cons_ok hread, ih, and_iff_right hholds]
        · rw [x.addItems_cons_error (hundefined hholds)]
          refine iff_of_false ?_ fun h => hholds h.1
          rintro ⟨e, he, herror⟩
          cases he
          exact herror rfl

/-! ## Well-formed items -/

theorem foldl_readChar {text : List Char} (h : '-' ∉ text)
    (rangeStart : BitVec 32) (before : List Char) :
    text.foldl readChar (rangeStart, before) = (rangeStart, before ++ text) := by
  induction text generalizing before with
  | nil => rw [List.foldl_nil, List.append_nil]
  | cons c text ih =>
      rw [List.mem_cons, not_or] at h
      rw [List.foldl_cons, readChar, if_neg (Ne.symm h.1), ih h.2,
        List.append_assoc, List.singleton_append]

theorem readItem_id {item : List Char} (h : '-' ∉ item) :
    readItem item = (-1, item) :=
  foldl_readChar h (-1) []

theorem readItem_range {first last : List Char} (hfirst : '-' ∉ first)
    (hlast : '-' ∉ last) :
    readItem (first ++ '-' :: last) = (atoi first, last) := by
  rw [readItem, List.foldl_append, foldl_readChar hfirst, List.foldl_cons]
  exact foldl_readChar hlast (atoi first) []

theorem IsNumeral.not_mem_dash {text : List Char} (h : IsNumeral text) :
    '-' ∉ text := fun hmem => absurd (h.2 _ hmem) (by decide)

theorem isSpace_of_isDigit {c : Char} (hc : c.isDigit) : isSpace c = false := by
  rw [Char.isDigit_iff_toNat] at hc
  have hblank : c ≠ ' ' := by
    rintro rfl
    exact absurd hc.1 (by decide)
  have hlow : 48 ≤ c.toNat := hc.1
  rw [isSpace, beq_false_of_ne hblank, Bool.false_or,
    decide_eq_false (by omega : ¬ c.toNat ≤ 13), Bool.and_false]

/-- A digit string that is not too long for `strtol` is read as its number. -/
theorem atoi_of_isNumeral {text : List Char} (h : IsNumeral text)
    (hlt : numeral text < 2 ^ 63) : atoi text = BitVec.ofNat 32 (numeral text) := by
  obtain ⟨hne, hdigits⟩ := h
  obtain ⟨c, cs, rfl⟩ := List.exists_cons_of_ne_nil hne
  have hc : c.isDigit := hdigits c List.mem_cons_self
  have hspace := isSpace_of_isDigit hc
  have hdash : c ≠ '-' := by
    rintro rfl
    exact absurd hc (by decide)
  have hplus : c ≠ '+' := by
    rintro rfl
    exact absurd hc (by decide)
  have hnumber : leadingNumber (c :: cs) = numeral (c :: cs) := by
    rw [leadingNumber, List.takeWhile_eq_self_iff.mpr hdigits]
    rfl
  have hstrtol : strtol (c :: cs) = numeral (c :: cs) := by
    rw [strtol, List.dropWhile_cons_of_neg (by rw [hspace]; exact Bool.false_ne_true)]
    split
    · next heq => exact absurd (List.cons.inj heq).1 hdash
    · next heq => exact absurd (List.cons.inj heq).1 hplus
    · rw [hnumber]
      exact min_eq_right (by omega)
  rw [atoi, hstrtol, BitVec.ofInt_natCast]

/-- A well-formed item is a digit string, or two with a dash between them. -/
theorem denote_cases {item : List Char} {first last : ℕ}
    (h : denote item = some (first, last)) :
    IsNumeral item ∧ numeral item = first ∧ numeral item = last ∨
      ∃ a b, item = a ++ '-' :: b ∧ IsNumeral a ∧ IsNumeral b ∧
        numeral a = first ∧ numeral b = last := by
  have hjoin : ['-'].intercalate (item.splitOn '-') = item :=
    List.intercalate_splitOn '-'
  rw [denote] at h
  split at h
  · next id hsplit =>
      rw [hsplit, List.intercalate_singleton] at hjoin
      subst hjoin
      split_ifs at h with hid
      cases h
      exact .inl ⟨hid, rfl, rfl⟩
  · next a b hsplit =>
      rw [hsplit, List.intercalate_cons_cons, List.intercalate_singleton] at hjoin
      split_ifs at h with hab
      cases h
      refine .inr ⟨a, b, ?_, hab.1, hab.2, rfl, rfl⟩
      rw [← hjoin, List.append_assoc]
      rfl
  · cases h

theorem denote_of_isNumeral {item : List Char} (h : IsNumeral item) :
    denote item = some (numeral item, numeral item) := by
  rw [denote, List.splitOn_eq_singleton h.not_mem_dash]
  exact if_pos h

theorem denote_range {a b : List Char} (ha : IsNumeral a) (hb : IsNumeral b) :
    denote (a ++ '-' :: b) = some (numeral a, numeral b) := by
  rw [denote, List.splitOn_append_cons_self_of_not_mem ha.not_mem_dash,
    List.splitOn_eq_singleton hb.not_mem_dash]
  exact if_pos ⟨ha, hb⟩

/-- There are masks up to an id, and it is an `int`; a range has two ids or
more and ends below the largest `int`. -/
def Xpcs.Covers (x : Xpcs) (item : List Char) (first last : ℕ) : Prop :=
  last < x.limit ∧
    if '-' ∈ item then first < last ∧ last < 2 ^ 31 - 1 else last < 2 ^ 31

theorem Xpcs.taken_iff_covers (x : Xpcs) {item : List Char} {first last : ℕ}
    (h : denote item = some (first, last)) (hle : first ≤ last)
    (hlast : last < x.count.toNat) :
    ((¬ x.Rejects item ∧ x.Holds item) ↔ x.Covers item first last) ∧
      (itemStart item).toNat = first ∧ (itemEnd item).toNat = last := by
  have hcount : (x.count - 1).toNat = x.count.toNat - 1 := by
    have hone : (1 : BitVec 32).toNat = 1 := rfl
    rw [BitVec.toNat_sub, hone]
    omega
  have hread : ∀ {text : List Char}, IsNumeral text →
      numeral text < x.count.toNat → (atoi text).toNat = numeral text := by
    intro text htext hlt
    rw [atoi_of_isNumeral htext (by omega), BitVec.toNat_ofNat,
      Nat.mod_eq_of_lt (by omega)]
  have hlimit := x.limit_lt
  rw [Xpcs.Rejects, Xpcs.Holds, Xpcs.Covers, itemStart, itemEnd, hcount]
  rcases denote_cases h with
    ⟨hitem, rfl, hsame⟩ | ⟨a, b, rfl, ha, hb, rfl, rfl⟩
  · subst hsame
    have hid := hread hitem hlast
    rw [readItem_id hitem.not_mem_dash, if_pos rfl, if_neg hitem.not_mem_dash]
    dsimp only
    rw [hid]
    refine ⟨?_, rfl, rfl⟩
    rcases toInt_cases (atoi item) with ⟨hlt, hint⟩ | ⟨hge, hint⟩
    · refine ⟨fun h => ⟨by omega, by omega⟩, fun h => ⟨?_, by omega, by omega,
        fun hne => absurd rfl hne⟩⟩
      rintro (hbad | ⟨hne, -⟩)
      · omega
      · exact hne rfl
    · exact iff_of_false (fun h => absurd h.2.1 (by omega)) fun h => by omega
  · have hstart := hread ha (by omega)
    have hend := hread hb hlast
    have hne : atoi a ≠ -1 := by
      intro heq
      rw [heq] at hstart
      have hall : (-1 : BitVec 32).toNat = 2 ^ 32 - 1 := rfl
      omega
    have hdash : '-' ∈ a ++ '-' :: b :=
      List.mem_append_right a List.mem_cons_self
    have hmax : atoi b ≠ BitVec.intMax 32 ↔ numeral b ≠ 2 ^ 31 - 1 := by
      rw [Ne, eq_intMax_iff, hend]
    rw [readItem_range ha.not_mem_dash hb.not_mem_dash, if_neg hne, if_pos hdash]
    dsimp only
    rw [hend, hstart, hmax]
    refine ⟨?_, rfl, rfl⟩
    rcases toInt_cases (atoi a) with ⟨hlt, hint⟩ | ⟨hge, hint⟩
    · rcases toInt_cases (atoi b) with ⟨hltb, hintb⟩ | ⟨hgeb, hintb⟩
      · refine ⟨fun ⟨hrejects, _, hbound, hbelow⟩ => ?_, fun h => ?_⟩
        · rw [not_or, not_and] at hrejects
          have hup := hrejects.2 hne
          have hne := hbelow hne
          omega
        · refine ⟨?_, by omega, by omega, fun _ => by omega⟩
          rintro (hbad | ⟨-, hdown⟩) <;> omega
      · exact iff_of_false
          (fun h => h.1 (.inr ⟨hne, by omega⟩)) fun h => by omega
    · exact iff_of_false (fun h => absurd h.2.1 (by omega)) fun h => by omega

/-- A well-formed list is accepted and exactly its bits are set, and any other
list is an error. -/
def Xpcs.ParsesAsStated (x : Xpcs) (list : List Char) : Prop :=
  (WellFormed x.count.toNat list → ∃ mask, parseList x list = .ok mask ∧
    ∀ i, mask.getLsbD i = true ↔
      ∃ id, Lists list id ∧ (x.bits id).getLsbD i = true) ∧
  (¬ WellFormed x.count.toNat list →
    ∃ e, parseList x list = .error e ∧ e.IsError)

/-- The list is well-formed and its items are covered, or it has an item that is
visibly bad behind items within the bounds. -/
def Xpcs.Supports (x : Xpcs) (list : List Char) : Prop :=
  (WellFormed x.count.toNat list ∧
    ∀ item ∈ list.splitOn ',', ∀ first last, denote item = some (first, last) →
      x.Covers item first last) ∨
  (¬ WellFormed x.count.toNat list ∧ x.RejectsAmong (list.splitOn ','))

/-- A list that is accepted sets the bits of the ids that its items are read
as. -/
theorem getLsbD_of_parseList_ok {x : Xpcs} {list : List Char}
    {mask : BitVec 128} (h : parseList x list = .ok mask) (i : ℕ) :
    mask.getLsbD i = true ↔ ∃ item ∈ list.splitOn ',',
      ∃ id, (itemStart item).toNat ≤ id ∧ id < (itemEnd item).toNat + 1 ∧
        (x.bits id).getLsbD i = true := by
  rw [parseList_eq] at h
  obtain ⟨mask', hok, hbits⟩ := x.addItems_ok (x.taken_of_addItems_ok h) 0
  have hsame : mask' = mask := Except.ok.inj (hok.symm.trans h)
  have hzero : (0 : BitVec 128).getLsbD i = false := BitVec.getLsbD_zero
  rw [← hsame, hbits, hzero, or_iff_right Bool.false_ne_true]

theorem parseList_of_covers {x : Xpcs} {list : List Char}
    (hwell : WellFormed x.count.toNat list)
    (hcovers : ∀ item ∈ list.splitOn ',', ∀ first last,
      denote item = some (first, last) → x.Covers item first last) :
    ∃ mask, parseList x list = .ok mask ∧ ∀ i, mask.getLsbD i = true ↔
      ∃ id, Lists list id ∧ (x.bits id).getLsbD i = true := by
  have htaken : ∀ item ∈ list.splitOn ',', ¬ x.Rejects item ∧ x.Holds item := by
    intro item hitem
    obtain ⟨first, last, hdenote, hle, hlast⟩ := hwell item hitem
    exact (x.taken_iff_covers hdenote hle hlast).1.mpr
      (hcovers item hitem first last hdenote)
  obtain ⟨mask, hparse, -⟩ := x.addItems_ok htaken 0
  have hok := (parseList_eq x list).trans hparse
  refine ⟨mask, hok, fun i => ?_⟩
  rw [getLsbD_of_parseList_ok hok]
  constructor
  · rintro ⟨item, hitem, id, hfirst, hlast, hbit⟩
    obtain ⟨first, last, hdenote, hle, hlt⟩ := hwell item hitem
    obtain ⟨-, rfl, rfl⟩ := x.taken_iff_covers hdenote hle hlt
    exact ⟨id, ⟨item, hitem, _, _, hdenote, hfirst, Nat.lt_succ_iff.mp hlast⟩, hbit⟩
  · rintro ⟨id, ⟨item, hitem, first', last', hdenote', hfirst, hlast⟩, hbit⟩
    obtain ⟨first, last, hdenote, hle, hlt⟩ := hwell item hitem
    obtain ⟨-, hstart, hend⟩ := x.taken_iff_covers hdenote hle hlt
    rw [hdenote] at hdenote'
    cases hdenote'
    exact ⟨item, hitem, id, by omega, by omega, hbit⟩

/-- `parse_list` does what it says for exactly these lists. -/
theorem parseList_asStated_iff (x : Xpcs) (list : List Char) :
    x.ParsesAsStated list ↔ x.Supports list := by
  have herror : (∃ e, parseList x list = .error e ∧ e.IsError) ↔
      x.RejectsAmong (list.splitOn ',') := by
    rw [parseList_eq]
    exact x.addItems_error_iff _ 0
  by_cases hwell : WellFormed x.count.toNat list
  · rw [Xpcs.ParsesAsStated, Xpcs.Supports,
      and_iff_left fun h => absurd hwell h, imp_iff_right hwell,
      or_iff_left fun h => h.1 hwell, and_iff_right hwell]
    refine ⟨fun ⟨mask, hparse, _⟩ item hitem first' last' hdenote' => ?_,
      parseList_of_covers hwell⟩
    rw [parseList_eq] at hparse
    obtain ⟨first, last, hdenote, hle, hlast⟩ := hwell item hitem
    rw [hdenote] at hdenote'
    cases hdenote'
    exact (x.taken_iff_covers hdenote hle hlast).1.mp
      (x.taken_of_addItems_ok hparse item hitem)
  · rw [Xpcs.ParsesAsStated, Xpcs.Supports,
      and_iff_right fun h => absurd h hwell, imp_iff_right hwell,
      or_iff_right fun h => hwell h.1, and_iff_right hwell, herror]

/-- When the number of TPCs could not be determined, every TPC is accepted. -/
theorem parseList_count_zero :
    parseList ⟨0, none⟩ ['5'] = .ok 0x20 ∧ ¬ WellFormed 0 ['5'] ∧
      ¬ (⟨0, none⟩ : Xpcs).ParsesAsStated ['5'] := by
  have hparse : parseList ⟨0, none⟩ ['5'] = .ok 0x20 := by decide
  have hwell : ¬ WellFormed 0 ['5'] := by
    intro h
    obtain ⟨first, last, -, -, hlast⟩ := h ['5'] List.mem_cons_self
    exact Nat.not_lt_zero last hlast
  refine ⟨hparse, hwell, fun h => ?_⟩
  obtain ⟨e, he, -⟩ := h.2 hwell
  rw [hparse] at he
  cases he

end A100Partitioning.Nvtaskset
