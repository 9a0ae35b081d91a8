import Mathlib.Algebra.Order.Ring.Star
import Mathlib.Data.Int.ConditionallyCompleteOrder
import Mathlib.Data.Rat.Floor
import Mathlib.Tactic.Linarith
import Mathlib.Tactic.Ring
import Mathlib.Tactic.NormNum

/-!
# Parsed JSON

The configuration comes as a tree of cJSON items.  Only what the configuration is read
from is here: the kinds of items, the numbers in both of their forms, and the search of an
object by name.
-/

namespace A100Partitioning.Config

/-! ## Numbers -/

/-- A `double`.  NaN is left out: no text of JSON's grammar is one, and where `strtod` would
read `-nan`, the text is taken to be rejected. -/
inductive Double where
  | finite (value : ℚ)
  | infinite (negative : Bool)
  deriving DecidableEq

namespace Double

/-- An `int` as a `double`. -/
def ofInt (n : ℤ) : Double := .finite n

/-- The integer part, which an infinite number does not have. -/
def truncate : Double → Option ℤ
  | .finite value => some (if 0 ≤ value then ⌊value⌋ else ⌈value⌉)
  | .infinite _ => none

/-- Whether a number is positive. -/
def Positive : Double → Prop
  | .finite value => 0 < value
  | .infinite negative => negative = false

instance (d : Double) : Decidable d.Positive := by
  cases d <;> rw [Positive] <;> infer_instance

/-- `INT_MAX`. -/
def intMax : ℤ := 2 ^ 31 - 1

/-- `INT_MIN`. -/
def intMin : ℤ := -2 ^ 31

/-- `valueint` of an item, which `parse_number` saturates. -/
def valueint : Double → ℤ
  | .infinite negative => if negative then intMin else intMax
  | .finite value =>
      if intMax ≤ value then intMax
      else if value ≤ intMin then intMin
      else if 0 ≤ value then ⌊value⌋
      else ⌈value⌉

/-- The number is an `int`. -/
def IsInt (d : Double) : Prop := ∃ n, intMin ≤ n ∧ n ≤ intMax ∧ d = ofInt n

theorem valueint_ofInt {n : ℤ} (hmin : intMin ≤ n) (hmax : n ≤ intMax) :
    valueint (ofInt n) = n := by
  rw [ofInt, valueint]
  split_ifs with hlarge hsmall
  · exact le_antisymm (by exact_mod_cast hlarge) hmax
  · exact le_antisymm hmin (by exact_mod_cast hsmall)
  · exact Int.floor_intCast n
  · exact Int.ceil_intCast n

theorem isInt_valueint (d : Double) : intMin ≤ d.valueint ∧ d.valueint ≤ intMax := by
  cases d with
  | infinite negative => cases negative <;> decide
  | finite value =>
      rw [valueint]
      split_ifs with hlarge hsmall hpos
      · decide
      · decide
      · rw [not_le] at hlarge hsmall
        exact ⟨Int.le_floor.mpr hsmall.le, Int.floor_le_iff.mpr (by linarith)⟩
      · rw [not_le] at hlarge hsmall
        exact ⟨Int.le_ceil_iff.mpr (by linarith), Int.ceil_le.mpr hlarge.le⟩

/-- Nothing is lost in `valueint` if and only if the number is an `int`. -/
theorem ofInt_valueint_iff (d : Double) : ofInt d.valueint = d ↔ d.IsInt := by
  constructor
  · intro h
    exact ⟨d.valueint, (isInt_valueint d).1, (isInt_valueint d).2, h.symm⟩
  · rintro ⟨n, hmin, hmax, rfl⟩
    rw [valueint_ofInt hmin hmax]

theorem positive_of_valueint {d : Double} (h : 0 < d.valueint) : d.Positive := by
  cases d with
  | infinite negative =>
      cases negative with
      | false => exact rfl
      | true => exact absurd h (by decide)
  | finite value =>
      rw [Positive]
      by_contra hneg
      rw [not_lt] at hneg
      rw [valueint] at h
      have hmax : (0 : ℚ) < intMax := by exact_mod_cast (by decide : 0 < intMax)
      split_ifs at h with hlarge hsmall hpos
      · linarith
      · exact absurd h (by decide)
      · rw [le_antisymm hneg hpos, Int.floor_zero] at h
        exact lt_irrefl 0 h
      · have hceil : ⌈value⌉ ≤ 0 := Int.ceil_le.mpr (by exact_mod_cast hneg)
        omega

end Double

/-! ## Items -/

/-- A cJSON item with what it contains.  Only members of objects have a name. -/
inductive CJson where
  | null
  | bool (value : Bool)
  | number (value : Double)
  | string (valuestring : List Char)
  | array (elems : List CJson)
  | object (members : List (List Char × CJson))

namespace CJson

/-- The members, which only an object has. -/
def members : CJson → List (List Char × CJson)
  | .object members => members
  | _ => []

/-- The items in an array. -/
def elems : CJson → List CJson
  | .array elems => elems
  | _ => []

/-- `cJSON_GetObjectItem`, which ignores the case of letters. -/
def getObjectItem (object : CJson) (name : String) : Option CJson :=
  (object.members.find? fun member =>
    member.1.map Char.toLower = name.toList.map Char.toLower).map Prod.snd

end CJson

end A100Partitioning.Config
