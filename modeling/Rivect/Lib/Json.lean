import Mathlib.Algebra.Ring.Nat
import Mathlib.Data.List.Basic

/-! # JSON values

A value, and the partial readings that a caller makes of one: each answers nothing where the
value has another shape.
-/

namespace Rivect.Lib

open List

inductive Json.Number where
  | unsigned (n : ℕ)
  | negative (n : ℕ)
  | float (literal : String)
deriving DecidableEq

/-- An object is a finite map: it holds one member for a key, and the order of its members says
nothing. -/
inductive Json where
  | null
  | bool (b : Bool)
  | number (n : Json.Number)
  | string (s : String)
  | array (items : List Json)
  | object (members : List (String × Json))

namespace Json

def get (value : Json) (key : String) : Option Json :=
  match value with
  | .object members => members.lookup key
  | _ => none

def asStr : Json → Option String
  | .string s => some s
  | _ => none

def asU64 : Json → Option ℕ
  | .number (.unsigned n) => some n
  | _ => none

/-- A negative number is held by its magnitude. -/
def asI64 : Json → Option Int
  | .number (.unsigned n) => if n < 2 ^ 63 then some n else none
  | .number (.negative n) => some (-n)
  | _ => none

def asArray : Json → Option (List Json)
  | .array items => some items
  | _ => none

def isObject : Json → Bool
  | .object _ => true
  | _ => false

/-- A string member of an object. -/
def getStr (value : Json) (key : String) : Option String :=
  (value.get key).bind asStr

/-- The object with one member set. -/
def set (value : Json) (key : String) (member : Json) : Json :=
  match value with
  | .object members => .object ((key, member) :: members.filter fun m => m.1 ≠ key)
  | other => other

theorem get_set_of_ne {value member : Json} {key other : String} (h : other ≠ key) :
    (value.set key member).get other = value.get other := by
  cases value with
  | object members =>
    have hother : (other == key) = false := by simpa using h
    simp only [set, get, lookup_cons, hother]
    induction members with
    | nil => rfl
    | cons m members ih =>
      by_cases hkey : m.1 = key
      · have hm : (other == m.1) = false := by simpa [hkey] using h
        rw [filter_cons_of_neg (by simpa using hkey), ih, lookup_cons, hm]
      · rw [filter_cons_of_pos (by simpa using hkey), lookup_cons, lookup_cons, ih]
  | _ => rfl

end Json

end Rivect.Lib
