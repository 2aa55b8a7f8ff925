/-!
JSON values and the three ways in which data are found in them: a record as an object or as an
array of its fields in order, a named case as a string or as an object of one key, a number as an
integer of 64 bits.
-/

namespace Lexis
set_option autoImplicit false

inductive Json where
  | null
  | bool (b : Bool)
  | integer (n : Int)
  /-- A number with a fraction, an exponent or a negative zero, as it is written. -/
  | decimal (written : String)
  | string (s : String)
  | array (items : List Json)
  | object (fields : List (String × Json))

namespace Json

def natural (n : Nat) : Json := integer n

def text (s : List Char) : Json := string (String.ofList s)

def character (c : Char) : Json := text [c]

def bool? : Json → Option Bool
  | bool b => some b
  | _ => none

/-- A number from zero up to `2 ^ 64 - 1`. -/
def word? : Json → Option Nat
  | integer n => if 0 ≤ n ∧ n.toNat < UInt64.size then some n.toNat else none
  | _ => none

def caseName? : Json → Option String
  | string name => some name
  | object [(name, null)] => some name
  | _ => none

/-- The values of a record's fields, `none` for a field that is left out. An object may have other
keys, and one with a field twice, which a strict reader rejects, is read by the first of the two; an
array has the fields in order and nothing after them. -/
def record? (names : List String) : Json → Option (List (Option Json))
  | object fields => some (names.map (fields.lookup ·))
  | array items =>
    if items.length ≤ names.length then
      some (items.map some ++ List.replicate (names.length - items.length) none)
    else none
  | _ => none

theorem word?_natural {n : Nat} (h : n < UInt64.size) : (natural n).word? = some n := by
  simp [natural, word?, h]

theorem record?_object (names : List String) (fields : List (String × Json)) :
    (object fields).record? names = some (names.map (fields.lookup ·)) := rfl

end Json

end Lexis
