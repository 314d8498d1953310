/-! JSON values. A numeral keeps apart the plain natural numbers, which positions in a
file are written as, and every other spelling, which no position is written as. -/

namespace HdlIndex.Json

/-- A number as it was written. -/
inductive Numeral where
  /-- Digits only: no sign, no fraction and no exponent. -/
  | natural (n : Nat)
  /-- Any other spelling, such as `-1`, `1.0` or `1e0`. -/
  | other (text : String)
  deriving DecidableEq, Repr, Inhabited

inductive Value where
  | null
  | bool (b : Bool)
  | number (n : Numeral)
  | string (s : String)
  | array (items : List Value)
  | object (members : List (String × Value))
  deriving Inhabited

namespace Value

def nat (n : Nat) : Value := .number (.natural n)

/-- A list of texts as an array of strings. -/
def strings (items : List String) : Value := .array (items.map .string)

/-- The value or `null`. -/
def ofOption : Option Value → Value
  | none => .null
  | some v => v

/-- The member with the given name. Of several with one name the last counts. -/
def member? (v : Value) (name : String) : Option Value :=
  match v with
  | .object members => (members.reverse.find? (·.1 == name)).map (·.2)
  | _ => none

end Value

end HdlIndex.Json
