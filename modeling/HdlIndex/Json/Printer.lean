import HdlIndex.Json.Basic

/-! JSON text of a value: on one line, or laid out over lines with two blanks per level. -/

namespace HdlIndex.Json

/-- One character of a string between its quotes. -/
def escapeChar (c : Char) : String :=
  match c with
  | '"' => "\\\""
  | '\\' => "\\\\"
  | '\n' => "\\n"
  | '\r' => "\\r"
  | '\t' => "\\t"
  | '\x08' => "\\b"
  | '\x0c' => "\\f"
  | c =>
    if c.toNat < 0x20 then
      "\\u00" ++ String.ofList [Nat.digitChar (c.toNat / 16), Nat.digitChar (c.toNat % 16)]
    else String.singleton c

def quoted (s : String) : String :=
  "\"" ++ s.foldl (fun out c => out ++ escapeChar c) "" ++ "\""

def Numeral.text : Numeral → String
  | .natural n => n.repr
  | .other text => text

namespace Value

mutual

/-- The value on one line without blanks. -/
def compact : Value → String
  | .null => "null"
  | .bool b => if b then "true" else "false"
  | .number n => n.text
  | .string s => quoted s
  | .array items => "[" ++ ",".intercalate (compactItems items) ++ "]"
  | .object members => "\x7b" ++ ",".intercalate (compactMembers members) ++ "\x7d"

def compactItems : List Value → List String
  | [] => []
  | v :: rest => v.compact :: compactItems rest

def compactMembers : List (String × Value) → List String
  | [] => []
  | (name, v) :: rest => (quoted name ++ ":" ++ v.compact) :: compactMembers rest

end

def margin (level : Nat) : String := "\n" ++ String.ofList (List.replicate (2 * level) ' ')

mutual

/-- The value with one item or member per line, standing at the given level of indentation. -/
def laidOut (level : Nat) : Value → String
  | .null => "null"
  | .bool b => if b then "true" else "false"
  | .number n => n.text
  | .string s => quoted s
  | .array [] => "[]"
  | .array (v :: rest) =>
    "[" ++ ",".intercalate (laidOutItems (level + 1) (v :: rest)) ++ margin level ++ "]"
  | .object [] => "\x7b\x7d"
  | .object (m :: rest) =>
    "\x7b" ++ ",".intercalate (laidOutMembers (level + 1) (m :: rest)) ++ margin level ++ "\x7d"

def laidOutItems (level : Nat) : List Value → List String
  | [] => []
  | v :: rest => (margin level ++ v.laidOut level) :: laidOutItems level rest

def laidOutMembers (level : Nat) : List (String × Value) → List String
  | [] => []
  | (name, v) :: rest =>
    (margin level ++ quoted name ++ ": " ++ v.laidOut level) :: laidOutMembers level rest

end

/-- The value over several lines, two blanks per level. -/
def pretty (v : Value) : String := v.laidOut 0

end Value

end HdlIndex.Json
