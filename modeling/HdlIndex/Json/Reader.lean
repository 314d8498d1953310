import HdlIndex.Json.Basic
import HdlIndex.Json.Magnitude
import HdlIndex.Text.Class

/-! Reading JSON text. The grammar is the strict one: no leading zeros, no control
characters inside strings, no unpaired surrogate escapes, nothing behind the document,
no number that is too large, and at most `maxNesting` open brackets. -/

namespace HdlIndex.Json

/-- A reader takes a part of the text and leaves the rest, or refuses. -/
abbrev Reader (α : Type) := List Char → Option (α × List Char)

def isJsonBlank (c : Char) : Bool :=
  c == ' ' || c == '\n' || c == '\t' || c == '\r'

def skipBlanks (cs : List Char) : List Char := cs.dropWhile isJsonBlank

/-- The rest of the text behind the word, if it stands next. -/
def keyword (word : List Char) (v : Value) : Reader Value := fun cs =>
  if word.isPrefixOf cs then some (v, cs.drop word.length) else none

/-! ### Strings -/

def unit16? (a b c d : Char) : Option Nat := do
  return ((← Text.hexValue? a) * 16 + (← Text.hexValue? b)) * 256 + ((← Text.hexValue? c) * 16 + (← Text.hexValue? d))

/-- The character that a one-letter escape stands for. -/
def simpleEscape? : Char → Option Char
  | '"' => some '"'
  | '\\' => some '\\'
  | '/' => some '/'
  | 'b' => some '\x08'
  | 'f' => some '\x0c'
  | 'n' => some '\n'
  | 'r' => some '\r'
  | 't' => some '\t'
  | _ => none

def isHighSurrogate (unit : Nat) : Bool := 0xd800 ≤ unit && unit ≤ 0xdbff

def isLowSurrogate (unit : Nat) : Bool := 0xdc00 ≤ unit && unit ≤ 0xdfff

/-- A string behind its opening quote, up to the closing one. -/
def stringBody : Reader (List Char)
  | [] => none
  | '"' :: cs => some ([], cs)
  | '\\' :: 'u' :: a :: b :: c :: d :: '\\' :: 'u' :: e :: f :: g :: h :: cs =>
    match unit16? a b c d with
    | none => none
    | some unit =>
      if isHighSurrogate unit then
        match unit16? e f g h with
        | none => none
        | some low =>
          if isLowSurrogate low then
            let code := 0x10000 + (unit - 0xd800) * 0x400 + (low - 0xdc00)
            (stringBody cs).map fun (s, rest) => (Char.ofNat code :: s, rest)
          else none
      else if isLowSurrogate unit then none
      else (stringBody ('\\' :: 'u' :: e :: f :: g :: h :: cs)).map fun (s, rest) =>
        (Char.ofNat unit :: s, rest)
  | '\\' :: 'u' :: a :: b :: c :: d :: cs =>
    match unit16? a b c d with
    | none => none
    | some unit =>
      if isHighSurrogate unit || isLowSurrogate unit then none
      else (stringBody cs).map fun (s, rest) => (Char.ofNat unit :: s, rest)
  | '\\' :: c :: cs =>
    match simpleEscape? c with
    | none => none
    | some e => (stringBody cs).map fun (s, rest) => (e :: s, rest)
  | c :: cs =>
    if c.toNat < 0x20 || c == '\\' then none
    else (stringBody cs).map fun (s, rest) => (c :: s, rest)

/-! ### Numbers -/

/-- Digits after a point; at least one. -/
def fraction : Reader (Option (List Char))
  | '.' :: cs =>
    let ds := cs.takeWhile (·.isDigit)
    if ds.isEmpty then none else some (some ds, cs.dropWhile (·.isDigit))
  | cs => some (none, cs)

def exponentMark (c : Char) : Bool := c == 'e' || c == 'E'

/-- An exponent: whether it is negative, and its digits, of which there is at least one. -/
def exponent : Reader (Option (Bool × List Char))
  | [] => some (none, [])
  | c :: cs =>
    if exponentMark c then
      let (negative, body) := match cs with
        | '-' :: r => (true, r)
        | '+' :: r => (false, r)
        | r => (false, r)
      let ds := body.takeWhile (·.isDigit)
      if ds.isEmpty then none else some (some (negative, ds), body.dropWhile (·.isDigit))
    else some (none, c :: cs)

/-- A number, from its optional sign on. -/
def numeral : Reader Numeral := fun cs => do
  let (negative, body) := match cs with
    | '-' :: r => (true, r)
    | r => (false, r)
  let whole := body.takeWhile (·.isDigit)
  if whole.isEmpty || (whole.length > 1 && whole.head? == some '0') then none
  let afterWhole := body.dropWhile (·.isDigit)
  let (frac, afterFrac) ← fraction afterWhole
  let (exp, rest) ← exponent afterFrac
  let power : Int := match exp with
    | none => 0
    | some (true, digits) => -Text.decimalValue digits
    | some (false, digits) => Text.decimalValue digits
  if !(Scaled.ofDigits whole (frac.getD []) power).isFinite then none
  if !negative && frac.isNone && exp.isNone then
    return (.natural (Text.decimalValue whole), rest)
  return (.other (.ofList (cs.take (cs.length - rest.length))), rest)

/-! ### Values -/

/-- Items separated by commas and closed by `close`, the first of which stands next. At most
`bound` items are read. -/
def itemsUntil (close : Char) (item : Reader α) : Nat → Reader (List α)
  | 0, _ => none
  | bound + 1, cs =>
    match item cs with
    | none => none
    | some (a, rest) =>
      match skipBlanks rest with
      | ',' :: more => (itemsUntil close item bound more).map fun (as, r) => (a :: as, r)
      | c :: more => if c == close then some ([a], more) else none
      | [] => none

/-- A possibly empty sequence behind its opening bracket. -/
def sequence (close : Char) (item : Reader α) : Reader (List α) := fun cs =>
  match skipBlanks cs with
  | c :: rest => if c == close then some ([], rest) else itemsUntil close item cs.length (c :: rest)
  | [] => none

/-- A member of an object: a name, a colon and a value. -/
def memberOf (value : Reader Value) : Reader (String × Value) := fun cs =>
  match skipBlanks cs with
  | '"' :: body =>
    match stringBody body with
    | none => none
    | some (name, rest) =>
      match skipBlanks rest with
      | ':' :: more => (value more).map fun (v, r) => ((.ofList name, v), r)
      | _ => none
  | _ => none

/-- A value with fewer than `nesting` open brackets, after blanks. -/
def value (nesting : Nat) : Reader Value := fun cs =>
  match skipBlanks cs with
  | [] => none
  | '"' :: rest => (stringBody rest).map fun (s, r) => (.string (.ofList s), r)
  | '[' :: rest =>
    match nesting with
    | 0 => none
    | n + 1 => (sequence ']' (value n) rest).map fun (items, r) => (.array items, r)
  | '\x7b' :: rest =>
    match nesting with
    | 0 => none
    | n + 1 => (sequence '\x7d' (memberOf (value n)) rest).map fun (ms, r) => (.object ms, r)
  | 't' :: rest => keyword "rue".toList (.bool true) rest
  | 'f' :: rest => keyword "alse".toList (.bool false) rest
  | 'n' :: rest => keyword "ull".toList .null rest
  | cs => (numeral cs).map fun (n, r) => (.number n, r)

/-- How deeply arrays and objects may be nested. -/
def maxNesting : Nat := 127

/-- The value of a whole document, if it is well formed. -/
def parse? (text : String) : Option Value :=
  match value maxNesting text.toList with
  | some (v, rest) => if (skipBlanks rest).isEmpty then some v else none
  | none => none

end HdlIndex.Json
