import HdlIndex.Text.Class

/-! Which numbers are small enough to be read. A number is taken as a significand of 64 bits and a
power of ten. Both are rounded to doubles and multiplied, and a product that is no finite double is
refused. As two roundings come before the product, a few numbers just below the largest double are
refused and a few just above it are not. -/

namespace HdlIndex.Json

/-- The nearest natural number with at most 53 significant bits; of two equally near ones, the one
with an even last bit. -/
def roundToDouble (n : Nat) : Nat :=
  let unit := Nat.pow 2 (n.log2 - 52)
  let low := n / unit * unit
  let excess := n - low
  if unit < 2 * excess || (unit == 2 * excess && n / unit % 2 == 1) then low + unit else low

/-- The least natural number that rounds to no finite double. -/
def doubleOverflow : Nat := Nat.pow 2 1024 - Nat.pow 2 970

/-- The largest power of ten that is a finite double. -/
def largestPower : Nat := 308

/-- The number `significand · 10 ^ exponent`. -/
structure Scaled where
  significand : Nat
  exponent : Int
  deriving DecidableEq, Repr, Inhabited

namespace Scaled

/-- Whether the product of the rounded parts is a finite double. -/
def isFinite (s : Scaled) : Bool :=
  match s.exponent with
  | .negSucc _ => true
  | .ofNat power =>
    s.significand == 0 || (power ≤ largestPower &&
      roundToDouble s.significand * roundToDouble (Nat.pow 10 power) < doubleOverflow)

/-- The significand with one more digit, if it still fits into 64 bits. -/
def append? (significand : Nat) (digit : Char) : Option Nat :=
  let next := Text.decimalValue [digit] + 10 * significand
  if next < UInt64.size then some next else none

/-- Takes digits in front of the point. Those that do not fit any more only raise the exponent. -/
def takeWhole (significand : Nat) : List Char → Scaled
  | [] => ⟨significand, 0⟩
  | digit :: rest =>
    match append? significand digit with
    | some next => takeWhole next rest
    | none => ⟨significand, rest.length + 1⟩

/-- Takes digits behind the point, as long as they fit. -/
def takeFraction (s : Scaled) : List Char → Scaled
  | [] => s
  | digit :: rest =>
    match append? s.significand digit with
    | some next => takeFraction ⟨next, s.exponent - 1⟩ rest
    | none => s

/-- The number with the given digits in front of the point and behind it, and an exponent. -/
def ofDigits (whole fraction : List Char) (exponent : Int) : Scaled :=
  let s := takeFraction (takeWhole 0 whole) fraction
  { s with exponent := s.exponent + exponent }

end Scaled

end HdlIndex.Json
