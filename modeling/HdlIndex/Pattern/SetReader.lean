import HdlIndex.Pattern.Escape

/-! Sets of characters in brackets: single characters, ranges, classes, sets in sets, and the
operations `&&`, `--` and `~~` between them. -/

namespace HdlIndex.Pattern

/-- A set that was read, and how deep its notation is nested. -/
structure SetPart where
  set : CharSet
  depth : Nat := 0

/-- An operation on two sets. -/
inductive SetOperation where
  | intersection
  | difference
  /-- What is in exactly one of them. -/
  | exclusive
  deriving DecidableEq, Repr

def SetOperation.apply : SetOperation → CharSet → CharSet → CharSet
  | intersection, a, b => .both a b
  | difference, a, b => .both a (.outside b)
  | exclusive, a, b => .differ a b

/-- A set whose closing bracket has not been read yet. -/
structure OpenSet where
  negated : Bool
  /-- What the operation read last is to be applied to. -/
  left : Option (SetPart × SetOperation)
  /-- The items behind it, the last one first. -/
  items : List SetPart

namespace OpenSet

def add (s : OpenSet) (p : SetPart) : OpenSet := { s with items := p :: s.items }

/-- All items read since the last operation. -/
def union (s : OpenSet) : SetPart :=
  match s.items.reverse with
  | [] => ⟨.nothing, 0⟩
  | [p] => p
  | p :: ps =>
    ⟨ps.foldl (fun set q => .either set q.set) p.set,
      1 + ps.foldl (fun depth q => max depth q.depth) p.depth⟩

/-- The set so far, with the operation read last. Its operands take their case variants with
them. -/
def value (f : Flags) (s : OpenSet) : SetPart :=
  match s.left with
  | none => s.union
  | some (left, op) =>
    let right := s.union
    ⟨op.apply (f.cased left.set) (f.cased right.set), 1 + max left.depth right.depth⟩

/-- Goes on behind an operation. -/
def operate (f : Flags) (s : OpenSet) (op : SetOperation) : OpenSet :=
  { s with left := some (s.value f, op), items := [] }

/-- The whole set. -/
def close? (f : Flags) (s : OpenSet) : Option SetPart :=
  let inner := s.value f
  let set := f.cased inner.set
  (if s.negated then f.outside? set else some set).map (⟨·, 1 + inner.depth⟩)

end OpenSet

/-! ### Items -/

/-- A class of ASCII characters by its name. -/
def namedClass? (name : String) : Option CharSet :=
  let ranges : Option (List (Char × Char)) := match name with
    | "alnum" => some [('0', '9'), ('A', 'Z'), ('a', 'z')]
    | "alpha" => some [('A', 'Z'), ('a', 'z')]
    | "ascii" => some [('\x00', '\x7f')]
    | "blank" => some [('\t', '\t'), (' ', ' ')]
    | "cntrl" => some [('\x00', '\x1f'), ('\x7f', '\x7f')]
    | "digit" => some [('0', '9')]
    | "graph" => some [('!', '~')]
    | "lower" => some [('a', 'z')]
    | "print" => some [(' ', '~')]
    | "punct" => some [('!', '/'), (':', '@'), ('[', '`'), ('\x7b', '~')]
    | "space" => some [('\t', '\r'), (' ', ' ')]
    | "upper" => some [('A', 'Z')]
    | "word" => some [('0', '9'), ('A', 'Z'), ('_', '_'), ('a', 'z')]
    | "xdigit" => some [('0', '9'), ('A', 'F'), ('a', 'f')]
    | _ => none
  ranges.map .ofRanges

/-- The class with the name up to the next colon, or what it leaves out. A bracket closes it. -/
def readClassName (f : Flags) (negated : Bool) (cs : List Char) :
    Option (Option CharSet × List Char) :=
  match cs.dropWhile (· != ':') with
  | ':' :: ']' :: rest =>
    (namedClass? (.ofList (cs.takeWhile (· != ':')))).map fun set =>
      let set := f.cased set
      (if negated then f.outside? set else some set, rest)
  | _ => none

/-- A class `[:name:]` or its opposite `[:^name:]`, behind its opening bracket. Anything else is no
class, and a class that cannot be left out is an error. -/
def readNamedClass (f : Flags) : List Char → Option (Option CharSet × List Char)
  | ':' :: '^' :: cs => readClassName f true cs
  | ':' :: cs => readClassName f false cs
  | _ => none

/-- A character or a class inside brackets, and the character if it is one. ASCII sets have ASCII
characters only. -/
def readItem (f : Flags) (cs : List Char) : Option (CharSet × Option Char × List Char) :=
  let char (c : Char) (rest : List Char) :=
    if f.ascii && 0x80 ≤ c.toNat then none else some (.just c, some c, rest)
  match cs with
  | '\\' :: cs =>
    match readEscape f cs with
    | some (.char c, rest) => char c rest
    | some (.set s, rest) => some (s, none, rest)
    | _ => none
  | c :: cs => char c cs
  | [] => none

/-- The character behind a hyphen, by which a range is told from a literal hyphen. A comment is not
looked through. -/
def peekBehind (f : Flags) (cs : List Char) : Option Char :=
  if f.spaced then
    match cs.dropWhile Text.isBlank with
    | '#' :: cs => (cs.dropWhile Text.isBlank).head?
    | cs => cs.head?
  else cs.head?

/-- An item of a set, or a range from one character to another that is not before it. -/
def readRange (f : Flags) (cs : List Char) : Option (SetPart × List Char) := do
  let (set, first, rest) ← readItem f cs
  match f.skip rest with
  | [] => none
  | '-' :: more =>
    if peekBehind f more == some ']' || peekBehind f more == some '-' then return (⟨set, 0⟩, rest)
    else
      match first, ← readItem f (f.skip more) with
      | some lo, (_, some hi, rest) => if lo ≤ hi then some (⟨.range lo hi, 0⟩, rest) else none
      | _, _ => none
  | _ => return (⟨set, 0⟩, rest)

/-- Hyphens in a row, put in front of other items, and the rest behind them. -/
def readHyphens (f : Flags) (items : List SetPart) : List Char → Nat → List SetPart × List Char
  | '-' :: r, bound + 1 => readHyphens f (⟨.just '-', 0⟩ :: items) (f.skip r) bound
  | cs, _ => (items, cs)

/-- A set up to its first item. Hyphens there, or else a closing bracket, stand for themselves. -/
def readFront (f : Flags) (negated : Bool) (cs : List Char) : OpenSet × List Char :=
  let (items, rest) := readHyphens f [] cs cs.length
  match items, rest with
  | [], ']' :: r => (⟨negated, none, [⟨.just ']', 0⟩]⟩, r)
  | items, rest => (⟨negated, none, items⟩, rest)

/-- A set behind its opening bracket, up to its first item. -/
def readOpen (f : Flags) (cs : List Char) : OpenSet × List Char :=
  match f.skip cs with
  | '^' :: r => readFront f true (f.skip r)
  | r => readFront f false r

/-! ### Sets -/

/-- Reads on in a set to its closing bracket, at most `bound` steps. The sets around it are open,
too, the innermost first. -/
def readItems (f : Flags) : Nat → OpenSet → List OpenSet → List Char → Option (SetPart × List Char)
  | 0, _, _, _ => none
  | bound + 1, s, around, cs =>
    match f.skip cs with
    | [] => none
    | '[' :: rest =>
      match readNamedClass f rest with
      | some (none, _) => none
      | some (some set, rest) => readItems f bound (s.add ⟨set, 0⟩) around rest
      | none =>
        let (inner, rest) := readOpen f rest
        readItems f bound inner (s :: around) rest
    | ']' :: rest =>
      match s.close? f, around with
      | none, _ => none
      | some part, [] => some (part, rest)
      | some part, outer :: around => readItems f bound (outer.add part) around rest
    | '&' :: '&' :: rest => readItems f bound (s.operate f .intersection) around rest
    | '-' :: '-' :: rest => readItems f bound (s.operate f .difference) around rest
    | '~' :: '~' :: rest => readItems f bound (s.operate f .exclusive) around rest
    | cs =>
      match readRange f cs with
      | none => none
      | some (part, rest) => readItems f bound (s.add part) around rest

/-- A set behind its opening bracket. -/
def readSet (f : Flags) (cs : List Char) : Option (SetPart × List Char) :=
  let (s, rest) := readOpen f cs
  readItems f (cs.length + 1) s [] rest

end HdlIndex.Pattern
