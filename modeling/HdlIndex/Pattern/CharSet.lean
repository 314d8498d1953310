import HdlIndex.Text.Fold

/-! Sets of characters, as combinations of ranges and classes, and the ranges of code points that
they consist of. -/

namespace HdlIndex

/-- Code points by inclusive ranges. -/
abbrev CodeRanges := List (Nat × Nat)

namespace CodeRanges

/-- Ranges in ascending order behind a first one, with those that touch joined. -/
def joinBehind (first last : Nat) : CodeRanges → CodeRanges
  | [] => [(first, last)]
  | (a, b) :: rest =>
    if a ≤ last + 1 then joinBehind first (max last b) rest
    else (first, last) :: joinBehind a b rest

/-- Puts a range in front of the first one that does not start before it. -/
def insert (r : Nat × Nat) : CodeRanges → CodeRanges
  | [] => [r]
  | q :: rest => if r.1 ≤ q.1 then r :: q :: rest else q :: insert r rest

/-- The same code points in ascending ranges with gaps between them. -/
def sorted (rs : CodeRanges) : CodeRanges :=
  match rs.foldr insert [] with
  | [] => []
  | (a, b) :: rest => joinBehind a b rest

/-- The last code point. -/
def lastCode : Nat := 0x10ffff

/-- The code points from `next` on that sorted ranges leave out. -/
def gapsFrom (next : Nat) : CodeRanges → CodeRanges
  | [] => if next ≤ lastCode then [(next, lastCode)] else []
  | (a, b) :: rest =>
    if next < a then (next, a - 1) :: gapsFrom (b + 1) rest else gapsFrom (b + 1) rest

/-- The code points outside sorted ranges. -/
def gaps (rs : CodeRanges) : CodeRanges := gapsFrom 0 rs

def union (rs qs : CodeRanges) : CodeRanges := sorted (rs ++ qs)

/-- The code points of some ranges that may have case variants. -/
def casedCodes (rs : CodeRanges) : List Nat :=
  if (rs.map fun r => r.2 + 1 - r.1).foldr (· + ·) 0 ≤ 64 then
    rs.flatMap fun r => List.range' r.1 (r.2 + 1 - r.1)
  else Text.casedCodes.filter (Text.covers rs)

def inter (rs qs : CodeRanges) : CodeRanges := gaps (union (gaps rs) (gaps qs))

end CodeRanges

/-- A set of characters. -/
inductive CharSet where
  | nothing
  /-- All characters from the first to the last. -/
  | range (first last : Char)
  /-- All characters with code points in some ranges. -/
  | codes (rs : CodeRanges)
  | blank
  | word
  | digit
  | either (a b : CharSet)
  | both (a b : CharSet)
  /-- The characters of exactly one of two sets. -/
  | differ (a b : CharSet)
  /-- All characters outside a set. -/
  | outside (a : CharSet)
  /-- The characters of a set and those that differ from one of them in case only; whether only the
  case of ASCII letters counts. -/
  | anyCase (ascii : Bool) (a : CharSet)
  deriving DecidableEq, Repr

namespace CharSet

def just (c : Char) : CharSet := .range c c

/-- Every character. -/
def all : CharSet := .outside .nothing

/-- Every character except the given ones. -/
def except (cs : List Char) : CharSet :=
  .outside (cs.foldr (fun c s => .either (.just c) s) .nothing)

/-- The characters of some ranges. -/
def ofRanges (rs : List (Char × Char)) : CharSet :=
  rs.foldr (fun r s => .either (.range r.1 r.2) s) .nothing

def has : CharSet → Char → Bool
  | nothing, _ => false
  | range first last, c => first ≤ c && c ≤ last
  | codes rs, c => Text.covers rs c.toNat
  | blank, c => Text.isBlank c
  | word, c => Text.isWord c
  | digit, c => Text.isDigit c
  | either a b, c => a.has c || b.has c
  | both a b, c => a.has c && b.has c
  | differ a b, c => a.has c != b.has c
  | outside a, c => !a.has c
  | anyCase ascii a, c =>
    a.has c ||
      if ascii then (Text.asciiCaseVariant? c.toNat).any fun d => a.has (.ofNat d)
      else (Text.caseVariants c.toNat).any fun d => a.has (.ofNat d)

/-- The code points of a set in ascending ranges with gaps between them. -/
def ranges : CharSet → CodeRanges
  | nothing => []
  | range first last => [(first.toNat, last.toNat)]
  | codes rs => .sorted rs
  | blank => .sorted ([(0x09, 0x0d), (0x20, 0x20)] ++ Text.blankTable)
  | word => .sorted ([(0x30, 0x39), (0x41, 0x5a), (0x5f, 0x5f), (0x61, 0x7a)] ++ Text.wordTable)
  | digit => .sorted ((0x30, 0x39) :: Text.digitTable)
  | either a b => a.ranges.union b.ranges
  | both a b => a.ranges.inter b.ranges
  | differ a b => (a.ranges.inter b.ranges.gaps).union (b.ranges.inter a.ranges.gaps)
  | outside a => a.ranges.gaps
  | anyCase ascii a =>
    let rs := a.ranges
    let variants (c : Nat) :=
      if ascii then (Text.asciiCaseVariant? c).toList else Text.caseVariants c
    .union rs ((rs.casedCodes.flatMap variants).map fun c => (c, c))

/-- Whether a set has exactly one character. -/
def isSingleton : CharSet → Bool
  | range first last => first == last
  | blank | word | digit => false
  | set =>
    match set.ranges with
    | [(first, last)] => first == last
    | _ => false

/-- A bound for the number of ranges. -/
def rangeBound : CharSet → Nat
  | nothing => 0
  | range _ _ => 1
  | codes rs => rs.length
  | blank => 2 + Text.blankTable.length
  | word => 4 + Text.wordTable.length
  | digit => 1 + Text.digitTable.length
  | either a b => a.rangeBound + b.rangeBound
  | both a b => a.rangeBound + b.rangeBound + 1
  | differ a b => 2 * (a.rangeBound + b.rangeBound + 1)
  | outside a => a.rangeBound + 1
  | anyCase _ a => a.rangeBound + Text.casedCodes.length

end CharSet

end HdlIndex
