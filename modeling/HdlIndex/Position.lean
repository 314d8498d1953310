import HdlIndex.Text.Measure

/-! Editor coordinates: a line and a column, both counted from zero, the column in UTF-16
units. A byte offset into a text is turned into a position by walking over the characters in
front of it, and back by walking to the line and then along it. -/

namespace HdlIndex

/-- A place in a text. -/
structure Position where
  line : UInt32
  character : UInt32
  deriving DecidableEq, Repr, Inhabited

/-- The part of a text between two places. -/
structure Range where
  start : Position
  stop : Position
  deriving DecidableEq, Repr, Inhabited

namespace Position

/-- The start of a text. -/
def zero : Position := ⟨0, 0⟩

/-- Earlier lines come first, and on one line the smaller column. -/
def compare (p q : Position) : Ordering :=
  (Ord.compare p.line q.line).then (Ord.compare p.character q.character)

def le (p q : Position) : Bool := p.compare q != .gt

def lt (p q : Position) : Bool := p.compare q == .lt

/-- The earlier of two places. -/
def earlier (p q : Position) : Position := if p.le q then p else q

/-- The later of two places. -/
def later (p q : Position) : Position := if p.le q then q else p

/-- Line and column as people count them, from one. -/
def display (p : Position) : String :=
  (p.line + 1).toNat.repr ++ ":" ++ (p.character + 1).toNat.repr

/-- The place behind the character `c` that stands here. -/
def advance (p : Position) (c : Char) : Position :=
  if c == '\n' then ⟨p.line + 1, 0⟩ else ⟨p.line, p.character + .ofNat (Text.units16 c)⟩

/-- The place reached by walking over the characters that fit into `offset` bytes. -/
def walk (p : Position) : Nat → List Char → Position
  | _, [] => p
  | offset, c :: cs =>
    if c.utf8Size ≤ offset then walk (p.advance c) (offset - c.utf8Size) cs else p

end Position

namespace Range

def zero : Range := ⟨.zero, .zero⟩

/-- The empty range at a place. -/
def point (p : Position) : Range := ⟨p, p⟩

def isEmpty (r : Range) : Bool := r.stop.le r.start

/-- Whether the place lies in the half-open range. -/
def contains (r : Range) (p : Position) : Bool := r.start.le p && p.lt r.stop

/-- The least range that covers both. -/
def merge (r s : Range) : Range := ⟨r.start.earlier s.start, r.stop.later s.stop⟩

def display (r : Range) : String := r.start.display ++ "-" ++ r.stop.display

end Range

namespace Text

/-- Number of lines; a final line break starts one more. -/
def lineCount (text : String) : Nat := text.toList.count '\n' + 1

/-- The place of a byte offset. Offsets behind the end count as the end, and offsets inside a
character as its start. -/
def position (text : String) (offset : Nat) : Position :=
  Position.zero.walk offset text.toList

/-- The places of two offsets; a second offset in front of the first counts as the first. -/
def range (text : String) (start stop : Nat) : Range :=
  let chars := text.toList
  ⟨Position.zero.walk start chars, Position.zero.walk (max start stop) chars⟩

theorem range_eq (text : String) (start stop : Nat) :
    range text start stop = ⟨position text start, position text (max start stop)⟩ := rfl

/-- Byte length of the first `n` lines with their line breaks, and the text behind them, if
there are that many line breaks. -/
def dropLines : Nat → List Char → Option (Nat × List Char)
  | 0, cs => some (0, cs)
  | _ + 1, [] => none
  | n + 1, c :: cs =>
    (dropLines (if c == '\n' then n else n + 1) cs).map fun (size, rest) =>
      (c.utf8Size + size, rest)

/-- Bytes up to the column, not farther than behind the line break. `units` is the column
already reached. -/
def columnOffset (column units : UInt32) : List Char → Nat
  | [] => 0
  | c :: cs =>
    if column ≤ units then 0
    else if c == '\n' then c.utf8Size
    else c.utf8Size + columnOffset column (units + .ofNat (units16 c)) cs

/-- The byte offset of a place. A column behind the end of its line gives the end of the line,
counted with the line break; a line behind the last gives the end of the text. -/
def offset (text : String) (p : Position) : Nat :=
  match dropLines p.line.toNat text.toList with
  | none => byteSize text.toList
  | some (start, rest) => start + columnOffset p.character 0 rest

end Text

end HdlIndex
