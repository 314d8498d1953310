import HdlIndex.Bisection
import HdlIndex.Position

/-! Places by an index of lines. The offsets at which the lines of a text start are kept, so that the line
of an offset is found by halving, and only the characters of one line are walked over. -/

namespace HdlIndex

/-- A text with the byte offsets at which its lines start. -/
structure LineIndex where
  text : String
  lineStarts : Array Nat
  deriving Repr

namespace LineIndex

/-- The offsets behind the line breaks of a run of characters that starts at an offset. -/
def startsFrom (start : Nat) : List Char → List Nat
  | [] => []
  | c :: cs =>
    let next := start + c.utf8Size
    if c == '\n' then next :: startsFrom next cs else startsFrom next cs

def ofText (text : String) : LineIndex := ⟨text, (0 :: startsFrom 0 text.toList).toArray⟩

/-- Number of lines; a final line break starts one more. -/
def lineCount (index : LineIndex) : Nat := index.lineStarts.size

/-- The last place between characters that is not behind an offset. -/
def boundary (text : String) : Nat → Nat
  | 0 => 0
  | offset + 1 =>
    if String.Pos.Raw.isValid text ⟨offset + 1⟩ then offset + 1 else boundary text offset

/-- The line that an offset is in. -/
def lineAt (index : LineIndex) (offset : Nat) : Nat :=
  bisect (fun line => index.lineStarts[line]?.any (· ≤ offset)) index.lineStarts.size - 1

/-- The place of a byte offset. Offsets behind the end count as the end, and offsets inside a character
as its start. -/
def position (index : LineIndex) (offset : Nat) : Position :=
  let offset := boundary index.text (min offset index.text.utf8ByteSize)
  let line := index.lineAt offset
  let start := index.lineStarts[line]?.getD 0
  ⟨.ofNat line, .ofNat (Text.utf16Size (Text.slice index.text start offset).toList)⟩

/-- The places of two offsets; a second offset in front of the first counts as the first. -/
def range (index : LineIndex) (start stop : Nat) : Range :=
  ⟨index.position start, index.position (max stop start)⟩

/-- Bytes of the characters in front of the first one that is not in front of the column. `units` is the
column already reached. -/
def bytesInFront (column units : UInt32) : List Char → Nat
  | [] => 0
  | c :: cs =>
    if column ≤ units then 0
    else c.utf8Size + bytesInFront column (units + .ofNat (Text.units16 c)) cs

/-- The byte offset of a place. A column behind the end of its line gives the start of the next line, and a
line behind the last gives the end of the text. -/
def offset (index : LineIndex) (p : Position) : Nat :=
  match index.lineStarts[p.line.toNat]? with
  | none => index.text.utf8ByteSize
  | some start =>
    let stop := index.lineStarts[p.line.toNat + 1]?.getD index.text.utf8ByteSize
    start + bytesInFront p.character 0 (Text.slice index.text start stop).toList

end LineIndex

end HdlIndex
