import HdlIndex.Pattern.Basic
import HdlIndex.Text.Category

/-! The flags under which a part of a pattern is read, and what a backslash stands for. -/

namespace HdlIndex.Pattern

/-! ### Flags -/

/-- How the parts of a pattern are to be understood. -/
structure Flags where
  /-- Letters stand for themselves in either case. -/
  anyCase : Bool := false
  /-- `^` and `$` stand for the edges of lines. -/
  multiLine : Bool := false
  /-- A dot matches line ends, too. -/
  dotAll : Bool := false
  /-- Repetitions are lazy unless they are marked. -/
  lazy : Bool := false
  /-- Classes have ASCII characters only. -/
  ascii : Bool := false
  /-- A carriage return ends a line, too. -/
  returns : Bool := false
  /-- White space and comments between the parts of a pattern do not count. -/
  spaced : Bool := false
  deriving DecidableEq, Repr

namespace Flags

/-- Sets the flag of a letter. -/
def set? (f : Flags) (on : Bool) : Char → Option Flags
  | 'i' => some { f with anyCase := on }
  | 'm' => some { f with multiLine := on }
  | 's' => some { f with dotAll := on }
  | 'U' => some { f with lazy := on }
  | 'u' => some { f with ascii := !on }
  | 'R' => some { f with returns := on }
  | 'x' => some { f with spaced := on }
  | _ => none

/-- The set with the case variants that belong to it. -/
def cased (f : Flags) (set : CharSet) : CharSet :=
  if f.anyCase then .anyCase f.ascii set else set

/-- Leaves a set out, which ASCII sets cannot do. -/
def outside? (f : Flags) (set : CharSet) : Option CharSet :=
  if f.ascii then none else some (.outside set)

end Flags

/-- Drops white space and comments, which run from `#` to the end of the line. -/
def dropSpace (inComment : Bool) : List Char → List Char
  | [] => []
  | c :: cs =>
    if inComment then dropSpace (c != '\n') cs
    else if Text.isBlank c then dropSpace false cs
    else if c == '#' then dropSpace true cs
    else c :: cs

/-- The next characters that count. -/
def Flags.skip (f : Flags) (cs : List Char) : List Char :=
  if f.spaced then dropSpace false cs else cs

/-! ### Escapes -/

/-- What a backslash with the characters behind it stands for. -/
inductive Escape where
  | char (c : Char)
  | set (s : CharSet)
  | edge (e : Edge)

/-- A class by its letter. -/
def classSet (f : Flags) : Char → Option CharSet
  | 'd' => some (if f.ascii then .range '0' '9' else .digit)
  | 's' => some (if f.ascii then .ofRanges [('\t', '\r'), (' ', ' ')] else .blank)
  | 'w' =>
    some (if f.ascii then .ofRanges [('0', '9'), ('A', 'Z'), ('_', '_'), ('a', 'z')] else .word)
  | _ => none

/-- The character of a code point. -/
def charOf? (code : Nat) : Option Char :=
  if code.isValidChar then some (.ofNat code) else none

/-- The value of hexadecimal digits. -/
def hexNumber? (digits : List Char) : Option Nat :=
  digits.foldlM (fun n c => (Text.hexValue? c).map (16 * n + ·)) 0

/-- The first `n` characters that count. -/
def takeChars (f : Flags) : Nat → List Char → Option (List Char × List Char)
  | 0, cs => some ([], cs)
  | n + 1, cs =>
    match f.skip cs with
    | [] => none
    | c :: cs => (takeChars f n cs).map fun (taken, rest) => (c :: taken, rest)

/-- The characters that count up to a closing brace, at most `bound` of them. -/
def takeToBrace (f : Flags) : Nat → List Char → Option (List Char × List Char)
  | 0, _ => none
  | bound + 1, cs =>
    match f.skip cs with
    | [] => none
    | '\x7d' :: rest => some ([], rest)
    | c :: cs => (takeToBrace f bound cs).map fun (taken, rest) => (c :: taken, rest)

/-- A character by its code point: `size` hexadecimal digits, or any number of them in braces. A
code of two digits is a byte, so that without ASCII sets only it stands for a character. -/
def readHex (f : Flags) (size : Nat) (cs : List Char) : Option (Escape × List Char) :=
  match f.skip cs with
  | '\x7b' :: cs => do
    let (digits, rest) ← takeToBrace f (cs.length + 1) cs
    if digits.isEmpty then none
    else return (.char (← charOf? (← hexNumber? digits)), f.skip rest)
  | cs => do
    let (digits, rest) ← takeChars f size cs
    let code ← hexNumber? digits
    if f.ascii && size == 2 && 0x80 ≤ code then none
    else return (.char (← charOf? code), f.skip rest)

/-- The first place at which a text has a given one, as what stands in front of it and behind it. -/
def cutAt? (sep : List Char) : List Char → Option (List Char × List Char)
  | [] => none
  | c :: cs =>
    if sep.isPrefixOf (c :: cs) then some ([], (c :: cs).drop sep.length)
    else (cutAt? sep cs).map fun (front, behind) => (c :: front, behind)

/-- The characters that a description in braces stands for, and whether they are left out: the name
of a class, or a property with its value. -/
def describedSet? (text : List Char) : Option (CharSet × Bool) :=
  let byValue := fun (property, value) =>
    Text.classByValue? (Text.plainName property) (Text.plainName value)
  let (found, left) := match cutAt? ['!', '='] text, cutAt? [':'] text, cutAt? ['='] text with
    | some parts, _, _ => (byValue parts, true)
    | none, some parts, _ => (byValue parts, false)
    | none, none, some parts => (byValue parts, false)
    | none, none, none => (Text.classByName? (Text.plainName text), false)
  found.map fun ranges => (.codes ranges, left)

/-- A class by one letter or by a description in braces. ASCII sets know none. -/
def readDescribed (f : Flags) (negated : Bool) (cs : List Char) : Option (Escape × List Char) := do
  let (text, rest) ← match f.skip cs with
    | '\x7b' :: cs => takeToBrace f (cs.length + 1) cs
    | c :: cs => if c == '\\' then none else some ([c], f.skip cs)
    | [] => none
  let (set, left) ← describedSet? text
  let set := f.cased set
  if f.ascii then none
  else return (.set (if negated != left then .outside set else set), rest)

/-- The names of conditions on words. -/
def wordEdge? (name : List Char) : Option WordEdge :=
  match String.ofList name with
  | "start" => some .start
  | "end" => some .stop
  | "start-half" => some .startHalf
  | "end-half" => some .stopHalf
  | _ => none

/-- The condition behind `\b`. A brace with a letter or a hyphen behind it holds its name; any other
brace belongs to a repetition. -/
def readBoundary (f : Flags) (cs : List Char) : Option (Escape × List Char) :=
  let edge e := Escape.edge (.word f.ascii e)
  let plain := some (edge .boundary, cs)
  match cs with
  | '\x7b' :: inner =>
    match f.skip inner with
    | [] => none
    | c :: more =>
      if c.isAlpha || c == '-' then do
        let (name, rest) ← takeToBrace f (more.length + 2) (c :: more)
        return (edge (← wordEdge? name), rest)
      else plain
  | _ => plain

/-- The escape behind a backslash, and the rest of the text. ASCII characters that are neither
letters nor digits stand for themselves. -/
def readEscape (f : Flags) : List Char → Option (Escape × List Char)
  | [] => none
  | 'x' :: cs => readHex f 2 cs
  | 'u' :: cs => readHex f 4 cs
  | 'U' :: cs => readHex f 8 cs
  | 'p' :: cs => readDescribed f false cs
  | 'P' :: cs => readDescribed f true cs
  | 'b' :: cs => readBoundary f cs
  | c :: cs =>
    let found : Option Escape := match c with
      | 'd' | 's' | 'w' => (classSet f c).map .set
      | 'D' | 'S' | 'W' => ((classSet f c.toLower).bind f.outside?).map .set
      | 'B' => some (.edge (.word f.ascii .notBoundary))
      | '<' => some (.edge (.word f.ascii .start))
      | '>' => some (.edge (.word f.ascii .stop))
      | 'A' => some (.edge .textStart)
      | 'z' => some (.edge .textEnd)
      | 'a' => some (.char '\x07')
      | 'f' => some (.char '\x0c')
      | 't' => some (.char '\t')
      | 'n' => some (.char '\n')
      | 'r' => some (.char '\r')
      | 'v' => some (.char '\x0b')
      | c => if c.toNat < 0x80 && !c.isAlphanum then some (.char c) else none
    found.map fun e => (e, cs)

end HdlIndex.Pattern
