import HdlIndex.Pattern.Footprint
import HdlIndex.Pattern.SetReader

/-! The notation of patterns: literals, `.`, sets in brackets, escapes, `^ $`, groups, choices, the
repetitions `* + ? {m,n}` with their lazy forms, and flags. A pattern is read inside the frame `^(?:`
… `)`, which ties it to the start of the text. -/

namespace HdlIndex.Pattern

/-! ### Repetitions -/

/-- A decimal number below 2^32 and the characters behind it, white space on both sides skipped. -/
def readNumber (f : Flags) (cs : List Char) : Option (Nat × List Char) :=
  let (digits, rest) := digitsOf (cs.length + 1) (cs.dropWhile Text.isBlank)
  let value := Text.decimalValue digits
  if digits.isEmpty || UInt32.size ≤ value then none
  else some (value, f.skip (rest.dropWhile Text.isBlank))
where
  digitsOf : Nat → List Char → List Char × List Char
    | 0, cs => ([], cs)
    | _ + 1, [] => ([], [])
    | bound + 1, c :: cs =>
      if c.isDigit then
        let (digits, rest) := digitsOf bound (f.skip cs)
        (c :: digits, rest)
      else ([], c :: cs)

/-- The bounds of a counted repetition behind its opening brace. -/
def readBounds (f : Flags) (cs : List Char) : Option (Nat × Option Nat × List Char) :=
  match readNumber f (f.skip cs) with
  | some (least, '\x7d' :: rest) => some (least, some least, rest)
  | some (least, ',' :: rest) =>
    match f.skip rest with
    | '\x7d' :: more => some (least, none, more)
    | more =>
      match readNumber f more with
      | some (most, '\x7d' :: rest) => if least ≤ most then some (least, some most, rest) else none
      | _ => none
  | _ => none

/-- Whether a repetition is greedy. A question mark behind it turns that around. -/
def readGreedy (f : Flags) : List Char → Bool × List Char
  | '?' :: cs => (f.lazy, cs)
  | cs => (!f.lazy, cs)

/-! ### Groups -/

/-- A part of a pattern that was read, and how deep its notation is nested. -/
structure Part where
  pattern : Pattern
  depth : Nat := 0
  /-- Whether the part can be repeated; flags cannot. -/
  repeatable : Bool := true

/-- Several parts as one, which nests them one level deeper unless there is only one. -/
def Part.join (make : List Pattern → Pattern) : List Part → Part
  | [] => { pattern := make [] }
  | [p] => { pattern := make [p.pattern], depth := p.depth }
  | parts =>
    { pattern := make (parts.map (·.pattern))
      depth := 1 + parts.foldl (fun depth p => max depth p.depth) 0 }

/-- A group whose end has not been read yet. -/
structure OpenGroup where
  /-- Its number, if its extent is noted. -/
  index : Option Nat
  /-- The flags around it. -/
  outerFlags : Flags
  /-- Choices that are complete, the last one first. -/
  choices : List Part := []
  /-- The current choice, the last part first. -/
  parts : List Part := []

namespace OpenGroup

def add (g : OpenGroup) (p : Part) : OpenGroup := { g with parts := p :: g.parts }

/-- Starts the next choice. -/
def next (g : OpenGroup) : OpenGroup :=
  { g with choices := .join .sequence g.parts.reverse :: g.choices, parts := [] }

/-- What stands in the group. -/
def body (g : OpenGroup) : Part := .join .choice g.next.choices.reverse

/-- The whole group. -/
def close (g : OpenGroup) : Part :=
  let body := g.body
  { pattern := match g.index with
      | some index => .group index body.pattern
      | none => body.pattern
    depth := 1 + body.depth }

/-- Repeats the part read last; there must be one. -/
def repeatLast (g : OpenGroup) (f : Pattern → Pattern) : Option OpenGroup :=
  match g.parts with
  | [] => none
  | p :: ps =>
    if p.repeatable then
      some { g with parts := { pattern := f p.pattern, depth := 1 + p.depth } :: ps }
    else none

end OpenGroup

/-- Where a reader stands: the innermost open group, those around it, how many groups were
numbered, the names they were given, and the flags that hold. -/
structure ReadState where
  current : OpenGroup
  around : List OpenGroup := []
  count : Nat := 0
  names : List (List Char) := []
  flags : Flags := {}

namespace ReadState

def addPart (st : ReadState) (p : Part) : ReadState := { st with current := st.current.add p }

def add (st : ReadState) (p : Pattern) : ReadState := st.addPart { pattern := p }

/-- Opens a group without a number. -/
def openPlain (st : ReadState) (flags : Flags) : ReadState :=
  { st with
    current := { index := none, outerFlags := st.flags }
    around := st.current :: st.around
    flags := flags }

/-- Opens a group with the next number. -/
def openNumbered (st : ReadState) : ReadState :=
  { st with
    current := { index := some (st.count + 1), outerFlags := st.flags }
    around := st.current :: st.around
    count := st.count + 1 }

def closeGroup (st : ReadState) : Option ReadState :=
  match st.around with
  | [] => none
  | g :: around =>
    some { st with
      current := g.add st.current.close, around := around, flags := st.current.outerFlags }

/-- Repeats the part read last, greedily or not as the text behind the repetition says. -/
def repeatLast (st : ReadState) (least : Nat) (most : Option Nat) (cs : List Char) :
    Option (ReadState × List Char) :=
  let (greedy, rest) := readGreedy st.flags cs
  (st.current.repeatLast (·.times greedy least most)).map fun g => ({ st with current := g }, rest)

end ReadState

/-- The name of a group and the rest behind its closing angle. A name starts with a letter or an
underscore. -/
def readName (cs : List Char) : Option (List Char × List Char) :=
  let first (c : Char) := c == '_' || Text.isAlphabetic c
  let inner (c : Char) := first c || Text.isNumber c || c == '.' || c == '[' || c == ']'
  match cs.takeWhile inner, cs.dropWhile inner with
  | c :: name, '>' :: rest => if first c then some (c :: name, rest) else none
  | _, _ => none

/-- Opens a group with a name, which no other group may have. -/
def readNamed (st : ReadState) (cs : List Char) : Option (ReadState × List Char) :=
  match readName cs with
  | none => none
  | some (name, rest) =>
    if st.names.contains name then none
    else some ({ st.openNumbered with names := name :: st.names }, rest)

/-- Flags up to a colon or a closing parenthesis. A hyphen turns those behind it off. No flag comes
twice, and something has to follow the hyphen. -/
def readFlags (flags : Flags) (on : Bool) (seen : List Char) :
    List Char → Option (Flags × List Char × List Char)
  | [] => none
  | c :: cs =>
    if c == ':' || c == ')' then if seen.head? == some '-' then none else some (flags, seen, c :: cs)
    else if seen.contains c then none
    else if c == '-' then readFlags flags false (c :: seen) cs
    else
      match flags.set? on c with
      | none => none
      | some flags => readFlags flags on (c :: seen) cs

/-- Opens the group behind a parenthesis, or sets flags for the rest of the group around. -/
def readOpening (st : ReadState) (cs : List Char) : Option (ReadState × List Char) :=
  match st.flags.skip cs with
  | '?' :: 'P' :: '<' :: cs => readNamed st cs
  | '?' :: '<' :: cs => readNamed st cs
  | '?' :: cs =>
    match readFlags st.flags true [] cs with
    | some (flags, _, ':' :: rest) => some (st.openPlain flags, rest)
    | some (flags, _ :: _, ')' :: rest) =>
      some ({ st.addPart { pattern := .empty, repeatable := false } with flags := flags }, rest)
    | _ => none
  | cs => some (st.openNumbered, cs)

/-- What a dot stands for. -/
def dotSet? (f : Flags) : Option CharSet :=
  if f.ascii then none
  else if f.dotAll then some .all
  else if f.returns then some (.except ['\r', '\n'])
  else some (.except ['\n'])

/-- Reads the next element of a pattern. -/
def readElement (st : ReadState) : List Char → Option (ReadState × List Char)
  | [] => none
  | '(' :: cs => readOpening st cs
  | ')' :: cs => st.closeGroup.map (·, cs)
  | '|' :: cs => some ({ st with current := st.current.next }, cs)
  | '*' :: cs => st.repeatLast 0 none cs
  | '+' :: cs => st.repeatLast 1 none cs
  | '?' :: cs => st.repeatLast 0 (some 1) cs
  | '\x7b' :: cs =>
    match readBounds st.flags cs with
    | none => none
    | some (least, most, rest) => st.repeatLast least most (st.flags.skip rest)
  | '[' :: cs =>
    (readSet st.flags cs).map fun (part, rest) =>
      (st.addPart { pattern := .one part.set, depth := part.depth }, rest)
  | '.' :: cs => (dotSet? st.flags).map fun set => (st.add (.one set), cs)
  | '^' :: cs =>
    some (st.add (.edge (if st.flags.multiLine then .lineStart st.flags.returns else .textStart)), cs)
  | '$' :: cs =>
    some (st.add (.edge (if st.flags.multiLine then .lineEnd st.flags.returns else .textEnd)), cs)
  | '\\' :: cs =>
    match readEscape st.flags cs with
    | none => none
    | some (.char c, rest) => some (st.add (.one (st.flags.cased (.just c))), rest)
    | some (.set s, rest) => some (st.add (.one s), rest)
    | some (.edge e, rest) => some (st.add (.edge e), rest)
  | c :: cs => some (st.add (.one (st.flags.cased (.just c))), cs)

/-- Reads elements to the end of the text, at most `bound` of them. -/
def readAll : Nat → ReadState → List Char → Option ReadState
  | bound, st, cs =>
    match bound, st.flags.skip cs with
    | _, [] => some st
    | 0, _ :: _ => none
    | bound + 1, cs =>
      match readElement st cs with
      | none => none
      | some (st, rest) => readAll bound st rest

/-- How deep the notation of a pattern may be nested. -/
def depthLimit : Nat := 250

/-- Reads a pattern and ties it to the start of the text. -/
def ofChars? (source : List Char) : Option Pattern :=
  let text := ['^', '(', '?', ':'] ++ source ++ [')']
  match readAll text.length { current := { index := none, outerFlags := {} } } text with
  | some { current := g, around := [], .. } =>
    let whole := g.body
    if whole.depth ≤ depthLimit && whole.pattern.fits then some whole.pattern else none
  | _ => none

def compile? (source : String) : Option Pattern := ofChars? source.toList

end HdlIndex.Pattern
