import HdlIndex.Pattern.Basic

/-! The places in a text that a matcher comes to, and the conditions on them. -/

namespace HdlIndex

/-- The extent of a group, in characters from the start of the text. -/
structure Capture where
  group : Nat
  start : Nat
  stop : Nat
  deriving DecidableEq, Repr

/-- A place in the text, with the extents noted on the way to it. -/
structure MatchState where
  /-- The character in front, if there is one. -/
  before : Option Char
  rest : List Char
  /-- Characters from the start of the text. -/
  pos : Nat
  /-- Extents of groups, the latest first. -/
  captures : List Capture
  deriving DecidableEq, Repr

namespace MatchState

/-- The place behind the next character, which is `c`. -/
def behind (s : MatchState) (c : Char) : MatchState :=
  { s with before := some c, rest := s.rest.tail, pos := s.pos + 1 }

/-- Notes the extent of a group that ends here. -/
def note (s : MatchState) (group start : Nat) : MatchState :=
  { s with captures := ⟨group, start, s.pos⟩ :: s.captures }

end MatchState

def WordEdge.holds (e : WordEdge) (before behind : Bool) : Bool :=
  match e with
  | boundary => before != behind
  | notBoundary => before == behind
  | start => !before && behind
  | stop => before && !behind
  | startHalf => !before
  | stopHalf => !behind

def Edge.holds (e : Edge) (s : MatchState) : Bool :=
  let behind := s.rest.head?
  match e with
  | word ascii e =>
    let inWord (c : Char) := Text.isWord c && (!ascii || c.toNat < 0x80)
    e.holds (s.before.any inWord) (behind.any inWord)
  | textStart => s.before.isNone
  | textEnd => behind.isNone
  | lineStart false => s.before.all (· == '\n')
  | lineEnd false => behind.all (· == '\n')
  | lineStart true => s.before.all (· == '\n') || (s.before == some '\r' && behind != some '\n')
  | lineEnd true => behind.all (· == '\r') || (behind == some '\n' && s.before != some '\r')

end HdlIndex
