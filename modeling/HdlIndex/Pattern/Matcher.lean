import HdlIndex.Pattern.Ends
import HdlIndex.Pattern.Program

/-! Matching a pattern in a text. The list of ends has the preferred match first unless a repetition
can go on forever without reading; then the program of the pattern has to be run to find it. -/

namespace HdlIndex

/-- A match, its places in characters from the start of the text. -/
structure Match where
  start : Nat
  stop : Nat
  /-- Extents of groups, the latest first. -/
  captures : List Capture
  deriving DecidableEq, Repr

/-- The extent of a group that took part in the match. -/
def Match.capture? (m : Match) (group : Nat) : Option Capture :=
  m.captures.find? (·.group == group)

namespace Pattern

/-- Whether each match that is repeated without a limit consumes a character. -/
def isSteady : Pattern → Bool
  | empty | one _ | edge _ => true
  | seq p q | alt p q => p.isSteady && q.isSteady
  | repeated _ _ most p => p.isSteady && (most.isSome || p.consumes)
  | group _ p => p.isSteady

/-- Where the preferred match from a place ends. -/
def end? (p : Pattern) (s : MatchState) : Option MatchState :=
  if p.isSteady then (p.ends s).head? else p.runEnd? s

/-- The preferred match from a place. -/
def matchFrom? (p : Pattern) (s : MatchState) : Option Match :=
  (p.end? s).map fun t => ⟨s.pos, t.pos, t.captures⟩

/-- The match that starts first, at the given position or behind it. -/
def search? (p : Pattern) (before : Option Char) (pos : Nat) : List Char → Option Match
  | [] => p.matchFrom? ⟨before, [], pos, []⟩
  | c :: cs =>
    match p.matchFrom? ⟨before, c :: cs, pos, []⟩ with
    | some m => some m
    | none => p.search? (some c) (pos + 1) cs

/-- The match in a text that starts first, of those the preferred one. -/
def match? (p : Pattern) (text : List Char) : Option Match :=
  if p.isTied then p.matchFrom? ⟨none, text, 0, []⟩ else p.search? none 0 text

end Pattern

end HdlIndex
