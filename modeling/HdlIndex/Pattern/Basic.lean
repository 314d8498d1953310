import HdlIndex.Pattern.CharSet

/-! Patterns over characters: sets, sequences, ordered choices, repetitions and numbered
groups. -/

namespace HdlIndex

/-- A condition on the words that meet at a place between two characters. -/
inductive WordEdge where
  /-- A word character on exactly one side. -/
  | boundary
  | notBoundary
  /-- A word starts. -/
  | start
  /-- A word ends. -/
  | stop
  /-- No word character in front. -/
  | startHalf
  /-- No word character behind. -/
  | stopHalf
  deriving DecidableEq, Repr

/-- A condition on a place between two characters. -/
inductive Edge where
  /-- A condition on words; whether only ASCII characters make words. -/
  | word (ascii : Bool) (e : WordEdge)
  | textStart
  | textEnd
  /-- The start of a line; whether a carriage return ends lines, too. -/
  | lineStart (returns : Bool)
  | lineEnd (returns : Bool)
  deriving DecidableEq, Repr

inductive Pattern where
  /-- Nothing. -/
  | empty
  /-- One character of a set. -/
  | one (set : CharSet)
  /-- Nothing, at a place that meets the condition. -/
  | edge (e : Edge)
  | seq (p q : Pattern)
  /-- The first choice if the whole can be matched with it, otherwise the second. -/
  | alt (p q : Pattern)
  /-- Between `least` and `most` matches in a row; without `most`, `least` or more. As many as
  possible if greedy and as few as possible if not. -/
  | repeated (greedy : Bool) (least : Nat) (most : Option Nat) (p : Pattern)
  /-- A match whose extent is noted under a number. -/
  | group (index : Nat) (p : Pattern)
  deriving DecidableEq, Repr

namespace Pattern

def isEmpty : Pattern → Bool
  | empty => true
  | _ => false

/-- Whether the pattern stands for a single character or place, so that a match has one end. -/
def isSingle : Pattern → Bool
  | one _ | edge _ => true
  | _ => false

/-- Whether the pattern stands for one character that is always the same. -/
def isLiteral : Pattern → Bool
  | one set => set.isSingleton
  | _ => false

/-- The set of a pattern that stands for one character. -/
def set? : Pattern → Option CharSet
  | one set => some set
  | _ => none

/-- Whether no match can consume a character. -/
def isWidthless : Pattern → Bool
  | empty | edge _ => true
  | one _ => false
  | seq p q | alt p q => p.isWidthless && q.isWidthless
  | repeated _ _ _ p | group _ p => p.isWidthless

/-- Whether every match consumes a character. -/
def consumes : Pattern → Bool
  | empty | edge _ => false
  | one _ => true
  | seq p q => p.consumes || q.consumes
  | alt p q => p.consumes && q.consumes
  | repeated _ least _ p => 0 < least && p.consumes
  | group _ p => p.consumes

/-- Whether a match can only start where the text does. -/
def isTied : Pattern → Bool
  | edge .textStart => true
  | seq p _ => p.isTied
  | alt p q => p.isTied && q.isTied
  | repeated _ least _ p => 0 < least && p.isTied
  | group _ p => p.isTied
  | _ => false

/-- The highest number of a group. -/
def groups : Pattern → Nat
  | empty | one _ | edge _ => 0
  | seq p q | alt p q => max p.groups q.groups
  | repeated _ _ _ p => p.groups
  | group index p => max index p.groups

/-- Parts in a row, none of them empty. Behind a part whose matches may have several ends the rows
nest to the left, so that a matcher sees the ends of each row together. -/
def chain : List Pattern → Pattern
  | [] => .empty
  | [p] => p
  | p :: ps => if p.isSingle then .seq p (chain ps) else ps.foldl .seq p

/-- The parts of a row, with others behind them. -/
def partsThen : Pattern → List Pattern → List Pattern
  | empty, ps => ps
  | seq p q, ps => p.partsThen (q.partsThen ps)
  | p, ps => p :: ps

/-- The parts of a row. -/
def parts (p : Pattern) : List Pattern := p.partsThen []

/-- The parts of a choice. -/
def choices : Pattern → List Pattern
  | alt p q => p.choices ++ q.choices
  | p => [p]

/-- Parts in a row. -/
def sequence (ps : List Pattern) : Pattern := chain (ps.foldr partsThen [])

/-- Whether two patterns are the same, however their sets are written. -/
def isSame : Pattern → Pattern → Bool
  | empty, empty => true
  | one a, one b => a == b || a.ranges == b.ranges
  | edge a, edge b => a == b
  | seq p q, seq p' q' | alt p q, alt p' q' => p.isSame p' && q.isSame q'
  | repeated greedy least most p, repeated greedy' least' most' p' =>
    greedy == greedy' && least == least' && most == most' && p.isSame p'
  | group index p, group index' p' => index == index' && p.isSame p'
  | _, _ => false

/-- The parts of a row, literals next to each other taken together. -/
def pieces (p : Pattern) : List (List Pattern) :=
  p.parts.splitBy fun a b => a.isLiteral && b.isLiteral

/-- What two rows of pieces have in common at their front. -/
def sharedFront : List (List Pattern) → List (List Pattern) → List (List Pattern)
  | ps :: rest, qs :: rest' =>
    if ps.length = qs.length ∧ (ps.zip qs).all fun (p, q) => p.isSame q then
      ps :: sharedFront rest rest'
    else []
  | _, _ => []

/-- A choice between parts that are not choices themselves. Between literals of one character it is
a set, and between other sets, too. -/
def oneOf (ps : List Pattern) : Pattern :=
  match ps.mapM set? with
  | some (set :: sets) =>
    if sets.all (·.isSingleton == set.isSingleton) then .one (sets.foldl .either set)
    else alternatives ps
  | _ => alternatives ps
where
  alternatives : List Pattern → Pattern
    | [] => .empty
    | [p] => p
    | p :: ps => .alt p (alternatives ps)

/-- A choice between parts. If all of them are rows then the pieces that they have in common at the
front stand in front of the choice, so the choice is made behind them. -/
def choice (ps : List Pattern) : Pattern :=
  let ps := ps.flatMap choices
  let rows := ps.map pieces
  let front := match rows with
    | row :: next :: rows =>
      if (row :: next :: rows).all (1 < ·.length) then (next :: rows).foldl sharedFront row else []
    | _ => []
  if front.isEmpty then oneOf ps
  else
    let rests := rows.flatMap fun row => (sequence (row.drop front.length).flatten).choices
    sequence (front.flatten ++ [oneOf rests])

/-- Repeats a pattern. Matches of nothing in a row are one match of nothing, and the pattern
repeated zero times is empty and has no groups. -/
def times (greedy : Bool) (least : Nat) (most : Option Nat) (p : Pattern) : Pattern :=
  let least := if p.isWidthless then min least 1 else least
  let most := if p.isWidthless then some (min (most.getD 1) 1) else most
  if most = some 0 then .empty
  else if least = 1 ∧ most = some 1 then p
  else .repeated greedy least most p

end Pattern

end HdlIndex
