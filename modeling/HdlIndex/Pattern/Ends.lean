import HdlIndex.Pattern.Place
import Std.Data.HashSet

/-! All places where a match can end. Of all ways to match from a place the one counts that prefers
the first choice where two ways differ. A matcher that follows one way after another can take time
exponential in the text; here each part of a pattern yields the list of all places where it can end,
the preferred way first and each place once. What follows a part depends on the place only, so the
first way to a place is the one that counts. Repetitions without a limit are meant for parts that
consume a character; other parts are repeated here as long as they do. -/

namespace HdlIndex

namespace Pattern

/-! ### Lists of ends -/

/-- The first state at each position, except at those seen before. -/
def distinctFrom (seen : Std.HashSet Nat) : List MatchState → List MatchState
  | [] => []
  | s :: rest =>
    if seen.contains s.pos then distinctFrom seen rest
    else s :: distinctFrom (seen.insert s.pos) rest

/-- The first state at each position. -/
def distinct : List MatchState → List MatchState
  | [] => []
  | [s] => [s]
  | states => distinctFrom ∅ states

/-- The ends of a step that is taken from each of some places. -/
def stepAll (step : MatchState → List MatchState) : List MatchState → List MatchState
  | [] => []
  | [s] => step s
  | states => distinct (states.flatMap step)

/-- Takes a step several times. -/
def stepTimes (step : MatchState → List MatchState) : Nat → List MatchState → List MatchState
  | _, [] => []
  | 0, states => states
  | n + 1, states => stepTimes step n (stepAll step states)

/-- The ends of two choices, the first one preferred. -/
def merge : List MatchState → List MatchState → List MatchState
  | [], states => states
  | states, [] => states
  | first, second => distinct (first ++ second)

/-! ### Repetitions -/

/-- The places in a run of characters of a set, the last one first. The run goes on through the
given characters, which are the next ones of the text. -/
def runPlaces (set : CharSet) : List Char → MatchState → List MatchState → List MatchState
  | [], s, found => s :: found
  | c :: cs, s, found =>
    if set.has c then runPlaces set cs (s.behind c) (s :: found) else s :: found

/-- The ends of a repetition of single characters. -/
def runEnds (greedy : Bool) (least : Nat) (most : Option Nat) (set : CharSet) (s : MatchState) :
    List MatchState :=
  let reach := match most with
    | some most => s.rest.take most
    | none => s.rest
  let places := (runPlaces set reach s []).filter fun t => s.pos + least ≤ t.pos
  if greedy then places else places.reverse

/-- What a repetition has found so far. -/
structure Found where
  /-- Positions from which the repetition went on, with the number of steps left there. -/
  visited : Std.HashSet (Nat × Nat) := ∅
  /-- Where the repetition can end, the preferred place last. -/
  ends : List MatchState := []

def Found.add (f : Found) (s : MatchState) : Found := { f with ends := s :: f.ends }

/-- Stops at a place or takes steps from there. If steps are counted, `left` more can be taken.
Otherwise each step has to consume a character, and `left` is at least the number of those left. -/
def explore (greedy counted : Bool) (step : MatchState → List MatchState) :
    Nat → MatchState → Found → Found
  | 0, s, f => f.add s
  | left + 1, s, f =>
    let key := (if counted then left else 0, s.pos)
    if f.visited.contains key then f
    else
      let go (f : Found) := (step s).foldl
        (fun f t => if counted || s.pos < t.pos then explore greedy counted step left t f else f) f
      let f := { f with visited := f.visited.insert key }
      if greedy then (go f).add s else go (f.add s)

/-- The ends of one step or more. A step that consumes nothing is the last one. -/
def someSteps (greedy : Bool) (step : MatchState → List MatchState) (s : MatchState) :
    List MatchState :=
  let found := (step s).foldl
    (fun f t => if s.pos < t.pos then explore greedy false step t.rest.length t f else f.add t) {}
  distinct found.ends.reverse

/-- The ends of `most` steps at most. -/
def fewSteps (greedy : Bool) (step : MatchState → List MatchState) (most : Nat) (s : MatchState) :
    List MatchState :=
  distinct (explore greedy true step most s {}).ends.reverse

/-- The ends of a repetition of steps. -/
def repeatSteps (greedy : Bool) (least : Nat) (most : Option Nat)
    (step : MatchState → List MatchState) (s : MatchState) : List MatchState :=
  match least, most with
  | least, some most =>
    let states := stepTimes step least [s]
    if least < most then stepAll (fewSteps greedy step (most - least)) states else states
  | 0, none =>
    if greedy then merge (someSteps greedy step s) [s] else merge [s] (someSteps greedy step s)
  | least + 1, none => stepAll (someSteps greedy step) (stepTimes step least [s])

/-! ### Matching -/

/-- All places where a match from a place can end, the preferred way first and each place once. -/
def ends : Pattern → MatchState → List MatchState
  | .empty, s => [s]
  | .one set, s =>
    match s.rest with
    | [] => []
    | c :: _ => if set.has c then [s.behind c] else []
  | .edge e, s => if e.holds s then [s] else []
  | .seq p q, s => stepAll (fun t => q.ends t) (p.ends s)
  | .alt p q, s => merge (p.ends s) (q.ends s)
  | .repeated greedy least most (.one set), s => runEnds greedy least most set s
  | .repeated greedy least most p, s => repeatSteps greedy least most (fun t => p.ends t) s
  | .group index p, s => (p.ends s).map (·.note index s.pos)

end Pattern

end HdlIndex
