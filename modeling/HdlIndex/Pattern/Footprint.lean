import HdlIndex.Pattern.Basic

/-! The memory that a pattern may take. A pattern is refused if the automaton that reads its matches
byte by byte would be too large, from the front to the back or from the back to the front. A state
takes a fixed number of bytes, and each choice and each range of bytes that it branches on takes
some more. Counted repetitions count as that many copies. -/

namespace HdlIndex

/-- The bytes that an automaton takes in each direction. -/
structure Footprint where
  forward : Nat
  backward : Nat
  deriving DecidableEq, Repr

namespace Footprint

/-- The same number of bytes in both directions. -/
def both (n : Nat) : Footprint := ⟨n, n⟩

instance : Add Footprint := ⟨fun a b => ⟨a.forward + b.forward, a.backward + b.backward⟩⟩

def scale (n : Nat) (a : Footprint) : Footprint := ⟨n * a.forward, n * a.backward⟩

/-- The bytes of a state. -/
def state : Nat := 32

/-- The bytes of a state that chooses between `n` others. -/
def chooser (n : Nat) : Nat := state + 4 * n

/-- The bytes of a state that branches on `n` ranges of bytes. -/
def brancher (n : Nat) : Nat := state + 8 * n

/-- The most that a pattern may take. -/
def limit : Nat := 10 * 1024 * 1024

end Footprint

/-! ### Ranges of code points as ranges of bytes -/

/-- A range for each byte of an encoded character. -/
abbrev ByteRanges := List (Nat × Nat)

/-- The encodings of the code points in a range as ranges for the first byte and those behind it.
The code points have `more` bytes behind the first one, which has the mark `mark`. -/
def byteRanges (mark : Nat) : Nat → Nat → Nat → List ByteRanges
  | 0, a, b => [[(mark + a, mark + b)]]
  | more + 1, a, b =>
    let unit := Nat.pow 64 (more + 1)
    let tail (a b : Nat) := byteRanges 0x80 more a b
    let first (q : Nat) (rests : List ByteRanges) := rests.map ((mark + q, mark + q) :: ·)
    let full : ByteRanges := List.replicate (more + 1) (0x80, 0xbf)
    let (qa, ra) := (a / unit, a % unit)
    let (qb, rb) := (b / unit, b % unit)
    if qa = qb then
      if ra = 0 ∧ rb = unit - 1 then [(mark + qa, mark + qa) :: full]
      else first qa (tail ra rb)
    else
      let low := if ra = 0 then [] else first qa (tail ra (unit - 1))
      let high := if rb = unit - 1 then [] else first qb (tail 0 rb)
      let start := if ra = 0 then qa else qa + 1
      let stop := if rb = unit - 1 then qb + 1 else qb
      let middle := if start < stop then [(mark + start, mark + stop - 1) :: full] else []
      low ++ middle ++ high

/-- Code points by the number of bytes behind the first one of their encoding, with its mark. -/
def encodings : List (Nat × Nat × Nat × Nat) :=
  [(0, 0x7f, 0, 0), (0x80, 0x7ff, 1, 0xc0), (0x800, 0xd7ff, 2, 0xe0), (0xe000, 0xffff, 2, 0xe0),
   (0x10000, 0x10ffff, 3, 0xf0)]

/-- The encodings of code points, each range in ascending order. -/
def CodeRanges.encoded (rs : CodeRanges) : List ByteRanges :=
  rs.flatMap fun (a, b) => encodings.flatMap fun (first, last, more, mark) =>
    if max a first ≤ min b last then byteRanges mark more (max a first) (min b last) else []

/-! ### Automata of encodings -/

/-- What can follow each range of first bytes. -/
def continuations (seqs : List ByteRanges) : List (List ByteRanges) :=
  (seqs.splitBy fun a b => a.head? == b.head?).map fun group => group.map List.tail

/-- All that can follow the first bytes, up to `depth` of them; the whole included, the ends of
encodings not. -/
def residues : Nat → List ByteRanges → List (List ByteRanges)
  | 0, _ => []
  | depth + 1, seqs =>
    if seqs.all (·.isEmpty) then []
    else seqs :: (continuations seqs).flatMap (residues depth)

/-- The automaton of a set. Forwards there is one state for each set of continuations; backwards
encodings share the states of the first bytes that they have in common. -/
def CharSet.footprint (set : CharSet) : Footprint :=
  match set.ranges with
  | [] => .both Footprint.state
  | rs =>
    let seqs := CodeRanges.encoded rs
    match seqs with
    | [seq] =>
      if seq.all fun r => r.1 == r.2 then .both (seq.length * Footprint.state) else several rs seqs
    | seqs => several rs seqs
where
  several (rs : CodeRanges) (seqs : List ByteRanges) : Footprint :=
    if rs.all (·.2 < 0x80) then .both (Footprint.state + Footprint.brancher rs.length)
    else
      let nodes := residues 4 seqs
      let branches (node : List ByteRanges) := (continuations node).length
      { forward := Footprint.state +
          (nodes.eraseDups.map fun node => Footprint.brancher (branches node)).foldr (· + ·) 0
        backward := Footprint.chooser seqs.length + Footprint.state +
          Footprint.state * (nodes.map branches).foldr (· + ·) 0 }

/-! ### Automata of words -/

/-- The states that tell words apart by their first byte and go on with the bytes behind it. Words
that have a byte in common share its state unless a word ends there in between; then those in front
of it and those behind it are told apart in two states, and the end is a choice between them. -/
def wordStates : Nat → List (List Nat) → Nat
  | 0, _ => 0
  | depth + 1, words =>
    let runs := words.splitBy fun a b => a.isEmpty == b.isEmpty
    let starts := runs.filter fun run => run.any (!·.isEmpty)
    -- A word that ends where no other has gone on counts once.
    let ends := match runs with
      | ([] :: _) :: rest => 1 + (rest.flatten.filter List.isEmpty).length
      | runs => (runs.flatten.filter List.isEmpty).length
    let branch (run : List (List Nat)) : Nat :=
      let bytes := (run.filterMap List.head?).eraseDups
      let tails (byte : Nat) := (run.filter (·.head? == some byte)).map List.tail
      (if bytes.length = 1 then Footprint.state else Footprint.brancher bytes.length) +
        (bytes.map fun byte =>
          if (tails byte).all List.isEmpty then 0
          else wordStates depth (tails byte)).foldr (· + ·) 0
    Footprint.chooser (starts.length + ends) + (starts.map branch).foldr (· + ·) 0

/-- The automaton of a choice between words. -/
def wordsFootprint (words : List (List Nat)) : Nat :=
  Footprint.state + wordStates ((words.map List.length).foldl max 0) words

namespace Pattern

/-- The bytes of a pattern that is a row of literals. -/
def literal? (p : Pattern) : Option (List Nat) :=
  match p.parts with
  | [] => none
  | parts => (parts.mapM bytes?).map List.flatten
where
  bytes? (p : Pattern) : Option (List Nat) :=
    if p.isLiteral then p.set?.map fun set => set.ranges.encoded.flatten.map (·.1) else none

/-- The automaton of a pattern without its start and its end. Inside a choice, a choice is part of
it and has no states of its own. -/
def footprint (inChoice : Bool) : Pattern → Footprint
  | empty | edge _ => .both Footprint.state
  | one set => set.footprint
  | seq p q => p.footprint false + q.footprint false
  | alt p q =>
    let parts := p.footprint true + q.footprint true
    let choices := p.choices ++ q.choices
    if inChoice then parts
    else
      match choices.mapM literal? with
      | some words => ⟨wordsFootprint words, wordsFootprint (words.map List.reverse)⟩
      | none => parts + .both (Footprint.chooser choices.length + Footprint.state)
  | repeated _ least most p =>
    let f := p.footprint false
    let fork := Footprint.both (Footprint.chooser 2)
    match least, most with
    | 0, none => if p.consumes then f + fork else f + fork + fork + .both Footprint.state
    | least, none => f.scale least + fork
    | 0, some 1 => f + fork + .both Footprint.state
    | 0, some most => (f + fork).scale most + .both (2 * Footprint.state)
    | least, some most =>
      f.scale least +
        if least < most then (f + fork).scale (most - least) + .both Footprint.state else .both 0
  | group _ p => p.footprint false + ⟨2 * Footprint.state, 0⟩

/-- A bound for the automaton of a pattern in either direction that is easier to find. -/
def roughFootprint : Pattern → Nat
  | empty | edge _ => Footprint.state
  | one set => 4 * Footprint.state + 4096 * set.rangeBound
  | seq p q => p.roughFootprint + q.roughFootprint
  | alt p q => p.roughFootprint + q.roughFootprint + 4 * Footprint.state
  | repeated _ least most p =>
    (max 1 (most.getD least)) * (p.roughFootprint + 4 * Footprint.state) + 4 * Footprint.state
  | group _ p => p.roughFootprint + 2 * Footprint.state

/-- The states around a pattern: forwards its start, its extent and its end; backwards the loop
that looks for its end, and its start. -/
def frame : Footprint where
  forward := 4 * Footprint.state
  backward := Footprint.chooser 2 + Footprint.brancher 1 + 2 * Footprint.state

/-- Whether a pattern may be used. -/
def fits (p : Pattern) : Bool :=
  p.roughFootprint + 8 * Footprint.state ≤ Footprint.limit ||
    let f := p.footprint false + frame
    f.forward ≤ Footprint.limit && f.backward ≤ Footprint.limit

end Pattern

end HdlIndex
