import HdlIndex.Grammar.Basic
import HdlIndex.Pattern.Matcher
import HdlIndex.Text.Measure

/-! Running a grammar over a text. At each place the rules of the current context are tried in
order and the first match counts; characters that no rule matches are gathered into one token.
A rule that matches nothing, or whose groups do not cover the match piece by piece, breaks the
contract between grammar and scanner, and the scan ends with a violation. -/

namespace HdlIndex

/-- A piece of text with its place and its scopes, outermost first. -/
structure Token where
  text : String
  /-- Byte offset of the first character. -/
  offset : Nat
  scopes : List String
  deriving DecidableEq, Repr, Inhabited

namespace Token

/-- The innermost scope, or nothing. -/
def scope (t : Token) : String := t.scopes.getLastD ""

/-- Byte offset behind the last character. -/
def stop (t : Token) : Nat := t.offset + t.text.utf8ByteSize

def hasScope (t : Token) (scope : String) : Bool := t.scopes.contains scope

/-- How often a scope occurs around the token. -/
def scopeDepth (t : Token) (scope : String) : Nat := t.scopes.count scope

end Token

namespace Grammar

/-- An entered context, with the number of scopes there were before it. -/
structure Frame where
  context : Nat
  scopeBase : Nat
  deriving DecidableEq, Repr

/-- The two stacks, the top first. -/
structure Stacks where
  frames : List Frame
  scopes : List String
  deriving DecidableEq, Repr

/-- The stacks and the pile of snapshots, the top first. -/
structure ScanState where
  current : Stacks
  saved : List Stacks
  deriving DecidableEq, Repr

/-- How a rule broke the contract. -/
inductive ViolationKind where
  | emptyMatch
  | uncoveredMatch
  deriving DecidableEq, Repr

structure Violation where
  kind : ViolationKind
  context : String
  source : String
  offset : Nat
  deriving DecidableEq, Repr

def ViolationKind.message : ViolationKind → String
  | emptyMatch => "grammar pattern matched the empty string"
  | uncoveredMatch => "grammar pattern captures do not tile the match"

/-! ### Stacks -/

/-- Enters a context and its scope. -/
def enter (g : Grammar) (context : Nat) (s : Stacks) : Stacks where
  frames := ⟨context, s.scopes.length⟩ :: s.frames
  scopes := (g.contexts[context]?.bind (·.scope)).toList ++ s.scopes

/-- Leaves the current context and all scopes since it was entered. The first context is never
left. -/
def leave (s : Stacks) : Stacks :=
  match s.frames with
  | top :: next :: frames => ⟨next :: frames, s.scopes.drop (s.scopes.length - top.scopeBase)⟩
  | _ => s

/-- Drops scopes up to the name and the name itself; without it, all of them. -/
def unwind (scopes : List String) (name : String) : List String :=
  (scopes.dropWhile (· != name)).drop 1

def applyAction (g : Grammar) (s : Stacks) : StackAction Nat → Stacks
  | .push context => g.enter context s
  | .pop none => leave s
  | .pop (some context) => g.enter context (leave s)
  | .pushScopes names => { s with scopes := names.reverse ++ s.scopes }
  | .popScopes names => { s with scopes := names.foldl unwind s.scopes }

def applySnapshot (st : ScanState) : SnapshotAction → ScanState
  | .save => { st with saved := st.current :: st.saved }
  | .restore => { st with current := st.saved.headD st.current }
  | .delete => { st with saved := st.saved.drop 1 }

/-- What a match does to the state: first the snapshots, then the stacks. -/
def applyRule (g : Grammar) (st : ScanState) (rule : Rule) : ScanState :=
  let st := match rule.snapshot with
    | none => st
    | some action => applySnapshot st action
  match rule.action with
  | none => st
  | some action => { st with current := g.applyAction st.current action }

/-! ### Tokens of a match -/

/-- The first rule that matches, with the match. -/
def firstMatch : List Rule → List Char → Option (Rule × Match)
  | [], _ => none
  | rule :: rest, text =>
    match rule.pattern.match? text with
    | some m => some (rule, m)
    | none => firstMatch rest text

/-- One token per group that matched something. The groups have to follow each other from the
start of the text to the end of the match. -/
def groupTokens (base : Nat) (text : List Char) (scopes : List String) (m : Match) :
    Nat → List (Nat × Option String) → Option (List Token)
  | pos, [] => if pos = m.stop then some [] else none
  | pos, (group, scope) :: rest =>
    match m.capture? group with
    | none => groupTokens base text scopes m pos rest
    | some c =>
      if c.start = c.stop then groupTokens base text scopes m pos rest
      else if c.start ≠ pos then none
      else
        let token : Token :=
          { text := .ofList ((text.take c.stop).drop c.start)
            offset := base + Text.byteSize (text.take c.start)
            scopes := scopes ++ scope.toList }
        (groupTokens base text scopes m c.stop rest).map (token :: ·)

/-- The tokens of a match: the groups, or the whole match if there are none. -/
def matchTokens (base : Nat) (text : List Char) (scopes : List String) (rule : Rule)
    (m : Match) : Option (List Token) :=
  let outer := scopes ++ (rule.scopes.headD none).toList
  match rule.scopes.tail with
  | [] => some [⟨.ofList ((text.take m.stop).drop m.start), base, outer⟩]
  | groups => groupTokens base text outer m 0 ((List.range' 1 groups.length).zip groups)

/-- The token of characters that no rule matched, if there are any. They stand in reverse. -/
def unmatchedToken (g : Grammar) (scopes : List String) (stop : Nat) (pending : List Char) :
    List Token :=
  if pending.isEmpty then []
  else [⟨.ofList pending.reverse, stop - Text.byteSize pending, scopes ++ [g.invalidScope]⟩]

/-! ### The scan -/

/-- The context that the next rule is taken from. -/
def currentContext (g : Grammar) (s : Stacks) : Option Context :=
  g.contexts[(s.frames.head?.map (·.context)).getD g.main]?

/-- Scans from a byte offset on. `pending` holds the unmatched characters in front, the last one
first, and `out` the tokens found so far. -/
def scanFrom (g : Grammar) (st : ScanState) (offset : Nat) (pending : List Char)
    (out : Array Token) : List Char → Except Violation (Array Token)
  | [] => .ok (out ++ g.unmatchedToken st.current.scopes.reverse offset pending)
  | c :: cs =>
    let scopes := st.current.scopes.reverse
    let context := g.currentContext st.current
    match firstMatch ((context.map (·.rules)).getD []) (c :: cs) with
    | none => g.scanFrom st (offset + c.utf8Size) (c :: pending) out cs
    | some (rule, m) =>
      let violation kind : Violation := ⟨kind, (context.map (·.name)).getD "", rule.source, offset⟩
      if _h : m.stop = 0 then .error (violation .emptyMatch)
      else
        match matchTokens offset (c :: cs) scopes rule m with
        | none => .error (violation .uncoveredMatch)
        | some tokens =>
          g.scanFrom (g.applyRule st rule) (offset + Text.byteSize ((c :: cs).take m.stop)) []
            (out ++ g.unmatchedToken scopes offset pending ++ tokens) ((c :: cs).drop m.stop)
termination_by text => text.length
decreasing_by
  · simp
  · simp only [List.length_drop, List.length_cons]
    omega

/-- The state in which a scan starts. Without given scopes that is the scope of the first
context. -/
def startState (g : Grammar) (scopes : Option (List String)) : ScanState where
  current :=
    { frames := [⟨g.main, 0⟩]
      scopes := (scopes.getD (g.contexts[g.main]?.bind (·.scope)).toList).reverse }
  saved := []

/-- Scans a whole text. -/
def scan (g : Grammar) (text : String) (scopes : Option (List String)) :
    Except Violation (List Token) :=
  (g.scanFrom (g.startState scopes) 0 [] #[] text.toList).map (·.toList)

/-- The tokens of a text; none if a rule breaks the contract. -/
def tokenize (g : Grammar) (text : String) (scopes : Option (List String) := none) : List Token :=
  match g.scan text scopes with
  | .ok tokens => tokens
  | .error _ => []

end Grammar

end HdlIndex
