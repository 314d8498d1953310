import HdlIndex.Diagnostic
import HdlIndex.Macro.Table
import HdlIndex.Options
import HdlIndex.Position
import HdlIndex.Source

/-! Expansion of invocations: arguments are split off and expanded, parameters replaced, escapes
resolved, and the result is expanded again. Conditionals in a body are decided by the
definitions in force at the place of the invocation. How deep substitutions may nest is the
measure of the recursion; how many there may be is counted along the way. -/

namespace HdlIndex

namespace Expansion

/-- What an expansion reads. -/
structure Env where
  macros : MacroTable
  sources : Sources
  limits : Limits

/-- What an expansion counts and reports. -/
structure Work where
  /-- Substitutions made. -/
  expansions : Nat := 0
  /-- Whether a limit was reported; one report is enough for an invocation. -/
  reported : Bool := false
  diagnostics : List Diagnostic := []
  deriving DecidableEq, Repr, Inhabited

def Work.report (w : Work) (problem : Problem) (t : Lexeme) : Work :=
  { w with diagnostics := w.diagnostics ++ [.located problem t.file t.start] }

/-- Expands the invocations in a list of tokens. -/
abbrev Expander := List Lexeme → Work → List Lexeme × Work

/-! ### Arguments -/

/-- Splits tokens behind an opening parenthesis at the commas of the outermost level, up to the
closing one. `depth` counts inner brackets and `current` holds the argument so far, in reverse. -/
def splitArguments (depth : Nat) (current : List Lexeme) :
    List Lexeme → Option (List (List Lexeme) × List Lexeme)
  | [] => none
  | t :: rest =>
    let argument (_ : Unit) := trimBoth Lexeme.isTrivia current.reverse
    match t.kind with
    | .opening => splitArguments (depth + 1) (t :: current) rest
    | .closing =>
      match depth with
      | 0 => some ([argument ()], rest)
      | depth + 1 => splitArguments depth (t :: current) rest
    | .comma =>
      if depth = 0 then
        (splitArguments 0 [] rest).map fun (arguments, r) => (argument () :: arguments, r)
      else splitArguments depth (t :: current) rest
    | _ => splitArguments depth (t :: current) rest

/-- The arguments of a list that follows, perhaps after blanks and comments, and the tokens
behind it. -/
def arguments? (tokens : List Lexeme) : Option (List (List Lexeme) × List Lexeme) :=
  match tokens.dropWhile Lexeme.isTrivia with
  | t :: rest => if t.text == "(" then splitArguments 0 [] rest else none
  | [] => none

/-! ### Bodies -/

/-- A token of a definition at the place of the definition, or at that of the invocation if the
definition comes from outside. -/
def bodyLexeme (d : MacroDef) (call : Lexeme) (t : BodyToken) : Lexeme :=
  match d.origin with
  | some file => ⟨t.text, t.kind, t.start, t.stop, file⟩
  | none => call.withText t.text t.kind

/-- The values of the parameters from the first to the last. `index` is the place of the first
parameter and `given` the number of arguments of the invocation. -/
def bindParameters (inner : Expander) (d : MacroDef) (call : Lexeme) (given : Nat) :
    Nat → List Parameter → List (List Lexeme) → Work → List (String × List Lexeme) × Work
  | _, [], _, w => ([], w)
  | index, p :: params, arguments, w =>
    let (value, w) := match arguments.headD [], p.default with
      | [], some tokens => (tokens.map (bodyLexeme d call), w)
      | [], none =>
        ([], if given ≤ index then w.report (.missingArgument p.name d.name) call else w)
      | argument, _ => inner argument w
    let (values, w) := bindParameters inner d call given (index + 1) params arguments.tail w
    ((p.name, value) :: values, w)

/-- The value of a parameter; of two parameters with one name the last counts. -/
def valueOf? (values : List (String × List Lexeme)) (name : String) : Option (List Lexeme) :=
  (values.reverse.find? (·.1 == name)).map (·.2)

/-- The body of a definition with the parameters replaced. -/
def replaceParameters (d : MacroDef) (call : Lexeme) (values : List (String × List Lexeme)) :
    List Lexeme :=
  d.body.flatMap fun t =>
    match t.kind, valueOf? values t.text with
    | .identifier, some value => value
    | _, _ => [bodyLexeme d call t]

/-- The body with arguments in place of parameters; none if there are too many arguments. One
empty argument is no argument for a definition without parameters. -/
def substitute (inner : Expander) (d : MacroDef) (arguments : List (List Lexeme)) (call : Lexeme)
    (w : Work) : Option (List Lexeme) × Work :=
  let params := d.params.getD []
  let arguments := if params.isEmpty && arguments == [[]] then [] else arguments
  if params.length < arguments.length then
    (none, w.report (.tooManyArguments d.name params.length arguments.length) call)
  else
    let (values, w) := bindParameters inner d call arguments.length 0 params arguments w
    (some (replaceParameters d call values), w)

/-! ### Escapes -/

/-- Joins two tokens into one. It reaches to the end of the second if that lies in the same
file and not in front. -/
def paste (a b : Lexeme) : Lexeme :=
  let text := a.text ++ b.text
  { text
    kind := if text.toList.head? == some '`' then .directive else .identifier
    start := a.start
    stop := if b.file = a.file ∧ a.start ≤ b.stop then b.stop else a.stop
    file := a.file }

/-- Resolves quotes, line continuations and pastings. `done` holds the tokens in front, the last
one first. -/
def resolveEscapesFrom (done : List Lexeme) : List Lexeme → List Lexeme
  | [] => done.reverse
  | t :: rest =>
    match t.kind with
    | .quote => resolveEscapesFrom (t.withText "\"" .operator :: done) rest
    | .escapedQuote => resolveEscapesFrom (t.withText "\\\"" .operator :: done) rest
    | .lineContinuation => resolveEscapesFrom (t.withText " " .blank :: done) rest
    | .paste =>
      match done, rest with
      | a :: done, b :: rest => resolveEscapesFrom (paste a b :: done) rest
      | done, [] => done.reverse
      | [], b :: rest => resolveEscapesFrom [b] rest
    | _ => resolveEscapesFrom (t :: done) rest

def resolveEscapes (tokens : List Lexeme) : List Lexeme := resolveEscapesFrom [] tokens

/-! ### Conditionals in a body -/

/-- An open conditional. -/
structure Branch where
  /-- The directive that opened it. -/
  opener : Lexeme
  /-- Whether one of its branches was taken. -/
  taken : Bool
  /-- Whether the current branch is taken. -/
  active : Bool
  deriving DecidableEq, Repr

/-- Open conditionals, the innermost first. -/
abbrev Branches := List Branch

def Branches.active (branches : Branches) : Bool := branches.all (·.active)

/-- The name behind a conditional directive, if there is one, and the tokens behind it. -/
def bodyOperand (tokens : List Lexeme) : Option String × List Lexeme :=
  match tokens.dropWhile Lexeme.isTrivia with
  | t :: rest => if t.kind = .identifier then (some t.text, rest) else (none, t :: rest)
  | [] => (none, [])

theorem length_bodyOperand_le (tokens : List Lexeme) :
    (bodyOperand tokens).2.length ≤ tokens.length := by
  have h : (tokens.dropWhile Lexeme.isTrivia).length ≤ tokens.length :=
    (List.dropWhile_suffix _).length_le
  unfold bodyOperand
  split
  · next t rest ht =>
    rw [ht] at h
    split
    · exact Nat.le_of_succ_le h
    · exact h
  · simp

/-- The branches behind a conditional directive; none if it has no open conditional to belong
to. `defined` says whether it names something defined. -/
def Branches.step (branches : Branches) (t : Lexeme) (defined : Bool) : Option Branches :=
  match t.conditional, branches with
  | .ifdef, _ => some (⟨t, defined, defined⟩ :: branches)
  | .ifndef, _ => some (⟨t, !defined, !defined⟩ :: branches)
  | .elsif, b :: outer =>
    let active := !b.taken && defined
    some ({ b with taken := b.taken || active, active } :: outer)
  | .otherwise, b :: outer => some ({ b with taken := true, active := !b.taken } :: outer)
  | .endif, _ :: outer => some outer
  | _, [] => none

/-- Whether a conditional directive names something defined, and the tokens behind it. -/
def bodyTest (macros : MacroTable) (t : Lexeme) (rest : List Lexeme) : Bool × List Lexeme :=
  if t.conditional.takesName then
    let (operand, behind) := bodyOperand rest
    (operand.any macros.contains, behind)
  else (false, rest)

theorem length_bodyTest_le (macros : MacroTable) (t : Lexeme) (rest : List Lexeme) :
    (bodyTest macros t rest).2.length ≤ rest.length := by
  unfold bodyTest
  split
  · exact length_bodyOperand_le rest
  · exact Nat.le_refl _

/-! ### Invocations -/

/-- The line of a token, counted from one. -/
def lineOf (sources : Sources) (t : Lexeme) : Nat :=
  match sources.get? t.file with
  | some text => (Text.position text t.start).line.toNat + 1
  | none => 0

/-- What an invocation asks for. -/
inductive Call where
  /-- A token that is known without a definition. -/
  | literal (t : Lexeme)
  | problem (p : Problem)
  | definition (d : MacroDef) (arguments : List (List Lexeme))

/-- Looks up an invocation and splits off its arguments. The second result is what is left of
the tokens behind the name. -/
def readCall (env : Env) (call : Lexeme) (rest : List Lexeme) : Call × List Lexeme :=
  let name := call.name
  if name = "__FILE__" then (.literal (call.withText ("\"" ++ call.file ++ "\"") .string), rest)
  else if name = "__LINE__" then
    (.literal (call.withText (lineOf env.sources call).repr .number), rest)
  else
    match env.macros.get? name with
    | none =>
      (.problem (if FileDirective.ofName name = .invocation then .undefined name
        else .directiveInBody name), rest)
    | some d =>
      if d.isFunctionLike then
        match arguments? rest with
        | none => (.problem (.missingArguments name), rest)
        | some (arguments, behind) => (.definition d arguments, behind)
      else (.definition d [], rest)

theorem length_splitArguments_le {depth : Nat} {current tokens : List Lexeme}
    {found : List (List Lexeme) × List Lexeme}
    (h : splitArguments depth current tokens = some found) : found.2.length ≤ tokens.length := by
  induction tokens generalizing depth current found with
  | nil => simp [splitArguments] at h
  | cons t rest ih =>
    simp only [splitArguments] at h
    have weaken {n : Nat} : n ≤ rest.length → n ≤ (t :: rest).length := by
      simp only [List.length_cons]
      omega
    split at h
    · exact weaken (ih h)
    · split at h
      · cases h
        simp
      · exact weaken (ih h)
    · split at h
      · obtain ⟨inner, hi, rfl⟩ := Option.map_eq_some_iff.1 h
        exact weaken (show inner.2.length ≤ rest.length from ih hi)
      · exact weaken (ih h)
    · exact weaken (ih h)

theorem length_arguments?_le {tokens : List Lexeme} {found : List (List Lexeme) × List Lexeme}
    (h : arguments? tokens = some found) : found.2.length ≤ tokens.length := by
  have hd : (tokens.dropWhile Lexeme.isTrivia).length ≤ tokens.length :=
    (List.dropWhile_suffix _).length_le
  unfold arguments? at h
  split at h
  · rename_i t rest ht
    split at h
    · have := length_splitArguments_le h
      simp only [ht, List.length_cons] at hd
      omega
    · simp at h
  · simp at h

/-- No tokens are added behind an invocation. -/
theorem length_readCall_le (env : Env) (call : Lexeme) (rest : List Lexeme) :
    (readCall env call rest).2.length ≤ rest.length := by
  simp only [readCall]
  split
  · exact Nat.le_refl _
  · split
    · exact Nat.le_refl _
    · split
      · exact Nat.le_refl _
      · split
        · split
          · exact Nat.le_refl _
          · exact length_arguments?_le ‹_›
        · exact Nat.le_refl _

/-- The replacement of a definition with the given arguments. Without `inner` the nesting has
reached its limit. -/
def expandDefinition (env : Env) (inner : Option Expander) (d : MacroDef) (call : Lexeme)
    (arguments : List (List Lexeme)) (w : Work) : List Lexeme × Work :=
  let refuse (problem : Problem) : List Lexeme × Work :=
    ([], if w.reported then w else { w.report problem call with reported := true })
  match inner with
  | none => refuse (.expansionDepth call.name env.limits.expansionDepth)
  | some inner =>
    if env.limits.expansions ≤ w.expansions then
      refuse (.expansionCount call.name env.limits.expansions)
    else
      match substitute inner d arguments call { w with expansions := w.expansions + 1 } with
      | (none, w) => ([], w)
      | (some body, w) => inner (resolveEscapes body) w

/-- The replacement of an invocation. -/
def expandCall (env : Env) (inner : Option Expander) (call : Lexeme) (c : Call) (w : Work) :
    List Lexeme × Work :=
  match c with
  | .literal t => ([t], w)
  | .problem p => ([], w.report p call)
  | .definition d arguments => expandDefinition env inner d call arguments w

/-- Expands tokens one after another, with `inner` for what stands inside invocations. Tokens in
branches that are not taken are dropped. -/
def expandFrom (env : Env) (inner : Option Expander) (branches : Branches) (w : Work) :
    List Lexeme → List Lexeme × Work
  | [] =>
    match branches.getLast? with
    | some b => ([], w.report .openBodyConditional b.opener)
    | none => ([], w)
  | t :: rest =>
    if t.kind = .conditional then
      let test := bodyTest env.macros t rest
      match branches.step t test.1 with
      | some branches => expandFrom env inner branches w test.2
      | none => expandFrom env inner branches (w.report (.strayBodyConditional t.text) t) test.2
    else if !branches.active then expandFrom env inner branches w rest
    else if t.kind = .directive then
      let call := readCall env t rest
      let (expanded, w) := expandCall env inner t call.1 w
      let (tokens, w) := expandFrom env inner branches w call.2
      (expanded ++ tokens, w)
    else
      let (tokens, w) := expandFrom env inner branches w rest
      (t :: tokens, w)
termination_by tokens => tokens.length
decreasing_by
  · exact Nat.lt_succ_of_le (length_bodyTest_le env.macros t rest)
  · exact Nat.lt_succ_of_le (length_bodyTest_le env.macros t rest)
  · simp
  · exact Nat.lt_succ_of_le (length_readCall_le env t rest)
  · simp

/-- Expands all invocations in a list of tokens, nested up to `depth` levels. -/
def expand (env : Env) : Nat → Expander
  | 0 => fun tokens w => expandFrom env none [] w tokens
  | depth + 1 => fun tokens w => expandFrom env (some (expand env depth)) [] w tokens

/-- Expands an invocation in a source file. The results are its replacement, what is left of the
tokens behind its name, and the work done. -/
def expandInvocation (env : Env) (call : Lexeme) (rest : List Lexeme) :
    List Lexeme × List Lexeme × Work :=
  let inner := match env.limits.expansionDepth with
    | 0 => none
    | depth + 1 => some (expand env depth)
  let (c, behind) := readCall env call rest
  let (tokens, w) := expandCall env inner call c {}
  (tokens, behind, w)

end Expansion

end HdlIndex
