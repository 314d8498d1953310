import HdlIndex.Macro.Expansion
import HdlIndex.Text.Class

/-! The items of a source file: plain tokens, directives and invocations. Reading an item takes
tokens from the front and says what the item does, with the problems found in it; nothing is
done yet. -/

namespace HdlIndex

/-- What an item of a file does. -/
inductive Effect where
  | nothing
  /-- A token goes to the output as it is. -/
  | emit (t : Lexeme)
  /-- The replacement of an invocation goes to the output. -/
  | expansion (tokens : List Lexeme)
  /-- The open conditionals become these, the innermost first: whether a branch was taken. -/
  | conditions (taken : List Bool)
  | define (d : MacroDef)
  | undef (name : String)
  | undefineAll
  /-- A file is included; the offset is that of the directive. -/
  | inclusion (spec : String) (offset : Nat)

/-- An item: its problems, its effect, and the tokens behind it. -/
structure Item where
  diagnostics : List Diagnostic := []
  effect : Effect := .nothing
  rest : List Lexeme

namespace Item

open Expansion (Env)

/-! ### Parts of a line -/

def skipInline (tokens : List Lexeme) : List Lexeme := tokens.dropWhile Lexeme.isInline

/-- Skips to what ends the line. -/
def skipLine (tokens : List Lexeme) : List Lexeme := tokens.dropWhile fun t => !t.endsLine

/-- The name behind a directive, if there is one, and the tokens behind it. -/
def operand (tokens : List Lexeme) : Option String × List Lexeme :=
  match skipInline tokens with
  | t :: rest => if t.kind = .identifier then (some t.text, rest) else (none, t :: rest)
  | [] => (none, [])

/-! ### Conditionals -/

/-- Skips a branch that is not taken, up to the directive that ends it. `nested` counts the
conditionals opened inside. -/
def skipBranch (nested : Nat) : List Lexeme → List Lexeme
  | [] => []
  | t :: rest =>
    if t.kind = .conditional then
      match t.conditional, nested with
      | .ifdef, _ | .ifndef, _ => skipBranch (nested + 1) rest
      | .endif, 0 | .elsif, 0 | .otherwise, 0 => t :: rest
      | .endif, nested + 1 => skipBranch nested rest
      | _, _ => skipBranch nested rest
    else skipBranch nested rest

/-- Whether a conditional directive names something defined, the problem if it names nothing,
and the tokens behind the name. -/
def test (macros : MacroTable) (t : Lexeme) (rest : List Lexeme) :
    Bool × List Diagnostic × List Lexeme :=
  match operand rest with
  | (some name, behind) => (macros.contains name, [], behind)
  | (none, behind) => (false, [.located (.missingName t.text) t.file t.start], behind)

/-- A conditional directive, with the open conditionals in front of it. -/
def conditional (macros : MacroTable) (conditions : List Bool) (t : Lexeme)
    (rest : List Lexeme) : Item :=
  let stray : Diagnostic := .located (.strayConditional t.text) t.file t.start
  let opening (taken : Bool) (diagnostics : List Diagnostic) (behind : List Lexeme) : Item :=
    ⟨diagnostics, .conditions (taken :: conditions), if taken then behind else skipBranch 0 behind⟩
  match t.conditional with
  | .ifdef =>
    let (defined, diagnostics, behind) := test macros t rest
    opening defined diagnostics behind
  | .ifndef =>
    let (defined, diagnostics, behind) := test macros t rest
    opening (!defined) diagnostics behind
  | .elsif =>
    let (defined, diagnostics, behind) := test macros t rest
    match conditions with
    | [] => ⟨diagnostics ++ [stray], .nothing, behind⟩
    | taken :: outer =>
      if !taken && defined then ⟨diagnostics, .conditions (true :: outer), behind⟩
      else ⟨diagnostics, .nothing, skipBranch 0 behind⟩
  | .otherwise =>
    match conditions with
    | [] => ⟨[stray], .nothing, rest⟩
    | true :: _ => ⟨[], .nothing, skipBranch 0 rest⟩
    | false :: outer => ⟨[], .conditions (true :: outer), rest⟩
  | .endif =>
    match conditions with
    | [] => ⟨[stray], .nothing, rest⟩
    | _ :: outer => ⟨[], .conditions outer, rest⟩

/-! ### Definitions -/

/-- The tokens of a default up to the comma, closing bracket or line end that ends it. `depth`
counts inner brackets. -/
def defaultTokens (depth : Nat) : List Lexeme → List Lexeme × List Lexeme
  | [] => ([], [])
  | t :: rest =>
    let keep (depth : Nat) :=
      let (tokens, behind) := defaultTokens depth rest
      (t :: tokens, behind)
    if t.endsLine then ([], t :: rest)
    else
      match t.kind, depth with
      | .comma, 0 | .closing, 0 => ([], t :: rest)
      | .opening, depth => keep (depth + 1)
      | .closing, depth + 1 => keep depth
      | _, depth => keep depth

theorem length_defaultTokens_le (depth : Nat) (tokens : List Lexeme) :
    (defaultTokens depth tokens).2.length ≤ tokens.length := by
  induction tokens generalizing depth with
  | nil => simp [defaultTokens]
  | cons t rest ih =>
    simp only [defaultTokens]
    split
    · simp
    · split
      · exact Nat.le_refl _
      · exact Nat.le_refl _
      · exact Nat.le_succ_of_le (ih _)
      · exact Nat.le_succ_of_le (ih _)
      · exact Nat.le_succ_of_le (ih _)

/-- A default from its equals sign on. The sign may be glued to an operator behind it. -/
def parameterDefault (sign : Lexeme) (tokens : List Lexeme) : List BodyToken :=
  let glued : List BodyToken :=
    if sign.text.length > 1 then
      [⟨Text.tail sign.text, .operator, sign.start + 1, sign.stop⟩]
    else []
  let written := (tokens.filter (·.kind != .blockComment)).map Lexeme.toBody
  trimBoth (·.kind.isTrivia) (glued ++ written)

/-- The parameters behind the opening parenthesis, problems among them, and the tokens behind the
closing one. -/
def parameters : List Lexeme → List Parameter × List Diagnostic × List Lexeme
  | [] => ([], [], [])
  | t :: rest =>
    match t.kind with
    | .blank | .blockComment | .lineContinuation | .comma => parameters rest
    | .closing => ([], [], rest)
    | .newline | .lineComment => ([], [], t :: rest)
    | .identifier =>
      match _h : skipInline rest with
      | sign :: more =>
        if sign.text.toList.head? = some '=' then
          let written := defaultTokens 0 more
          let (params, diagnostics, behind) := parameters written.2
          (⟨t.text, some (parameterDefault sign written.1)⟩ :: params, diagnostics, behind)
        else
          let (params, diagnostics, behind) := parameters (sign :: more)
          (⟨t.text, none⟩ :: params, diagnostics, behind)
      | [] => ([⟨t.text, none⟩], [], [])
    | _ =>
      let (params, diagnostics, behind) := parameters rest
      (params, .located (.parameterSyntax t.text) t.file t.start :: diagnostics, behind)
termination_by tokens => tokens.length
decreasing_by
  all_goals
    try have hs : (skipInline rest).length ≤ rest.length := (List.dropWhile_suffix _).length_le
    try have hd := length_defaultTokens_le 0 more
    simp_all only [List.length_cons]
    omega

/-- The end of the last token between two places of a token list. -/
def endBetween (tokens behind : List Lexeme) : Nat :=
  ((tokens.take (tokens.length - behind.length)).getLast?.map (·.stop)).getD 0

/-- A definition. Parameters follow the name without a blank; the body goes to the end of the
line. -/
def define (t : Lexeme) (rest : List Lexeme) : Item :=
  match skipInline rest with
  | [] => ⟨[.located (.missingName t.text) t.file t.start], .nothing, []⟩
  | name :: behind =>
    if name.kind ≠ .identifier then
      ⟨[.located (.missingName t.text) t.file t.start], .nothing, skipLine (name :: behind)⟩
    else
      let (params, diagnostics, tail) := match behind with
        | bracket :: more =>
          if bracket.text = "(" then
            let (params, diagnostics, tail) := parameters more
            (some params, diagnostics, tail)
          else (none, [], bracket :: more)
        | [] => (none, [], [])
      let written := (tail.takeWhile fun t => !t.endsLine).filter (·.kind != .blockComment)
      let body := trimBoth (·.kind.isTrivia) (written.map Lexeme.toBody)
      let headEnd := endBetween (name :: behind) tail
      let stop := (body.getLast?.map (max headEnd ·.stop)).getD headEnd
      let d : MacroDef :=
        ⟨name.text, params, body, some t.file, (t.start, stop), (name.start, name.stop)⟩
      ⟨diagnostics, .define d, skipLine tail⟩

/-! ### Includes -/

/-- A text without the quotes around it, if there are two. -/
def unquote (text : String) : String :=
  match text.toList with
  | '"' :: rest =>
    if rest.getLast? = some '"' then .ofList rest.dropLast else text
  | _ => text

/-- The text between angle brackets, the first of which starts the first token. -/
def angleSpec (before : List Char) : List Lexeme → Option String × List Lexeme
  | [] => (none, [])
  | t :: rest =>
    if t.endsLine then (none, t :: rest)
    else
      let seen := before ++ t.text.toList
      let inside := seen.drop 1
      if inside.contains '>' then
        (some (.ofList (Text.trimBlank (inside.takeWhile (· != '>')))), rest)
      else angleSpec seen rest

/-- The file that an expansion names, in quotes or angle brackets. -/
def expandedSpec (tokens : List Lexeme) : Option String :=
  let text := String.join ((tokens.filter (!·.isTrivia)).map (·.text))
  match text.toList with
  | '"' :: _ => some (unquote text)
  | '<' :: rest => if rest.getLast? = some '>' then some (.ofList rest.dropLast) else none
  | _ => none

/-- The file that an include names, problems in the naming, and the tokens behind it. -/
def includeSpec (env : Env) : List Lexeme → Option String × List Diagnostic × List Lexeme
  | [] => (none, [], [])
  | s :: rest =>
    if s.kind = .string then (some (unquote s.text), [], rest)
    else if s.text.toList.head? = some '<' then
      let (spec, behind) := angleSpec [] (s :: rest)
      (spec, [], behind)
    else if s.kind = .directive then
      let (tokens, behind, work) := Expansion.expandInvocation env s rest
      (expandedSpec tokens, work.diagnostics, behind)
    else (none, [], s :: rest)

def inclusion (env : Env) (t : Lexeme) (rest : List Lexeme) : Item :=
  match includeSpec env (skipInline rest) with
  | (some spec, diagnostics, behind) => ⟨diagnostics, .inclusion spec t.start, behind⟩
  | (none, diagnostics, behind) =>
    ⟨diagnostics ++ [.located .malformedInclude t.file t.start], .nothing, skipLine behind⟩

/-! ### All items -/

/-- A directive or an invocation. -/
def directive (env : Env) (t : Lexeme) (rest : List Lexeme) : Item :=
  match FileDirective.ofName t.name with
  | .define => define t rest
  | .undef =>
    match operand rest with
    | (some name, behind) => ⟨[], .undef name, behind⟩
    | (none, behind) => ⟨[.located (.missingName t.text) t.file t.start], .nothing, behind⟩
  | .undefineAll => ⟨[], .undefineAll, rest⟩
  | .inclusion => inclusion env t rest
  | .alone => ⟨[], .nothing, rest⟩
  | .wholeLine => ⟨[], .nothing, skipLine rest⟩
  | .withString =>
    match skipInline rest with
    | s :: more => ⟨[], .nothing, if s.kind = .string then more else s :: more⟩
    | [] => ⟨[], .nothing, []⟩
  | .withName => ⟨[], .nothing, (operand rest).2⟩
  | .invocation =>
    let (tokens, behind, work) := Expansion.expandInvocation env t rest
    ⟨work.diagnostics, .expansion tokens, behind⟩

/-- Reads the item that starts with the token `t`. -/
def read (env : Env) (conditions : List Bool) (t : Lexeme) (rest : List Lexeme) : Item :=
  match t.kind with
  | .conditional => conditional env.macros conditions t rest
  | .directive => directive env t rest
  | _ => ⟨[], .emit t, rest⟩

/-! ### Items take tokens from the front -/

theorem length_skipInline_le (tokens : List Lexeme) :
    (skipInline tokens).length ≤ tokens.length := (List.dropWhile_suffix _).length_le

theorem length_skipLine_le (tokens : List Lexeme) :
    (skipLine tokens).length ≤ tokens.length := (List.dropWhile_suffix _).length_le

theorem length_operand_le (tokens : List Lexeme) : (operand tokens).2.length ≤ tokens.length := by
  have h := length_skipInline_le tokens
  unfold operand
  split
  · rename_i t rest ht
    rw [ht] at h
    split
    · exact Nat.le_of_succ_le h
    · exact h
  · simp

theorem length_skipBranch_le (nested : Nat) (tokens : List Lexeme) :
    (skipBranch nested tokens).length ≤ tokens.length := by
  induction tokens generalizing nested with
  | nil => simp [skipBranch]
  | cons t rest ih =>
    simp only [skipBranch]
    split
    · split
      · exact Nat.le_succ_of_le (ih _)
      · exact Nat.le_succ_of_le (ih _)
      · exact Nat.le_refl _
      · exact Nat.le_refl _
      · exact Nat.le_refl _
      · exact Nat.le_succ_of_le (ih _)
      · exact Nat.le_succ_of_le (ih _)
    · exact Nat.le_succ_of_le (ih _)

theorem length_test_le (macros : MacroTable) (t : Lexeme) (rest : List Lexeme) :
    (test macros t rest).2.2.length ≤ rest.length := by
  have h := length_operand_le rest
  unfold test
  split <;> simp_all

theorem length_conditional_le (macros : MacroTable) (conditions : List Bool) (t : Lexeme)
    (rest : List Lexeme) : (conditional macros conditions t rest).rest.length ≤ rest.length := by
  have ht := length_test_le macros t rest
  have hs (tokens : List Lexeme) : (skipBranch 0 tokens).length ≤ tokens.length :=
    length_skipBranch_le 0 tokens
  simp only [conditional]
  split
  · split
    · exact ht
    · exact Nat.le_trans (hs _) ht
  · split
    · exact ht
    · exact Nat.le_trans (hs _) ht
  · split
    · exact ht
    · split
      · exact ht
      · exact Nat.le_trans (hs _) ht
  · split
    · exact Nat.le_refl _
    · exact hs rest
    · exact Nat.le_refl _
  · split <;> exact Nat.le_refl _

theorem length_parameters_le (tokens : List Lexeme) :
    (parameters tokens).2.2.length ≤ tokens.length := by
  fun_induction parameters tokens <;>
    simp_all only [List.length_cons, List.length_nil, Nat.le_refl, Nat.zero_le] <;> try omega
  · rename_i t rest _ sign more hs _ written _ _ _ _ ih
    have h1 := length_skipInline_le rest
    have h2 : written.2.length ≤ more.length := length_defaultTokens_le 0 more
    simp_all only [List.length_cons]
    omega
  · rename_i t rest _ sign more hs _ _ _ _ _ ih
    have h1 := length_skipInline_le rest
    simp_all only [List.length_cons]
    omega

theorem length_define_le (t : Lexeme) (rest : List Lexeme) :
    (define t rest).rest.length ≤ rest.length := by
  have h := length_skipInline_le rest
  unfold define
  split
  · simp
  · rename_i name behind hn
    rw [hn] at h
    split
    · exact Nat.le_trans (length_skipLine_le _) h
    · refine Nat.le_trans (length_skipLine_le _) (Nat.le_trans ?_ (Nat.le_of_succ_le h))
      split
      · rename_i bracket more
        split
        · exact Nat.le_succ_of_le (length_parameters_le more)
        · exact Nat.le_refl _
      · exact Nat.le_refl _

theorem length_angleSpec_le (before : List Char) (tokens : List Lexeme) :
    (angleSpec before tokens).2.length ≤ tokens.length := by
  induction tokens generalizing before with
  | nil => simp [angleSpec]
  | cons t rest ih =>
    simp only [angleSpec]
    split
    · exact Nat.le_refl _
    · split
      · simp
      · exact Nat.le_succ_of_le (ih _)

theorem length_expandInvocation_le (env : Env) (call : Lexeme) (rest : List Lexeme) :
    (Expansion.expandInvocation env call rest).2.1.length ≤ rest.length :=
  Expansion.length_readCall_le env call rest

theorem length_includeSpec_le (env : Env) (tokens : List Lexeme) :
    (includeSpec env tokens).2.2.length ≤ tokens.length := by
  unfold includeSpec
  split
  · exact Nat.le_refl _
  · split
    · simp
    · split
      · exact length_angleSpec_le [] _
      · split
        · exact Nat.le_succ_of_le (length_expandInvocation_le env _ _)
        · exact Nat.le_refl _

theorem length_inclusion_le (env : Env) (t : Lexeme) (rest : List Lexeme) :
    (inclusion env t rest).rest.length ≤ rest.length := by
  have h := Nat.le_trans (length_includeSpec_le env (skipInline rest)) (length_skipInline_le rest)
  unfold inclusion
  split
  · simp_all
  · exact Nat.le_trans (length_skipLine_le _) (by simp_all)

theorem length_directive_le (env : Env) (t : Lexeme) (rest : List Lexeme) :
    (directive env t rest).rest.length ≤ rest.length := by
  have ho := length_operand_le rest
  have hi := length_skipInline_le rest
  unfold directive
  split
  · exact length_define_le t rest
  · split <;> simp_all
  · exact Nat.le_refl _
  · exact length_inclusion_le env t rest
  · exact Nat.le_refl _
  · exact length_skipLine_le rest
  · split
    · rename_i s more hs
      rw [hs] at hi
      show (if s.kind = .string then more else s :: more).length ≤ rest.length
      split
      · exact Nat.le_of_succ_le hi
      · exact hi
    · exact Nat.zero_le _
  · exact ho
  · exact length_expandInvocation_le env t rest

/-- An item is made of the tokens in front of its rest. -/
theorem length_read_le (env : Env) (conditions : List Bool) (t : Lexeme) (rest : List Lexeme) :
    (read env conditions t rest).rest.length ≤ rest.length := by
  unfold read
  split
  · exact length_conditional_le env.macros conditions t rest
  · exact length_directive_le env t rest
  · exact Nat.le_refl _

end Item

end HdlIndex
