import HdlIndex.Outline.Token

/-! A place in a row of tokens, and the ways to move on from it. Moves only go forward; to look
ahead is to move and to keep the old place. -/

namespace HdlIndex

/-- Takes steps as long as there are any, at most one for each element of `bound`. -/
def iterate (step : σ → Option σ) : (bound : List α) → σ → σ
  | [], s => s
  | _ :: bound, s =>
    match step s with
    | none => s
    | some s => iterate step bound s

/-- What every step keeps, the repetition keeps. -/
theorem iterate_induction {P : σ → Prop} {step : σ → Option σ}
    (h : ∀ s s', P s → step s = some s' → P s') (bound : List α) (s : σ) (hs : P s) :
    P (iterate step bound s) := by
  induction bound generalizing s with
  | nil => exact hs
  | cons _ bound ih =>
    rw [iterate]
    split
    · exact hs
    · next s' hs' => exact ih s' (h s s' hs hs')

/-- A place between two tokens. -/
structure Cursor where
  /-- How many tokens have been read. -/
  pos : Nat
  /-- Where the last token read stops. -/
  stop : Nat
  rest : List OutlineToken
  deriving DecidableEq, Repr, Inhabited

namespace Cursor

/-- The place in front of all tokens. -/
def start (tokens : List OutlineToken) : Cursor := ⟨0, 0, tokens⟩

/-! ### Looking -/

/-- Whether the next token satisfies a test. -/
def nextIs (c : Cursor) (test : OutlineToken → Bool) : Bool := c.rest.head?.any test

/-- Whether the next token has a role. -/
def is (c : Cursor) (role : Role) : Bool := c.nextIs (·.role == role)

/-- Whether the token `n` places behind the next one has a role. -/
def nthIs (c : Cursor) (n : Nat) (role : Role) : Bool := c.rest[n]?.any (·.role == role)

/-- Whether the next token has a text. -/
def isText (c : Cursor) (text : String) : Bool := c.nextIs (·.text == text)

/-- The next token if it is an identifier. -/
def identifier? (c : Cursor) : Option OutlineToken :=
  c.rest.head?.filter (·.role == .identifier)

/-- The text of the next token; behind the last token, nothing. -/
def nextText (c : Cursor) : String :=
  match c.rest with
  | [] => ""
  | t :: _ => t.text

/-- Where the next token starts; behind the last token, where that one stops. -/
def nextStart (c : Cursor) : Nat :=
  match c.rest with
  | [] => c.stop
  | t :: _ => t.start

/-! ### Single tokens -/

/-- Reads one token. -/
def bump (c : Cursor) : Cursor :=
  match c.rest with
  | [] => c
  | t :: rest => ⟨c.pos + 1, t.stop, rest⟩

/-- Reads the next token if it has the role. -/
def eat (c : Cursor) (role : Role) : Cursor := if c.is role then c.bump else c

def eatText (c : Cursor) (text : String) : Cursor := if c.isText text then c.bump else c

/-- The name in a label, a colon and a name, if there is one here. -/
def label? (c : Cursor) : Option OutlineToken :=
  if c.is .colon then c.bump.identifier? else none

/-- Reads a label. -/
def eatLabel (c : Cursor) : Cursor := if c.label?.isSome then c.bump.bump else c

/-! ### Stretches -/

/-- Reads tokens up to the first one outside brackets that satisfies `stop`. `depth` counts the
brackets that are open. -/
def skipFrom (stop : OutlineToken → Bool) (depth : Nat) (c : Cursor) : List OutlineToken → Cursor
  | [] => { c with rest := [] }
  | t :: rest =>
    if depth = 0 ∧ stop t then { c with rest := t :: rest }
    else skipFrom stop (t.nest depth) ⟨c.pos + 1, t.stop, rest⟩ rest

def skipUntil (c : Cursor) (stop : OutlineToken → Bool) : Cursor := skipFrom stop 0 c c.rest

/-- The last token outside brackets that satisfies `mark`, among those that `skipUntil` reads. -/
def lastOutside (stop mark : OutlineToken → Bool) (depth : Nat) (found : Option OutlineToken) :
    List OutlineToken → Option OutlineToken
  | [] => found
  | t :: rest =>
    if depth = 0 ∧ stop t then found
    else lastOutside stop mark (t.nest depth) (if depth = 0 ∧ mark t then some t else found) rest

/-- Reads tokens up to the one that closes the last of `depth` brackets. -/
def skipClosing (depth : Nat) (c : Cursor) : List OutlineToken → Cursor
  | [] => { c with rest := [] }
  | t :: rest =>
    if t.nest depth = 0 then ⟨c.pos + 1, t.stop, rest⟩
    else skipClosing (t.nest depth) ⟨c.pos + 1, t.stop, rest⟩ rest

/-- In front of an opening bracket, moves behind the bracket that closes it. Brackets of all
kinds count alike. -/
def skipBalanced (c : Cursor) : Cursor := if c.nextIs (·.isOpen) then skipClosing 0 c c.rest else c

/-- Reads a bracketed group or a single token. -/
def skipGroup (c : Cursor) : Cursor := if c.nextIs (·.isOpen) then c.skipBalanced else c.bump

/-- Reads up to and with the next semicolon outside brackets; stops in front of the end of a
region. -/
def skipToSemicolon (c : Cursor) : Cursor :=
  (c.skipUntil fun t => t.role == .semicolon || t.isRegionEnd).eat .semicolon

/-- Reads an expression, up to a comma, a semicolon, a bracket that closes more than the
expression opened, or the end of a region. -/
def skipExpression (c : Cursor) : Cursor :=
  c.skipUntil fun t => t.role == .comma || t.role == .semicolon || t.isClose || t.isRegionEnd

/-- Reads dimensions in square brackets. -/
def skipDimensions (c : Cursor) : Cursor := c.skipUntil (·.role != .bracketOpen)

/-- Reads dimensions in square brackets and type qualifiers. -/
def skipPackedDimensions (c : Cursor) : Cursor :=
  c.skipUntil fun t => t.role != .bracketOpen && !t.isTypeQualifier

/-- Reads tokens as long as they satisfy a test. -/
def skipWhile (c : Cursor) (test : OutlineToken → Bool) : Cursor :=
  iterate (fun c : Cursor => if c.nextIs test then some c.bump else none) c.rest c

/-- Reads from a keyword in the role `opening` to the keyword in the role `closing` that ends
its block. `depth` counts the blocks that are open. -/
def skipBlockFrom (opening closing : Role) (depth : Nat) (c : Cursor) :
    List OutlineToken → Cursor
  | [] => { c with rest := [] }
  | t :: rest =>
    let depth := t.nestBlock opening closing depth
    if depth = 0 then ⟨c.pos + 1, t.stop, rest⟩
    else skipBlockFrom opening closing depth ⟨c.pos + 1, t.stop, rest⟩ rest

def skipBlock (c : Cursor) (opening closing : Role) : Cursor :=
  skipBlockFrom opening closing 0 c c.rest

/-- Reads up to and with the first token with a text. -/
def skipPast (c : Cursor) (text : String) : Cursor :=
  (c.skipWhile (·.text != text)).bump

/-! ### Declared names and types -/

/-- Reads `pkg::` as often as it stands here. -/
def skipPackages (c : Cursor) : Cursor :=
  iterate (fun c : Cursor => if c.is .packageName then some (c.bump.eat .scopeResolution) else none)
    c.rest c

/-- Reads `.modport` if a name follows. -/
def skipModport (c : Cursor) : Cursor :=
  if c.is .dot && c.nthIs 1 .identifier && c.nthIs 2 .identifier then c.bump.bump else c

def skipTypePath (c : Cursor) : (bound : List OutlineToken) → Cursor
  | [] => c
  | _ :: bound =>
    let c := c.skipPackages
    if c.is .identifier then
      let c := c.bump
      let c := if c.is .hash && c.nthIs 1 .parenOpen then c.bump.skipBalanced else c
      if c.is .scopeResolution then c.bump.skipTypePath bound else c.skipModport
    else c

/-- Reads a reference to a type: `name`, `pkg::name`, `name #(...)`, `name #(...)::name`, or
`name.modport` when a name follows. -/
def skipTypeReference (c : Cursor) : Cursor := c.skipTypePath c.rest

/-- Reads what can follow a declared name: dimensions and a value. -/
def skipDeclarator (c : Cursor) : Cursor :=
  let c := c.skipDimensions
  if c.is .equals then c.bump.skipExpression else c

/-- Reads what can stand in front of the name of a type: `var`, a net type with its strength,
and qualifiers. -/
def skipTypeLead (c : Cursor) : Cursor :=
  let c := c.eatText "var"
  let c :=
    if c.is .netType then
      let c := c.bump
      if c.is .parenOpen then c.skipBalanced else c
    else c
  c.skipWhile (·.isTypeQualifier)

/-- Reads the name of a type. A lone identifier is a type only if another identifier follows,
behind dimensions or not; otherwise it is left as the declared name. -/
def skipTypeName (c : Cursor) : Cursor :=
  if c.is .dataType then c.bump
  else if c.is .packageName then c.skipTypeReference
  else if c.is .identifier then
    let next := c.skipTypeReference
    if next.skipDimensions.is .identifier then next else c
  else if c.isText "interface" then
    let c := c.bump
    if c.is .dot && c.nthIs 1 .identifier then c.bump.bump
    else if c.is .identifier && !c.nthIs 1 .semicolon && !c.nthIs 1 .comma &&
        !c.nthIs 1 .parenClose then
      c.skipTypeReference
    else c
  else if c.isText "type" then c.bump.skipBalanced
  else c

/-! ### Moves go forward -/

/-- How many tokens are left. -/
def left (c : Cursor) : Nat := c.rest.length

theorem left_bump_le (c : Cursor) : c.bump.left ≤ c.left := by
  unfold bump left
  split <;> simp_all

theorem left_bump_lt {c : Cursor} (h : c.rest ≠ []) : c.bump.left < c.left := by
  unfold bump left
  split <;> simp_all

theorem left_eat_le (c : Cursor) (role : Role) : (c.eat role).left ≤ c.left := by
  unfold eat
  split
  · exact c.left_bump_le
  · exact Nat.le_refl _

theorem left_eatLabel_le (c : Cursor) : c.eatLabel.left ≤ c.left := by
  unfold eatLabel
  split
  · exact Nat.le_trans c.bump.left_bump_le c.left_bump_le
  · exact Nat.le_refl _

theorem left_skipFrom_le (stop : OutlineToken → Bool) (depth : Nat) (c : Cursor)
    (tokens : List OutlineToken) : (skipFrom stop depth c tokens).left ≤ tokens.length := by
  induction tokens generalizing depth c with
  | nil => simp [skipFrom, left]
  | cons t rest ih =>
    rw [skipFrom]
    split
    · simp [left]
    · exact Nat.le_trans (ih _ _) (by simp)

/-- A token that does not stop the move is read. -/
theorem left_skipUntil_lt {c : Cursor} {stop : OutlineToken → Bool} {t : OutlineToken}
    {rest : List OutlineToken} (hc : c.rest = t :: rest) (ht : stop t = false) :
    (c.skipUntil stop).left < c.left := by
  have h := left_skipFrom_le stop (t.nest 0) ⟨c.pos + 1, t.stop, rest⟩ rest
  unfold skipUntil
  rw [left, hc, skipFrom, if_neg (by simp [ht])]
  simp only [left, hc, List.length_cons] at h ⊢
  omega

theorem left_skipClosing_lt (depth : Nat) (c : Cursor) (t : OutlineToken)
    (rest : List OutlineToken) : (skipClosing depth c (t :: rest)).left ≤ rest.length := by
  induction rest generalizing depth c t with
  | nil => simp [skipClosing, left]
  | cons u rest ih =>
    rw [skipClosing]
    split
    · simp [left]
    · exact Nat.le_trans (ih _ _ _) (by simp)

theorem left_skipBalanced_le (c : Cursor) : c.skipBalanced.left ≤ c.left := by
  unfold skipBalanced
  split
  · cases hc : c.rest with
    | nil => simp [skipClosing, left]
    | cons t rest =>
      have := left_skipClosing_lt 0 c t rest
      simp only [left, hc, List.length_cons] at this ⊢
      omega
  · exact Nat.le_refl _

theorem left_skipGroup_le (c : Cursor) : c.skipGroup.left ≤ c.left := by
  unfold skipGroup
  split
  · exact c.left_skipBalanced_le
  · exact c.left_bump_le

theorem left_skipBlockFrom_le (opening closing : Role) (depth : Nat) (c : Cursor)
    (t : OutlineToken) (rest : List OutlineToken) :
    (skipBlockFrom opening closing depth c (t :: rest)).left ≤ rest.length := by
  induction rest generalizing depth c t with
  | nil => simp [skipBlockFrom, left]
  | cons u rest ih =>
    rw [skipBlockFrom]
    split
    · simp [left]
    · exact Nat.le_trans (ih _ _ _) (by simp)

theorem left_skipBlock_lt {c : Cursor} {t : OutlineToken} {rest : List OutlineToken}
    (opening closing : Role) (hc : c.rest = t :: rest) :
    (c.skipBlock opening closing).left < c.left := by
  have h := left_skipBlockFrom_le opening closing 0 c t rest
  unfold skipBlock
  rw [left, hc]
  simp only [left, hc, List.length_cons] at h ⊢
  omega

/-- A token that neither is a semicolon nor ends a region is read. -/
theorem left_skipToSemicolon_lt {c : Cursor} {t : OutlineToken} {rest : List OutlineToken}
    (hc : c.rest = t :: rest) (ht : t.role ≠ .semicolon) (hend : t.isRegionEnd = false) :
    c.skipToSemicolon.left < c.left :=
  Nat.lt_of_le_of_lt (left_eat_le _ _) (left_skipUntil_lt hc (by simp [ht, hend]))

end Cursor

end HdlIndex
