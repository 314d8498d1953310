import HdlIndex.Grammar.Structural

/-! The tokens an outline is read from: blanks, comments and attributes are left out, and a
string literal is one token. -/

namespace HdlIndex

/-- A piece of text that counts, with the part it plays and its byte extent. -/
structure OutlineToken where
  text : String
  role : Role
  start : Nat
  stop : Nat
  deriving DecidableEq, Repr, Inhabited

namespace OutlineToken

def isOpen (t : OutlineToken) : Bool :=
  match t.role with
  | .parenOpen | .bracketOpen | .braceOpen => true
  | _ => false

def isClose (t : OutlineToken) : Bool :=
  match t.role with
  | .parenClose | .bracketClose | .braceClose => true
  | _ => false

/-- Whether the token closes a region. Skipping stops in front of it, unless a bracket is
open. -/
def isRegionEnd (t : OutlineToken) : Bool :=
  match t.role with
  | .endContainer | .endPackage | .endRoutine | .endGenerate | .endConstruct | .blockEnd
  | .caseEnd | .join => true
  | _ => false

/-- The number of open brackets behind the token, from the number in front of it. -/
def nest (depth : Nat) (t : OutlineToken) : Nat :=
  if t.isOpen then depth + 1 else if t.isClose then depth - 1 else depth

/-- The number of open blocks behind the token, for blocks from a keyword in the role `opening` to
one in the role `closing`. -/
def nestBlock (opening closing : Role) (depth : Nat) (t : OutlineToken) : Nat :=
  if t.role = opening then depth + 1 else if t.role = closing then depth - 1 else depth

/-- A sign or a vector qualifier of a type. -/
def isTypeQualifier (t : OutlineToken) : Bool :=
  t.role == .modifier && ["signed", "unsigned", "vectored", "scalared"].contains t.text

/-- The token of a scanned piece, in a role. -/
def ofPiece (piece : Token) (role : Role) : OutlineToken :=
  ⟨piece.text, role, piece.offset, piece.stop⟩

/-- The literal with one more piece. -/
def extend (t : OutlineToken) (piece : Token) : OutlineToken :=
  { t with text := t.text ++ piece.text, stop := piece.stop }

/-! ### From scanned pieces -/

def isTrivia (piece : Token) : Bool :=
  piece.scope == Role.blank.scope || piece.scope == Role.lineComment.scope ||
    piece.hasScope Role.blockComment.scope || piece.hasScope Role.attributeList.scope

/-- Whether the piece belongs to a string literal. -/
def inString (piece : Token) : Bool := piece.hasScope Role.string.scope

/-- Whether the piece ends the literal it belongs to, if it is not the first one. -/
def endsString (piece : Token) : Bool :=
  piece.text == "\"" && !piece.hasScope Role.stringEscape.scope

/-- The tokens of a row of pieces, behind those in `out`. `literal` is a string literal that
has not ended yet. -/
def gather (out : Array OutlineToken) (literal : Option OutlineToken) :
    List Token → Array OutlineToken
  | [] => out ++ literal.toList
  | piece :: rest =>
    if inString piece then
      match literal with
      | none => gather out (some (ofPiece piece .string)) rest
      | some t =>
        if endsString piece then gather (out.push (t.extend piece)) none rest
        else gather out (some (t.extend piece)) rest
    else
      let out := out ++ literal.toList
      if isTrivia piece || piece.scopes.isEmpty then gather out none rest
      else gather (out.push (ofPiece piece (.ofScope piece.scope))) none rest

/-- The tokens of a row of pieces. -/
def significant (pieces : List Token) : List OutlineToken := (gather #[] none pieces).toList

end OutlineToken

end HdlIndex
