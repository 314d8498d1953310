import HdlIndex.Grammar.Directive

/-! Tokens of directives and the definitions made of them. -/

namespace HdlIndex

/-- A token of a source file with its kind and its extent in bytes. -/
structure Lexeme where
  text : String
  kind : LexKind
  start : Nat
  stop : Nat
  /-- The file that the extent refers to. -/
  file : String
  deriving DecidableEq, Repr, Inhabited

/-- A token of a definition; its file is the one that holds the definition. -/
structure BodyToken where
  text : String
  kind : LexKind
  start : Nat
  stop : Nat
  deriving DecidableEq, Repr, Inhabited

/-- A text without its first character, which is a backtick or a bracket. -/
def Text.tail (s : String) : String := .ofList (s.toList.drop 1)

namespace Lexeme

/-- The name behind the backtick of a directive or an invocation. -/
def name (t : Lexeme) : String := Text.tail t.text

/-- The same place with another text. -/
def withText (t : Lexeme) (text : String) (kind : LexKind) : Lexeme := { t with text, kind }

def toBody (t : Lexeme) : BodyToken := ⟨t.text, t.kind, t.start, t.stop⟩

def isTrivia (t : Lexeme) : Bool := t.kind.isTrivia

/-- The tokens of a file. -/
def lex (file text : String) : List Lexeme :=
  (Grammar.directives.tokenize text).map fun t =>
    ⟨t.text, LexKind.classify t, t.offset, t.stop, file⟩

/-- Whether a token ends the line that a directive stands on. -/
def endsLine (t : Lexeme) : Bool := t.kind == .newline || t.kind == .lineComment

/-- Whether a token may stand between the parts of a directive. -/
def isInline (t : Lexeme) : Bool :=
  t.kind == .blank || t.kind == .blockComment || t.kind == .lineContinuation

end Lexeme

/-- What a name behind a backtick means in a source file. -/
inductive FileDirective where
  | define
  | undef
  | undefineAll
  | inclusion
  /-- A directive without operands, which is dropped. -/
  | alone
  /-- A directive that is dropped with the rest of its line. -/
  | wholeLine
  /-- A directive that is dropped with a string behind it. -/
  | withString
  /-- A directive that is dropped with a name behind it. -/
  | withName
  /-- No directive: the use of a definition. -/
  | invocation
  deriving DecidableEq, Repr

namespace FileDirective

def directives : List (String × FileDirective) :=
  [("define", define), ("undef", undef), ("undefineall", undefineAll), ("include", inclusion),
   ("resetall", alone), ("celldefine", alone), ("endcelldefine", alone),
   ("nounconnected_drive", alone), ("end_keywords", alone),
   ("timescale", wholeLine), ("pragma", wholeLine), ("line", wholeLine),
   ("begin_keywords", withString),
   ("default_nettype", withName), ("unconnected_drive", withName)]

def ofName (name : String) : FileDirective := (directives.lookup name).getD invocation

end FileDirective

/-- A directive of conditional compilation. -/
inductive Conditional where
  /-- Opens a conditional; its first branch is taken if the name is defined. -/
  | ifdef
  /-- Opens a conditional; its first branch is taken if the name is not defined. -/
  | ifndef
  | elsif
  | otherwise
  | endif
  deriving DecidableEq, Repr

/-- The directive with the given name; any name but the first four closes a conditional. -/
def Conditional.ofName (name : String) : Conditional :=
  if name = "ifdef" then .ifdef
  else if name = "ifndef" then .ifndef
  else if name = "elsif" then .elsif
  else if name = "else" then .otherwise
  else .endif

/-- Whether the directive takes a name. -/
def Conditional.takesName : Conditional → Bool
  | ifdef | ifndef | elsif => true
  | otherwise | endif => false

/-- The conditional directive that a token is, if its kind says that it is one. -/
def Lexeme.conditional (t : Lexeme) : Conditional := .ofName t.name

/-- Drops elements that satisfy `p` from both ends. -/
def trimBoth (p : α → Bool) (items : List α) : List α :=
  ((items.reverse.dropWhile p).reverse).dropWhile p

/-- A formal parameter; the default stands in for an empty argument. -/
structure Parameter where
  name : String
  default : Option (List BodyToken)
  deriving DecidableEq, Repr, Inhabited

/-- The definition of a name by a list of tokens. -/
structure MacroDef where
  name : String
  /-- A definition with parameters takes arguments, even if the list of parameters is empty. -/
  params : Option (List Parameter)
  body : List BodyToken
  /-- The file of the definition; none if it was given from outside. -/
  origin : Option String
  /-- Extent of the directive. -/
  span : Nat × Nat
  /-- Extent of the name. -/
  nameSpan : Nat × Nat
  deriving DecidableEq, Repr, Inhabited

namespace MacroDef

/-- A definition from outside, without parameters. -/
def user (name : String) (body : List BodyToken) : MacroDef :=
  ⟨name, none, body, none, (0, 0), (0, 0)⟩

/-- Reads the value of a definition that is given from outside. -/
def ofUserValue (name value : String) : MacroDef :=
  user name ((trimBoth Lexeme.isTrivia (Lexeme.lex "<command line>" value)).map Lexeme.toBody)

def isFunctionLike (d : MacroDef) : Bool := d.params.isSome

/-- The body as written. -/
def replacement (d : MacroDef) : String := .join (d.body.map (·.text))

end MacroDef

end HdlIndex
