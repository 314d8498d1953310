import HdlIndex.Grammar.Shorthand
import HdlIndex.Grammar.Scan

/-! The grammar of directives: enough to find directives, invocations and their argument
lists, with strings and comments kept whole. A conditional takes a snapshot of the open
brackets, so that every branch starts from the same ones. -/

namespace HdlIndex

/-- What a token is to the processing of directives. -/
inductive LexKind where
  | identifier
  /-- A backtick with a name: a directive or an invocation. -/
  | directive
  /-- A directive of conditional compilation. -/
  | conditional
  /-- A double quote in the text that an expansion makes. -/
  | quote
  /-- A double quote inside a string that an expansion makes. -/
  | escapedQuote
  /-- Joins the tokens on both sides. -/
  | paste
  | lineContinuation
  | number
  | string
  | lineComment
  /-- Any piece of a block comment. -/
  | blockComment
  | blank
  | newline
  | opening
  | closing
  | comma
  | operator
  /-- Text that no rule matches. -/
  | invalid
  deriving DecidableEq, Repr, Inhabited

namespace LexKind

/-- The scope that the grammar gives to tokens of a kind. -/
def scope : LexKind → String
  | identifier => "identifier"
  | directive => "macro.identifier"
  | conditional => "macro.conditional"
  | quote => "macro.quote"
  | escapedQuote => "macro.escaped_quote"
  | paste => "macro.concat"
  | lineContinuation => "line_continuation"
  | number => "number"
  | string => "string.quoted"
  | lineComment => "comment.line"
  | blockComment => "comment.block"
  | blank => "whitespace"
  | newline => "newline"
  | opening => "punctuation.open"
  | closing => "punctuation.close"
  | comma => "punctuation.comma"
  | operator => "operator"
  | invalid => Grammar.defaultInvalidScope

/-- The kind of a token by its innermost scope, except inside block comments. -/
def ofScope (scope : String) : LexKind :=
  let kinds := [identifier, directive, conditional, quote, escapedQuote, paste, lineContinuation,
    number, string, lineComment, blank, newline, opening, closing, comma, operator]
  (kinds.find? (·.scope == scope)).getD invalid

def classify (t : Token) : LexKind :=
  if t.hasScope blockComment.scope then blockComment else ofScope t.scope

/-- Blanks, line ends and comments: skipped between a name and its arguments, and trimmed from
both ends of an argument. -/
def isTrivia : LexKind → Bool
  | blank | newline | lineContinuation | lineComment | blockComment => true
  | _ => false

end LexKind

namespace Grammar.Directive

open LexKind

def parenBlock : String := "parantheses.block"

def braceBlock : String := "braces.block"

def bracketBlock : String := "brackets.block"

def top : ContextDef where
  name := mainName
  scope := ""
  entries := [
    plain "\\\\\\r?\\n" lineContinuation.scope,
    plain "//[^\\r\\n]*" lineComment.scope,
    acting "/\\*" blockComment.scope (.push (.named "BlockComment")),
    plain "\"(?:[^\"\\\\\\r\\n]|\\\\(?s:.))*\"?" string.scope,
    plain "`\\\\`\"" escapedQuote.scope,
    plain "`\"" quote.scope,
    plain "``" paste.scope,
    marking "`(?:ifdef|ifndef)\\b" conditional.scope .save,
    marking "`(?:elsif|else)\\b" conditional.scope .restore,
    marking "`endif\\b" conditional.scope .delete,
    plain ("`" ++ identifierPattern) directive.scope,
    plain identifierPattern identifier.scope,
    plain "\\\\\\S+" identifier.scope,
    plain "\\$[A-Za-z0-9_$]+" identifier.scope,
    plain numberPattern number.scope,
    plain "[ \\t\\x0B\\x0C]+" blank.scope,
    plain "\\r?\\n|\\r" newline.scope,
    acting "\\(" opening.scope (.pushScopes [parenBlock]),
    acting "\\)" closing.scope (.popScopes [parenBlock]),
    acting "\\\x7b" opening.scope (.pushScopes [braceBlock]),
    acting "\\\x7d" closing.scope (.popScopes [braceBlock]),
    acting "\\[" opening.scope (.pushScopes [bracketBlock]),
    acting "\\]" closing.scope (.popScopes [bracketBlock]),
    plain "," comma.scope,
    plain "[^\\s\\w$\\\\\"`()\x7b\x7d\\[\\],/]+|/|`" operator.scope]

def comment : ContextDef where
  name := "BlockComment"
  scope := blockComment.scope
  entries := [
    acting "\\*/" "" (.pop none),
    plain "[^*]+|\\*" ""]

end Grammar.Directive

/-- The grammar of directives. -/
def Grammar.directives : Grammar := .ofDefs [Directive.top, Directive.comment]

end HdlIndex
