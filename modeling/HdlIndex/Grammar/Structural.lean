import HdlIndex.Grammar.Shorthand
import HdlIndex.Grammar.Scan

/-! The grammar of declarations: keywords by the part they play in the structure of a file,
identifiers, literals, punctuation. -/

namespace HdlIndex

/-- The part that a token plays in the structure of a file. -/
inductive Role where
  /-- Opens a module, an interface or a program. -/
  | container
  | endContainer
  | package
  | endPackage
  | routine
  | endRoutine
  | direction
  | parameter
  | typeAlias
  /-- A struct or a union. -/
  | aggregate
  | enumeration
  | modport
  | importing
  | exporting
  | genvar
  | generate
  | endGenerate
  | netType
  | dataType
  | modifier
  | assignment
  /-- Starts a process: `always` and its kin. -/
  | process
  | assertion
  | control
  | blockBegin
  | blockEnd
  | fork
  | join
  | caseBegin
  | caseEnd
  /-- Opens a body that is skipped as a whole. -/
  | construct
  | endConstruct
  /-- Any other keyword. -/
  | otherKeyword
  | identifier
  /-- An identifier with `::` behind it. -/
  | packageName
  | systemName
  | invocation
  | number
  | string
  | stringEscape
  | lineComment
  | blockComment
  | attributeList
  | blank
  | parenOpen
  | parenClose
  | bracketOpen
  | bracketClose
  | braceOpen
  | braceClose
  | semicolon
  | comma
  | colon
  | dot
  | hash
  | scopeResolution
  | equals
  | eventAt
  | eventStar
  | operator
  /-- Text that no rule matches. -/
  | invalid
  deriving DecidableEq, Repr, Inhabited

namespace Role

/-- The scope that the grammar gives to tokens of a role. -/
def scope : Role → String
  | container => "keyword.container"
  | endContainer => "keyword.endcontainer"
  | package => "keyword.package"
  | endPackage => "keyword.endpackage"
  | routine => "keyword.routine"
  | endRoutine => "keyword.endroutine"
  | direction => "keyword.direction"
  | parameter => "keyword.parameter"
  | typeAlias => "keyword.typedef"
  | aggregate => "keyword.struct"
  | enumeration => "keyword.enum"
  | modport => "keyword.modport"
  | importing => "keyword.import"
  | exporting => "keyword.export"
  | genvar => "keyword.genvar"
  | generate => "keyword.generate"
  | endGenerate => "keyword.endgenerate"
  | netType => "keyword.net_type"
  | dataType => "keyword.data_type"
  | modifier => "keyword.modifier"
  | assignment => "keyword.assign"
  | process => "keyword.always"
  | assertion => "keyword.assertion"
  | control => "keyword.control"
  | blockBegin => "keyword.begin"
  | blockEnd => "keyword.end"
  | fork => "keyword.fork"
  | join => "keyword.join"
  | caseBegin => "keyword.case"
  | caseEnd => "keyword.endcase"
  | construct => "keyword.construct"
  | endConstruct => "keyword.endconstruct"
  | otherKeyword => "keyword.other"
  | identifier => "identifier"
  | packageName => "identifier.package"
  | systemName => "identifier.system"
  | invocation => "macro.identifier"
  | number => "number"
  | string => "string.quoted"
  | stringEscape => "constant.character.escape"
  | lineComment => "comment.line"
  | blockComment => "comment.block"
  | attributeList => "meta.attribute"
  | blank => "whitespace"
  | parenOpen => "punctuation.paren.open"
  | parenClose => "punctuation.paren.close"
  | bracketOpen => "punctuation.bracket.open"
  | bracketClose => "punctuation.bracket.close"
  | braceOpen => "punctuation.brace.open"
  | braceClose => "punctuation.brace.close"
  | semicolon => "punctuation.semicolon"
  | comma => "punctuation.comma"
  | colon => "punctuation.colon"
  | dot => "punctuation.dot"
  | hash => "punctuation.hash"
  | scopeResolution => "operator.scope_resolution"
  | equals => "operator.assign"
  | eventAt => "operator.at"
  | eventStar => "operator.event_star"
  | operator => "operator"
  | invalid => Grammar.defaultInvalidScope

/-- All roles that have a scope of their own. -/
def all : List Role := [
  container, endContainer, package, endPackage, routine, endRoutine, direction, parameter,
  typeAlias, aggregate, enumeration, modport, importing, exporting, genvar, generate,
  endGenerate, netType, dataType, modifier, assignment, process, assertion, control, blockBegin,
  blockEnd, fork, join, caseBegin, caseEnd, construct, endConstruct, otherKeyword, identifier,
  packageName, systemName, invocation, number, string, stringEscape, lineComment, blockComment,
  attributeList, blank, parenOpen, parenClose, bracketOpen, bracketClose, braceOpen, braceClose,
  semicolon, comma, colon, dot, hash, scopeResolution, equals, eventAt, eventStar, operator]

def ofScope (scope : String) : Role := (all.find? (·.scope == scope)).getD invalid

end Role

namespace Grammar.Structural

open Role

def source : String := "source.systemverilog"

def beginBlock : String := "begin.block"

def forkBlock : String := "fork.block"

def caseBlock : String := "case.block"

def parenBlock : String := "parantheses.block"

def bracketBlock : String := "brackets.block"

def braceBlock : String := "braces.block"

/-- A pattern for any of the words, as whole words. -/
def wordsPattern (words : List String) : String := "(?:" ++ "|".intercalate words ++ ")\\b"

def keywords (words : List String) (role : Role) : Entry := plain (wordsPattern words) role.scope

/-- Keywords that open a block of the given scope. -/
def opening (words : List String) (role : Role) (block : String) : Entry :=
  acting (wordsPattern words) role.scope (.pushScopes [block])

/-- Keywords that close a block of the given scope. -/
def closing (words : List String) (role : Role) (block : String) : Entry :=
  acting (wordsPattern words) role.scope (.popScopes [block])

def top : ContextDef where
  name := mainName
  scope := source
  entries := [
    plain "\\s+" blank.scope,
    plain "//[^\\r\\n]*" lineComment.scope,
    acting "/\\*" blockComment.scope (.push (.named "BlockComment")),
    plain "\\(\\*\\s*\\)" eventStar.scope,
    acting "\\(\\*" attributeList.scope (.push (.named "Attribute")),
    acting "\"" string.scope (.push (.named "String")),
    .splice "Keywords",
    .rule ("(" ++ identifierPattern ++ ")(\\s*)(::)")
      ["", packageName.scope, blank.scope, scopeResolution.scope] none none,
    plain identifierPattern identifier.scope,
    plain "\\\\\\S+" identifier.scope,
    plain "\\$[A-Za-z0-9_$]+" systemName.scope,
    plain ("`" ++ identifierPattern) invocation.scope,
    plain numberPattern number.scope,
    .splice "Punctuation"]

def keywordRules : ContextDef where
  name := "Keywords"
  scope := ""
  entries := [
    keywords ["module", "macromodule", "interface", "program"] container,
    keywords ["endmodule", "endinterface", "endprogram"] endContainer,
    keywords ["package"] package,
    keywords ["endpackage"] endPackage,
    keywords ["function", "task"] routine,
    keywords ["endfunction", "endtask"] endRoutine,
    keywords ["input", "output", "inout", "ref"] direction,
    keywords ["parameter", "localparam", "specparam"] parameter,
    keywords ["typedef"] typeAlias,
    keywords ["struct", "union"] aggregate,
    keywords ["enum"] enumeration,
    keywords ["modport"] modport,
    keywords ["import"] importing,
    keywords ["export"] exporting,
    keywords ["genvar"] genvar,
    keywords ["generate"] generate,
    keywords ["endgenerate"] endGenerate,
    keywords
      ["wire", "tri0", "tri1", "triand", "trior", "trireg", "tri", "wand", "wor", "supply0",
       "supply1", "uwire", "interconnect"]
      netType,
    keywords
      ["logic", "bit", "reg", "byte", "shortint", "longint", "integer", "int", "time",
       "shortreal", "realtime", "real", "string", "chandle", "event", "void", "var"]
      dataType,
    keywords
      ["signed", "unsigned", "packed", "tagged", "const", "static", "automatic", "protected",
       "local", "randc", "rand", "virtual", "pure", "extern", "vectored", "scalared"]
      modifier,
    keywords ["assign", "deassign", "force", "release"] assignment,
    keywords ["always_comb", "always_ff", "always_latch", "always", "initial", "final"] process,
    keywords ["assert", "assume", "cover", "restrict", "expect"] assertion,
    opening ["begin"] blockBegin beginBlock,
    closing ["end"] blockEnd beginBlock,
    opening ["fork"] fork forkBlock,
    closing ["join_any", "join_none", "join"] join forkBlock,
    opening ["casex", "casez", "case", "randcase"] caseBegin caseBlock,
    closing ["endcase"] caseEnd caseBlock,
    keywords
      ["if", "else", "foreach", "for", "while", "do", "repeat", "forever", "return", "break",
       "continue", "wait_order", "wait", "disable", "unique0", "unique", "priority"]
      control,
    keywords
      ["class", "covergroup", "property", "sequence", "checker", "clocking", "specify",
       "config", "primitive"]
      construct,
    keywords
      ["endclass", "endgroup", "endproperty", "endsequence", "endchecker", "endclocking",
       "endspecify", "endconfig", "endprimitive"]
      endConstruct,
    keywords
      ["let", "nettype", "bind", "timeunit", "timeprecision", "defparam", "default", "global",
       "alias", "extends", "implements", "with", "inside", "dist", "posedge", "negedge",
       "edge", "or", "and", "not", "iff", "new", "null", "this", "super", "type", "randomize",
       "matches", "solve", "before", "constraint", "cell", "design", "instance", "liblist",
       "library", "use", "incdir", "include", "throughout", "within", "intersect",
       "first_match"]
      otherKeyword]

/-- Operators of more than one character. -/
def operatorPattern : String :=
  "<<<=|>>>=|===|!==|==\\?|!=\\?|<->|->>|\\|->|\\|=>|&&&|<<=|>>=|" ++
    "\\+\\+|--|\\*\\*|==|!=|<=|>=|&&|\\|\\||->|<<<|>>>|<<|>>|" ++
    "\\+=|-=|\\*=|/=|%=|&=|\\|=|\\^=|~&|~\\||~\\^|\\^~|\\.\\*|##|@@|:=|:/|\\+:|-:"

def punctuation : ContextDef where
  name := "Punctuation"
  scope := ""
  entries := [
    acting "\\(" parenOpen.scope (.pushScopes [parenBlock]),
    acting "\\)" parenClose.scope (.popScopes [parenBlock]),
    acting "\\[" bracketOpen.scope (.pushScopes [bracketBlock]),
    acting "\\]" bracketClose.scope (.popScopes [bracketBlock]),
    acting "\\\x7b" braceOpen.scope (.pushScopes [braceBlock]),
    acting "\\\x7d" braceClose.scope (.popScopes [braceBlock]),
    plain "::" scopeResolution.scope,
    plain ";" semicolon.scope,
    plain "," comma.scope,
    plain operatorPattern operator.scope,
    plain ":" colon.scope,
    plain "\\." dot.scope,
    plain "#" hash.scope,
    plain "=" equals.scope,
    plain "@" eventAt.scope,
    plain "[-+*/%!~&|^<>?']" operator.scope]

def stringBody : ContextDef where
  name := "String"
  scope := Role.string.scope
  entries := [
    acting "\"" "" (.pop none),
    plain "\\\\(?s:.)" stringEscape.scope,
    plain "[^\"\\\\]+|\\\\" ""]

def commentBody : ContextDef where
  name := "BlockComment"
  scope := blockComment.scope
  entries := [
    acting "\\*/" "" (.pop none),
    plain "[^*]+|\\*" ""]

def attributeBody : ContextDef where
  name := "Attribute"
  scope := attributeList.scope
  entries := [
    acting "\\*\\)" "" (.pop none),
    plain "[^*]+|\\*" ""]

end Grammar.Structural

/-- The grammar of declarations. -/
def Grammar.structural : Grammar :=
  .ofDefs [Structural.top, Structural.keywordRules, Structural.punctuation,
    Structural.stringBody, Structural.commentBody, Structural.attributeBody]

end HdlIndex
