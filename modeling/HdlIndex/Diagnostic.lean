/-! Problems found in source text. Reading a document never fails: what goes wrong is noted as
a diagnostic, with the place if one is known. -/

namespace HdlIndex

/-- The area a problem belongs to. -/
inductive ProblemKind where
  | grammar
  | io
  | inclusion
  | inclusionCycle
  | expansion
  | limit
  | encoding
  deriving DecidableEq, Repr, Inhabited

namespace ProblemKind

def display : ProblemKind → String
  | .grammar => "GrammarError"
  | .io => "IOError"
  | .inclusion => "IncludeError"
  | .inclusionCycle => "IncludeCycleError"
  | .expansion => "MacroError"
  | .limit => "LimitError"
  | .encoding => "EncodingError"

/-- The word that stands for the kind in reports. -/
def label : ProblemKind → String
  | .grammar => "Grammar"
  | .io => "Io"
  | .inclusion => "Include"
  | .inclusionCycle => "IncludeCycle"
  | .expansion => "Macro"
  | .limit => "Limit"
  | .encoding => "Encoding"

end ProblemKind

/-- What went wrong while a document was read. -/
inductive Problem where
  /-- The directive grammar gave up on a text. -/
  | directiveGrammar
  /-- The structural grammar gave up on a text. -/
  | structuralGrammar
  /-- The document itself cannot be read. -/
  | documentUnreadable (reason : String)
  | documentTooLarge (size limit : Nat)
  | includeTooLarge (path : String) (size limit : Nat)
  | tooManyTokens (count limit : Nat)
  | missingEndif (count : Nat)
  /-- A directive that takes a name has none. -/
  | missingName (directive : String)
  | parameterSyntax (text : String)
  /-- A directive that continues or closes a conditional, without one being open. -/
  | strayConditional (directive : String)
  | strayBodyConditional (directive : String)
  | openBodyConditional
  | malformedInclude
  | includeDepth (limit : Nat) (spec : String)
  | unresolvedInclude (spec : String)
  | includeCycle (path : String)
  | unreadable (path reason : String)
  | directiveInBody (name : String)
  | undefined (name : String)
  | missingArguments (name : String)
  | tooManyArguments (name : String) (takes given : Nat)
  | missingArgument (parameter name : String)
  | expansionDepth (name : String) (limit : Nat)
  | expansionCount (name : String) (limit : Nat)
  deriving DecidableEq, Repr, Inhabited

namespace Problem

def kind : Problem → ProblemKind
  | directiveGrammar | structuralGrammar => .grammar
  | documentTooLarge .. | includeTooLarge .. | tooManyTokens .. => .limit
  | includeDepth .. | expansionDepth .. | expansionCount .. => .limit
  | malformedInclude | unresolvedInclude .. => .inclusion
  | includeCycle .. => .inclusionCycle
  | documentUnreadable .. | unreadable .. => .io
  | missingEndif .. | missingName .. | parameterSyntax .. | strayConditional ..
  | strayBodyConditional .. | openBodyConditional | directiveInBody .. | undefined ..
  | missingArguments .. | tooManyArguments .. | missingArgument .. => .expansion

def message : Problem → String
  | directiveGrammar => "preprocessor grammar produced no tokens"
  | structuralGrammar => "structural grammar produced no tokens"
  | documentUnreadable reason => reason
  | documentTooLarge size limit => "file is " ++ size.repr ++ " bytes, limit is " ++ limit.repr
  | includeTooLarge path size limit =>
    path ++ " is " ++ size.repr ++ " bytes, limit is " ++ limit.repr
  | tooManyTokens count limit =>
    count.repr ++ " tokens, limit is " ++ limit.repr ++ "; the rest of the file is ignored"
  | missingEndif count => count.repr ++ " conditional block(s) missing `endif"
  | missingName directive => directive ++ " without a macro name"
  | parameterSyntax text => "unexpected `" ++ text ++ "` in macro parameter list"
  | strayConditional directive => directive ++ " without matching `ifdef"
  | strayBodyConditional directive => directive ++ " without matching `ifdef in macro body"
  | openBodyConditional => "unterminated conditional in macro body"
  | malformedInclude => "malformed `include directive"
  | includeDepth limit spec =>
    "include depth limit of " ++ limit.repr ++ " reached at \"" ++ spec ++ "\""
  | unresolvedInclude spec => "cannot resolve include \"" ++ spec ++ "\""
  | includeCycle path => path ++ " includes itself"
  | unreadable path reason => "cannot read " ++ path ++ ": " ++ reason
  | directiveInBody name => "directive `" ++ name ++ " cannot appear in macro text"
  | undefined name => "undefined macro `" ++ name
  | missingArguments name => "macro `" ++ name ++ " expects arguments"
  | tooManyArguments name takes given =>
    "macro `" ++ name ++ " takes " ++ takes.repr ++ " argument(s), " ++ given.repr ++ " given"
  | missingArgument parameter name =>
    "missing argument `" ++ parameter ++ "` of macro `" ++ name
  | expansionDepth name limit =>
    "macro `" ++ name ++ " nests deeper than " ++ limit.repr ++ " expansions"
  | expansionCount name limit =>
    "macro `" ++ name ++ " needs more than " ++ limit.repr ++ " expansions"

end Problem

/-- A problem with the place it was found at. -/
structure Diagnostic where
  kind : ProblemKind
  message : String
  file : Option String := none
  offset : Option Nat := none
  deriving DecidableEq, Repr, Inhabited

namespace Diagnostic

/-- A problem that concerns a whole file. -/
def inFile (problem : Problem) (file : String) : Diagnostic :=
  ⟨problem.kind, problem.message, some file, none⟩

/-- A problem at a byte offset of a file. -/
def located (problem : Problem) (file : String) (offset : Nat) : Diagnostic :=
  ⟨problem.kind, problem.message, some file, some offset⟩

def place (d : Diagnostic) : String :=
  (match d.file with | some file => " in " ++ file | none => "") ++
  (match d.offset with | some offset => " at byte " ++ offset.repr | none => "")

def display (d : Diagnostic) : String :=
  d.kind.display ++ d.place ++ ": " ++ d.message

end Diagnostic

end HdlIndex
