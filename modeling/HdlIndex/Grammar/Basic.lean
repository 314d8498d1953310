import HdlIndex.Pattern.Reader

/-! Grammars of tokens. A grammar is a set of contexts, each with an ordered list of rules: a
pattern, the scopes that its tokens get, and what a match does to the context and scope stacks.
Here are the forms in which grammars are written and the form in which they are run. -/

namespace HdlIndex

/-- What a match does to the snapshots of the stacks; it happens before the action. -/
inductive SnapshotAction where
  /-- Puts a snapshot of both stacks on the pile. -/
  | save
  /-- Goes back to the top snapshot, which stays on the pile. -/
  | restore
  /-- Drops the top snapshot. -/
  | delete
  deriving DecidableEq, Repr

/-- What a match does to the stacks. Contexts are named by `ρ`. -/
inductive StackAction (ρ : Type) where
  /-- Enters a context. -/
  | push (context : ρ)
  /-- Leaves the current context and enters another, if one is given. -/
  | pop (replacement : Option ρ)
  | pushScopes (names : List String)
  /-- Unwinds the scopes up to each name in turn. -/
  | popScopes (names : List String)
  deriving DecidableEq, Repr

namespace Grammar

/-! ### As written -/

mutual

/-- A context, by name or written in place. -/
inductive ContextRef where
  | named (name : String)
  | inPlace (scope : String) (entries : List Entry)

/-- A rule of a context, or a place where the rules of another context are spliced in. The
first scope is that of the whole match, the others belong to the groups; an empty text is no
scope. -/
inductive Entry where
  | rule (source : String) (scopes : List String) (action : Option (StackAction ContextRef))
      (snapshot : Option SnapshotAction)
  | splice (context : String)

end

/-- A named context as written; the scope may be empty. -/
structure ContextDef where
  name : String
  scope : String
  entries : List Entry

/-! ### As run -/

/-- A rule whose pattern was read and whose contexts are numbers. -/
structure Rule where
  source : String
  pattern : Pattern
  scopes : List (Option String)
  action : Option (StackAction Nat)
  snapshot : Option SnapshotAction
  deriving DecidableEq, Repr

structure Context where
  name : String
  scope : Option String
  rules : List Rule
  deriving DecidableEq, Repr

end Grammar

/-- A grammar that can be run. -/
structure Grammar where
  contexts : List Grammar.Context
  /-- The context that every text starts in. -/
  main : Nat
  /-- The scope of text that no rule matches. -/
  invalidScope : String
  deriving DecidableEq, Repr

namespace Grammar

/-- Why a grammar cannot be run. -/
inductive BuildError where
  | missingMain
  | duplicateContext (name : String)
  | unknownContext (context reference : String)
  | spliceCycle (name : String)
  | invalidPattern (context source : String)
  | scopeCount (context source : String) (groups scopes : Nat)
  deriving DecidableEq, Repr

def BuildError.message : BuildError → String
  | missingMain => "grammar has no \"Main\" context"
  | duplicateContext name => "context \"" ++ name ++ "\" is defined more than once"
  | unknownContext context reference =>
    "context \"" ++ context ++ "\" references unknown context \"" ++ reference ++ "\""
  | spliceCycle name => "include cycle through context \"" ++ name ++ "\""
  | invalidPattern context source =>
    "context \"" ++ context ++ "\": invalid pattern /" ++ source ++ "/"
  | scopeCount context source groups scopes =>
    "context \"" ++ context ++ "\": pattern /" ++ source ++ "/ has " ++ groups.repr ++
      " capture groups but " ++ scopes.repr ++ " scopes (expected " ++ (groups + 1).repr ++ ")"

/-- The name of the context that every text starts in. -/
def mainName : String := "Main"

/-- The scope of unmatched text unless the grammar says otherwise. -/
def defaultInvalidScope : String := "invalid.illegal"

/-- A scope name; the empty text is none. -/
def scopeOf (name : String) : Option String := if name.isEmpty then none else some name

end Grammar

end HdlIndex
