import HdlIndex.Grammar.Build

/-! Patterns that both grammars share, and short forms for writing rules. -/

namespace HdlIndex.Grammar

/-- A simple identifier. -/
def identifierPattern : String := "[A-Za-z_][A-Za-z0-9_$]*"

/-- Integers, reals and based literals, with an optional size in front. -/
def numberPattern : String :=
  "[0-9][0-9_]*(?:\\.[0-9][0-9_]*)?(?:[eE][+-]?[0-9][0-9_]*)?" ++
    "(?:[ \\t]*'[sS]?[bBoOdDhH][ \\t]*[0-9a-fA-FxXzZ?][0-9a-fA-FxXzZ?_]*)?" ++
    "|'[sS]?[bBoOdDhH][ \\t]*[0-9a-fA-FxXzZ?][0-9a-fA-FxXzZ?_]*" ++
    "|'[01xXzZ]\\b"

/-- A rule that leaves the stacks alone. -/
def plain (source scope : String) : Entry := .rule source [scope] none none

/-- A rule with an action on the stacks. -/
def acting (source scope : String) (action : StackAction ContextRef) : Entry :=
  .rule source [scope] (some action) none

/-- A rule with an action on the snapshots. -/
def marking (source scope : String) (snapshot : SnapshotAction) : Entry :=
  .rule source [scope] none (some snapshot)

/-- The grammar that the definitions make, if they make one. -/
def ofDefs (contexts : List ContextDef) : Grammar :=
  match build contexts none with
  | .ok g => g
  | .error _ => ⟨[], 0, defaultInvalidScope⟩

end HdlIndex.Grammar
