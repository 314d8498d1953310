import HdlIndex.Macro.Definition

/-! The definitions in force, in the order in which they were made, and logs of changes to
them. A name that is defined again moves to the end. -/

namespace HdlIndex

/-- Definitions with different names, in the order of their latest definition. -/
structure MacroTable where
  entries : List MacroDef
  deriving DecidableEq, Repr, Inhabited

/-- One edit of a table. -/
inductive MacroChange where
  | add (definition : MacroDef)
  | delete (name : String)
  | deleteAll
  deriving DecidableEq, Repr

/-- Edits in the order in which they were made. -/
abbrev MacroLog := List MacroChange

namespace MacroTable

def empty : MacroTable := ⟨[]⟩

def get? (t : MacroTable) (name : String) : Option MacroDef := t.entries.find? (·.name == name)

def contains (t : MacroTable) (name : String) : Bool := (t.get? name).isSome

def size (t : MacroTable) : Nat := t.entries.length

def names (t : MacroTable) : List String := t.entries.map (·.name)

/-- The table without the name. -/
def undef (t : MacroTable) (name : String) : MacroTable :=
  ⟨t.entries.filter (·.name != name)⟩

/-- The table with the definition at its end, in place of an earlier one of the same name. -/
def define (t : MacroTable) (definition : MacroDef) : MacroTable :=
  ⟨(t.undef definition.name).entries ++ [definition]⟩

def apply (t : MacroTable) : MacroChange → MacroTable
  | .add definition => t.define definition
  | .delete name => t.undef name
  | .deleteAll => empty

/-- Makes the edits of a log. -/
def replay (t : MacroTable) (log : MacroLog) : MacroTable := log.foldl apply t

/-- The definitions given from outside, the last of one name counting. -/
def ofDefines (defines : List (String × String)) : MacroTable :=
  defines.foldl (fun t d => t.define (.ofUserValue d.1 d.2)) empty

@[simp]
theorem replay_nil (t : MacroTable) : t.replay [] = t := rfl

@[simp]
theorem replay_cons (t : MacroTable) (c : MacroChange) (log : MacroLog) :
    t.replay (c :: log) = (t.apply c).replay log := rfl

theorem replay_append (t : MacroTable) (a b : MacroLog) :
    t.replay (a ++ b) = (t.replay a).replay b := List.foldl_append

end MacroTable

end HdlIndex
