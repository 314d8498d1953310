import HdlIndex.Macro.Table
import Std.Data.HashMap

/-! Definitions as they are kept for quick access: by their names, and apart from that the names in the
order of the latest definition. An operation changes the one and then the other. -/

namespace HdlIndex

/-- Definitions by name, and the order of the names. -/
structure MacroStore where
  macros : Std.HashMap String MacroDef
  order : List String

namespace MacroStore

def empty : MacroStore := ⟨∅, []⟩

/-- Puts a definition in and gives the one that it replaces. A name that is known moves to the end. -/
def define (s : MacroStore) (definition : MacroDef) : Option MacroDef × MacroStore :=
  let previous := s.macros[definition.name]?
  let macros := s.macros.insert definition.name definition
  if previous.isSome then
    (previous, ⟨macros, s.order.filter (· != definition.name) ++ [definition.name]⟩)
  else (previous, ⟨macros, s.order ++ [definition.name]⟩)

/-- Takes a name out and gives its definition. -/
def undef (s : MacroStore) (name : String) : Option MacroDef × MacroStore :=
  let removed := s.macros[name]?
  let macros := s.macros.erase name
  if removed.isSome then (removed, ⟨macros, s.order.filter (· != name)⟩)
  else (removed, ⟨macros, s.order⟩)

def clear (_ : MacroStore) : MacroStore := ⟨∅, []⟩

def get? (s : MacroStore) (name : String) : Option MacroDef := s.macros[name]?

def contains (s : MacroStore) (name : String) : Bool := s.macros.contains name

def size (s : MacroStore) : Nat := s.macros.size

def isEmpty (s : MacroStore) : Bool := s.macros.isEmpty

/-- The definitions in order; a name without a definition is passed over. -/
def definitions (s : MacroStore) : List MacroDef := s.order.filterMap (s.macros[·]?)

def apply (s : MacroStore) : MacroChange → MacroStore
  | .add definition => (s.define definition).2
  | .delete name => (s.undef name).2
  | .deleteAll => s.clear

/-- Makes the edits of a log. -/
def replay (s : MacroStore) (log : MacroLog) : MacroStore := log.foldl apply s

end MacroStore

end HdlIndex
