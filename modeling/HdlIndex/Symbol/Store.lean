import HdlIndex.Symbol.Table

/-! Scopes as they are kept for quick access: each in the slot of its number, with the numbers of the
scopes that it is linked to. A slot that is given up is emptied, and the one given up last is used
first. -/

namespace HdlIndex

/-- A scope with its links to other scopes. -/
structure Slot where
  scope : Scope := {}
  /-- The scope around it; the file scope has none. -/
  parent : Option Nat := none
  /-- Containers declared inside, in order. -/
  children : List Nat := []
  /-- Containers of an earlier reading that this one has not opened. -/
  previous : List Nat := []
  deriving DecidableEq, Repr, Inhabited

namespace Slot

/-- The containers of the scope, whatever reading they come from. -/
def links (s : Slot) : List Nat := s.children ++ s.previous

/-- Empties a scope; its containers stay at hand. -/
def reset (s : Slot) : Slot :=
  { s with scope := s.scope.clear, children := [], previous := s.previous ++ s.children }

/-- Empties a scope for a new declaration of its container. -/
def reopen (symbol : Symbol) (s : Slot) : Slot :=
  { s.reset with scope := s.scope.reopen symbol }

def addChild (id : Nat) (s : Slot) : Slot := { s with children := s.children ++ [id] }

/-- Puts a container of an earlier reading behind those of this one. -/
def claim (id : Nat) (s : Slot) : Slot :=
  { s with children := s.children ++ [id], previous := s.previous.erase id }

end Slot

/-- The scopes of one file in their slots. -/
structure ScopeStore where
  slots : Array Slot := #[{}]
  /-- Numbers given up, the last one first. -/
  free : List Nat := []
  /-- How many containers without a name were counted. -/
  anonymous : Nat := 0
  deriving DecidableEq, Repr

namespace ScopeStore

/-- The number of the file scope. -/
def rootId : Nat := 0

def empty : ScopeStore := {}

instance : Inhabited ScopeStore := ⟨empty⟩

def nodeCount (s : ScopeStore) : Nat := s.slots.size - s.free.length

def slot (s : ScopeStore) (id : Nat) : Slot := s.slots[id]?.getD {}

/-- Changes the slot with a number. -/
def modify (s : ScopeStore) (id : Nat) (f : Slot → Slot) : ScopeStore :=
  { s with slots := s.slots.modify id f }

/-- Changes a scope. -/
def update (s : ScopeStore) (id : Nat) (f : Scope → Scope) : ScopeStore :=
  s.modify id fun slot => { slot with scope := f slot.scope }

/-! ### Declaring -/

/-- Adds a leaf symbol to a scope, in place of an earlier one of the same key. The second
result is its place in the scope. -/
def addSymbol (s : ScopeStore) (id : Nat) (symbol : Symbol) : ScopeStore × Nat :=
  (s.update id (·.addSymbol symbol), (s.slot id).scope.placeOf symbol)

def addImport (s : ScopeStore) (id : Nat) (name : String) : ScopeStore :=
  s.update id (·.addImport name)

def addExport (s : ScopeStore) (id : Nat) (name : String) : ScopeStore :=
  s.update id (·.addExport name)

/-- Notes the extent of a container. -/
def setDefinition (s : ScopeStore) (id : Nat) (definition : Definition) : ScopeStore :=
  s.update id (·.setDefinition definition)

/-- A name for a body without one. The second result is the name. -/
def anonymousName (s : ScopeStore) (stem : String) : ScopeStore × String :=
  ({ s with anonymous := s.anonymous + 1 }, stem ++ "#" ++ s.anonymous.repr)

/-- The first of some scopes that belongs to the container which `symbol` declares. -/
def findChild? (s : ScopeStore) (ids : List Nat) (symbol : Symbol) : Option Nat :=
  ids.find? fun id => (s.slot id).scope.isFor symbol

/-- Takes the slot given up last, or a new one, for a scope. The second result is its number. -/
def allocate (s : ScopeStore) (slot : Slot) : ScopeStore × Nat :=
  match s.free with
  | id :: free => ({ s with slots := s.slots.setIfInBounds id slot, free }, id)
  | [] => ({ s with slots := s.slots.push slot }, s.slots.size)

/-- Opens the container that `symbol` declares in a scope. If the scope has it, from this
reading or the one before, it is emptied and keeps its number; otherwise it gets a slot.
The second result is the number. -/
def openContainer (s : ScopeStore) (parent : Nat) (symbol : Symbol) : ScopeStore × Nat :=
  let around := s.slot parent
  let symbol := around.scope.located symbol
  match s.findChild? around.children symbol, s.findChild? around.previous symbol with
  | some id, _ => (s.modify id (·.reopen symbol), id)
  | none, some id => ((s.modify parent (·.claim id)).modify id (·.reopen symbol), id)
  | none, none =>
    let (s, id) := s.allocate { scope := .ofSymbol symbol, parent := some parent }
    (s.modify parent (·.addChild id), id)

/-! ### Readings -/

/-- Starts a reading: the file scope is emptied and its containers stay at hand. -/
def beginParse (s : ScopeStore) : ScopeStore :=
  { s.modify rootId (·.reset) with anonymous := 0 }

/-- The links of all slots. -/
def links (s : ScopeStore) : List Nat := s.slots.toList.flatMap Slot.links

/-- Empties a slot and gives its number up. -/
def giveUp (s : ScopeStore) (id : Nat) : ScopeStore :=
  { s with slots := s.slots.setIfInBounds id {}, free := id :: s.free }

theorem length_links_set (slots : List Slot) (id : Nat) :
    ((slots.set id {}).flatMap Slot.links).length + (slots[id]?.getD {}).links.length =
      (slots.flatMap Slot.links).length := by
  induction slots generalizing id with
  | nil => rfl
  | cons slot slots ih =>
    cases id with
    | zero =>
      simp only [List.set_cons_zero, List.flatMap_cons, List.length_append, List.getElem?_cons_zero,
        Option.getD_some, Slot.links, List.length_nil]
      omega
    | succ id =>
      have hrest := ih id
      simp only [List.set_cons_succ, List.flatMap_cons, List.length_append,
        List.getElem?_cons_succ] at hrest ⊢
      omega

/-- The links of a slot that is given up are gone. -/
theorem length_links_giveUp (s : ScopeStore) (id : Nat) :
    (s.giveUp id).links.length + (s.slot id).links.length = s.links.length := by
  have hset := length_links_set s.slots.toList id
  rwa [Array.getElem?_toList, ← Array.toList_setIfInBounds] at hset

/-- Gives up the scopes whose numbers are pending and those below them. Nothing is linked to the
slots that were given up, so this ends even if scopes should be linked in a circle. -/
def release (s : ScopeStore) : List Nat → ScopeStore
  | [] => s
  | id :: pending =>
    (s.giveUp id).release
      ((s.slot id).previous.reverse ++ ((s.slot id).children.reverse ++ pending))
termination_by pending => s.links.length + pending.length
decreasing_by
  have hlinks := s.length_links_giveUp id
  simp only [Slot.links, List.length_append, List.length_reverse, List.length_cons] at hlinks ⊢
  omega

/-- Gives up the containers that were not opened again, in the scopes that are pending and in those
below them. No more scopes than the bound are looked at. -/
def sweep (s : ScopeStore) : (bound : Nat) → (pending : List Nat) → ScopeStore
  | bound + 1, id :: pending =>
    let swept := (s.slot id).previous.foldl (fun s stale => s.release [stale])
      (s.modify id ({ · with previous := [] }))
    swept.sweep bound ((swept.slot id).children.reverse ++ pending)
  | _, _ => s

/-- Ends a reading: containers that were not opened again are given up. No scope is below two others,
so each slot is looked at once at most. -/
def endParse (s : ScopeStore) : ScopeStore := s.sweep s.slots.size [rootId]

/-! ### Values -/

/-- The containers with some numbers as values without numbers. No more levels than the bound are
looked at. -/
def containersOf (s : ScopeStore) : (bound : Nat) → (ids : List Nat) → List Container
  | 0, _ => []
  | bound + 1, ids =>
    ids.filterMap fun id =>
      let slot := s.slot id
      slot.scope.symbol.map fun symbol =>
        ⟨symbol, slot.scope.symbols, slot.scope.imports, slot.scope.exports,
          s.containersOf bound slot.children⟩

/-- Everything the slots hold, as a value without numbers. -/
def toFileSymbols (s : ScopeStore) (includes : List String) : FileSymbols where
  symbols := (s.slot rootId).scope.symbols
  imports := (s.slot rootId).scope.imports
  exports := (s.slot rootId).scope.exports
  containers := s.containersOf s.slots.size (s.slot rootId).children
  includes := includes

/-- Adds leaf symbols, imports and exports to a scope. -/
def addAll (s : ScopeStore) (id : Nat) (symbols : List Symbol) (imports exports : List String) :
    ScopeStore :=
  let s := symbols.foldl (fun s symbol => (s.addSymbol id symbol).1) s
  let s := imports.foldl (·.addImport id ·) s
  exports.foldl (·.addExport id ·) s

mutual

/-- Opens a container in a scope and fills it. -/
def restore (parent : Nat) : Container → ScopeStore → ScopeStore
  | ⟨symbol, symbols, imports, exports, containers⟩, s =>
    let (s, id) := s.openContainer parent symbol
    restoreAll id containers (s.addAll id symbols imports exports)

def restoreAll (parent : Nat) : List Container → ScopeStore → ScopeStore
  | [], s => s
  | c :: rest, s => restoreAll parent rest (restore parent c s)

end

/-- Slots with the given contents. -/
def ofFileSymbols (file : FileSymbols) : ScopeStore :=
  restoreAll rootId file.containers (empty.addAll rootId file.symbols file.imports file.exports)

end ScopeStore

end HdlIndex
