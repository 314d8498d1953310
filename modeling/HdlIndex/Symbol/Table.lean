import HdlIndex.Symbol.Basic

/-! The symbol table that a document is read into. It is a tree of scopes, each with a
number that stays the same while the container it belongs to keeps being declared: a container
that is opened again keeps its number and loses its contents, and the containers it had before
stay at hand until the reading ends. Those that were not opened again then give up their
numbers, and the number given up last is handed out first.

A number that was given up names an empty scope outside the tree. It can be written to like any
other, but nothing outside the tree belongs to the file, and what was written is lost when the
number is handed out again. -/

namespace HdlIndex

/-- What is declared in a scope, apart from containers. The file scope has no symbol. -/
structure Scope where
  symbol : Option Symbol := none
  /-- Containers around everything declared inside. -/
  path : List String := []
  symbols : List Symbol := []
  imports : List String := []
  exports : List String := []
  deriving DecidableEq, Repr, Inhabited

namespace Scope

/-- The scope of a container that is declared for the first time. -/
def ofSymbol (symbol : Symbol) : Scope :=
  { symbol := some symbol, path := symbol.containerPath ++ [symbol.name] }

/-- Whether the scope belongs to the container that `symbol` declares. -/
def isFor (symbol : Symbol) (s : Scope) : Bool :=
  s.symbol.any (·.sameKey symbol)

/-- The scope without what was declared in it. -/
def clear (s : Scope) : Scope := { s with symbols := [], imports := [], exports := [] }

/-- The scope emptied for a new declaration of its container. -/
def reopen (symbol : Symbol) (s : Scope) : Scope := { s.clear with symbol := some symbol }

/-- A symbol as it is declared in the scope. -/
def located (s : Scope) (symbol : Symbol) : Symbol := { symbol with containerPath := s.path }

/-- The place that a symbol has, or gets, among the symbols of the scope. -/
def placeOf (symbol : Symbol) (s : Scope) : Nat :=
  (s.symbols.findIdx? (·.sameKey (s.located symbol))).getD s.symbols.length

def addSymbol (symbol : Symbol) (s : Scope) : Scope :=
  { s with symbols := Symbol.upsert s.symbols (s.located symbol) }

/-- Adds a text to a list unless it is there already. -/
def addOnce (items : List String) (item : String) : List String :=
  if items.contains item then items else items ++ [item]

def addImport (name : String) (s : Scope) : Scope := { s with imports := addOnce s.imports name }

def addExport (name : String) (s : Scope) : Scope := { s with exports := addOnce s.exports name }

/-- Notes the extent of the container. -/
def setDefinition (definition : Definition) (s : Scope) : Scope :=
  { s with symbol := s.symbol.map ({ · with definition }) }

end Scope

/-- A scope of the tree with its number. -/
structure Node where
  id : Nat
  scope : Scope := {}
  /-- Containers declared inside, in order. -/
  children : List Node := []
  /-- Containers of an earlier reading that this one has not opened. -/
  previous : List Node := []

instance : Inhabited Node := ⟨{ id := 0 }⟩

namespace Node

mutual

/-- The scope with the given number. -/
def find? (id : Nat) : Node → Option Node
  | ⟨i, scope, children, previous⟩ =>
    if i = id then some ⟨i, scope, children, previous⟩
    else (findIn? id children).or (findIn? id previous)

def findIn? (id : Nat) : List Node → Option Node
  | [] => none
  | n :: rest => (n.find? id).or (findIn? id rest)

end

mutual

/-- The number of the scope around the scope with the given number. -/
def parentOf? (id : Nat) : Node → Option Nat
  | ⟨i, _, children, previous⟩ =>
    if (children ++ previous).any (·.id == id) then some i
    else (parentIn? id children).or (parentIn? id previous)

def parentIn? (id : Nat) : List Node → Option Nat
  | [] => none
  | n :: rest => (n.parentOf? id).or (parentIn? id rest)

end

mutual

/-- Changes the scope with the given number. -/
def update (id : Nat) (f : Node → Node) : Node → Node
  | ⟨i, scope, children, previous⟩ =>
    if i = id then f ⟨i, scope, children, previous⟩
    else ⟨i, scope, updateAll id f children, updateAll id f previous⟩

def updateAll (id : Nat) (f : Node → Node) : List Node → List Node
  | [] => []
  | n :: rest => n.update id f :: updateAll id f rest

end

/-- Empties a scope; its containers stay at hand. -/
def reset (n : Node) : Node :=
  { n with scope := n.scope.clear, children := [], previous := n.previous ++ n.children }

/-- Empties a scope for a new declaration of its container. -/
def reopen (symbol : Symbol) (n : Node) : Node :=
  { n.reset with scope := n.scope.reopen symbol }

/-- Opens a container that was declared inside before, in this reading. -/
def openAgain (n : Node) (id : Nat) (symbol : Symbol) : Node :=
  { n with children := n.children.map fun c => if c.id == id then c.reopen symbol else c }

/-- Opens a container of an earlier reading. -/
def openPrevious (n child : Node) (symbol : Symbol) : Node :=
  { n with
    children := n.children ++ [child.reopen symbol]
    previous := n.previous.filter (·.id != child.id) }

def addChild (n child : Node) : Node := { n with children := n.children ++ [child] }

mutual

/-- Numbers below a scope in the order in which they are given up: the scope itself, then what
it holds from the last to the first, containers of an earlier reading before the others. -/
def releaseOrder : Node → List Nat
  | ⟨i, _, children, previous⟩ => i :: (releaseOrderOf previous ++ releaseOrderOf children)

def releaseOrderOf : List Node → List Nat
  | [] => []
  | n :: rest => releaseOrderOf rest ++ n.releaseOrder

end

mutual

/-- Numbers of the containers that were not opened again, in the order in which they are given
up when the reading ends: scope by scope, the last container of a scope first. -/
def staleIds : Node → List Nat
  | ⟨_, _, children, previous⟩ => previous.flatMap releaseOrder ++ staleIdsOf children

def staleIdsOf : List Node → List Nat
  | [] => []
  | n :: rest => staleIdsOf rest ++ n.staleIds

end

mutual

/-- Drops the containers that were not opened again. -/
def sweep : Node → Node
  | ⟨i, scope, children, _⟩ => ⟨i, scope, sweepAll children, []⟩

def sweepAll : List Node → List Node
  | [] => []
  | n :: rest => n.sweep :: sweepAll rest

end

mutual

/-- The container of a scope as a value without numbers; the file scope is none. -/
def toContainer? : Node → Option Container
  | ⟨_, scope, children, _⟩ =>
    scope.symbol.map fun symbol =>
      ⟨symbol, scope.symbols, scope.imports, scope.exports, containersOf children⟩

def containersOf : List Node → List Container
  | [] => []
  | n :: rest => n.toContainer?.toList ++ containersOf rest

end

end Node

/-- A scope outside the tree. Its containers are named by number, as it may contain itself. -/
structure Stray where
  id : Nat
  scope : Scope := {}
  parent : Option Nat := none
  children : List Nat := []
  previous : List Nat := []
  deriving DecidableEq, Repr, Inhabited

/-- Empties a scope outside the tree for a new declaration of its container. -/
def Stray.reopen (symbol : Symbol) (s : Stray) : Stray :=
  { s with scope := s.scope.reopen symbol, children := [], previous := s.previous ++ s.children }

/-- The scopes of one file. -/
structure SymbolTable where
  root : Node := { id := 0 }
  /-- How many numbers are in use or given up. -/
  slots : Nat := 1
  /-- Numbers given up, the last one first. -/
  free : List Nat := []
  /-- How many containers without a name were counted. -/
  anonymous : Nat := 0
  /-- Scopes outside the tree that were written to. -/
  strays : List Stray := []

namespace SymbolTable

/-- The number of the file scope. -/
def rootId : Nat := 0

def empty : SymbolTable := {}

instance : Inhabited SymbolTable := ⟨empty⟩

def nodeCount (t : SymbolTable) : Nat := t.slots - t.free.length

/-! ### Scopes by number -/

/-- The scope outside the tree with a number. -/
def stray (t : SymbolTable) (id : Nat) : Stray :=
  (t.strays.find? (·.id == id)).getD { id }

def putStray (t : SymbolTable) (s : Stray) : SymbolTable :=
  { t with strays := s :: t.strays.filter (·.id != s.id) }

def scope (t : SymbolTable) (id : Nat) : Scope :=
  match t.root.find? id with
  | some n => n.scope
  | none => (t.stray id).scope

/-- The number of the scope around a scope. -/
def parent? (t : SymbolTable) (id : Nat) : Option Nat :=
  match t.root.find? id with
  | some _ => t.root.parentOf? id
  | none => (t.stray id).parent

/-- Changes a scope. -/
def update (t : SymbolTable) (id : Nat) (f : Scope → Scope) : SymbolTable :=
  if (t.root.find? id).isSome then
    { t with root := t.root.update id fun n => { n with scope := f n.scope } }
  else t.putStray { t.stray id with scope := f (t.stray id).scope }

/-! ### Declaring -/

/-- Adds a leaf symbol to a scope, in place of an earlier one of the same key. The second
result is its place in the scope. -/
def addSymbol (t : SymbolTable) (id : Nat) (symbol : Symbol) : SymbolTable × Nat :=
  (t.update id (·.addSymbol symbol), (t.scope id).placeOf symbol)

def addImport (t : SymbolTable) (id : Nat) (name : String) : SymbolTable :=
  t.update id (·.addImport name)

def addExport (t : SymbolTable) (id : Nat) (name : String) : SymbolTable :=
  t.update id (·.addExport name)

/-- Notes the extent of a container. -/
def setDefinition (t : SymbolTable) (id : Nat) (definition : Definition) : SymbolTable :=
  t.update id (·.setDefinition definition)

/-- The number that the next new scope gets. -/
def nextId (t : SymbolTable) : Nat := t.free.headD t.slots

/-- Takes the next number out of the supply. What was written under it is lost. -/
def takeId (t : SymbolTable) : SymbolTable :=
  let t := { t with strays := t.strays.filter (·.id != t.nextId) }
  match t.free with
  | [] => { t with slots := t.slots + 1 }
  | _ :: rest => { t with free := rest }

/-- Opens a container in a scope of the tree. -/
def openIn (t : SymbolTable) (n : Node) (symbol : Symbol) : SymbolTable × Nat :=
  let updated (t : SymbolTable) (f : Node → Node) : SymbolTable :=
    { t with root := t.root.update n.id f }
  match n.children.find? (·.scope.isFor symbol), n.previous.find? (·.scope.isFor symbol) with
  | some child, _ => (updated t (·.openAgain child.id symbol), child.id)
  | none, some child => (updated t (·.openPrevious child symbol), child.id)
  | none, none =>
    (updated t.takeId (·.addChild { id := t.nextId, scope := .ofSymbol symbol }), t.nextId)

/-- Opens a container in a scope outside the tree. The scope may be given its own number. -/
def openInStray (t : SymbolTable) (s : Stray) (symbol : Symbol) : SymbolTable × Nat :=
  let isFor (id : Nat) : Bool := (t.stray id).scope.isFor symbol
  let reopened (t : SymbolTable) (id : Nat) : SymbolTable := t.putStray ((t.stray id).reopen symbol)
  match s.children.find? isFor, s.previous.find? isFor with
  | some id, _ => (reopened t id, id)
  | none, some id =>
    let moved := { s with children := s.children ++ [id], previous := s.previous.filter (· != id) }
    (reopened (t.putStray moved) id, id)
  | none, none =>
    let id := t.nextId
    let t := t.takeId.putStray { id, scope := .ofSymbol symbol, parent := some s.id }
    let parent := t.stray s.id
    (t.putStray { parent with children := parent.children ++ [id] }, id)

/-- Opens the container that `symbol` declares in a scope. If the scope has it, from this
reading or the one before, it is emptied and keeps its number; otherwise a new scope is made.
The second result is the number. -/
def openContainer (t : SymbolTable) (parent : Nat) (symbol : Symbol) : SymbolTable × Nat :=
  match t.root.find? parent with
  | some n => t.openIn n (n.scope.located symbol)
  | none => t.openInStray (t.stray parent) ((t.stray parent).scope.located symbol)

/-! ### Readings -/

/-- Starts a reading: the file scope is emptied and its containers stay at hand. -/
def beginParse (t : SymbolTable) : SymbolTable :=
  { t with root := t.root.reset, anonymous := 0 }

/-- Ends a reading: containers that were not opened again are dropped. -/
def endParse (t : SymbolTable) : SymbolTable :=
  { t with root := t.root.sweep, free := t.root.staleIds.reverse ++ t.free }

/-- A name for a body without one, such as `struct#0`. The second result is the name. -/
def anonymousName (t : SymbolTable) (stem : String) : SymbolTable × String :=
  ({ t with anonymous := t.anonymous + 1 }, stem ++ "#" ++ t.anonymous.repr)

/-- Everything the table holds, as a value without numbers. -/
def toFileSymbols (t : SymbolTable) (includes : List String) : FileSymbols where
  symbols := t.root.scope.symbols
  imports := t.root.scope.imports
  exports := t.root.scope.exports
  containers := Node.containersOf t.root.children
  includes := includes

/-- Adds leaf symbols, imports and exports to a scope. -/
def addAll (t : SymbolTable) (id : Nat) (symbols : List Symbol) (imports exports : List String) :
    SymbolTable :=
  let t := symbols.foldl (fun t s => (t.addSymbol id s).1) t
  let t := imports.foldl (·.addImport id ·) t
  exports.foldl (·.addExport id ·) t

mutual

/-- Opens a container in a scope and fills it. -/
def restore (parent : Nat) : Container → SymbolTable → SymbolTable
  | ⟨symbol, symbols, imports, exports, containers⟩, t =>
    let (t, id) := t.openContainer parent symbol
    restoreAll id containers (t.addAll id symbols imports exports)

def restoreAll (parent : Nat) : List Container → SymbolTable → SymbolTable
  | [], t => t
  | c :: rest, t => restoreAll parent rest (restore parent c t)

end

/-- A table with the given contents. -/
def ofFileSymbols (file : FileSymbols) : SymbolTable :=
  restoreAll rootId file.containers (empty.addAll rootId file.symbols file.imports file.exports)

end SymbolTable

end HdlIndex
