import HdlIndex.Position
import HdlIndex.Symbol.Kind

/-! Symbols: what a file declares, where, and in which container. -/

namespace HdlIndex

/-- A range in a file; no file stands for the document itself. -/
structure Location where
  file : Option String
  range : Range
  deriving DecidableEq, Repr, Inhabited

/-- The text of a declaration: one range of the document, or ranges of several files. -/
inductive Definition where
  | single (range : Range)
  | multi (segments : List (String × Range))
  deriving DecidableEq, Repr

namespace Definition

def zero : Definition := .single .zero

instance : Inhabited Definition := ⟨zero⟩

def isMulti : Definition → Bool
  | single _ => false
  | multi _ => true

/-- The files that a definition names, each once, in order of appearance. -/
def files : Definition → List String
  | single _ => []
  | multi segments => (segments.map (·.1)).eraseDups

end Definition

structure Symbol where
  name : String
  kind : SymbolKind
  /-- The whole declaration. -/
  definition : Definition := .zero
  /-- The declared name. -/
  declaration : Option Location := none
  /-- Names of the enclosing containers, outermost first. -/
  containerPath : List String := []
  deriving DecidableEq, Repr, Inhabited

/-- Two symbols are one declaration if name, tag and containers agree. -/
def Symbol.sameKey (s t : Symbol) : Bool :=
  s.name == t.name && s.kind.tag == t.kind.tag && s.containerPath == t.containerPath

/-- Replaces the symbol that is the same declaration, or adds the new one at the end. -/
def Symbol.upsert (symbols : List Symbol) (symbol : Symbol) : List Symbol :=
  match symbols.findIdx? (·.sameKey symbol) with
  | some index => symbols.set index symbol
  | none => symbols ++ [symbol]

/-- A declaration with the scope that it opens. -/
structure Container where
  symbol : Symbol
  symbols : List Symbol := []
  imports : List String := []
  exports : List String := []
  containers : List Container := []

/-- Everything that one file declares. -/
structure FileSymbols where
  symbols : List Symbol := []
  imports : List String := []
  exports : List String := []
  containers : List Container := []
  /-- Paths of all files that were included. -/
  includes : List String := []

instance : Inhabited Container := ⟨{ symbol := default }⟩

instance : Inhabited FileSymbols := ⟨{}⟩

namespace Container

mutual

/-- Equality of containers can be decided. -/
def decEq : (a b : Container) → Decidable (a = b)
  | ⟨s, ss, is, es, cs⟩, ⟨s', ss', is', es', cs'⟩ =>
    if h : s = s' ∧ ss = ss' ∧ is = is' ∧ es = es' then
      match decEqList cs cs' with
      | isTrue hc => isTrue (by simp [h, hc])
      | isFalse hc => isFalse (by simp [hc])
    else isFalse (by intro e; injection e; simp_all)

def decEqList : (as bs : List Container) → Decidable (as = bs)
  | [], [] => isTrue rfl
  | [], _ :: _ => isFalse (by simp)
  | _ :: _, [] => isFalse (by simp)
  | a :: as, b :: bs =>
    match decEq a b, decEqList as bs with
    | isTrue h, isTrue h' => isTrue (by simp [h, h'])
    | isFalse h, _ => isFalse (by simp [h])
    | _, isFalse h' => isFalse (by simp [h'])

end

instance : DecidableEq Container := decEq

/-- Whether the scope of the container declares nothing. -/
def isBare (c : Container) : Bool :=
  c.symbols.isEmpty && c.imports.isEmpty && c.exports.isEmpty && c.containers.isEmpty

/-- The leaf symbol of the scope with the given name. -/
def symbol? (c : Container) (name : String) : Option Symbol :=
  c.symbols.find? (·.name == name)

/-- The container reached from a list of siblings by a path of names. -/
def find? (siblings : List Container) : List String → Option Container
  | [] => none
  | [name] => siblings.find? (·.symbol.name == name)
  | name :: rest =>
    match siblings.find? (·.symbol.name == name) with
    | none => none
    | some c => find? c.containers rest

mutual

/-- The container's own symbol, then the leaves of its scope, then its containers. -/
def allSymbols : Container → List Symbol
  | ⟨symbol, symbols, _, _, containers⟩ => symbol :: (symbols ++ allSymbolsOf containers)

def allSymbolsOf : List Container → List Symbol
  | [] => []
  | c :: rest => c.allSymbols ++ allSymbolsOf rest

end

end Container

deriving instance DecidableEq for FileSymbols

namespace FileSymbols

def find? (file : FileSymbols) (path : List String) : Option Container :=
  Container.find? file.containers path

/-- Every symbol of the file, depth first. -/
def allSymbols (file : FileSymbols) : List Symbol :=
  file.symbols ++ Container.allSymbolsOf file.containers

end FileSymbols

end HdlIndex
