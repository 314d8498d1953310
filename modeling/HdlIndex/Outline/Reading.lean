import HdlIndex.Outline.Origin
import HdlIndex.Outline.Statement
import HdlIndex.Symbol.Table
import HdlIndex.Text.Class

/-! The state of a reading: the place in the tokens, the symbols found so far and the scopes
that are open. -/

namespace HdlIndex

/-- A processed document that an outline is read from. -/
structure Document where
  origins : Origins
  text : String
  deriving Repr, Inhabited

namespace Document

def ofPreprocessed (p : Preprocessed) : Document := ⟨.ofPreprocessed p, p.stream.text⟩

/-- The text of the tokens between two places, with single spaces for blanks. -/
def textBetween (doc : Document) (first last : Cursor) : String :=
  " ".intercalate (Text.fields (Text.slice doc.text first.nextStart last.stop))

/-- A symbol that the token `name` declares. How far the declaration goes is not known yet. -/
def named (doc : Document) (name : OutlineToken) (kind : SymbolKind) : Symbol where
  name := name.text
  kind := kind
  declaration := doc.origins.location name.start name.stop

/-- A symbol for the declaration from `start` up to `stop`, which the token `name` declares. -/
def symbol (doc : Document) (name : OutlineToken) (kind : SymbolKind) (start stop : Nat) : Symbol :=
  { doc.named name kind with definition := doc.origins.definition start stop }

end Document

/-- Adds a text to a sorted list without repetitions. -/
def insertSorted (item : String) : List String → List String
  | [] => [item]
  | head :: rest =>
    if item = head then head :: rest
    else if item < head then item :: head :: rest
    else head :: insertSorted item rest

/-- A token that no rule takes, and where it stands. -/
structure SkippedToken where
  text : String
  place : String
  deriving DecidableEq, Repr, Inhabited

structure Reading where
  cursor : Cursor
  table : SymbolTable
  /-- The open scopes, the innermost first. The file scope is always open. -/
  scopes : List Nat := [SymbolTable.rootId]
  /-- Packages that the document refers to, in order. -/
  packages : List String := []
  skipped : Array SkippedToken := #[]
  deriving Inhabited

namespace Reading

/-! ### Moving -/

def move (r : Reading) (f : Cursor → Cursor) : Reading := { r with cursor := f r.cursor }

def is (r : Reading) (role : Role) : Bool := r.cursor.is role

def bump (r : Reading) : Reading := r.move (·.bump)

def eat (r : Reading) (role : Role) : Reading := r.move (·.eat role)

/-- Makes sure that at least one token has been read since an earlier place. -/
def bumpIfAt (r : Reading) (earlier : Cursor) : Reading :=
  if r.cursor.pos = earlier.pos then r.bump else r

/-- Repeats a step as long as the next token satisfies a test. -/
def whileNext (test : OutlineToken → Bool) (step : Reading → Reading) (r : Reading) : Reading :=
  iterate (fun r : Reading => if r.cursor.nextIs test then some (step r) else none) r.cursor.rest r

/-- Reads names with commas between them. `entry` reads what follows a name; it is given the
start of the declaration, which for the first name is `first`, if given, and for the others the
name itself. -/
def nameList (entry : OutlineToken → Nat → Reading → Reading) :
    (bound : List OutlineToken) → (first : Option Nat) → Reading → Reading
  | [], _, r => r
  | _ :: bound, first, r =>
    match r.cursor.identifier? with
    | none => r
    | some name =>
      let r := entry name (first.getD name.start) r.bump
      if r.is .comma then nameList entry bound none r.bump else r

/-! ### Declaring -/

/-- The innermost open scope. -/
def scope (r : Reading) : Nat := r.scopes.headD SymbolTable.rootId

/-- Declares a symbol without a scope of its own. The declaration goes from `start` to the last
token read. -/
def declare (doc : Document) (name : OutlineToken) (kind : SymbolKind) (start : Nat)
    (r : Reading) : Reading :=
  { r with
    table := (r.table.addSymbol r.scope (doc.symbol name kind start r.cursor.stop)).1 }

/-- Opens the scope of a container. -/
def enter (symbol : Symbol) (r : Reading) : Reading :=
  let (table, id) := r.table.openContainer r.scope symbol
  { r with table, scopes := id :: r.scopes }

/-- Closes the innermost scope. Its declaration goes from `start` to the last token read. -/
def leave (doc : Document) (start : Nat) (r : Reading) : Reading :=
  match r.scopes with
  | id :: outer :: scopes =>
    { r with
      table := r.table.setDefinition id (doc.origins.definition start r.cursor.stop)
      scopes := outer :: scopes }
  | _ => r

/-- Declares a container: opens its scope, reads its contents and closes it. -/
def within (doc : Document) (symbol : Symbol) (start : Nat) (body : Reading → Reading)
    (r : Reading) : Reading :=
  (body (r.enter symbol)).leave doc start

/-- Notes that a package is referred to. -/
def addPackage (package : String) (r : Reading) : Reading :=
  { r with packages := insertSorted package r.packages }

/-- Passes over a token that no rule takes. -/
def skipUnexpected (doc : Document) (r : Reading) : Reading :=
  match r.cursor.rest with
  | [] => r
  | t :: _ => { r.bump with skipped := r.skipped.push ⟨t.text, doc.origins.describe t.start⟩ }

end Reading

end HdlIndex
