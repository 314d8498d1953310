import HdlIndex.Json.Printer
import HdlIndex.Json.Reader
import HdlIndex.Symbol.Basic
import HdlIndex.Text.Quoted

/-! The compact form of symbol data. Every record is an array with fixed places: absent
elements at the end are left out, absent elements before a present one are `null`, and empty
lists count as absent. The containers around a symbol are not stored; reading rebuilds them
from the nesting. -/

namespace HdlIndex

open Json (Value)

/-! ### Writing -/

namespace Encoding

/-- An array without the `null`s at its end. -/
def record (items : List Value) : Value :=
  .array (items.reverse.dropWhile (fun v => v matches .null)).reverse

/-- A list as an array, or nothing if it is empty. -/
def optionalList : List Value → Value
  | [] => .null
  | items => .array items

def optionalStrings (items : List String) : Value :=
  optionalList (items.map .string)

end Encoding

open Encoding

def Range.encode (r : Range) : Value :=
  .array [.nat r.start.line.toNat, .nat r.start.character.toNat,
    .nat r.stop.line.toNat, .nat r.stop.character.toNat]

def Definition.encode : Definition → Value
  | .single range => range.encode
  | .multi segments => .array (segments.flatMap fun (file, range) => [.string file, range.encode])

def Location.encode (l : Location) : Value :=
  match l.file with
  | none => l.range.encode
  | some file => .array [.string file, l.range.encode]

def Symbol.encode (s : Symbol) : Value :=
  record [.string s.name, .strings s.kind.tag, s.definition.encode,
    .ofOption (s.declaration.map Location.encode), .ofOption (s.kind.detail.map .string)]

namespace Container

mutual

def encode : Container → Value
  | ⟨symbol, symbols, imports, exports, containers⟩ =>
    let scope :=
      if symbols.isEmpty && imports.isEmpty && exports.isEmpty && containers.isEmpty then .null
      else record [optionalList (symbols.map Symbol.encode), optionalStrings imports,
        optionalStrings exports, optionalList (encodeAll containers)]
    record [symbol.encode, scope]

def encodeAll : List Container → List Value
  | [] => []
  | c :: rest => c.encode :: encodeAll rest

end

end Container

def FileSymbols.encode (file : FileSymbols) : Value :=
  record [optionalList (file.symbols.map Symbol.encode), optionalStrings file.imports,
    optionalStrings file.exports, optionalList (Container.encodeAll file.containers),
    optionalStrings file.includes]

/-! ### Reading -/

/-- The part of the data that an error is about. -/
inductive Encoding.Part where
  | range
  | definition
  | declaration
  | symbol
  | symbolName
  | symbolTag
  | symbolDetail
  | symbols
  | imports
  | exports
  | container
  | containerScope
  | containers
  | file
  | includes
  deriving DecidableEq, Repr

/-- What was expected in its place. -/
inductive Encoding.Shape where
  | array
  | string
  | coordinate
  | fourNumbers
  | pairs
  deriving DecidableEq, Repr

/-- Why symbol data could not be read. -/
inductive DecodeError where
  /-- The text is not JSON. -/
  | json
  | shape (expected : Encoding.Shape) (part : Encoding.Part)
  | missing (index : Nat) (part : Encoding.Part)
  | unknownTag (tag : List String)
  deriving DecidableEq, Repr

namespace Encoding

def Part.text : Part → String
  | range => "range"
  | definition => "definition"
  | declaration => "declaration"
  | symbol => "symbol"
  | symbolName => "symbol name"
  | symbolTag => "symbol tag"
  | symbolDetail => "symbol detail"
  | symbols => "symbols"
  | imports => "imports"
  | exports => "exports"
  | container => "container"
  | containerScope => "container scope"
  | containers => "containers"
  | file => "file"
  | includes => "includes"

def Shape.text : Shape → String
  | array => "an array"
  | string => "a string"
  | coordinate => "a line or column number"
  | fourNumbers => "four numbers"
  | pairs => "file and range pairs"

end Encoding

def DecodeError.message : DecodeError → String
  | json => "invalid JSON"
  | shape expected part => "expected " ++ expected.text ++ " for " ++ part.text
  | missing index part => "missing element " ++ index.repr ++ " of " ++ part.text
  | unknownTag tag => "unknown symbol tag " ++ Text.quoteList tag

namespace Encoding

abbrev Decoded (α : Type) := Except DecodeError α

def items (part : Part) : Value → Decoded (List Value)
  | .array items => .ok items
  | _ => .error (.shape .array part)

def text (part : Part) : Value → Decoded String
  | .string s => .ok s
  | _ => .error (.shape .string part)

/-- A line or column: a plain natural number of 32 bits. -/
def coordinate (part : Part) : Value → Decoded UInt32
  | .number (.natural n) =>
    if n < UInt32.size then .ok (.ofNat n) else .error (.shape .coordinate part)
  | _ => .error (.shape .coordinate part)

/-- The element at a place; `null` and places behind the end hold none. -/
def element? (items : List Value) (index : Nat) : Option Value :=
  match items[index]? with
  | some .null => none
  | found => found

def required (part : Part) (items : List Value) (index : Nat) : Decoded Value :=
  match element? items index with
  | some v => .ok v
  | none => .error (.missing index part)

/-- A list of texts; an absent one is empty. -/
def texts (part : Part) : Option Value → Decoded (List String)
  | none => .ok []
  | some v => do (← items part v).mapM (text part)

end Encoding

def Range.decode (v : Value) : Decoded Range := do
  match ← items .range v with
  | [a, b, c, d] =>
    let startLine ← coordinate .range a
    let startCharacter ← coordinate .range b
    let stopLine ← coordinate .range c
    let stopCharacter ← coordinate .range d
    return ⟨⟨startLine, startCharacter⟩, ⟨stopLine, stopCharacter⟩⟩
  | _ => .error (.shape .fourNumbers .range)

/-- Files and ranges in turn. -/
def Encoding.segments : List Value → Decoded (List (String × Range))
  | [] => .ok []
  | [_] => .error (.shape .pairs .definition)
  | a :: b :: rest => do
    let file ← text .definition a
    let range ← Range.decode b
    return (file, range) :: (← segments rest)

def Definition.decode (v : Value) : Decoded Definition := do
  match ← items .definition v with
  | .string file :: rest =>
    if rest.length % 2 == 0 then .error (.shape .pairs .definition)
    else return .multi (← segments (.string file :: rest))
  | _ => return .single (← Range.decode v)

def Location.decode (v : Value) : Decoded Location := do
  let parts ← items .declaration v
  match parts with
  | .string file :: _ => return ⟨some file, ← Range.decode (← required .declaration parts 1)⟩
  | _ => return ⟨none, ← Range.decode v⟩

def Symbol.decode (path : List String) (v : Value) : Decoded Symbol := do
  let parts ← items .symbol v
  let name ← text .symbolName (← required .symbol parts 0)
  let tag ← texts .symbolTag (some (← required .symbol parts 1))
  let definition ← Definition.decode (← required .symbol parts 2)
  let declaration ← (element? parts 3).mapM Location.decode
  let detail ← (element? parts 4).mapM (text .symbolDetail)
  match SymbolKind.ofTag? tag detail with
  | none => .error (.unknownTag tag)
  | some kind => return ⟨name, kind, definition, declaration, path⟩

/-- A list of leaf symbols; an absent one is empty. -/
def Encoding.leaves (path : List String) : Option Value → Decoded (List Symbol)
  | none => .ok []
  | some v => do (← items .symbols v).mapM (Symbol.decode path)

namespace Container

mutual

/-- A container inside the containers of `path`. -/
def decode (path : List String) : Value → Decoded Container
  | .array [] => .error (.missing 0 .container)
  | .array (.null :: _) => .error (.missing 0 .container)
  | .array (first :: rest) => do
    let symbol ← Symbol.decode path first
    decodeScope symbol (path ++ [symbol.name]) rest
  | _ => .error (.shape .array .container)

/-- Adds the scope that stands at the head of the rest of a container record, if any. -/
def decodeScope (symbol : Symbol) (path : List String) : List Value → Decoded Container
  | [] => .ok { symbol }
  | .null :: _ => .ok { symbol }
  | .array parts :: _ => do
    let symbols ← leaves path (element? parts 0)
    let containers ← decodeNested path 3 parts
    let imports ← texts .imports (element? parts 1)
    let exports ← texts .exports (element? parts 2)
    return ⟨symbol, symbols, imports, exports, containers⟩
  | _ :: _ => .error (.shape .array .containerScope)

/-- The containers of a scope record, which stand `index` places on. -/
def decodeNested (path : List String) : Nat → List Value → Decoded (List Container)
  | _, [] => .ok []
  | index + 1, _ :: rest => decodeNested path index rest
  | 0, .null :: _ => .ok []
  | 0, .array parts :: _ => decodeAll path parts
  | 0, _ :: _ => .error (.shape .array .containers)

def decodeAll (path : List String) : List Value → Decoded (List Container)
  | [] => .ok []
  | v :: rest => do
    let c ← decode path v
    return c :: (← decodeAll path rest)

end

end Container

namespace FileSymbols

def decode (v : Value) : Decoded FileSymbols := do
  let parts ← items .file v
  let symbols ← leaves [] (element? parts 0)
  let containers ← Container.decodeNested [] 3 parts
  let imports ← texts .imports (element? parts 1)
  let exports ← texts .exports (element? parts 2)
  let includes ← texts .includes (element? parts 4)
  return ⟨symbols, imports, exports, containers, includes⟩

/-- The compact form as one line of text. -/
def toJson (file : FileSymbols) : String := file.encode.compact

def ofJson (json : String) : Decoded FileSymbols :=
  match Json.parse? json with
  | none => .error .json
  | some v => decode v

end FileSymbols

end HdlIndex
