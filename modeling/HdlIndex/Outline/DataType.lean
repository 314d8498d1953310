import HdlIndex.Outline.Reading

/-! Data types and the members of structs, unions and enums. A body without a name of its own is
a container with a made-up name, which stands for the type. -/

namespace HdlIndex

/-- The type as a text, if it is written at all. -/
def nonEmpty (text : String) : Option String := if text.isEmpty then none else some text

namespace Reading

/-- Reads `name [dims] [= value] {, name [dims] [= value]} ;` and declares each name. The first
declaration starts at `first`. -/
def declarators (doc : Document) (first : Nat) (kind : SymbolKind) (r : Reading) : Reading :=
  (nameList (fun name start r => (r.move (·.skipDeclarator)).declare doc name kind start)
    r.cursor.rest (some first) r).move (·.skipToSemicolon)

/-! ### Bodies -/

def enumMembers (doc : Document) (r : Reading) : Reading :=
  (nameList (fun name start r => (r.move (·.skipDeclarator)).declare doc name .enumMember start)
    r.cursor.rest none r).move (·.skipUntil fun t => t.role == .braceClose || t.isRegionEnd)

/-- Reads one declaration of members. `dataType` reads a type and gives its text. -/
def fieldDeclaration (doc : Document) (dataType : Reading → String × Reading) (r : Reading) :
    Reading :=
  let (type, next) := dataType (r.move (·.skipWhile (·.role == .modifier)))
  let next :=
    if next.is .identifier then next.declarators doc r.cursor.nextStart (.field type)
    else next.move (·.skipToSemicolon)
  next.bumpIfAt r.cursor

def fields (doc : Document) (dataType : Reading → String × Reading) (r : Reading) : Reading :=
  r.whileNext (fun t => t.role != .braceClose && !t.isRegionEnd) (fieldDeclaration doc dataType)

/-- Reads a body from its keyword on, with what stands between the keyword and the brace. -/
def aggregateBody (doc : Document) (dataType : Reading → String × Reading) (r : Reading) :
    Reading :=
  let inside := r.bump.move
    (·.skipUntil fun t => t.role == .braceOpen || t.role == .semicolon || t.isRegionEnd)
  if inside.is .braceOpen then
    let members := if r.is .enumeration then enumMembers doc else fields doc dataType
    (members inside.bump).eat .braceClose
  else inside

/-- The kind of a body without a name. -/
def aggregateKind : String → SymbolKind
  | "union" => .unionType
  | "enum" => .enumType
  | _ => .structType

/-- Reads a body without a name, from its keyword on. The first result is its made-up name. -/
def anonymousAggregate (doc : Document) (dataType : Reading → String × Reading) (r : Reading) :
    String × Reading :=
  match r.cursor.rest with
  | [] => ("", r)
  | keyword :: _ =>
    let (table, name) := r.table.anonymousName keyword.text
    let symbol := { doc.named keyword (aggregateKind keyword.text) with name }
    (name, ({ r with table }).within doc symbol keyword.start (aggregateBody doc dataType))

/-! ### Types -/

/-- The made-up name of a body with the dimensions behind it. -/
def withDimensions (name dimensions : String) : String :=
  if dimensions.isEmpty then name else name ++ " " ++ dimensions

/-- Reads a data type, if there is one, and gives its text. The tokens left bound how deep bodies
nest. -/
def dataTypeWithin (doc : Document) : (bound : List OutlineToken) → Reading → String × Reading
  | [], r => ("", r)
  | _ :: bound, r =>
    let lead := r.move (·.skipTypeLead)
    if lead.is .aggregate || lead.is .enumeration then
      let (name, body) := lead.anonymousAggregate doc (dataTypeWithin doc bound)
      let next := body.move (·.skipPackedDimensions)
      (withDimensions name (doc.textBetween body.cursor next.cursor), next)
    else
      let next := lead.move (·.skipTypeName.skipPackedDimensions)
      (doc.textBetween r.cursor next.cursor, next)

def dataType (doc : Document) (r : Reading) : String × Reading :=
  dataTypeWithin doc r.cursor.rest r

end Reading

end HdlIndex
