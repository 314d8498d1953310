import HdlIndex.Outline.DataType

/-! Declarations without a body of items: data, instances, ports, parameters, type aliases,
modports, imports and exports. A rule that does not apply gives nothing. -/

namespace HdlIndex

namespace Reading

/-! ### Data and instances -/

/-- A variable or net, with the type it is declared with. -/
def dataDeclaration? (doc : Document) (r : Reading) : Option Reading :=
  let lead := r.move (·.skipWhile fun t =>
    t.role == .modifier && t.text != "signed" && t.text != "unsigned")
  let (type, next) := lead.dataType doc
  if next.is .identifier then
    let kind : SymbolKind := if lead.is .netType then .net type else .dataVariable type
    some (next.declarators doc r.cursor.nextStart kind)
  else if next.cursor.pos = r.cursor.pos then none
  else some (next.move (·.skipToSemicolon))

/-- `type [#(...)] name [dims] (...) {, name [dims] (...)} ;` -/
def instances? (doc : Document) (r : Reading) : Option Reading :=
  let type := r.move (·.skipPackages)
  if type.is .identifier then
    let next := type.bump
    let kind : SymbolKind := .moduleInstance (doc.textBetween r.cursor next.cursor)
    let next := if next.is .hash then next.bump.move (·.skipGroup) else next
    let entry name start (r : Reading) :=
      (r.move (·.skipDimensions.skipBalanced)).declare doc name kind start
    some ((nameList entry next.cursor.rest (some r.cursor.nextStart) next).move (·.skipToSemicolon))
  else none

/-- An item that starts with an identifier: a label, an instance, or data of a named type. -/
def identifierItem? (doc : Document) (r : Reading) : Option Reading :=
  if r.is .identifier && r.cursor.nthIs 1 .colon then some r.bump.bump
  else
    let name := r.cursor.skipTypeReference.skipDimensions
    if !name.is .identifier then none
    else if name.bump.skipDimensions.is .parenOpen then r.instances? doc
    else r.dataDeclaration? doc

/-- Whether a type, a name and then `;`, `,`, `=` or a dimension stand here. -/
def looksLikeDeclaration (c : Cursor) : Bool :=
  let name := c.skipTypeReference.skipDimensions
  name.is .identifier && name.bump.nextIs fun t =>
    t.role == .semicolon || t.role == .comma || t.role == .equals || t.role == .bracketOpen

/-! ### Ports and parameters -/

/-- A port declaration in a body. -/
def portDeclaration (doc : Document) (r : Reading) : Reading :=
  let (type, next) := r.bump.dataType doc
  next.declarators doc r.cursor.nextStart (.port (nonEmpty type))

/-- Whether the entries of a list in parentheses go on. -/
def listGoesOn (t : OutlineToken) : Bool :=
  t.role != .parenClose && t.role != .semicolon && !t.isRegionEnd

/-- Reads one port of a list. A port without a direction and a type of its own has the type of
the port in front of it. -/
def portEntry (doc : Document) (inherited : Option String) (r : Reading) :
    Option String × Reading :=
  let (written, next) := (r.eat .direction).dataType doc
  let type := if r.is .direction || !written.isEmpty then nonEmpty written else inherited
  let dotted := next.is .dot
  let next := next.eat .dot
  let name := next.cursor.identifier?
  let next := next.eat .identifier
  let next := if dotted then next.move (·.skipBalanced) else next
  let next :=
    match name with
    | none => next
    | some name =>
      (next.move (·.skipDeclarator)).declare doc name (.port type) r.cursor.nextStart
  (type, (next.move (·.skipExpression.eat .comma)).bumpIfAt r.cursor)

/-- Reads a list of ports from its opening parenthesis on. -/
def portList (doc : Document) (r : Reading) : Reading :=
  let step : Option String × Reading → Option (Option String × Reading) := fun (type, r) =>
    if r.cursor.nextIs listGoesOn then some (portEntry doc type r) else none
  (iterate step r.cursor.rest (none, r.bump)).2.eat .parenClose

/-- Reads one parameter of a list in a header. -/
def parameterEntry (doc : Document) (r : Reading) : Reading :=
  let (_, next) := (r.move fun c => (c.eat .parameter).eatText "type").dataType doc
  let next :=
    match next.cursor.identifier? with
    | none => next
    | some name =>
      (next.bump.move (·.skipDeclarator)).declare doc name .parameterPort r.cursor.nextStart
  (next.move (·.skipExpression.eat .comma)).bumpIfAt r.cursor

/-- Reads a list of parameters, `#(...)`, from its `#` on. -/
def parameterPortList (doc : Document) (r : Reading) : Reading :=
  let r := r.bump
  if r.is .parenOpen then (r.bump.whileNext listGoesOn (parameterEntry doc)).eat .parenClose
  else r

/-- A parameter declaration in a body. -/
def parameterDeclaration (doc : Document) (r : Reading) : Reading :=
  let kind : SymbolKind :=
    if r.cursor.isText "localparam" then .localParameter else .parameter
  let (_, next) := (r.bump.move (·.eatText "type")).dataType doc
  next.declarators doc r.cursor.nextStart kind

/-! ### Type aliases -/

/-- An alias that the token `name` declares; `body` reads what belongs to it. -/
def declareAlias (doc : Document) (name : OutlineToken) (aliased : String) (start : Nat)
    (body : Reading → Reading) (r : Reading) : Reading :=
  r.within doc (doc.named name (.typeAlias aliased)) start body

/-- Reads `name [dims] ;` and declares the alias, if there is a name. -/
def finishAlias (doc : Document) (aliased : String) (start : Nat) (r : Reading) : Reading :=
  match r.cursor.identifier? with
  | some name => (r.bump.move (·.skipToSemicolon)).declareAlias doc name aliased start id
  | none => r.move (·.skipToSemicolon)

/-- `struct|union|enum ... {...} name;` behind `typedef`. The name stands behind the body, so it
is looked up first. -/
def aggregateAlias (doc : Document) (start : Nat) (r : Reading) : Reading :=
  let body := r.cursor.bump.skipUntil fun t =>
    t.role == .braceOpen || t.role == .semicolon || t.isRegionEnd
  match body.skipBalanced.skipDimensions.identifier? with
  | none => r.move (·.skipToSemicolon)
  | some name =>
    let read (r : Reading) : Reading :=
      (if body.nextIs (·.isOpen) then r.aggregateBody doc (dataType doc) else r).move
        (·.skipToSemicolon)
    r.declareAlias doc name r.cursor.nextText start read

/-- A word that announces a class, as in `typedef class c;` or `typedef interface class c;`. -/
def isForward (t : OutlineToken) : Bool := t.role == .construct || t.text == "interface"

def typeAlias (doc : Document) (r : Reading) : Reading :=
  let start := r.cursor.nextStart
  let type := r.bump
  if type.is .aggregate || type.is .enumeration then type.aggregateAlias doc start
  else if type.cursor.nextIs isForward then
    let next := type.move (·.skipWhile isForward)
    next.finishAlias doc (doc.textBetween type.cursor next.cursor) start
  else
    let (aliased, next) := type.dataType doc
    next.finishAlias doc aliased start

/-! ### Modports, imports and exports -/

/-- `modport name (...) {, name (...)} ;` -/
def modportDeclaration (doc : Document) (r : Reading) : Reading :=
  let entry name start (r : Reading) := (r.move (·.skipBalanced)).declare doc name .modport start
  (nameList entry r.cursor.rest (some r.cursor.nextStart) r.bump).move (·.skipToSemicolon)

def genvarDeclaration (doc : Document) (r : Reading) : Reading :=
  r.bump.declarators doc r.cursor.nextStart .genvar

/-- The part of a list of characters in front of the first `::`, if there is one. -/
def beforeColons : List Char → Option (List Char)
  | ':' :: ':' :: _ => some []
  | [] => none
  | c :: cs => (beforeColons cs).map (c :: ·)

/-- Whether package items are taken in or passed on. -/
inductive Transfer where
  | importing
  | exporting
  deriving DecidableEq, Repr

/-- Notes one item, `pkg::name` or `pkg::*`. -/
def packageItem (transfer : Transfer) (item : String) (r : Reading) : Reading :=
  match beforeColons item.toList with
  | none => r
  | some package =>
    let r := if package = ['*'] then r else r.addPackage (.ofList package)
    { r with
      table := match transfer with
        | .importing => r.table.addImport r.scope item
        | .exporting => r.table.addExport r.scope item }

/-- Reads package items with commas between them, and the semicolon. -/
def packageItems (doc : Document) (transfer : Transfer) :
    (bound : List OutlineToken) → Reading → Reading
  | [], r => r
  | _ :: bound, r =>
    let next := r.move (·.skipExpression)
    let item := "".intercalate (Text.fields (doc.textBetween r.cursor next.cursor))
    let next := next.packageItem transfer item
    if next.is .comma then next.bump.packageItems doc transfer bound
    else next.move (·.skipToSemicolon)

/-- Package exports. The export of a foreign routine declares nothing. -/
def exportItems (doc : Document) (r : Reading) : Reading :=
  let next := r.bump
  if next.is .string then next.move (·.skipToSemicolon)
  else next.packageItems doc .exporting next.cursor.rest

/-! ### Lets and net types -/

/-- `let name [(args)] = value;` -/
def letDeclaration (doc : Document) (r : Reading) : Reading :=
  let next := r.bump
  match next.cursor.identifier? with
  | none => next.move (·.skipToSemicolon)
  | some name =>
    (next.bump.move (·.skipToSemicolon)).declare doc name .letDecl r.cursor.nextStart

/-- `nettype type name [with resolver];`. The name is the last identifier outside brackets. -/
def nettypeDeclaration (doc : Document) (r : Reading) : Reading :=
  let stop (t : OutlineToken) : Bool := t.role == .semicolon || t.text == "with" || t.isRegionEnd
  let next := r.bump.move fun c => (c.skipUntil stop).skipToSemicolon
  match Cursor.lastOutside stop (·.role == .identifier) 0 none r.bump.cursor.rest with
  | none => next
  | some name => next.declare doc name .nettype r.cursor.nextStart

end Reading

end HdlIndex
