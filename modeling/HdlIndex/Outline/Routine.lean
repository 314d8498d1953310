import HdlIndex.Outline.Declaration

/-! Functions and tasks, imports, and constructs that are noted by name while their bodies are
skipped. -/

namespace HdlIndex

namespace Reading

/-! ### Headers -/

/-- Where the header of a routine stops: at its arguments, its semicolon or the end of a
region. -/
def stopsRoutineHeader (t : OutlineToken) : Bool :=
  t.role == .parenOpen || t.role == .semicolon || t.isRegionEnd

/-- The name of a routine is the last identifier of its header outside brackets, or `new`. -/
def routineName? (c : Cursor) : Option OutlineToken :=
  Cursor.lastOutside stopsRoutineHeader (fun t => t.role == .identifier || t.text == "new") 0 none
    c.rest

/-- The last token of the return type, which is what stands in front of the name without the
class or package that the name is qualified with. -/
def returnTypeEnd? (c : Cursor) (name : OutlineToken) : Option OutlineToken :=
  ((c.rest.takeWhile (·.start < name.start)).reverse.dropWhile fun t =>
    t.role == .scopeResolution || t.role == .packageName).head?

def returnType (doc : Document) (c : Cursor) (name : OutlineToken) : Option String :=
  (returnTypeEnd? c name).bind fun last => nonEmpty (doc.textBetween c { c with stop := last.stop })

/-- A function or task, from its keyword on. `body` reads what follows the header. -/
def routine (doc : Document) (start : Nat) (body : Reading → Reading) (r : Reading) : Reading :=
  let header := r.bump.move (·.skipWhile (·.role == .modifier))
  let next := header.move (·.skipUntil stopsRoutineHeader)
  match routineName? header.cursor with
  | none => next.move (·.skipToSemicolon)
  | some name =>
    let kind : SymbolKind :=
      if r.cursor.isText "task" then .task else .function (returnType doc header.cursor name)
    next.within doc (doc.named name kind) start fun r =>
      let r := if r.is .parenOpen then r.portList doc else r
      body (r.eat .semicolon)

/-! ### Imports -/

/-- Package imports, or the prototype of a foreign routine: a string, words and a routine without
a body. -/
def importItems (doc : Document) (r : Reading) : Reading :=
  let next := r.bump
  if next.is .string then
    let next := next.bump.move (·.skipWhile fun t =>
      t.role == .modifier || t.role == .identifier || t.role == .equals)
    if next.is .routine then next.routine doc r.cursor.nextStart id
    else next.move (·.skipToSemicolon)
  else next.packageItems doc .importing next.cursor.rest

/-! ### Bodies -/

/-- Whether the token ends the body of a routine, or the region around it. -/
def endsRoutineBody (t : OutlineToken) : Bool :=
  match t.role with
  | .endRoutine | .endContainer | .endPackage | .endGenerate | .endConstruct => true
  | _ => false

/-- Reads a declaration or a statement of a body. -/
def routineItem (doc : Document) (r : Reading) : Reading :=
  let next :=
    match r.cursor.rest.head?.map (·.role) with
    | some .direction => r.portDeclaration doc
    | some .parameter => r.parameterDeclaration doc
    | some .typeAlias => r.typeAlias doc
    | some .importing => r.importItems doc
    | some .dataType | some .netType | some .aggregate | some .enumeration | some .modifier =>
      (r.dataDeclaration? doc).getD r
    | some .identifier | some .packageName =>
      if looksLikeDeclaration r.cursor then (r.dataDeclaration? doc).getD r
      else r.move (·.skipStatement)
    | _ => r.move (·.skipStatement)
  next.bumpIfAt r.cursor

/-- Reads up to and with the end keyword of a routine and its label. -/
def routineBody (doc : Document) (r : Reading) : Reading :=
  let next := r.whileNext (!endsRoutineBody ·) (routineItem doc)
  if next.is .endRoutine then next.bump.move (·.eatLabel) else next

/-! ### Constructs -/

/-- The kind of a construct that is noted. -/
def constructKind? : String → Option SymbolKind
  | "class" => some .classType
  | "covergroup" => some .covergroup
  | "property" => some .property
  | "sequence" => some .sequence
  | "checker" => some .checker
  | "clocking" => some .clocking
  | "primitive" => some .primitive
  | "config" => some .config
  | _ => none

/-- The keyword that ends a construct. -/
def constructEnd : String → String
  | "covergroup" => "endgroup"
  | keyword => "end" ++ keyword

/-- A construct, from its keyword on: everything up to the end keyword is skipped, and the name
is declared if constructs of this kind are noted. -/
def construct (doc : Document) (start : Nat) (r : Reading) : Reading :=
  let keyword := r.cursor.nextText
  let header := r.bump.move (·.skipWhile (·.role == .modifier))
  let next := (header.eat .identifier).move fun c => (c.skipPast (constructEnd keyword)).eatLabel
  match constructKind? keyword, header.cursor.identifier? with
  | some kind, some name => next.declare doc name kind start
  | _, _ => next

end Reading

end HdlIndex
