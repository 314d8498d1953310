import HdlIndex.Outline.Routine

/-! Items: what can stand in a file, in a container and in a generate block. Each rule starts at
its keyword and takes the rule for items as an argument; `itemWithin` ties the knot. -/

namespace HdlIndex

namespace Reading

/-- Reads an item with the given rule, or passes over one token. -/
def itemOrSkip (doc : Document) (item? : Reading → Option Reading) (r : Reading) : Reading :=
  (item? r).getD (r.skipUnexpected doc)

/-! ### Containers

Here `item` reads an item or passes over a token. -/

/-- Reads items up to and with a keyword in the role `closing` and its label. -/
def itemsUntil (item : Reading → Reading) (closing : Role) (r : Reading) : Reading :=
  let next := r.whileNext (·.role != closing) item
  if next.is closing then next.bump.move (·.eatLabel) else next

/-- Reads one part of the header of a container: imports, parameters or ports. -/
def headerPart? (doc : Document) (r : Reading) : Option Reading :=
  if r.is .importing then some (r.importItems doc)
  else if r.is .hash then some (r.parameterPortList doc)
  else if r.is .parenOpen then some (r.portList doc)
  else none

def header (doc : Document) (r : Reading) : Reading :=
  (iterate (headerPart? doc) r.cursor.rest r).eat .semicolon

/-- The kind of a container that is no package. -/
def containerKind : String → SymbolKind
  | "interface" => .interface
  | "program" => .program
  | _ => .hdlModule

/-- A container, from its keyword on. A prototype has no body. -/
def container (doc : Document) (item : Reading → Reading) (start : Nat) (prototype : Bool)
    (r : Reading) : Reading :=
  let keyword := r.cursor.nextText
  if keyword == "interface" && r.bump.is .construct then r.bump.construct doc start
  else
    let next := r.bump.move (·.skipWhile (·.role == .modifier))
    match next.cursor.identifier? with
    | none => next
    | some name =>
      next.bump.within doc (doc.named name (containerKind keyword)) start fun r =>
        let r := r.header doc
        if prototype then r else r.itemsUntil item .endContainer

/-- A package, from its keyword on. -/
def packageContainer (doc : Document) (item : Reading → Reading) (r : Reading) : Reading :=
  let next := r.bump.move (·.skipWhile (·.role == .modifier))
  match next.cursor.identifier? with
  | none => next.move (·.skipToSemicolon)
  | some name =>
    next.bump.within doc (doc.named name .package) r.cursor.nextStart fun r =>
      (r.eat .semicolon).itemsUntil item .endPackage

/-! ### Generate constructs

Items inside belong to the container around the construct. -/

/-- `begin [: name] items end [: name]`; a name is noted. -/
def generateBlock (doc : Document) (item : Reading → Reading) (r : Reading) : Reading :=
  let next := (r.bump.move (·.eatLabel)).whileNext (!·.isRegionEnd) item
  let next := if next.is .blockEnd then next.bump.move (·.eatLabel) else next
  match r.bump.cursor.label? with
  | none => next
  | some name => next.declare doc name .generateBlock r.cursor.nextStart

/-- A block or a single item. -/
def generateBody (doc : Document) (item : Reading → Reading) (r : Reading) : Reading :=
  if r.is .blockBegin then r.generateBlock doc item
  else if r.cursor.nextIs (!·.isRegionEnd) then item r
  else r

/-- `if (condition) body [else body]` -/
def generateIf (doc : Document) (item : Reading → Reading) (r : Reading) : Reading :=
  let next := (r.bump.move (·.skipBalanced)).generateBody doc item
  if next.cursor.isText "else" then next.bump.generateBody doc item else next

/-- `for (init; condition; step) body` -/
def generateFor (doc : Document) (item : Reading → Reading) (r : Reading) : Reading :=
  (r.bump.move (·.skipBalanced)).generateBody doc item

/-- Reads the labels of a case item with their colon. -/
def skipCaseLabels (c : Cursor) : Cursor :=
  if c.isText "default" then c.bump.eat .colon
  else
    (c.skipUntil fun t => t.role == .colon || t.role == .semicolon || t.isRegionEnd).eat .colon

def caseItem (doc : Document) (item : Reading → Reading) (r : Reading) : Reading :=
  ((r.move skipCaseLabels).generateBody doc item).bumpIfAt r.cursor

/-- `case (value) label {, label} : body ... endcase` -/
def generateCase (doc : Document) (item : Reading → Reading) (r : Reading) : Reading :=
  ((r.bump.move (·.skipBalanced)).whileNext (!·.isRegionEnd) (caseItem doc item)).eat .caseEnd

/-! ### Items -/

/-- An item led by modifiers: a container, a routine, a construct or data. -/
def qualifiedItem? (doc : Document) (item : Reading → Reading) (r : Reading) : Option Reading :=
  let modifiers := r.cursor.rest.takeWhile (·.role == .modifier)
  let prototype := modifiers.any fun t => t.text == "extern" || t.text == "pure"
  let isVirtual := modifiers.any (·.text == "virtual")
  let next := r.move (·.skipWhile (·.role == .modifier))
  let start := r.cursor.nextStart
  if next.is .container && !(isVirtual && next.cursor.isText "interface") then
    some (next.container doc item start prototype)
  else if next.is .routine then
    some (next.routine doc start (if prototype then id else routineBody doc))
  else if next.is .construct then some (next.construct doc start)
  else r.dataDeclaration? doc

/-- An item led by a keyword without a role of its own. -/
def otherItem? (doc : Document) (r : Reading) : String → Option Reading
  | "let" => some (r.letDeclaration doc)
  | "nettype" => some (r.nettypeDeclaration doc)
  | "default" | "global" =>
    if r.bump.is .construct then some (r.bump.construct doc r.cursor.nextStart)
    else some (r.bump.move (·.skipToSemicolon))
  | "bind" | "timeunit" | "timeprecision" | "defparam" | "alias" =>
    some (r.move (·.skipToSemicolon))
  | _ => none

/-- Reads an item, chosen by the role of its first token, unless no rule takes that token. -/
def itemWith? (doc : Document) (item : Reading → Reading) (r : Reading) : Option Reading :=
  match r.cursor.rest with
  | [] => none
  | t :: _ =>
    match t.role with
    | .container => some (r.container doc item t.start false)
    | .package => some (r.packageContainer doc item)
    | .routine => some (r.routine doc t.start (routineBody doc))
    | .direction => some (r.portDeclaration doc)
    | .parameter => some (r.parameterDeclaration doc)
    | .typeAlias => some (r.typeAlias doc)
    | .modport => some (r.modportDeclaration doc)
    | .importing => some (r.importItems doc)
    | .exporting => some (r.exportItems doc)
    | .genvar => some (r.genvarDeclaration doc)
    | .generate | .endGenerate | .semicolon => some r.bump
    | .netType | .dataType | .aggregate | .enumeration => r.dataDeclaration? doc
    | .modifier => r.qualifiedItem? doc item
    | .identifier | .packageName => r.identifierItem? doc
    | .assignment | .systemName => some (r.move (·.skipToSemicolon))
    | .process => some (r.bump.move (·.skipStatement))
    | .assertion => some (r.move (·.skipStatement))
    | .construct => some (r.construct doc t.start)
    | .otherKeyword => r.otherItem? doc t.text
    | .control =>
      match t.text with
      | "if" => some (r.generateIf doc item)
      | "for" => some (r.generateFor doc item)
      | _ => none
    | .caseBegin => some (r.generateCase doc item)
    | .blockBegin => some (r.generateBlock doc item)
    | _ => none

/-- The rule for items. The tokens left bound how deep items nest. -/
def itemWithin? (doc : Document) : (bound : List OutlineToken) → Reading → Option Reading
  | [] => fun _ => none
  | _ :: bound => itemWith? doc (itemOrSkip doc (itemWithin? doc bound))

/-- Reads an item, or passes over one token. -/
def item (doc : Document) (r : Reading) : Reading :=
  itemOrSkip doc (itemWithin? doc r.cursor.rest) r

/-- Reads all items. -/
def run (doc : Document) (r : Reading) : Reading := r.whileNext (fun _ => true) (item doc)

end Reading

end HdlIndex
