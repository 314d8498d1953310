/-! Kinds of declarations. A kind is shown as a tag, a list of texts that starts with the
name of the kind, and a detail, which is not part of what tells two symbols apart. -/

namespace HdlIndex

inductive SymbolKind where
  | hdlModule
  | interface
  | program
  | package
  | function (returnType : Option String)
  | task
  /-- A port of a header or a body, with the type as written. -/
  | port (dataType : Option String)
  /-- A parameter in the header of a container. -/
  | parameterPort
  | parameter
  | localParameter
  | dataVariable (dataType : String)
  | net (netType : String)
  | moduleInstance (moduleType : String)
  | typeAlias (aliased : String)
  | structType
  | unionType
  | enumType
  | enumMember
  /-- A member of a struct or union. -/
  | field (dataType : String)
  | modport
  | genvar
  | generateBlock
  | classType
  | covergroup
  | property
  | sequence
  | checker
  | clocking
  | primitive
  | config
  | letDecl
  | nettype
  | textMacro (replacement : String)
  deriving DecidableEq, Repr, Inhabited

namespace SymbolKind

/-- The name of the kind, the first part of the tag. -/
def discriminator : SymbolKind → String
  | hdlModule => "module"
  | interface => "interface"
  | program => "program"
  | package => "package"
  | function _ => "function"
  | task => "task"
  | port _ => "port"
  | parameterPort => "parameter-port"
  | parameter => "parameter"
  | localParameter => "localparam"
  | dataVariable _ => "variable"
  | net _ => "net"
  | moduleInstance _ => "instance"
  | typeAlias _ => "typedef"
  | structType => "struct"
  | unionType => "union"
  | enumType => "enum"
  | enumMember => "enum-member"
  | field _ => "field"
  | modport => "modport"
  | genvar => "genvar"
  | generateBlock => "generate-block"
  | classType => "class"
  | covergroup => "covergroup"
  | property => "property"
  | sequence => "sequence"
  | checker => "checker"
  | clocking => "clocking"
  | primitive => "primitive"
  | config => "config"
  | letDecl => "let"
  | nettype => "nettype"
  | textMacro _ => "macro"

/-- The second part of the tag: the type of a variable, net, instance, alias or field. -/
def argument : SymbolKind → Option String
  | dataVariable type => some type
  | net type => some type
  | moduleInstance type => some type
  | typeAlias type => some type
  | field type => some type
  | _ => none

def tag (kind : SymbolKind) : List String :=
  kind.discriminator :: kind.argument.toList

/-- Text beside the tag: a port's type, a return type, a replacement. -/
def detail : SymbolKind → Option String
  | port type => type
  | function type => type
  | textMacro replacement => some replacement
  | _ => none

/-- The kind with the given name, from the second part of the tag and the detail. What a kind
does not use is ignored, and what it lacks is empty. -/
def ofDiscriminator (argument : String) (detail : Option String) : String → Option SymbolKind
  | "module" => some .hdlModule
  | "interface" => some .interface
  | "program" => some .program
  | "package" => some .package
  | "function" => some (.function detail)
  | "task" => some .task
  | "port" => some (.port detail)
  | "parameter-port" => some .parameterPort
  | "parameter" => some .parameter
  | "localparam" => some .localParameter
  | "variable" => some (.dataVariable argument)
  | "net" => some (.net argument)
  | "instance" => some (.moduleInstance argument)
  | "typedef" => some (.typeAlias argument)
  | "struct" => some .structType
  | "union" => some .unionType
  | "enum" => some .enumType
  | "enum-member" => some .enumMember
  | "field" => some (.field argument)
  | "modport" => some .modport
  | "genvar" => some .genvar
  | "generate-block" => some .generateBlock
  | "class" => some .classType
  | "covergroup" => some .covergroup
  | "property" => some .property
  | "sequence" => some .sequence
  | "checker" => some .checker
  | "clocking" => some .clocking
  | "primitive" => some .primitive
  | "config" => some .config
  | "let" => some .letDecl
  | "nettype" => some .nettype
  | "macro" => some (.textMacro (detail.getD ""))
  | _ => none

def ofTag? (tag : List String) (detail : Option String) : Option SymbolKind :=
  match tag with
  | [] => none
  | name :: rest => ofDiscriminator (rest.headD "") detail name

/-- Whether symbols of this kind have a scope of their own. -/
def isContainer : SymbolKind → Bool
  | hdlModule | interface | program | package | function _ | task | typeAlias _ | structType
  | unionType | enumType => true
  | _ => false

/-- A kind is determined by its tag and its detail. -/
theorem ofTag?_tag (kind : SymbolKind) : ofTag? kind.tag kind.detail = some kind := by
  cases kind <;> rfl

end SymbolKind

end HdlIndex
