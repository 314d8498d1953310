import HdlIndex.Symbol.Basic

/-! Symbols as an indented tree: one line per symbol with its kind and extent, the contents of
a container two blanks farther in. -/

namespace HdlIndex

/-- The extent of a declaration, from one on: a range, or ranges with their files. -/
def Definition.display : Definition → String
  | .single range => range.display
  | .multi segments => ", ".intercalate (segments.map fun (file, range) => file ++ ":" ++ range.display)

namespace Symbol

/-- The kind with the second part of the tag, if that says anything. -/
def kindLabel (s : Symbol) : String :=
  match s.kind.argument with
  | none => s.kind.discriminator
  | some argument =>
    if argument.isEmpty then s.kind.discriminator else s.kind.discriminator ++ " " ++ argument

end Symbol

namespace Tree

def indent (depth : Nat) : String := String.ofList (List.replicate (2 * depth) ' ')

def symbolLine (depth : Nat) (s : Symbol) : String :=
  indent depth ++ s.name ++ "  " ++ s.kindLabel ++ "  " ++ s.definition.display ++ "\n"

def nameLine (depth : Nat) (word name : String) : String :=
  indent depth ++ word ++ " " ++ name ++ "\n"

mutual

def containerLines (depth : Nat) : Container → String
  | ⟨symbol, symbols, imports, exports, containers⟩ =>
    symbolLine depth symbol ++
    .join (imports.map (nameLine (depth + 1) "import")) ++
    .join (exports.map (nameLine (depth + 1) "export")) ++
    .join (symbols.map (symbolLine (depth + 1))) ++
    allContainerLines (depth + 1) containers

def allContainerLines (depth : Nat) : List Container → String
  | [] => ""
  | c :: rest => containerLines depth c ++ allContainerLines depth rest

end

end Tree

/-- The tree of a file: leaf symbols, containers, then the included files. -/
def FileSymbols.tree (file : FileSymbols) : String :=
  .join (file.symbols.map (Tree.symbolLine 0)) ++
  Tree.allContainerLines 0 file.containers ++
  .join (file.includes.map (Tree.nameLine 0 "include"))

end HdlIndex
