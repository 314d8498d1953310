import HdlIndex.Options
import HdlIndex.Outline.Item

/-! Outlines: the declarations of a processed document. The reading never fails; what it cannot
make sense of only costs the symbols behind it. -/

namespace HdlIndex

structure Outline where
  symbols : FileSymbols
  /-- Packages that are imported from or referred to with `::`, in order. -/
  packages : List String
  /-- Problems of the processing of directives, and limits that were exceeded. -/
  diagnostics : List Diagnostic
  /-- Tokens that no rule takes. -/
  skipped : List SkippedToken
  deriving Inhabited

namespace Outline

/-- Packages named in front of `::`. -/
def packagesOf (tokens : List OutlineToken) : List String :=
  (tokens.filter (·.role == .packageName)).foldl (fun names t => insertSorted t.text names) []

/-- Problems with the number of tokens. -/
def tokenProblems (pieces : List Token) (tokens : List OutlineToken) (text : String)
    (limits : Limits) : List Problem :=
  (if pieces.isEmpty && !text.isEmpty then [.structuralGrammar] else []) ++
  (if limits.tokens < tokens.length then [.tooManyTokens tokens.length limits.tokens] else [])

/-- Reads the outline of a processed document into a table. Containers that the table has
already keep their numbers, and what the document does not declare is dropped. -/
def read (p : Preprocessed) (limits : Limits) (table : SymbolTable) : Outline × SymbolTable :=
  let doc := Document.ofPreprocessed p
  let pieces := Grammar.structural.tokenize doc.text
  let tokens := OutlineToken.significant pieces
  let problems := tokenProblems pieces tokens doc.text limits
  let tokens := tokens.take limits.tokens
  let start : Reading :=
    { cursor := .start tokens
      table := table.beginParse.addAll SymbolTable.rootId p.symbols [] []
      packages := packagesOf tokens }
  let result := start.run doc
  let table := result.table.endParse
  ({ symbols := table.toFileSymbols p.includes
     packages := result.packages
     diagnostics := p.diagnostics ++ problems.map (.inFile · p.file)
     skipped := result.skipped.toList }, table)

end Outline

end HdlIndex
