import HdlIndex.Grammar.Scan
import HdlIndex.Text.Quoted

/-! Token listings: one line per token with its offset, its innermost scope and its text in
quotes, in columns. -/

namespace HdlIndex

/-- Puts blanks in front of a text up to a width in characters. -/
def Text.padLeft (width : Nat) (s : String) : String :=
  String.ofList (List.replicate (width - s.length) ' ') ++ s

/-- Puts blanks behind a text up to a width in characters. -/
def Text.padRight (width : Nat) (s : String) : String :=
  s ++ String.ofList (List.replicate (width - s.length) ' ')

namespace Token

/-- The width of the scope column, in bytes of the longest scope. -/
def scopeWidth (tokens : List Token) : Nat :=
  tokens.foldl (fun width t => max width t.scope.utf8ByteSize) 0

def listingLine (width : Nat) (t : Token) : String :=
  Text.padLeft 6 t.offset.repr ++ "  " ++ Text.padRight width t.scope ++ "  " ++
    Text.quote t.text ++ "\n"

/-- A line for each token. -/
def listing (tokens : List Token) : String :=
  .join (tokens.map (listingLine (scopeWidth tokens)))

end Token

end HdlIndex
