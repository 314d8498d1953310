import HdlIndex.Path
import HdlIndex.Text.Class

/-! Settings that every document of a session shares. -/

namespace HdlIndex

/-- Bounds on the work that one document may cause. -/
structure Limits where
  /-- Bytes of one file. -/
  fileSize : Nat := 64 * 1024 * 1024
  /-- Nested includes. -/
  includeDepth : Nat := 64
  /-- Nested substitutions of one invocation. -/
  expansionDepth : Nat := 128
  /-- Substitutions of one invocation altogether. -/
  expansions : Nat := 100000
  /-- Tokens that a document is read up to. -/
  tokens : Nat := 50000000
  deriving DecidableEq, Repr, Inhabited

/-- The largest machine word, which no amount of work reaches. -/
def Limits.unlimited : Limits :=
  let most := UInt64.size - 1
  ⟨most, most, most, most, most⟩

/-- A definition given from outside, as `NAME` or `NAME=VALUE`. -/
structure UserDefine where
  name : String
  value : String
  deriving DecidableEq, Repr, Inhabited

/-- Reads `NAME` or `NAME=VALUE`. Blanks around the name do not count, the value is kept as it
stands, and a definition without a name is refused. -/
def UserDefine.parse? (spec : String) : Option UserDefine :=
  let chars := spec.toList
  let name := Text.trimBlank (chars.takeWhile (· != '='))
  let value := (chars.dropWhile (· != '=')).drop 1
  if name.isEmpty then none else some ⟨.ofList name, .ofList value⟩

structure Options where
  includePaths : List Path := []
  defines : List UserDefine := []
  limits : Limits := {}
  deriving Repr, Inhabited

end HdlIndex
