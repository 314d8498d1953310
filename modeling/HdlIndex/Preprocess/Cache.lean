import HdlIndex.Macro.Table
import HdlIndex.Path
import HdlIndex.Preprocess.Stream
import HdlIndex.Source
import HdlIndex.Symbol.Basic

/-! Results of included files, kept for the documents that follow. -/

namespace HdlIndex

/-- What is needed to include a file without reading it again. -/
structure IncludedFile where
  /-- Definitions made in the file. -/
  symbols : List Symbol
  stream : TokenStream
  /-- Files that it included, directly or through others. -/
  includes : List String
  /-- Edits that it made to the table of definitions. -/
  log : MacroLog
  sources : Sources
  deriving Inhabited

/-- Included files by path, and the paths that includes were resolved to. -/
structure IncludeCache where
  resolved : List (String × Path)
  entries : List (Path × IncludedFile)
  deriving Inhabited

namespace IncludeCache

def empty : IncludeCache := ⟨[], []⟩

/-- The path that the text of an include was resolved to before. -/
def resolved? (c : IncludeCache) (spec : String) : Option Path := c.resolved.lookup spec

def remember (c : IncludeCache) (spec : String) (path : Path) : IncludeCache :=
  { c with resolved := (spec, path) :: c.resolved.filter (·.1 != spec) }

def get? (c : IncludeCache) (path : Path) : Option IncludedFile :=
  (c.entries.find? (·.1.same path)).map (·.2)

def insert (c : IncludeCache) (path : Path) (file : IncludedFile) : IncludeCache :=
  { c with entries := c.entries.filter (!·.1.same path) ++ [(path, file)] }

/-- Forgets a file; how includes were resolved stays known. -/
def invalidate (c : IncludeCache) (path : Path) : IncludeCache :=
  { c with entries := c.entries.filter (!·.1.same path) }

def size (c : IncludeCache) : Nat := c.entries.length

end IncludeCache

end HdlIndex
