import HdlIndex.Outline

/-! Sessions: documents that share options, a source of files and a cache of included files. -/

namespace HdlIndex

structure Session where
  options : Options
  provider : Provider
  cache : IncludeCache := .empty
  /-- Questions asked of the source of files, in order. -/
  accesses : List Access := []

namespace Session

def env (s : Session) : Preprocess.Env := ⟨s.provider, s.options⟩

/-- Processes the directives of a document. -/
def preprocess (s : Session) (file text : String) : Preprocessed × Session :=
  let (result, run) := Preprocess.document s.env s.cache file text
  (result, { s with cache := run.cache, accesses := s.accesses ++ run.accesses })

/-- Reads the outline of a document into a table that may hold an earlier reading of it. -/
def outlineInto (s : Session) (table : SymbolTable) (file text : String) :
    Outline × SymbolTable × Session :=
  let (processed, s) := s.preprocess file text
  let (outline, table) := Outline.read processed s.options.limits table
  (outline, table, s)

/-- Reads the outline of a document. -/
def outline (s : Session) (file text : String) : Outline × Session :=
  let (outline, _, s) := s.outlineInto .empty file text
  (outline, s)

/-- Reads the outline of a file. -/
def outlineFile (s : Session) (path : Path) : Except Diagnostic Outline × Session :=
  let s := { s with accesses := s.accesses ++ [Access.read path] }
  match s.provider.read path with
  | .error reason => (.error (.inFile (.documentUnreadable reason) path.text), s)
  | .ok text =>
    let (outline, s) := s.outline path.text text
    (.ok outline, s)

/-- The paths of files that were read, in order. -/
def reads (s : Session) : List Path :=
  s.accesses.filterMap fun
    | .read path => some path
    | .looked _ => none

end Session

end HdlIndex
