import HdlIndex.Command.Disk
import HdlIndex.Diagnostic

/-! What stops a command. Problems inside a source file do not: they are reported and the command
goes on. -/

namespace HdlIndex.Command

inductive Failure where
  /-- A file cannot be read or written. -/
  | file (path reason : String)
  | tooLarge (path : String) (size limit : Nat)
  /-- A problem that is not about reading a file. -/
  | document (display : String)
  /-- A definition from outside that has no name. -/
  | namelessDefine (spec : String)
  /-- Some files of a batch cannot be read. -/
  | incomplete (failed total : Nat)
  deriving DecidableEq, Repr, Inhabited

namespace Failure

def message : Failure → String
  | file path reason => "I/O error for '" ++ path ++ "': " ++ reason
  | tooLarge path size limit =>
    "File '" ++ path ++ "' is too large (" ++ size.repr ++ " bytes). Maximum allowed: " ++
      limit.repr ++ " bytes"
  | document display => "Parse error: " ++ display
  | namelessDefine spec => "Invalid input: define '" ++ spec ++ "' has no macro name"
  | incomplete failed total => failed.repr ++ " of " ++ total.repr ++ " files failed to index"

/-- A diagnostic as the reason to stop. -/
def ofDiagnostic (d : Diagnostic) : Failure :=
  match d.kind, d.file with
  | .io, some path => .file path d.message
  | _, _ => .document d.display

end Failure

/-- The text of a source file. A file that is too large is not read. -/
def readSource (disk : Disk) (path : Path) (limit : Nat) : Except Failure String :=
  match disk.entry path with
  | .error e => .error (.file path.text e.message)
  | .ok entry =>
    if limit < entry.size then .error (.tooLarge path.text entry.size limit)
    else entry.text.mapError fun e => .file path.text e.message

end HdlIndex.Command
