import HdlIndex.Command.Failure
import HdlIndex.Json.Printer
import HdlIndex.Session
import HdlIndex.Symbol.Encoding

/-! Reports on a batch of files: what each file declares, refers to and includes, and which files
cannot be read. -/

namespace HdlIndex.Command

/-- What was found in one file, or why it cannot be read. -/
structure FileReport where
  file : String
  result : Except Failure Outline

/-- The results of a batch, in the order in which the files are given. -/
structure Report where
  files : List FileReport

namespace FileReport

def failure? (r : FileReport) : Option Failure :=
  match r.result with
  | .error failure => some failure
  | .ok _ => none

/-- Reads one file in a session. -/
def make (disk : Disk) (session : Session) (path : Path) : FileReport × Session :=
  match readSource disk path session.options.limits.fileSize with
  | .error failure => (⟨path.text, .error failure⟩, session)
  | .ok text =>
    let (outline, session) := session.outline path.text text
    (⟨path.text, .ok outline⟩, session)

def diagnosticValue (d : Diagnostic) : Json.Value :=
  .object [("kind", .string d.kind.label), ("message", .string d.message),
    ("file", (d.file.map .string).getD .null), ("offset", (d.offset.map .nat).getD .null)]

def value (r : FileReport) : Json.Value :=
  .object <| match r.result with
    | .ok outline =>
      [("file", .string r.file), ("symbols", outline.symbols.encode),
        ("pkgdeps", .strings outline.packages), ("includes", .strings outline.symbols.includes),
        ("diagnostics", .array (outline.diagnostics.map diagnosticValue))]
    | .error failure =>
      [("file", .string r.file), ("pkgdeps", .array []), ("includes", .array []),
        ("diagnostics", .array []), ("error", .string failure.message)]

end FileReport

namespace Report

/-- Files that cannot be read. -/
def failed (r : Report) : Nat := r.files.countP (·.failure?.isSome)

def indexed (r : Report) : Nat := r.files.length - r.failed

/-- Reads files one after the other in one session. -/
def sequential (disk : Disk) (session : Session) : List Path → List FileReport × Session
  | [] => ([], session)
  | path :: rest =>
    let (report, session) := FileReport.make disk session path
    let (reports, session) := sequential disk session rest
    (report :: reports, session)

/-- Reads each file in a session of its own, so that the order does not matter. The second
result is what all sessions asked of the disk. -/
def separate (disk : Disk) (session : Session) (paths : List Path) : List FileReport × Session :=
  let results := paths.map (FileReport.make disk session)
  (results.map (·.1), { session with accesses := results.flatMap (·.2.accesses) })

def make (disk : Disk) (options : Options) (parallel : Bool) (paths : List Path) :
    Report × Session :=
  let session : Session := { options, provider := disk.provider }
  let (files, session) := (if parallel then separate else sequential) disk session paths
  (⟨files⟩, session)

def value (r : Report) : Json.Value :=
  .object [("files", .array (r.files.map (·.value))), ("indexed", .nat r.indexed),
    ("failed", .nat r.failed)]

/-- A line for each file that cannot be read, and the totals. -/
def summary (r : Report) : String :=
  .join (r.files.filterMap fun f =>
    f.failure?.map fun failure => "✗ " ++ f.file ++ " - " ++ failure.message ++ "\n") ++
  "Indexed: " ++ r.indexed.repr ++ "  Failed: " ++ r.failed.repr ++ "\n"

end Report

end HdlIndex.Command
