import HdlIndex.Command.Run

/-! The program. Commands are functions of the disk, so one is run on what has been loaded so far,
the paths that it asked for are loaded, and this is repeated until it asks for nothing new. -/

namespace HdlIndex.Command

/-- What has been found under the paths looked at so far. -/
structure Snapshot where
  entries : List (Path × Except FileError DiskEntry) := []

namespace Snapshot

def disk (s : Snapshot) : Disk where
  entry path := (s.entries.lookup path).getD (.error .notFound)

/-- The paths that are not known yet, each once. -/
def missing (s : Snapshot) (paths : List Path) : List Path :=
  (paths.filter fun path => (s.entries.lookup path).isNone).eraseDups

end Snapshot

/-- Whether the number of a system error, which comes with either sign, is the given one. -/
def isErrorNumber (code number : UInt32) : Bool := code == number || code == -number

def errorOf : IO.Error → FileError
  | .noFileOrDirectory .. => .notFound
  | .inappropriateType _ code _ => if isErrorNumber code 21 then .isDirectory else .notDirectory
  | .invalidArgument file code details =>
    if isErrorNumber code 36 then .nameTooLong
    else .other (toString (IO.Error.invalidArgument file code details))
  | e => .other (toString e)

/-- Looks at a path. -/
def load (path : Path) : IO (Except FileError DiskEntry) := do
  match path.fault? with
  | some e => return .error e
  | none =>
    match ← (IO.FS.readBinFile path.text).toBaseIO with
    | .ok bytes => return .ok (.file bytes)
    | .error e =>
      match errorOf e with
      | .isDirectory => return .ok .directory
      | e => return .error e

/-- Runs a command on the files it asks for. -/
partial def Invocation.runLoading (i : Invocation) (s : Snapshot) : IO Outcome := do
  let outcome := i.run s.disk
  match s.missing outcome.asked with
  | [] => return outcome
  | paths =>
    let entries ← paths.mapM fun path => return (path, ← load path)
    i.runLoading { entries := s.entries ++ entries }

/-- Writes the file that the command wants written. -/
def Outcome.writeOutput (o : Outcome) : IO Outcome := do
  match o.output with
  | none => return o
  | some (path, text) =>
    match path.fault? with
    | some e => return o.unwritten path e
    | none =>
      match ← (IO.FS.writeFile path.text text).toBaseIO with
      | .ok _ => return o
      | .error e => return o.unwritten path (errorOf e)

def Outcome.print (o : Outcome) : IO UInt32 := do
  IO.print o.stdout
  IO.eprint o.stderr
  if let some failure := o.failure then
    IO.eprintln ("Error: " ++ failure.message)
  return o.exitCode.toUInt32

def usageText : String :=
  "Usage: " ++ programName ++ " [OPTIONS] <COMMAND>\n\n" ++
  "Commands:\n" ++
  "  tokens [--preproc] FILE       Print the tokens of a file\n" ++
  "  preprocess FILE               Print a file after its directives\n" ++
  "  symbols [--json] FILE         Print the symbols declared in a file\n" ++
  "  index [-p] [-o PATH] FILE...  Index a set of files into a JSON report\n" ++
  "  completion SHELL              Print a completion script\n" ++
  "  help [COMMAND]                Print this text\n\n" ++
  "Options:\n" ++
  "  -I, --include DIR             Add a directory to the include search path\n" ++
  "  -D, --define NAME[=VALUE]     Predefine a macro\n" ++
  "  -v, --verbose                 Say more\n" ++
  "  -h, --help                    Print this text\n" ++
  "  -V, --version                 Print the version\n"

def UsageStop.reason : UsageStop → String
  | helpAsked | versionAsked | nothingAsked => ""
  | missingCommand => "error: a command is required\n\n"
  | unknownCommand => "error: there is no such command\n\n"
  | unknownArgument => "error: unexpected argument\n\n"
  | missingOperand => "error: an operand is missing\n\n"
  | badValue => "error: a value is missing or malformed\n\n"
  | repeated => "error: an option cannot be used more than once\n\n"
  | unwantedValue => "error: an option does not take a value\n\n"

def UsageStop.print (stop : UsageStop) : IO UInt32 := do
  match stop with
  | .helpAsked => IO.print usageText
  | .versionAsked => IO.println (programName ++ " 0.1.0")
  | _ => IO.eprint (stop.reason ++ usageText)
  return stop.exitCode.toUInt32

end HdlIndex.Command

open HdlIndex.Command in
def main (args : List String) : IO UInt32 := do
  match Invocation.parse args with
  | .error stop => stop.print
  | .ok invocation =>
    let outcome ← invocation.runLoading {}
    (← outcome.writeOutput).print
