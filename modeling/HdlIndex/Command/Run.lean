import HdlIndex.Command.Arguments
import HdlIndex.Command.Completion
import HdlIndex.Command.Report
import HdlIndex.Grammar.Directive
import HdlIndex.Grammar.Listing
import HdlIndex.Symbol.Tree

/-! Running commands. A command is a function of the disk; what it prints, the file it wants
written and the paths it asked for are its outcome. -/

namespace HdlIndex.Command

structure Outcome where
  stdout : String := ""
  stderr : String := ""
  /-- A file to be written before anything is printed. -/
  output : Option (Path × String) := none
  failure : Option Failure := none
  /-- Paths that were looked at. -/
  asked : List Path := []

namespace Outcome

def ofFailure (failure : Failure) (asked : List Path) : Outcome := { failure := some failure, asked }

def exitCode (o : Outcome) : Nat := if o.failure.isSome then 1 else 0

/-- The outcome if the file cannot be written: nothing is printed. -/
def unwritten (o : Outcome) (path : Path) (e : FileError) : Outcome :=
  .ofFailure (.file path.text e.message) o.asked

end Outcome

def askedPaths (accesses : List Access) : List Path :=
  accesses.map fun
    | .looked path => path
    | .read path => path

/-- The lines that report problems of a document. -/
def warnings (diagnostics : List Diagnostic) : String :=
  .join (diagnostics.map fun d => "warning: " ++ d.display ++ "\n")

/-- Runs a command on the text of one file. -/
def onSource (disk : Disk) (options : Options) (file : Path) (f : String → Outcome) : Outcome :=
  match readSource disk file options.limits.fileSize with
  | .error failure => .ofFailure failure [file]
  | .ok text =>
    let o := f text
    { o with asked := file :: o.asked }

def Action.run (disk : Disk) (options : Options) : Action → Outcome
  | tokens file directives =>
    onSource disk options file fun text =>
      let grammar := if directives then Grammar.directives else Grammar.structural
      { stdout := Token.listing (grammar.tokenize text) }
  | preprocess file =>
    onSource disk options file fun text =>
      let session : Session := { options, provider := disk.provider }
      let (processed, session) := session.preprocess file.text text
      { stdout := processed.stream.text
        stderr := warnings processed.diagnostics
        asked := askedPaths session.accesses }
  | symbols file json =>
    onSource disk options file fun text =>
      let session : Session := { options, provider := disk.provider }
      let (outline, session) := session.outline file.text text
      { stdout := if json then outline.symbols.toJson ++ "\n" else outline.symbols.tree
        stderr := warnings outline.diagnostics
        asked := askedPaths session.accesses }
  | index files parallel output =>
    let (report, session) := Report.make disk options parallel files
    let text := report.value.pretty ++ "\n"
    { stdout := if output.isSome then "" else text
      stderr := report.summary
      output := output.map fun path => (path, text)
      failure := if report.failed = 0 then none else some (.incomplete report.failed files.length)
      asked := files ++ askedPaths session.accesses }
  | completion shell => { stdout := shell.completionScript }

def Invocation.run (disk : Disk) (i : Invocation) : Outcome :=
  match i.options with
  | .error spec => .ofFailure (.namelessDefine spec) []
  | .ok options => i.action.run disk options

/-- Runs a command in a directory that is held in memory. The second result is the directory
afterwards. -/
def Invocation.runIn (tree : FileTree) (i : Invocation) : Outcome × FileTree :=
  let o := i.run tree.disk
  match o.output with
  | none => (o, tree)
  | some (path, text) =>
    match tree.write path text with
    | .ok tree => (o, tree)
    | .error e => (o.unwritten path e, tree)

end HdlIndex.Command
