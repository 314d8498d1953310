import HdlIndex.Preprocess.Cache
import HdlIndex.Preprocess.Item

/-! Processing the directives of a document: definitions are collected, conditionals decided,
invocations expanded and includes replaced by the tokens of the files they name. An included
file is processed in the same way, one level deeper, or taken from the cache. How deep includes
may nest is the measure of the recursion. -/

namespace HdlIndex

/-- A document after the processing of its directives. -/
structure Preprocessed where
  file : String
  /-- Definitions made in the document itself. -/
  symbols : List Symbol := []
  stream : TokenStream := {}
  /-- All included files, in the order of their first inclusion. -/
  includes : List String := []
  /-- The definitions in force at the end. -/
  macros : MacroTable := .empty
  sources : Sources := .empty
  diagnostics : List Diagnostic := []

/-- A question asked of the source of files. -/
inductive Access where
  /-- Whether there is such a file. -/
  | looked (path : Path)
  /-- What the file holds. -/
  | read (path : Path)
  deriving DecidableEq, Repr

namespace Preprocess

/-- What processing reads. -/
structure Env where
  provider : Provider
  options : Options

/-- What is shared by a document and the files it includes. -/
structure RunState where
  cache : IncludeCache
  macros : MacroTable
  sources : Sources := .empty
  diagnostics : List Diagnostic := []
  /-- Questions asked of the source of files, in order. -/
  accesses : List Access := []

/-- What belongs to one file. -/
structure FileState where
  out : Emitter := {}
  log : MacroLog := []
  symbols : List Symbol := []
  includes : List String := []
  sources : Sources := .empty
  /-- Open conditionals, the innermost first: whether a branch was taken. -/
  conditions : List Bool := []

/-- Processes a file, given its name and text and the paths of the files around it. -/
abbrev Process := List Path → String → String → RunState → IncludedFile × RunState

namespace RunState

def report (run : RunState) (diagnostic : Diagnostic) : RunState :=
  { run with diagnostics := run.diagnostics ++ [diagnostic] }

def expansionEnv (run : RunState) (limits : Limits) : Expansion.Env :=
  ⟨run.macros, run.sources, limits⟩

end RunState

/-! ### Finding files -/

/-- Where a file may be that an include names: next to the including file, then along the
include paths, one of which may be the file itself. -/
def candidates (options : Options) (spec : Path) (including : String) : List Path :=
  if spec.isAbsolute then [spec.normalize]
  else
    let beside := match Path.parent ⟨including⟩ with
      | some dir => [(dir.join spec).normalize]
      | none => []
    beside ++ options.includePaths.flatMap fun base =>
      (if base.endsWith spec then [base] else []) ++ [(base.join spec).normalize]

/-- The file that an include names in the given file: the first candidate there is, or else the
first known file whose path ends so. -/
def resolve (env : Env) (spec including : String) : Option Path :=
  match (candidates env.options ⟨spec⟩ including).find? env.provider.contains with
  | some path => some path.normalize
  | none => if Path.isAbsolute ⟨spec⟩ then none else (env.provider.endingIn ⟨spec⟩).head?

/-- The file that an include names. The text of an include is looked up in the cache first, and
what it is resolved to is remembered. -/
def locate (env : Env) (spec including : String) (run : RunState) : Option Path × RunState :=
  match run.cache.resolved? spec with
  | some path => (some path, run)
  | none =>
    let run := { run with
      accesses := run.accesses ++ (candidates env.options ⟨spec⟩ including).map .looked }
    match resolve env spec including with
    | none => (none, run)
    | some path => (some path, { run with cache := run.cache.remember spec path })

/-! ### Including files -/

/-- The contents of a file, from the cache or processed by `nested`. `chain` holds the files
that are being processed. -/
def openInclude (env : Env) (nested : Process) (chain : List Path) (path : Path)
    (run : RunState) : Except Problem IncludedFile × RunState :=
  if chain.any (·.same path) then (.error (.includeCycle path.text), run)
  else
    match run.cache.get? path with
    | some file =>
      (.ok file, { run with
        macros := run.macros.replay file.log, sources := run.sources.merge file.sources })
    | none =>
      let run := { run with accesses := run.accesses ++ [.read path] }
      match env.provider.read path with
      | .error reason => (.error (.unreadable path.text reason), run)
      | .ok text =>
        let limit := env.options.limits.fileSize
        if limit < text.utf8ByteSize then
          (.error (.includeTooLarge path.text text.utf8ByteSize limit), run)
        else
          let (file, run) := nested (path :: chain) path.text text run
          (.ok file, { run with cache := run.cache.insert path file })

/-- The file that an include names, with its contents. Without `nested` the nesting has reached
its limit. -/
def findInclude (env : Env) (nested : Option Process) (chain : List Path) (including spec : String)
    (run : RunState) : Except Problem (Path × IncludedFile) × RunState :=
  match nested with
  | none => (.error (.includeDepth env.options.limits.includeDepth spec), run)
  | some nested =>
    match locate env spec including run with
    | (none, run) => (.error (.unresolvedInclude spec), run)
    | (some path, run) =>
      let (file, run) := openInclude env nested chain path run
      (file.map fun file => (path, file), run)

/-- Takes the tokens, edits, includes and texts of an included file over. -/
def FileState.splice (st : FileState) (path : Path) (file : IncludedFile) : FileState :=
  { st with
    out := st.out.append file.stream
    log := st.log ++ file.log
    includes := (path.text :: file.includes).foldl
      (fun includes f => if includes.contains f then includes else includes ++ [f]) st.includes
    sources := st.sources.merge file.sources }

/-! ### Effects -/

/-- The symbol of a definition in the file with the given text. -/
def definitionSymbol (text : String) (d : MacroDef) : Symbol where
  name := d.name
  kind := .textMacro d.replacement
  definition := .single (Text.range text d.span.1 d.span.2)
  declaration := some ⟨none, Text.range text d.nameSpan.1 d.nameSpan.2⟩

/-- Puts the replacement of an invocation between two splits. -/
def emitExpansion (out : Emitter) (tokens : List Lexeme) : Emitter :=
  (tokens.foldl (fun out t => out.push t.file ⟨t.text, t.start, t.stop⟩) out.split).split

/-- Does what an item of a file says. -/
def applyEffect (env : Env) (nested : Option Process) (chain : List Path) (file text : String)
    (st : FileState) (run : RunState) : Effect → FileState × RunState
  | .nothing => (st, run)
  | .emit t => ({ st with out := st.out.push file ⟨t.text, t.start, t.stop⟩ }, run)
  | .expansion tokens => ({ st with out := emitExpansion st.out tokens }, run)
  | .conditions taken => ({ st with conditions := taken }, run)
  | .define d =>
    let replaced := if run.macros.contains d.name then [MacroChange.delete d.name] else []
    ({ st with
        symbols := Symbol.upsert st.symbols (definitionSymbol text d)
        log := st.log ++ replaced ++ [.add d] },
      { run with macros := run.macros.define d })
  | .undef name =>
    ({ st with log := st.log ++ [.delete name] }, { run with macros := run.macros.undef name })
  | .undefineAll => ({ st with log := st.log ++ [.deleteAll] }, { run with macros := .empty })
  | .inclusion spec offset =>
    match findInclude env nested chain file spec run with
    | (.error problem, run) => (st, run.report (.located problem file offset))
    | (.ok (path, found), run) => (st.splice path found, run)

/-! ### Files -/

/-- Reads and does the items of a file one after another. -/
def scan (env : Env) (nested : Option Process) (chain : List Path) (file text : String)
    (st : FileState) (run : RunState) : List Lexeme → FileState × RunState
  | [] =>
    if st.conditions.isEmpty then (st, run)
    else (st, run.report (.inFile (.missingEndif st.conditions.length) file))
  | t :: rest =>
    let item := Item.read (run.expansionEnv env.options.limits) st.conditions t rest
    let run := { run with diagnostics := run.diagnostics ++ item.diagnostics }
    let (st, run) := applyEffect env nested chain file text st run item.effect
    scan env nested chain file text st run item.rest
termination_by tokens => tokens.length
decreasing_by exact Nat.lt_succ_of_le (Item.length_read_le ..)

/-- Processes one file, with `nested` for the files that it includes. -/
def processFile (env : Env) (nested : Option Process) : Process := fun chain file text run =>
  let run := { run with sources := run.sources.insert file text }
  let tokens := Lexeme.lex file text
  let run :=
    if tokens.isEmpty && !text.isEmpty then run.report (.inFile .directiveGrammar file) else run
  let (st, run) := scan env nested chain file text {} run tokens
  (⟨st.symbols, st.out.stream, st.includes, st.log, st.sources.insert file text⟩, run)

/-- Processes a file whose includes may nest up to `depth` levels. -/
def process (env : Env) : Nat → Process
  | 0 => processFile env none
  | depth + 1 => processFile env (some (process env depth))

/-! ### Documents -/

/-- The state in which a document starts. -/
def startState (env : Env) (cache : IncludeCache) : RunState where
  cache := cache
  macros := .ofDefines (env.options.defines.map fun d => (d.name, d.value))

/-- Processes a document. The second result is the state at its end. -/
def document (env : Env) (cache : IncludeCache) (file text : String) : Preprocessed × RunState :=
  let run := startState env cache
  let limit := env.options.limits.fileSize
  if limit < text.utf8ByteSize then
    let run := run.report (.inFile (.documentTooLarge text.utf8ByteSize limit) file)
    ({ file, macros := run.macros, diagnostics := run.diagnostics }, run)
  else
    let (found, run) :=
      process env env.options.limits.includeDepth [Path.normalize ⟨file⟩] file text run
    ({ file
       symbols := found.symbols
       stream := found.stream
       includes := found.includes
       macros := run.macros
       sources := run.sources
       diagnostics := run.diagnostics }, run)

end Preprocess

end HdlIndex
