import HdlIndex.Bisection

/-! Streams of tokens after the processing of directives. Every token keeps its extent in the
file it comes from; the files are noted by runs of tokens. -/

namespace HdlIndex

/-- A token with its extent in the file that it comes from. -/
structure PostToken where
  text : String
  start : Nat
  stop : Nat
  deriving DecidableEq, Repr, Inhabited

/-- The tokens from a place on, up to the next run, come from a file. -/
structure OriginRun where
  file : String
  start : Nat
  deriving DecidableEq, Repr, Inhabited

structure TokenStream where
  tokens : Array PostToken := #[]
  /-- Runs in the order of their starts. -/
  runs : Array OriginRun := #[]
  deriving DecidableEq, Repr, Inhabited

namespace TokenStream

/-- All texts in a row. -/
def text (s : TokenStream) : String := s.tokens.foldl (fun out t => out ++ t.text) ""

/-- The number of runs that start at or in front of a token. -/
def runsUpTo (s : TokenStream) (index : Nat) : Nat :=
  bisect (fun run => s.runs[run]?.any (·.start ≤ index)) s.runs.size

/-- The number of the run that a token belongs to. -/
def runOf? (s : TokenStream) (index : Nat) : Option Nat :=
  match s.runsUpTo index with
  | 0 => none
  | n + 1 => some n

/-- The file that a token comes from. -/
def originOf? (s : TokenStream) (index : Nat) : Option String :=
  (s.runOf? index).bind fun run => s.runs[run]?.map (·.file)

/-- Starts a run in front of the token `start`; a run without tokens is overwritten. -/
def beginRun (runs : Array OriginRun) (file : String) (start : Nat) : Array OriginRun :=
  match runs.back? with
  | some last => if last.start = start then runs.pop.push ⟨file, start⟩ else runs.push ⟨file, start⟩
  | none => runs.push ⟨file, start⟩

end TokenStream

/-- A stream that is being written. -/
structure Emitter where
  stream : TokenStream := {}
  /-- Whether the next token starts a run, even of the same file. -/
  splitNext : Bool := false
  deriving DecidableEq, Repr, Inhabited

namespace Emitter

open TokenStream

/-- Makes the next token start a run. -/
def split (e : Emitter) : Emitter := { e with splitNext := true }

/-- Adds a token from a file. -/
def push (e : Emitter) (file : String) (token : PostToken) : Emitter :=
  let sameRun := !e.splitNext && e.stream.runs.back?.any (·.file == file)
  let runs := if sameRun then e.stream.runs else beginRun e.stream.runs file e.stream.tokens.size
  ⟨⟨e.stream.tokens.push token, runs⟩, false⟩

/-- Adds another stream behind this one. A stream without tokens changes nothing. -/
def append (e : Emitter) (s : TokenStream) : Emitter :=
  if s.tokens.isEmpty then e
  else
    let base := e.stream.tokens.size
    let runs := s.runs.foldl (fun runs run => beginRun runs run.file (base + run.start)) e.stream.runs
    ⟨⟨e.stream.tokens ++ s.tokens, runs⟩, true⟩

end Emitter

end HdlIndex
