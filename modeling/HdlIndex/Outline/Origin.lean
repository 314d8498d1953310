import HdlIndex.Preprocess.Run
import HdlIndex.Symbol.Basic

/-! Where processed text comes from. A stretch of the text is traced back to segments: pieces
of source files, in the order of the text. -/

namespace HdlIndex

/-- A piece of one file, with the run that its last token belongs to. -/
structure Segment where
  file : String
  start : Nat
  stop : Nat
  run : Nat
  deriving DecidableEq, Repr, Inhabited

namespace Segment

/-- Whether a token of the given file and run continues the segment: in the same run it does not
go back behind the start of the segment, or it starts exactly where the segment stops. -/
def accepts (s : Segment) (file : String) (run : Nat) (token : PostToken) : Bool :=
  s.file == file && (s.run == run && s.start ≤ token.start || token.start == s.stop)

/-- The segment with one more token. -/
def extend (s : Segment) (run : Nat) (token : PostToken) : Segment :=
  { s with stop := max s.stop token.stop, run }

/-- Adds a token to a row of segments, the last one first. -/
def add (segments : List Segment) (file : String) (run : Nat) (token : PostToken) :
    List Segment :=
  match segments with
  | [] => [⟨file, token.start, token.stop, run⟩]
  | s :: rest =>
    if s.accepts file run token then s.extend run token :: rest
    else ⟨file, token.start, token.stop, run⟩ :: s :: rest

end Segment

/-- A processed document with the means to trace its text back. -/
structure Origins where
  /-- The document itself. -/
  file : String
  stream : TokenStream
  sources : Sources
  /-- The offset of each token of the stream in the text. -/
  offsets : Array Nat
  deriving DecidableEq, Repr, Inhabited

namespace Origins

/-- The offsets of tokens that stand in a row. -/
def offsetsOf (tokens : Array PostToken) : Array Nat :=
  (tokens.foldl (fun (offsets, offset) t => (offsets.push offset, offset + t.text.utf8ByteSize))
    (#[], 0)).1

def ofPreprocessed (p : Preprocessed) : Origins :=
  ⟨p.file, p.stream, p.sources, offsetsOf p.stream.tokens⟩

/-- The last token that starts at or in front of an offset. -/
def tokenAt? (o : Origins) (offset : Nat) : Option Nat :=
  match bisect (fun i => o.offsets[i]?.any (· ≤ offset)) o.offsets.size with
  | 0 => none
  | n + 1 => some n

/-- Adds the token with a number; a token without an origin is passed over. -/
def addToken (o : Origins) (segments : List Segment) (index : Nat) : List Segment :=
  match o.stream.tokens[index]?, o.stream.runOf? index with
  | some token, some run =>
    match o.stream.runs[run]? with
    | some origin => Segment.add segments origin.file run token
    | none => segments
  | _, _ => segments

/-- The segments behind the bytes from `start` up to `stop` of the text. -/
def segments (o : Origins) (start stop : Nat) : List Segment :=
  match o.tokenAt? start, o.tokenAt? (max (stop - 1) start) with
  | some first, some last =>
    ((List.range' first (last + 1 - first)).foldl o.addToken []).reverse
  | _, _ => []

/-- The range of a segment; zero if the text of the file is not known. -/
def range (o : Origins) (s : Segment) : Range :=
  match o.sources.get? s.file with
  | some text => Text.range text s.start s.stop
  | none => .zero

/-- The definition of a declaration that covers a stretch of the text. -/
def definition (o : Origins) (start stop : Nat) : Definition :=
  match o.segments start stop with
  | [] => .zero
  | [s] => if s.file == o.file then .single (o.range s) else .multi [(s.file, o.range s)]
  | segments => .multi (segments.map fun s => (s.file, o.range s))

/-- The place of a name. -/
def location (o : Origins) (start stop : Nat) : Option Location :=
  (o.segments start stop).head?.map fun s =>
    ⟨if s.file == o.file then none else some s.file, o.range s⟩

/-- File, line and column of an offset of the text. -/
def describe (o : Origins) (offset : Nat) : String :=
  match o.segments offset (offset + 1) with
  | [] => o.file ++ ":?"
  | s :: _ => s.file ++ ":" ++ (o.range s).start.display

end Origins

end HdlIndex
