/-! Slash-separated paths. A path keeps the text it was given as; its meaning is the list of
its components, so repeated and trailing slashes and dots inside do not count. Normal forms
have no `.` and no `..` that could be resolved without looking at any file. No characters but
slashes and dots are told apart, so bytes that are no text are as good as characters. -/

namespace HdlIndex

/-- One step of a path. -/
inductive Component where
  /-- The leading slash of an absolute path. -/
  | root
  /-- A leading `.`; elsewhere it is dropped. -/
  | current
  /-- The step `..`. -/
  | up
  | name (s : String)
  deriving DecidableEq, Repr, Inhabited

structure Path where
  text : String
  deriving DecidableEq, Repr, Inhabited

namespace Component

def text : Component → String
  | .root => "/"
  | .current => "."
  | .up => ".."
  | .name s => s

def rank : Component → Nat
  | .root => 0
  | .current => 1
  | .up => 2
  | .name _ => 3

/-- The root comes first, then `.`, then `..`, then names in the order of their characters. -/
def compare : Component → Component → Ordering
  | .name s, .name t => Ord.compare s t
  | c, d => Ord.compare c.rank d.rank

/-- Order of two lists of components, decided by the first difference. -/
def compareAll : List Component → List Component → Ordering
  | [], [] => .eq
  | [], _ :: _ => .lt
  | _ :: _, [] => .gt
  | c :: cs, d :: ds => (c.compare d).then (compareAll cs ds)

/-- A piece between slashes as a step; empty pieces and dots are no step. -/
def ofPiece : List Char → Option Component
  | [] => none
  | ['.'] => none
  | ['.', '.'] => some .up
  | piece => some (.name (.ofList piece))

/-- Adds a step to a normal form, whose last step stands first. -/
def settle (stack : List Component) (c : Component) : List Component :=
  match c, stack with
  | .current, stack => stack
  | .up, .name _ :: rest => rest
  | .up, .root :: rest => .root :: rest
  | c, stack => c :: stack

end Component

namespace Path

open Component

def isAbsolute (p : Path) : Bool := p.text.toList.head? == some '/'

/-- The texts between the slashes of a path. -/
def pieces (p : Path) : List String :=
  (p.text.toList.splitOnP (· == '/')).map String.ofList

/-- The steps of a path: the root or a leading `.`, then what stands between slashes. -/
def components (p : Path) : List Component :=
  let pieces := p.text.toList.splitOnP (· == '/')
  let steps := pieces.filterMap ofPiece
  if p.isAbsolute then .root :: steps
  else if pieces.head? == some ['.'] then .current :: steps
  else steps

/-- The path with the given steps, written without superfluous slashes. -/
def ofComponents : List Component → Path
  | .root :: steps => ⟨"/" ++ "/".intercalate (steps.map Component.text)⟩
  | steps => ⟨"/".intercalate (steps.map Component.text)⟩

/-- Whether two spellings have the same steps. -/
def same (p q : Path) : Bool := p.components == q.components

/-- Order by components, so `/a/b` comes before `/a-b`. -/
def compare (p q : Path) : Ordering := compareAll p.components q.components

/-- Continues `p` with `q`; an absolute `q` stands alone. -/
def join (p q : Path) : Path :=
  if q.isAbsolute then q
  else if p.text.isEmpty || p.text.toList.getLast? == some '/' then ⟨p.text ++ q.text⟩
  else ⟨p.text ++ "/" ++ q.text⟩

/-- The path without its last step; the root and the empty path have no parent. -/
def parent (p : Path) : Option Path :=
  match p.components.getLast? with
  | none => none
  | some .root => none
  | some _ => some (ofComponents p.components.dropLast)

/-- Whether the last steps of `p` are those of `q`. -/
def endsWith (p q : Path) : Bool := q.components.isSuffixOf p.components

/-- Resolves `.` and `..` by the text alone. At the root `..` is dropped; in front of a
relative path it stays. -/
def normalize (p : Path) : Path := ofComponents (p.components.foldl settle []).reverse

end Path

end HdlIndex
