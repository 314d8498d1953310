import HdlIndex.Path

/-! Where source text comes from. A `Provider` answers the questions that the resolution of
an include asks; `Files` is a set of files held in memory. -/

namespace HdlIndex

/-- Access to source files. A failed read gives the reason. -/
structure Provider where
  read : Path → Except String String
  contains : Path → Bool
  /-- All known files whose path ends in the given steps, in path order. -/
  endingIn : Path → List Path

/-- Files held in memory, each under a normal path. -/
structure Files where
  entries : List (Path × String)
  deriving Repr, Inhabited

namespace Files

def empty : Files := ⟨[]⟩

def get? (files : Files) (path : Path) : Option String :=
  files.entries.lookup path.normalize

/-- Adds a file, or replaces its text if the path names a known file. -/
def insert (files : Files) (path : Path) (text : String) : Files :=
  let key := path.normalize
  if files.entries.any (·.1 == key) then
    ⟨files.entries.map fun entry => if entry.1 == key then (key, text) else entry⟩
  else ⟨files.entries ++ [(key, text)]⟩

def ofList (entries : List (Path × String)) : Files :=
  entries.foldl (fun files entry => files.insert entry.1 entry.2) empty

def size (files : Files) : Nat := files.entries.length

def contains (files : Files) (path : Path) : Bool := (files.get? path).isSome

def read (files : Files) (path : Path) : Except String String :=
  match files.get? path with
  | some text => .ok text
  | none => .error ("file not found in memory: " ++ path.normalize.text)

def endingIn (files : Files) (suffix : Path) : List Path :=
  ((files.entries.map (·.1)).filter (·.endsWith suffix)).mergeSort fun p q => p.compare q != .gt

def provider (files : Files) : Provider where
  read := files.read
  contains := files.contains
  endingIn := files.endingIn

end Files

/-- The texts of source files by name, in the order of the names. -/
structure Sources where
  entries : List (String × String)
  sorted : entries.Pairwise fun e f => e.1 < f.1
  deriving DecidableEq, Repr

namespace Sources

def empty : Sources := ⟨[], .nil⟩

instance : Inhabited Sources := ⟨empty⟩

def get? (s : Sources) (file : String) : Option String := s.entries.lookup file

/-- Puts a text among others in the place of its name, where it replaces an earlier one. -/
def place (file text : String) : List (String × String) → List (String × String)
  | [] => [(file, text)]
  | e :: rest =>
    if file = e.1 then (file, text) :: rest
    else if file < e.1 then (file, text) :: e :: rest
    else e :: place file text rest

theorem eq_or_mem_of_mem_place {file text : String} {entries : List (String × String)}
    {e : String × String} (h : e ∈ place file text entries) : e = (file, text) ∨ e ∈ entries := by
  induction entries with
  | nil => exact .inl (List.mem_singleton.1 h)
  | cons first rest ih =>
    rw [place] at h
    split at h
    · exact (List.mem_cons.1 h).imp_right (List.mem_cons_of_mem _)
    · split at h
      · exact List.mem_cons.1 h
      · rcases List.mem_cons.1 h with rfl | h
        · exact .inr List.mem_cons_self
        · exact (ih h).imp_right (List.mem_cons_of_mem _)

theorem sorted_place (file text : String) {entries : List (String × String)}
    (h : entries.Pairwise fun e f => e.1 < f.1) :
    (place file text entries).Pairwise fun e f => e.1 < f.1 := by
  induction entries with
  | nil => exact List.pairwise_singleton _ _
  | cons first rest ih =>
    obtain ⟨hfirst, hrest⟩ := List.pairwise_cons.1 h
    rw [place]
    split
    · next heq => exact .cons (heq ▸ hfirst) hrest
    · next hne =>
      split
      · next hlt =>
        refine .cons ?_ h
        intro e he
        rcases List.mem_cons.1 he with rfl | he
        · exact hlt
        · exact String.lt_trans hlt (hfirst e he)
      · next hge =>
        refine .cons ?_ (ih hrest)
        intro e he
        rcases eq_or_mem_of_mem_place he with rfl | he
        · exact Decidable.byContradiction fun hle =>
            hne (String.le_antisymm (String.not_lt.1 hle) (String.not_lt.1 hge))
        · exact hfirst e he

/-- Adds a text, in place of an earlier one of the file. -/
def insert (s : Sources) (file text : String) : Sources :=
  ⟨place file text s.entries, sorted_place file text s.sorted⟩

/-- Adds a text unless the file has one. -/
def addNew (s : Sources) (file text : String) : Sources :=
  if (s.get? file).isSome then s else s.insert file text

/-- Adds the texts of all files that have none yet. -/
def merge (s t : Sources) : Sources := t.entries.foldl (fun s e => s.addNew e.1 e.2) s

/-- File names in order. -/
def files (s : Sources) : List String := s.entries.map (·.1)

end Sources

/-- The provider with some files that cannot be opened, under whatever path. -/
def Provider.withLocked (provider : Provider) (locked : List Path) : Provider :=
  { provider with
    read := fun path =>
      if locked.any (·.normalize == path.normalize) then .error "permission denied" else provider.read path }

end HdlIndex
