import HdlIndex.Source

/-! Files as commands see them. A `Disk` says what stands under a path; a `FileTree` is a machine with
its files, held in memory, in which paths are followed step by step. -/

namespace HdlIndex

/-- Why a file cannot be read or written. -/
inductive FileError where
  | notFound
  | notDirectory
  | isDirectory
  | nameTooLong
  /-- A path with a zero character in it. -/
  | zeroByte
  | notText
  | other (message : String)
  deriving DecidableEq, Repr, Inhabited

def FileError.message : FileError → String
  | notFound => "No such file or directory (os error 2)"
  | notDirectory => "Not a directory (os error 20)"
  | isDirectory => "Is a directory (os error 21)"
  | nameTooLong => "File name too long (os error 36)"
  | zeroByte => "file name contained an unexpected NUL byte"
  | notText => "stream did not contain valid UTF-8"
  | other message => message

/-- Files are compared byte by byte. -/
local instance decEqBytes : DecidableEq ByteArray := ByteArray.instDecidableEq

/-- What stands under a path. -/
inductive DiskEntry where
  | file (bytes : ByteArray)
  | directory
  /-- A device that reads as empty and keeps nothing. -/
  | device
  deriving DecidableEq, Inhabited

/-- The size in bytes; a directory takes one block. -/
def DiskEntry.size : DiskEntry → Nat
  | file bytes => bytes.size
  | directory => 4096
  | device => 0

/-- The text of a file. -/
def DiskEntry.text : DiskEntry → Except FileError String
  | file bytes =>
    match String.fromUTF8? bytes with
    | some text => .ok text
    | none => .error .notText
  | directory => .error .isDirectory
  | device => .ok ""

structure Disk where
  entry : Path → Except FileError DiskEntry

namespace Disk

def read (disk : Disk) (path : Path) : Except FileError String :=
  match disk.entry path with
  | .ok entry => entry.text
  | .error e => .error e

def isFile (disk : Disk) (path : Path) : Bool :=
  match disk.entry path with
  | .ok (.file _) => true
  | _ => false

/-- The disk as a source of included files. It does not know all its files, so none is found by
its last steps. -/
def provider (disk : Disk) : Provider where
  read path := (disk.read path).mapError FileError.message
  contains := disk.isFile
  endingIn _ := []

end Disk

/-- Why a path cannot be followed at all, wherever it leads. -/
def Path.fault? (path : Path) : Option FileError :=
  if path.text.contains '\x00' then some .zeroByte
  else if path.text.isEmpty then some .notFound
  else if 4096 ≤ path.text.utf8ByteSize then some .nameTooLong
  else none

/-- The most bytes that a name in a directory may have. -/
def nameLimit : Nat := 255

/-- A machine with its files: what stands where, by the steps from the root. Directories are also
there if something stands in them. -/
structure FileTree where
  entries : List (List String × DiskEntry)

namespace FileTree

/-- The directory in which commands run. -/
def here : List String := ["tmp", "work"]

/-- The directories of the machine, and the device that swallows everything. -/
def bare : FileTree where
  entries :=
    (here, .directory) :: (["dev", "null"], .device) ::
      ["bin", "boot", "etc", "home", "lib", "media", "mnt", "opt", "proc", "root", "run", "sbin",
        "srv", "sys", "usr", "var"].map fun name => ([name], .directory)

instance : Inhabited FileTree := ⟨bare⟩

def entryAt (tree : FileTree) (steps : List String) : Except FileError DiskEntry :=
  match tree.entries.lookup steps with
  | some entry => .ok entry
  | none =>
    if steps.isEmpty || tree.entries.any fun (other, _) => steps.isPrefixOf other then .ok .directory
    else .error .notFound

/-- Follows the pieces of a path between slashes, from a place in the tree. Every piece needs a
directory in front of it, and above the root there is the root. -/
def resolve (tree : FileTree) (place : List String) : List String → Except FileError (List String)
  | [] => .ok place
  | piece :: rest =>
    match tree.entryAt place with
    | .error e => .error e
    | .ok .directory =>
      match piece with
      | "" | "." => tree.resolve place rest
      | ".." => tree.resolve place.dropLast rest
      | name =>
        if nameLimit < name.utf8ByteSize then .error .nameTooLong
        else tree.resolve (place ++ [name]) rest
    | .ok _ => .error .notDirectory

/-- The steps from the root that a path leads to. -/
def steps (tree : FileTree) (path : Path) : Except FileError (List String) :=
  match path.fault? with
  | some e => .error e
  | none => tree.resolve (if path.isAbsolute then [] else here) path.pieces

def entry (tree : FileTree) (path : Path) : Except FileError DiskEntry :=
  (tree.steps path).bind tree.entryAt

def disk (tree : FileTree) : Disk := ⟨tree.entry⟩

/-- Puts a file in its place, in front of all others. -/
def put (tree : FileTree) (steps : List String) (bytes : ByteArray) : FileTree :=
  ⟨(steps, .file bytes) :: tree.entries.filter (·.1 != steps)⟩

/-- A machine with files in the directory in which commands run, given by their paths. -/
def ofList (files : List (String × ByteArray)) : FileTree :=
  files.foldl (fun tree file => tree.put (place here (Path.pieces ⟨file.1⟩)) file.2) bare
where
  place (steps : List String) : List String → List String
    | [] => steps
    | "" :: rest | "." :: rest => place steps rest
    | ".." :: rest => place steps.dropLast rest
    | name :: rest => place (steps ++ [name]) rest

/-- Writes a file. Its directory has to be there, and a path that ends in a slash is that of a
directory. -/
def write (tree : FileTree) (path : Path) (text : String) : Except FileError FileTree := do
  match path.fault? with
  | some e => .error e
  | none =>
    let start := if path.isAbsolute then [] else here
    let pieces := path.pieces
    let trimmed := (pieces.reverse.dropWhile (·.isEmpty)).reverse
    let folder ← tree.resolve start trimmed.dropLast
    match ← tree.entryAt folder, trimmed.getLast? with
    | .directory, some name =>
      if name != "." && name != ".." && trimmed.length < pieces.length then .error .isDirectory
      else
        let steps ← tree.resolve folder [name]
        match tree.entryAt steps with
        | .ok .directory => .error .isDirectory
        | .ok .device => .ok tree
        | _ => .ok (tree.put steps text.toUTF8)
    | .directory, none => .error .isDirectory
    | _, _ => .error .notDirectory

/-- The files in the directory in which commands run that `old` does not have, or has with other
contents. -/
def changesSince (tree old : FileTree) : List (String × ByteArray) :=
  tree.entries.filterMap fun (steps, entry) =>
    match entry with
    | .file bytes =>
      if here.isPrefixOf steps && old.entries.lookup steps != some entry then
        some ("/".intercalate (steps.drop here.length), bytes)
      else none
    | _ => none

end FileTree

end HdlIndex
