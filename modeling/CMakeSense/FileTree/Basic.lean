import CMakeSense.Text.Path

/-! File trees: directories and regular files with their contents and times of modification. A
tree maps each entry's place, the list of names that leads to it from the root, to the entry. The
root is always there, and the editing operations make the directories above an entry along with
it. Paths are followed name by name, so a path through a missing or regular file leads nowhere
even where its spelling could be shortened. -/

namespace CMakeSense

/-- When an entry was last modified, in seconds. A file may be dated before or after the present; a
directory has the time at which an entry was last made or deleted in it, if it was given no other
one since. -/
abbrev Stamp := Int

/-- An entry of a file tree. -/
inductive FileEntry where
  | file (content : Text) (modified : Stamp)
  | directory (modified : Stamp)
  deriving DecidableEq, Repr

namespace FileEntry

def isDirectory : FileEntry → Bool
  | .directory _ => true
  | .file .. => false

def modified : FileEntry → Stamp
  | .directory modified => modified
  | .file _ modified => modified

def touch (second : Stamp) : FileEntry → FileEntry
  | .directory _ => .directory second
  | .file content _ => .file content second

end FileEntry

/-- The names that lead from the root to an entry. -/
abbrev Place := List Text

/-- Why a path leads to no file. -/
inductive FileError.Cause where
  | missing | notDirectory | isDirectory | nameTooLong | invalidName
  deriving DecidableEq, Repr

def FileError.Cause.message : FileError.Cause → Text
  | .missing => utf8 "no such file or directory"
  | .notDirectory => utf8 "not a directory"
  | .isDirectory => utf8 "is a directory"
  | .nameTooLong => utf8 "file name too long"
  | .invalidName => utf8 "invalid argument"

/-- A failure to read the file at a path. A directory can be opened and fails in reading alone. -/
structure FileError where
  path : Text
  cause : FileError.Cause

def FileError.message (error : FileError) : Text :=
  (if error.cause = .isDirectory then utf8 "read " else utf8 "open ") ++ error.path ++
    utf8 ": " ++ error.cause.message

/-- A file tree with the working directory that relative paths start from. -/
structure FileTree where
  working : Place
  entries : List (Place × FileEntry)
  /-- The time that the clock shows, at first later than files are usually dated. -/
  clock : Stamp := 2000000000
  deriving Repr

namespace FileTree

/-- The entry at a place. -/
def entry? (tree : FileTree) (place : Place) : Option FileEntry :=
  if place = [] then some (.directory 0) else tree.entries.lookup place

/-- Adds or replaces the entry at a place. -/
def insert (tree : FileTree) (place : Place) (entry : FileEntry) : FileTree :=
  { tree with entries := (place, entry) :: tree.entries.filter (·.1 ≠ place) }

/-- Lets the clock go on and gives a directory the time that it shows. -/
def turn (tree : FileTree) (place : Place) : FileTree :=
  let next := { tree with clock := tree.clock + 1 }
  match tree.entries.lookup place with
  | some (.directory _) => next.insert place (.directory next.clock)
  | _ => next

/-- Makes an entry where there was none. -/
def create (tree : FileTree) (place : Place) (entry : FileEntry) : FileTree :=
  (tree.turn place.dropLast).insert place entry

/-- Makes the directories that `names` lead through from `place` on. Fails at a regular file. -/
def makeDirectories? (tree : FileTree) (place : Place) : Place → Option FileTree
  | [] => some tree
  | name :: names =>
    let next := place ++ [name]
    match tree.entry? next with
    | some (.directory _) => tree.makeDirectories? next names
    | some (.file ..) => none
    | none =>
      (tree.create next (.directory (tree.clock + 1))).makeDirectories? next names

/-- A tree that holds nothing but its working directory. -/
def empty (working : Place) : FileTree :=
  let bare : FileTree := { working, entries := [] }
  (bare.makeDirectories? [] working).getD bare

/-- The spelling of the working directory. -/
def workingPath (tree : FileTree) : Text := Ascii.slash :: Text.join [Ascii.slash] tree.working

/-- The place that a path names below the working directory by its spelling. -/
def placeBelow (tree : FileTree) (path : Text) : Place :=
  Path.components (Path.join tree.workingPath path)

/-- Makes a directory, with those above it. Nothing happens where a regular file is in the way. -/
def makeDirectory (tree : FileTree) (path : Text) : FileTree :=
  (tree.makeDirectories? [] (tree.placeBelow path)).getD tree

/-- Writes a file, with the directories above it. Nothing happens where the file cannot be. -/
def writeFile (tree : FileTree) (path content : Text) (second : Stamp) : FileTree :=
  let place := tree.placeBelow path
  match tree.makeDirectories? [] place.dropLast with
  | none => tree
  | some tree =>
    match tree.entry? place with
    | some (.directory _) => tree
    | some (.file ..) => tree.insert place (.file content second)
    | none => tree.create place (.file content second)

/-- Writes a file, or makes a directory when the path ends in a slash. -/
def write (tree : FileTree) (path content : Text) (second : Stamp) : FileTree :=
  if path.getLast? = some Ascii.slash then tree.makeDirectory path
  else tree.writeFile path content second

/-- Sets the time of an entry, if there is one. -/
def touch (tree : FileTree) (path : Text) (second : Stamp) : FileTree :=
  let place := tree.placeBelow path
  match tree.entries.lookup place with
  | some entry => tree.insert place (entry.touch second)
  | none => tree

/-- Deletes an entry with all below it. -/
def delete (tree : FileTree) (path : Text) : FileTree :=
  let place := tree.placeBelow path
  let rest := { tree with
    entries := tree.entries.filter fun (other, _) => !place.isPrefixOf other }
  if (tree.entries.lookup place).isSome then rest.turn place.dropLast else rest

/-- Follows the names of a path from a place. Every step but the last needs a directory. -/
def follow (tree : FileTree) (place : Place) : List Text → Except FileError.Cause Place
  | [] => if (tree.entry? place).isSome then .ok place else .error .missing
  | name :: names =>
    match tree.entry? place with
    | none => .error .missing
    | some (.file ..) => .error .notDirectory
    | some (.directory _) =>
      if 255 < name.length then .error .nameTooLong
      else if name = [] || name = utf8 "." then tree.follow place names
      else if name = utf8 ".." then tree.follow place.dropLast names
      else tree.follow (place ++ [name]) names

/-- The least number of bytes that is too long for a path. -/
def pathLimit : Nat := 4096

/-- The place that a path leads to. -/
def resolve (tree : FileTree) (path : Text) : Except FileError.Cause Place :=
  if path = [] then .error .missing
  else if path.contains 0 then .error .invalidName
  else if pathLimit ≤ path.length then .error .nameTooLong
  else tree.follow (if Path.isAbsolute path then [] else tree.working)
    (Text.splitOn Ascii.slash path)

/-- The entry that a path leads to. -/
def stat (tree : FileTree) (path : Text) : Except FileError.Cause FileEntry := do
  let place ← tree.resolve path
  match tree.entry? place with
  | some entry => .ok entry
  | none => .error .missing

/-- The entry that a path leads to, if it leads to any. -/
def find? (tree : FileTree) (path : Text) : Option FileEntry := (tree.stat path).toOption

/-- Whether a path leads to anything. -/
def has (tree : FileTree) (path : Text) : Bool := (tree.find? path).isSome

/-- Whether a path leads to a regular file. -/
def isFile (tree : FileTree) (path : Text) : Bool :=
  match tree.find? path with
  | some (.file ..) => true
  | _ => false

/-- The content of the file that a path leads to. -/
def readFile (tree : FileTree) (path : Text) : Except FileError Text :=
  match tree.stat path with
  | .ok (.file content _) => .ok content
  | .ok (.directory _) => .error ⟨path, .isDirectory⟩
  | .error cause => .error ⟨path, cause⟩

/-- The names and entries directly below a place, in byte order of the names. -/
def children (tree : FileTree) (place : Place) : List (Text × FileEntry) :=
  (tree.entries.filterMap fun (other, entry) =>
    match other.getLast? with
    | some name => if other.dropLast = place then some (name, entry) else none
    | none => none).mergeSort fun a b => decide (a.1 ≤ b.1)

/-- The listing of a directory. A path that leads to no directory lists nothing. -/
def list (tree : FileTree) (path : Text) : List (Text × FileEntry) :=
  match tree.resolve path with
  | .ok place =>
    match tree.entry? place with
    | some (.directory _) => tree.children place
    | _ => []
  | .error _ => []

/-- Whether a name marks its entry as hidden. -/
def isHidden (name : Text) : Bool := name.head? = some Ascii.dot

/-- What leads from `place` to `other`, when `other` is at or below `place`. -/
def below? (place other : Place) : Option Place :=
  if place.isPrefixOf other then some (other.drop place.length) else none

/-- The regular files at or below a path that are reached without entering a hidden directory, as
the names that lead to them. The path itself may be hidden. -/
def visibleFiles (tree : FileTree) (path : Text) : List Place :=
  match tree.resolve path with
  | .error _ => []
  | .ok root => tree.entries.filterMap fun (place, entry) =>
    match entry, below? root place with
    | .file .., some names => if names.dropLast.any isHidden then none else some names
    | _, _ => none

end FileTree

end CMakeSense
