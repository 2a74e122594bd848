import ClusterFilter.Files.Access
import ClusterFilter.Files.Path

/-!
# ClusterFilter — files in memory

A tree of directories and files, with a working directory from which relative paths start. Every
step of a path but the last has to lead into a directory, and so has one before a slash at the end.

Before a file is stored the directories above it are made, one after another from the start of its
path on. Where that stops or the file cannot be stored after all, those already made stay.
-/

namespace ClusterFilter

/-- The place of an entry: the names on the way to it from the root. -/
abbrev Place := List (List Char)

/-- An entry of the tree below its root. -/
inductive FileEntry where
  | file (text : String)
  | directory
  deriving DecidableEq, Repr

/-- A tree of files. -/
structure FileStore where
  working : Place
  entries : List (Place × FileEntry)
  deriving DecidableEq, Repr

namespace FileStore

/-- The tree with nothing but the working directory and the directories above it. -/
def empty (working : Place) : FileStore :=
  ⟨working, (List.range (working.length + 1)).map fun n => (working.take n, .directory)⟩

/-- The entry at a place. -/
def entry? (s : FileStore) (place : Place) : Option FileEntry :=
  s.entries.lookup place

/-- The tree with the entry at the place, instead of any other one there. -/
def put (s : FileStore) (place : Place) (entry : FileEntry) : FileStore :=
  { s with entries := (place, entry) :: s.entries.filter fun e => e.1 ≠ place }

/-- The place that segments lead to from a place on. Each segment starts in a directory. -/
def walk (s : FileStore) (place : Place) : List (List Char) → Option Place
  | [] => some place
  | segment :: rest =>
    if s.entry? place ≠ some .directory then none
    else if Path.isIdle segment then s.walk place rest
    else if segment = ['.', '.'] then s.walk place.dropLast rest
    else s.walk (place ++ [segment]) rest

/-- Where the segments of a path start. -/
def startOf (s : FileStore) (path : String) : Place :=
  if Path.isAbsolute path then [] else s.working

/-- The place that a path leads to. -/
def resolve? (s : FileStore) (path : String) : Option Place :=
  if path ≠ "" ∧ Path.isValid path ∧ (Path.segments path).all Path.isName then
    s.walk (s.startOf path) (Path.segments path)
  else none

/-- Makes the directories that are missing on the way along segments, up to a file in the way or
to a segment that can be no name. Whether the way leads through comes with the tree. -/
def makeDirectories (s : FileStore) (place : Place) : List (List Char) → FileStore × Bool
  | [] => (s, true)
  | segment :: rest =>
    if Path.isIdle segment then s.makeDirectories place rest
    else if segment = ['.', '.'] then s.makeDirectories place.dropLast rest
    else
      let next := place ++ [segment]
      match s.entry? next with
      | some .directory => s.makeDirectories next rest
      | some (.file _) => (s, false)
      | none =>
        if Path.isName segment then (s.put next .directory).makeDirectories next rest
        else (s, false)

/-- Makes the directories of a path that are missing, all of them if the path can be one. -/
def makePath (s : FileStore) (path : String) : FileStore × Bool :=
  if Path.isValid path then s.makeDirectories (s.startOf path) (Path.segments path)
  else (s, false)

/-- Whether an entry stands at the path. -/
def isPresent (s : FileStore) (path : String) : Bool :=
  ((s.resolve? path).bind s.entry?).isSome

/-- The text of the file at the path. -/
def readText (s : FileStore) (path : String) : Option String :=
  match (s.resolve? path).bind s.entry? with
  | some (.file text) => some text
  | _ => none

/-- The tree with the text as the file at the path, and whether that is possible. Directories that
are made above a place where no file can be stay. -/
def writeText (s : FileStore) (path text : String) : FileStore × Bool :=
  match s.makePath (Path.directory path) with
  | (s, false) => (s, false)
  | (s, true) =>
    match s.resolve? path with
    | none => (s, false)
    | some place =>
      if s.entry? place = some .directory then (s, false)
      else (s.put place (.file text), true)

/-- What comes of reading the file at the path. -/
def read (s : FileStore) (path : String) : Except String String :=
  match s.readText path with
  | some text => .ok text
  | none => .error "no text stands there"

/-- What comes of storing a text. -/
def stored (isStored : Bool) : Except String Unit :=
  if isStored then .ok () else .error "no file can stand there"

instance : FileAccess (StateM FileStore) where
  isPresent path := do return (← get).isPresent path
  readText path := do return (← get).read path
  writeText path text := do
    let (s, isStored) := (← get).writeText path text
    set s
    return stored isStored

end FileStore

end ClusterFilter
