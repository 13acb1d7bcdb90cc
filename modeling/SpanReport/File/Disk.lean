import SpanReport.File.Access
import SpanReport.File.Node

/-! # Disks

A `Disk` is a tree of files and directories as a value, on which the requests of `FileAccess` can be
answered without any effect. A path is first checked as a whole, then its names are followed one by
one from the root (`Disk.follow`); the first name that cannot be followed decides the error. Names
and paths have a greatest length, counted in bytes. -/

namespace SpanReport

/-- A tree of files and directories. -/
structure Disk where
  /-- What the root directory holds. -/
  entries : List (String × Node)
  /-- The location from which relative paths are followed. -/
  workingDir : Location

/-- The directories on the way to a place, the innermost first, each under its name. The root is
not among them. -/
abbrev Trail := List (String × Node)

/-- The names that lead along a trail. -/
def Trail.location (trail : Trail) : Location :=
  (trail.map Prod.fst).reverse

namespace Disk

/-- The disk with nothing below its root, which is the working directory. -/
def empty : Disk := ⟨[], []⟩

/-- The root directory. -/
def root (disk : Disk) : Node :=
  .directory disk.entries

/-- What the disk holds at a location. -/
def get? (disk : Disk) (location : Location) : Option Node :=
  disk.root.get? location

/-- The disk with another node at a location. -/
def put (disk : Disk) (location : Location) (node : Node) : Disk :=
  { disk with entries := (node.put disk.root location).entries }

/-- The greatest number of bytes of a name. -/
def nameLimit : Nat := 255

/-- The greatest number of bytes of the text of a path. -/
def pathLimit : Nat := 4095

/-- Check the text of a path, before any of its names is followed. -/
def checkPath (path : Path) : Except FileError Unit :=
  let text := path.toString
  if text.toList.contains '\x00' then .error .nulCharacter
  else if text = "" then .error .notFound
  else if pathLimit < text.utf8ByteSize then .error .nameTooLong
  else .ok ()

/-- Check a name before it is looked up. -/
def checkName (name : String) : Except FileError Unit :=
  if nameLimit < name.utf8ByteSize then .error .nameTooLong else .ok ()

/-- The directory at the end of a trail. -/
def here (disk : Disk) : Trail → Node
  | [] => disk.root
  | (_, node) :: _ => node

/-- Follow names from the end of a trail; all of them have to lead to a directory. -/
def follow (disk : Disk) : Trail → List String → Except FileError Trail
  | trail, [] => .ok trail
  | trail, name :: later =>
    if name = "." then disk.follow trail later
    else if name = ".." then disk.follow trail.tail later
    else
      match checkName name, (disk.here trail).child? name with
      | .error error, _ => .error error
      | .ok (), some (.directory entries) => disk.follow ((name, .directory entries) :: trail) later
      | .ok (), some (.file _) => .error .notDirectory
      | .ok (), none => .error .notFound

/-- The names to follow from the root. -/
def namesFromRoot (disk : Disk) (path : Path) : List String :=
  if path.isAbsolute then path.names else disk.workingDir ++ path.names

/-- Where a path ends. -/
inductive Target
  /-- At a directory that the path does not name but refers to by `.` or `..`, or at the root. -/
  | reference
  /-- At a name in a directory, with what the directory holds under that name. -/
  | entry (location : Location) (node : Option Node)

/-- Where a path ends. All its names but the last have to lead to a directory. -/
def target (disk : Disk) (path : Path) : Except FileError Target := do
  checkPath path
  let names := disk.namesFromRoot path
  match names.getLast? with
  | none => return .reference
  | some name =>
    let trail ← disk.follow [] names.dropLast
    if name = "." ∨ name = ".." then return .reference
    checkName name
    return .entry (trail.location ++ [name]) ((disk.here trail).child? name)

/-- The content of the file that a path leads to. -/
def read (disk : Disk) (path : Path) : Except FileError ByteArray := do
  match ← disk.target path with
  | .entry _ (some (.file content)) => return content
  | .entry _ none => throw .notFound
  | .entry _ (some (.directory _)) | .reference => throw .isDirectory

/-- The disk with a file created or replaced. -/
def write (disk : Disk) (path : Path) (content : ByteArray) : Except FileError Disk := do
  match ← disk.target path with
  | .entry location none | .entry location (some (.file _)) =>
    return disk.put location (.file content)
  | .entry _ (some (.directory _)) | .reference => throw .isDirectory

/-- The disk with an empty directory created. -/
def createDir (disk : Disk) (path : Path) : Except FileError Disk := do
  match ← disk.target path with
  | .entry location none => return disk.put location (.directory [])
  | .entry _ (some _) | .reference => throw .alreadyExists

/-- Whether a path leads to a directory. -/
def isDir (disk : Disk) (path : Path) : Bool :=
  match checkPath path, disk.follow [] (disk.namesFromRoot path) with
  | .ok (), .ok _ => true
  | _, _ => false

/-- Keep the disk that a request leaves behind; a refused request leaves it as it was. -/
def commit (request : Disk → Except FileError Disk) : StateM Disk (Except FileError Unit) :=
  fun disk =>
    match request disk with
    | .ok disk => (.ok (), disk)
    | .error error => (.error error, disk)

/-- A disk as the state of a computation is a file system. -/
instance : FileAccess (StateM Disk) where
  read path := fun disk => (disk.read path, disk)
  write path content := commit (·.write path content)
  createDir path := commit (·.createDir path)
  isDir path := fun disk => (disk.isDir path, disk)

end Disk

end SpanReport
