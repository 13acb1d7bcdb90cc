import SpanReport.File.Path

/-! # Access to files

What the program asks of a file system (`FileAccess`) and how a request may fail (`FileError`). For
any file system that answers these requests: reading a text (`readText`), and creating a directory
or writing a file together with the missing directories above it (`createDirs`, `writeBelow`). -/

namespace SpanReport

/-- Why a file system refuses a request. -/
inductive FileError
  /-- A name on the way, or the last one, does not exist. -/
  | notFound
  /-- A name on the way is a file. -/
  | notDirectory
  /-- The path leads to a directory where a file is asked for. -/
  | isDirectory
  /-- The name to create exists. -/
  | alreadyExists
  /-- The path, or a name on the way, is longer than the file system admits. -/
  | nameTooLong
  /-- The path holds the character that ends the text of a path. -/
  | nulCharacter
  /-- The file is no UTF-8 text. -/
  | invalidText
  /-- Any other reason, in the words of the file system. -/
  | other (reason : String)
  deriving DecidableEq, Repr

/-- The wording of a file error. -/
def FileError.message : FileError → String
  | .notFound => "No such file or directory (os error 2)"
  | .notDirectory => "Not a directory (os error 20)"
  | .isDirectory => "Is a directory (os error 21)"
  | .alreadyExists => "File exists (os error 17)"
  | .nameTooLong => "File name too long (os error 36)"
  | .nulCharacter => "file name contained an unexpected NUL byte"
  | .invalidText => "stream did not contain valid UTF-8"
  | .other reason => reason

/-- A file system that is reached by actions in `m`. -/
class FileAccess (m : Type → Type) where
  /-- The content of a file. -/
  read : Path → m (Except FileError ByteArray)
  /-- Create or replace a file. -/
  write : Path → ByteArray → m (Except FileError Unit)
  /-- Create a directory below an existing one. -/
  createDir : Path → m (Except FileError Unit)
  /-- Whether a path leads to a directory. -/
  isDir : Path → m Bool

variable {m : Type → Type} [Monad m] [FileAccess m]

/-- The text of a file, which has to be UTF-8. -/
def readText (path : Path) : m (Except FileError Text) := do
  match ← FileAccess.read path with
  | .error error => return .error error
  | .ok bytes =>
    match String.fromUTF8? bytes with
    | some text => return .ok text.toList
    | none => return .error .invalidText

/-- Create a directory, or be content with one that exists. -/
def ensureDir (path : Path) : m (Except FileError Unit) := do
  match ← FileAccess.createDir path with
  | .ok () => return .ok ()
  | .error error => if ← FileAccess.isDir path then return .ok () else return .error error

/-- Create the first of the directories, each of which lies in the next one. The others are created
before it, as far as they are missing. -/
def createChain : List Path → m (Except FileError Unit)
  | [] => return .ok ()
  | path :: above => do
    match ← ensureDir path with
    | .error .notFound =>
      match ← createChain above with
      | .ok () => ensureDir path
      | .error error => return .error error
    | outcome => return outcome

/-- Create a directory and the missing ones above it. A directory that exists is kept. -/
def createDirs (path : Path) : m (Except FileError Unit) :=
  createChain path.lineage

/-- Write a file after creating the directory that it lies in, with the missing ones above it. -/
def writeBelow (path : Path) (content : ByteArray) : m (Except FileError Unit) := do
  match ← createChain path.lineage.tail with
  | .ok () => FileAccess.write path content
  | .error error => return .error error

end SpanReport
