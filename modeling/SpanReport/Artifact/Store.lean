import SpanReport.Artifact.Identity
import SpanReport.Digest.Sha256
import SpanReport.File.Access

/-! # Storing artifacts

A `Sink` stores an artifact for a text under an identity and a file name. `Sink.discard` keeps
nothing. `Sink.directory` writes the digest of the text to a file below a root directory; identity
and file name become one path component each (`artifactPath`), so that no artifact leaves the root
and no two of them share a file. -/

namespace SpanReport

/-- Why an artifact is not stored. -/
inductive StoreError
  /-- The name is no path component. -/
  | invalidComponent (name : String)
  /-- The file system refused to write to the path. -/
  | write (path : String) (cause : FileError)
  deriving DecidableEq, Repr

namespace StoreError

/-- The wording of a store error. -/
def message : StoreError → String
  | invalidComponent name => "`" ++ name ++ "` cannot be used as a path component"
  | write path _ => "failed to write artifact to `" ++ path ++ "`"

/-- What lies behind a store error, if anything does. -/
def cause? : StoreError → Option FileError
  | invalidComponent _ => none
  | write _ cause => some cause

end StoreError

/-- Whether a name stands for itself as a component of a path: it is neither empty nor a reference
to another directory, and holds no separator and no terminator of paths. -/
def isComponent (name : String) : Bool :=
  name ≠ "" && name ≠ "." && name ≠ ".." &&
    name.toList.all fun c => c ≠ '/' && c ≠ '\\' && c ≠ '\x00'

/-- The name as a component of a path, if it can be one. -/
def component (name : String) : Except StoreError String :=
  if isComponent name then .ok name else .error (.invalidComponent name)

/-- The path of an artifact below `root`: a directory for the identity, and in it a file. -/
def artifactPath (root : String) (identity : Identity) (file : String) :
    Except StoreError String := do
  let directory ← component identity.name
  let file ← component file
  return Path.joinText (Path.joinText root directory) file

/-- What an artifact file holds: the digest of the text and a line feed. -/
def artifactContent (text : Text) : ByteArray :=
  (contentHash text ++ "\n").toUTF8

/-- Stores an artifact for a text, and tells the path it was written to, if it was written. -/
abbrev Sink (m : Type → Type) :=
  Identity → String → Text → m (Except StoreError (Option String))

namespace Sink

variable {m : Type → Type} [Monad m]

/-- The sink that keeps nothing. -/
def discard : Sink m :=
  fun _ _ _ => return .ok none

/-- The sink that writes below a root directory. -/
def directory [FileAccess m] (root : String) : Sink m :=
  fun identity file text => do
    match artifactPath root identity file with
    | .error error => return .error error
    | .ok path =>
      match ← writeBelow (Path.ofString path) (artifactContent text) with
      | .error error => return .error (.write path error)
      | .ok () => return .ok (some path)

end Sink

end SpanReport
