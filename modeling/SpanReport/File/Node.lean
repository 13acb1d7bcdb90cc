/-! # File trees

A `Node` is a file or a directory with everything in it. What lies below a directory is found at a
`Location` (`Node.get?`) and replaced there (`Node.put`). As nodes hold what is in them, nothing
lies below a file, and everything that is found lies in directories. -/

namespace SpanReport

/-- A file, or a directory with everything in it. -/
inductive Node
  /-- A file with its content. -/
  | file (content : ByteArray)
  /-- A directory with its entries; of several entries with one name the first one counts. -/
  | directory (entries : List (String × Node))

/-- The names that lead to a node from a directory above it. -/
abbrev Location := List String

namespace Node

/-- The entries of a directory; a file has none. -/
def entries : Node → List (String × Node)
  | file _ => []
  | directory entries => entries

/-- What a directory holds under a name. -/
def child? (node : Node) (name : String) : Option Node :=
  node.entries.lookup name

/-- What is found at a location below a node. -/
def get? (node : Node) : Location → Option Node
  | [] => some node
  | name :: later => (node.child? name).bind fun child => child.get? later

/-- Entries with another node under a name. -/
def setEntry (entries : List (String × Node)) (name : String) (node : Node) :
    List (String × Node) :=
  (name, node) :: entries.filter (·.1 ≠ name)

/-- A node with another one at a location below it, in a directory that has to be there. -/
def put (replacement : Node) : Node → Location → Node
  | _, [] => replacement
  | file content, _ :: _ => file content
  | directory entries, [name] => directory (setEntry entries name replacement)
  | directory entries, name :: later =>
    match entries.lookup name with
    | some child => directory (setEntry entries name (replacement.put child later))
    | none => directory entries

end Node

end SpanReport
