/-! # Identities

An `Identity` names the user on whose behalf a text is compiled. It only keeps the artifacts of
different users apart. -/

namespace SpanReport

/-- The name of a user, or the name that stands for an unknown one. -/
structure Identity where
  /-- The name. -/
  name : String
  deriving DecidableEq, Repr

namespace Identity

/-- The identity of a user that is not known. -/
def unknown : Identity := ⟨"unknown"⟩

/-- The identity with the given name; the empty name stands for an unknown user. -/
def ofName (name : String) : Identity :=
  if name = "" then unknown else ⟨name⟩

/-- The identity with the given name, if there is one. -/
def ofName? : Option String → Identity
  | some name => ofName name
  | none => unknown

/-- Whether the identity is that of an unknown user. -/
def isUnknown (identity : Identity) : Bool :=
  identity == unknown

end Identity

end SpanReport
