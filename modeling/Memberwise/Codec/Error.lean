import Memberwise.Codec.Operation

/-!
# Why an operation cannot be registered or found

The causes, each with the text that reports it. Types appear by their full names.
-/

namespace Memberwise

/-- A registration that repeats the type, kind and name of an earlier one. -/
structure DuplicateOperation where
  type : String
  kind : OperationKind
  name : String
  deriving DecidableEq, Repr

def DuplicateOperation.message (e : DuplicateOperation) : String :=
  s!"duplicate {e.kind.text} operation `{e.name}` for {e.type}"

/-- Why a look-up gives no operation. -/
inductive ResolutionError
  /-- Nothing of that name, or without a name nothing of that kind. -/
  | notFound (type : String) (kind : OperationKind) (name : Option String)
  /-- Several operations of that kind, and no name to choose by. -/
  | ambiguous (type : String) (kind : OperationKind) (candidates : List String)
  /-- The name is registered, but only under other kinds. -/
  | shapeMismatch (type name : String) (expected : OperationKind) (found : List OperationKind)
  /-- The operation found is no function of that kind on that type. -/
  | signatureMismatch (type name : String) (kind : OperationKind)
  deriving DecidableEq, Repr

def ResolutionError.message : ResolutionError → String
  | .notFound type kind (some name) => s!"no {kind.text} operation named `{name}` for {type}"
  | .notFound type kind none => s!"no {kind.text} operation matching by shape for {type}"
  | .ambiguous type kind candidates =>
    let names := ", ".intercalate candidates
    s!"ambiguous {kind.text} operation for {type}: candidates {names}"
  | .shapeMismatch type name expected found =>
    let kinds := ", ".intercalate (found.map OperationKind.text)
    s!"operation `{name}` for {type} is not a {expected.text} operation (found {kinds})"
  | .signatureMismatch type name kind =>
    s!"operation `{name}` for {type} does not have the {kind.text} signature {kind.signature}"

end Memberwise
