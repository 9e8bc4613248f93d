import Memberwise.Codec.Error

/-!
# The codec registry

A registry holds operations in the order in which they were registered; no two agree in type, kind and name.

* `lookup` resolves by name, or by shape when no name is given: the type must then offer exactly one operation of
  the kind. A name that exists only under other kinds is told apart from one that does not exist.
* `resolve` also recovers the function of the operation found.
* `listing` orders the operations by type name, kind and name.
-/

namespace Memberwise

/-- How the built-in codecs of a registry are chosen. -/
structure RegistryConfig where
  byteOrder : ByteOrder := .little
  varint : Bool := false
  deriving DecidableEq, Repr

/-- The operations known, oldest first, and the settings that they were chosen by. -/
structure Registry where
  config : RegistryConfig := {}
  operations : List Operation := []

/-- A function found in a registry, with the name it is registered by. -/
structure Bound (α : Type) where
  name : String
  call : α

namespace Bound

/-- The same name for a function derived from the one found. -/
def map {α β : Type} (f : α → β) (b : Bound α) : Bound β := ⟨b.name, f b.call⟩

@[simp] theorem name_map {α β : Type} (f : α → β) (b : Bound α) : (b.map f).name = b.name := rfl

end Bound

/-- A line of the listing of a registry. -/
structure Listed where
  type : ValueType
  kind : OperationKind
  name : String
  deriving DecidableEq, Repr

namespace Listed

/-- Orders by full type name, then kind, then operation name. -/
def ble (a b : Listed) : Bool :=
  decide (a.type.name < b.type.name) || a.type.name == b.type.name &&
    (decide (a.kind.index < b.kind.index) || a.kind == b.kind && decide (a.name ≤ b.name))

end Listed

namespace Operation

/-- The listing entry of an operation. -/
def listed (op : Operation) : Listed := ⟨op.type, op.kind, op.name⟩

end Operation

namespace Registry

def empty : Registry := {}

def size (r : Registry) : Nat := r.operations.length

/-- The operations of a kind on a type, oldest first. -/
def candidates (r : Registry) (t : ValueType) (k : OperationKind) : List Operation :=
  r.operations.filter fun op => op.type = t ∧ op.kind = k

/-- The operation of a kind on a type with a given name. -/
def find? (r : Registry) (t : ValueType) (k : OperationKind) (name : String) : Option Operation :=
  (r.candidates t k).find? (·.name = name)

/-- Whether the type offers an operation of the kind. -/
def supports (r : Registry) (t : ValueType) (k : OperationKind) : Bool := !(r.candidates t k).isEmpty

/-- Adds an operation without looking for an earlier one of its name. -/
def push (r : Registry) (op : Operation) : Registry := { r with operations := r.operations ++ [op] }

/-- Adds an operation, unless its type, kind and name are taken. -/
def insert (r : Registry) (op : Operation) : Except DuplicateOperation Registry :=
  if (r.find? op.type op.kind op.name).isSome then .error ⟨op.type.name, op.kind, op.name⟩ else .ok (r.push op)

/-- The other kinds under which the type has an operation of the name. -/
def otherKinds (r : Registry) (t : ValueType) (k : OperationKind) (name : String) : List OperationKind :=
  OperationKind.all.filter fun other => other ≠ k ∧ (r.find? t other name).isSome

/-- Finds one operation of a kind on a type, by name or, without a name, by shape. -/
def lookup (r : Registry) (t : ValueType) (k : OperationKind) : Option String → Except ResolutionError Operation
  | some name =>
    match r.find? t k name with
    | some op => .ok op
    | none =>
      match r.otherKinds t k name with
      | [] => .error (.notFound t.name k (some name))
      | found => .error (.shapeMismatch t.name name k found)
  | none =>
    match r.candidates t k with
    | [] => .error (.notFound t.name k none)
    | [op] => .ok op
    | many => .error (.ambiguous t.name k (many.map (·.name)))

/-- Finds one operation as `lookup` does and recovers its function. -/
def resolve (r : Registry) (t : ValueType) (k : OperationKind) (name : Option String) :
    Except ResolutionError (Bound (k.Call t.Carrier)) :=
  match r.lookup t k name with
  | .error e => .error e
  | .ok op =>
    match op.as? t k with
    | some call => .ok ⟨op.name, call⟩
    | none => .error (.signatureMismatch t.name op.name k)

/-- Like `resolve`, for an operation that can be done without: when no name is given, an operation that does not
exist or is not unique is no error. -/
def resolveOptional (r : Registry) (t : ValueType) (k : OperationKind) (name : Option String) :
    Except ResolutionError (Option (Bound (k.Call t.Carrier))) :=
  match r.resolve t k name, name with
  | .ok b, _ => .ok (some b)
  | .error (.notFound ..), none | .error (.ambiguous ..), none => .ok none
  | .error e, _ => .error e

/-- All operations, ordered by type name, kind and name. -/
def listing (r : Registry) : List Listed := (r.operations.map Operation.listed).mergeSort Listed.ble

end Registry

end Memberwise
