import Memberwise.Member

/-!
# Compiling members

Compiling a member binds its getter and setter to codec operations, once: the resulting accessor set measures,
writes and reads the member of an instance without another look-up.

* A member that can be read needs its writer and its size operation, both by name.
* A member that can be assigned needs the reader of its length mode, by name or by shape. The other reader is
  bound if it is named, or if there is exactly one.
* The first need that the registry cannot meet is the error, in the order writer, size, scalar reader, bounded
  reader.
-/

namespace Memberwise

/-- Why a member, or a whole host type, cannot be compiled. -/
inductive CompileError
  | binding (e : BindingError)
  | codec (host member : String) (e : ResolutionError)
  deriving DecidableEq, Repr

def CompileError.message : CompileError → String
  | .binding e => s!"binding error: {e.message}"
  | .codec host member e => s!"codec resolution failed for member `{member}` of {host}: {e.message}"

/-- Which operation a member was bound to. -/
structure Binding where
  type : ValueType
  kind : OperationKind
  name : String
  deriving DecidableEq, Repr

def Binding.text (b : Binding) : String := s!"{b.kind.text}={b.name}"

/-- The binding of a member of type `t` to an operation of a kind. -/
def Bound.binding {α : Type} (b : Bound α) (t : ValueType) (k : OperationKind) : Binding := ⟨t, k, b.name⟩

/-- Reads a member at an offset and assigns it to an instance. -/
abbrev ScalarAssigner (H : Type) := H → Bytes → UInt64 → Option H

/-- Reads a member from a number of bytes at an offset and assigns it to an instance. -/
abbrev BoundedAssigner (H : Type) := H → Bytes → UInt64 → UInt64 → Option H

/-- A member bound to its operations, which are listed as they were bound. -/
structure AccessorSet (H : Type) where
  member : String
  type : ValueType
  length : LengthMode
  bindings : List Binding
  write : Option (Bound (Writer H))
  sizeOf : Option (Bound (H → UInt64))
  readScalar : Option (Bound (ScalarAssigner H))
  readBounded : Option (Bound (BoundedAssigner H))

namespace AccessorSet

variable {H : Type}

/-- The name of the operation of a kind that the member is bound to, if any. -/
def boundName (s : AccessorSet H) : OperationKind → Option String
  | .write => s.write.map (·.name)
  | .sizeOf => s.sizeOf.map (·.name)
  | .readScalar => s.readScalar.map (·.name)
  | .readBounded => s.readBounded.map (·.name)

/-- Whether the member is bound to an operation of a kind. -/
def has (s : AccessorSet H) (k : OperationKind) : Bool := (s.boundName k).isSome

/-- Whether the member can be read. -/
def isReadable (s : AccessorSet H) : Bool := s.has .write

/-- Whether the member can be assigned, from what its length mode calls for. -/
def isWritable (s : AccessorSet H) : Bool :=
  match s.length with
  | .implicit => s.has .readScalar
  | .prefixed => s.has .readBounded

/-- Whether the member can be used as asked. -/
def require (s : AccessorSet H) (host : String) (access : Access) : Except BindingError Unit :=
  access.check host s.member s.isReadable s.isWritable

end AccessorSet

/-- What of an accessor set comes from the getter. -/
structure ReadSide (H : Type) where
  bindings : List Binding := []
  write : Option (Bound (Writer H)) := none
  sizeOf : Option (Bound (H → UInt64)) := none

/-- What of an accessor set comes from the setter. -/
structure AssignSide (H : Type) where
  bindings : List Binding := []
  readScalar : Option (Bound (ScalarAssigner H)) := none
  readBounded : Option (Bound (BoundedAssigner H)) := none

namespace Member

variable {H : Type}

/-- Reads with `decode` and assigns with `set`. -/
def assignScalar {α : Type} (set : H → α → H) (decode : Bytes → UInt64 → Option α) : ScalarAssigner H :=
  fun x buf offset => (decode buf offset).map (set x)

/-- Reads a number of bytes with `decode` and assigns with `set`. -/
def assignBounded {α : Type} (set : H → α → H) (decode : Bytes → UInt64 → UInt64 → Option α) :
    BoundedAssigner H :=
  fun x buf offset length => (decode buf offset length).map (set x)

/-- Binds what a readable member needs. -/
def compileRead (m : Member H) (r : Registry) : Except ResolutionError (ReadSide H) :=
  match m.getter with
  | none => .ok {}
  | some get => do
    let write ← r.resolve m.type .write (some m.codec.write)
    let sizeOf ← r.resolve m.type .sizeOf (some m.codec.sizeOf)
    return { bindings := [write.binding m.type .write, sizeOf.binding m.type .sizeOf],
             write := some (write.map (Writer.comap get)),
             sizeOf := some (sizeOf.map fun measure => measure ∘ get) }

/-- The readers of a member: the one that its length mode calls for, and the other one if it can be had. -/
def resolveReaders (m : Member H) (r : Registry) : Except ResolutionError
    (Option (Bound (OperationKind.readScalar.Call m.type.Carrier)) ×
      Option (Bound (OperationKind.readBounded.Call m.type.Carrier))) :=
  match m.codec.length with
  | .implicit => do
    let scalar ← r.resolve m.type .readScalar m.codec.readScalar
    let bounded ← r.resolveOptional m.type .readBounded m.codec.readBounded
    return (some scalar, bounded)
  | .prefixed => do
    let scalar ← r.resolveOptional m.type .readScalar m.codec.readScalar
    let bounded ← r.resolve m.type .readBounded m.codec.readBounded
    return (scalar, some bounded)

/-- Binds what an assignable member needs. -/
def compileAssign (m : Member H) (r : Registry) : Except ResolutionError (AssignSide H) :=
  match m.setter with
  | none => .ok {}
  | some set => do
    let (scalar, bounded) ← m.resolveReaders r
    return { bindings := (scalar.map (·.binding m.type .readScalar)).toList ++
               (bounded.map (·.binding m.type .readBounded)).toList,
             readScalar := scalar.map (Bound.map (assignScalar set)),
             readBounded := bounded.map (Bound.map (assignBounded set)) }

/-- The accessor set of a member over a registry. -/
def bind (m : Member H) (r : Registry) : Except ResolutionError (AccessorSet H) := do
  let { bindings := reading, write, sizeOf } ← m.compileRead r
  let { bindings := assigning, readScalar, readBounded } ← m.compileAssign r
  return { member := m.name, type := m.type, length := m.codec.length, bindings := reading ++ assigning, write, sizeOf,
           readScalar, readBounded }

/-- The accessor set of a member of a host; an unmet need is reported with the host and the member. -/
def compile (m : Member H) (r : Registry) (host : String) : Except CompileError (AccessorSet H) :=
  (m.bind r).mapError (.codec host m.name)

/-- The accessor set of a member that the caller takes to be of type `t`. -/
def compileAs (m : Member H) (r : Registry) (host : String) (t : ValueType) :
    Except CompileError (AccessorSet H) :=
  if m.type = t then m.compile r host else .error (.binding (m.typeMismatch host t))

end Member

end Memberwise
