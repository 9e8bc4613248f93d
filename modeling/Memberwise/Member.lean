import Memberwise.Codec.Builtin

/-!
# Members of a host type

A member of a host type `H` is a named value of a fixed type that can be read from an instance, assigned to one,
or both. It is stored or computed, and it carries the names of the codec operations that it is to be bound to.

The functions travel with the member, so a member that can be read has its getter and one that can be assigned
its setter: what a member is capable of cannot disagree with what it holds.
-/

namespace Memberwise

/-- Whether a member is stored in its host or computed from it. -/
inductive MemberKind
  | field
  | property
  deriving DecidableEq, Repr

/-- How the number of bytes of a member is known when it is read: from its type, or from a length in front. -/
inductive LengthMode
  | implicit
  | prefixed
  deriving DecidableEq, Repr

/-- The operations that a member is to be bound to. A reader without a name is found by shape. -/
structure CodecSelection where
  write : String := Builtin.writeName
  sizeOf : String := Builtin.sizeName
  readScalar : Option String := none
  readBounded : Option String := none
  length : LengthMode := .implicit
  deriving DecidableEq, Repr

/-- A member of the host type `H`. -/
structure Member (H : Type) where
  name : String
  type : ValueType
  kind : MemberKind
  getter : Option (H → type.Carrier)
  setter : Option (H → type.Carrier → H)
  codec : CodecSelection := {}

/-- What a caller wants to do with a member. -/
inductive Access
  | read
  | write
  | readWrite
  deriving DecidableEq, Repr

/-- Why a member cannot be used as asked. Host and value types appear by their full names. -/
inductive BindingError
  | notReadable (host member : String)
  | notWritable (host member : String)
  | typeMismatch (host member declared requested : String)
  | duplicateMember (host member : String)
  deriving DecidableEq, Repr

namespace MemberKind

def text : MemberKind → String
  | .field => "field"
  | .property => "property"

end MemberKind

namespace LengthMode

def text : LengthMode → String
  | .implicit => "implicit"
  | .prefixed => "prefixed"

end LengthMode

namespace Access

def needsRead : Access → Bool
  | .read | .readWrite => true
  | .write => false

def needsWrite : Access → Bool
  | .write | .readWrite => true
  | .read => false

/-- Whether a member with these capabilities can be used as asked; reading is checked first. -/
def check (access : Access) (host member : String) (readable writable : Bool) : Except BindingError Unit :=
  if access.needsRead && !readable then .error (.notReadable host member)
  else if access.needsWrite && !writable then .error (.notWritable host member)
  else .ok ()

end Access

def BindingError.message : BindingError → String
  | .notReadable host member => s!"member `{member}` of {host} is not readable"
  | .notWritable host member => s!"member `{member}` of {host} is not writable"
  | .typeMismatch host member declared requested =>
    s!"member `{member}` of {host} is declared as {declared}, not {requested}"
  | .duplicateMember host member => s!"member `{member}` is declared more than once on {host}"

namespace Member

variable {H : Type}

/-- A stored member that can be read and assigned. -/
def field (name : String) (type : ValueType) (get : H → type.Carrier) (set : H → type.Carrier → H) :
    Member H :=
  { name, type, kind := .field, getter := some get, setter := some set }

/-- A stored member that can only be read. -/
def readOnlyField (name : String) (type : ValueType) (get : H → type.Carrier) : Member H :=
  { name, type, kind := .field, getter := some get, setter := none }

/-- A computed member that can be read and assigned. -/
def property (name : String) (type : ValueType) (get : H → type.Carrier) (set : H → type.Carrier → H) :
    Member H :=
  { name, type, kind := .property, getter := some get, setter := some set }

/-- A computed member that can only be read. -/
def readOnlyProperty (name : String) (type : ValueType) (get : H → type.Carrier) : Member H :=
  { name, type, kind := .property, getter := some get, setter := none }

/-- A member that can only be assigned. -/
def writeOnly (name : String) (type : ValueType) (set : H → type.Carrier → H) : Member H :=
  { name, type, kind := .property, getter := none, setter := some set }

def withWriter (m : Member H) (name : String) : Member H := { m with codec.write := name }

def withSizeOf (m : Member H) (name : String) : Member H := { m with codec.sizeOf := name }

def withScalarReader (m : Member H) (name : String) : Member H := { m with codec.readScalar := some name }

def withBoundedReader (m : Member H) (name : String) : Member H := { m with codec.readBounded := some name }

/-- The member read with a length in front. -/
def prefixed (m : Member H) : Member H := { m with codec.length := .prefixed }

def withCodec (m : Member H) (codec : CodecSelection) : Member H := { m with codec }

def isReadable (m : Member H) : Bool := m.getter.isSome

def isWritable (m : Member H) : Bool := m.setter.isSome

def require (m : Member H) (host : String) (access : Access) : Except BindingError Unit :=
  access.check host m.name m.isReadable m.isWritable

/-- The refusal of a type other than the declared one. -/
def typeMismatch (m : Member H) (host : String) (t : ValueType) : BindingError :=
  .typeMismatch host m.name m.type.name t.name

/-- The getter of a member as one for values of type `t`; whether it can be read at all is checked first. -/
def getterAs (m : Member H) (host : String) (t : ValueType) : Except BindingError (H → t.Carrier) :=
  match m.getter with
  | none => .error (.notReadable host m.name)
  | some get => if h : m.type = t then .ok (h ▸ get) else .error (m.typeMismatch host t)

/-- The setter of a member as one for values of type `t`; whether it can be assigned at all is checked first. -/
def setterAs (m : Member H) (host : String) (t : ValueType) : Except BindingError (H → t.Carrier → H) :=
  match m.setter with
  | none => .error (.notWritable host m.name)
  | some set => if h : m.type = t then .ok (h ▸ set) else .error (m.typeMismatch host t)

end Member

end Memberwise
