import Memberwise.Value.Type

/-!
# Codec operations

A codec operation is a named function on the values of one type. There are four kinds: writing a value into a
buffer, measuring it, and reading one from a buffer, either alone or from a given number of bytes. Sizes, offsets
and lengths are 64-bit words.

An operation that reaches outside its buffer faults. A reader then has no result; a writer leaves the buffer
behind as far as it had filled it, and never changes its length.
-/

namespace Memberwise

/-- The kinds of codec operations. -/
inductive OperationKind
  | write
  | sizeOf
  | readScalar
  | readBounded
  deriving DecidableEq, Repr

/-- What a writer leaves behind: the buffer, and the number of bytes that it reports unless it faulted. -/
structure Written where
  buffer : Bytes
  count : Option UInt64

/-- A function that writes a value into a buffer at an offset. -/
structure Writer (α : Type) where
  run : α → Bytes → UInt64 → Written
  length_run : ∀ v buf offset, (run v buf offset).buffer.length = buf.length

namespace Writer

/-- The writer that stores the given bytes of a value, and unless told otherwise reports their number; out of range
it faults and leaves the buffer alone. -/
def ofBytes {α : Type} (bytes : α → Bytes) (count : α → UInt64 := fun v => UInt64.ofNat (bytes v).length) :
    Writer α where
  run v buf offset :=
    match buf.overwrite? offset.toNat (bytes v) with
    | some out => ⟨out, some (count v)⟩
    | none => ⟨buf, none⟩
  length_run v buf offset := by
    split
    · next h => exact Bytes.length_of_overwrite? h
    · rfl

/-- Writes the part of a larger value that `get` selects. -/
def comap {α β : Type} (get : β → α) (w : Writer α) : Writer β where
  run v := w.run (get v)
  length_run v := w.length_run (get v)

end Writer

namespace OperationKind

def all : List OperationKind := [.write, .sizeOf, .readScalar, .readBounded]

/-- The place of a kind in the order of kinds. -/
def index : OperationKind → Nat
  | .write => 0
  | .sizeOf => 1
  | .readScalar => 2
  | .readBounded => 3

/-- The name of a kind in messages and listings. -/
def text : OperationKind → String
  | .write => "write"
  | .sizeOf => "size_of"
  | .readScalar => "read_scalar"
  | .readBounded => "read_bounded"

def debug : OperationKind → String
  | .write => "Write"
  | .sizeOf => "SizeOf"
  | .readScalar => "ReadScalar"
  | .readBounded => "ReadBounded"

def arity : OperationKind → Nat
  | .write => 3
  | .sizeOf => 1
  | .readScalar => 2
  | .readBounded => 3

/-- The arguments and the result, as shown in messages and listings. -/
def signature : OperationKind → String
  | .write => "(value, buffer, offset) -> usize"
  | .sizeOf => "(value) -> usize"
  | .readScalar => "(buffer, offset) -> value"
  | .readBounded => "(buffer, offset, length) -> value"

/-- The functions of a kind on values of type `α`. -/
def Call (α : Type) : OperationKind → Type
  | .write => Writer α
  | .sizeOf => α → UInt64
  | .readScalar => Bytes → UInt64 → Option α
  | .readBounded => Bytes → UInt64 → UInt64 → Option α

theorem mem_all (k : OperationKind) : k ∈ all := by cases k <;> decide

theorem index_inj {j k : OperationKind} : j.index = k.index ↔ j = k := by cases j <;> cases k <;> decide

end OperationKind

/-- A named function on the values of one type. -/
structure Operation where
  type : ValueType
  kind : OperationKind
  name : String
  call : kind.Call type.Carrier

namespace Operation

/-- The function of an operation, if it is of the given kind and on values of the given type. -/
def as? (op : Operation) (t : ValueType) (k : OperationKind) : Option (k.Call t.Carrier) :=
  if h : op.type = t ∧ op.kind = k then some (h.1 ▸ h.2 ▸ op.call) else none

@[simp] theorem as?_self (op : Operation) : op.as? op.type op.kind = some op.call := by simp [as?]

theorem isSome_as? {op : Operation} {t : ValueType} {k : OperationKind} :
    (op.as? t k).isSome ↔ op.type = t ∧ op.kind = k := by
  unfold as?; split <;> simp_all

end Operation

end Memberwise
