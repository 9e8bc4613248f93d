import Memberwise.Codec.Builtin
import Memberwise.Value.Raw

/-!
# Codecs to register beside the built-in ones

* A constant codec ignores the value, or the buffer: it reports a fixed size, stores fixed bytes, reads a fixed
  value. Its parts need not agree.
* The raw codec stores the raw form of a value without framing.
* The counted codec puts one byte with the length in front, so it suits values of less than 256 bytes.
* A stand-in does what a built-in operation does, under another name.
-/

namespace Memberwise.Custom

/-- The raw form at an offset: for a scalar reader as many bytes as the zero value of the type has. -/
def raw (t : ValueType) : (k : OperationKind) → k.Call t.Carrier
  | .write => Writer.ofBytes t.raw
  | .sizeOf => fun v => UInt64.ofNat (t.raw v).length
  | .readScalar => fun buf offset => (buf.slice? offset.toNat t.rawWidth).map t.ofRaw
  | .readBounded => fun buf offset length => (buf.slice? offset.toNat length.toNat).map t.ofRaw

/-- The bytes of a value in counted form. -/
def countedBytes (t : ValueType) (v : t.Carrier) : Bytes := UInt8.ofNat (t.raw v).length :: t.raw v

/-- The raw form with its length, modulo 256, in one byte in front. It is read without being told the length. -/
def counted (t : ValueType) : (k : OperationKind) → Option (k.Call t.Carrier)
  | .write => some (Writer.ofBytes (countedBytes t))
  | .sizeOf => some fun v => UInt64.ofNat (countedBytes t v).length
  | .readScalar => some fun (buf : Bytes) (offset : UInt64) => do
    let count ← buf[offset.toNat]?
    (buf.slice? (offset.toNat + 1) count.toNat).map t.ofRaw
  | .readBounded => none

/-- A fixed answer: `count` as the size and as the number of bytes reported, `stored` as the bytes written, and
`value` as the value read. -/
def constant (t : ValueType) (count : UInt64) (stored : Bytes) (value : t.Carrier) :
    (k : OperationKind) → k.Call t.Carrier
  | .write => Writer.ofBytes (fun _ => stored) (fun _ => count)
  | .sizeOf => fun _ => count
  | .readScalar => fun _ _ => some value
  | .readBounded => fun _ _ _ => some value

/-- The built-in operation that a stand-in stands for, with every built-in codec of a byte order to choose from. -/
def standIn (order : ByteOrder) (t : ValueType) (k : OperationKind) (target : Option String) :
    Except ResolutionError (k.Call t.Carrier) :=
  ((Registry.builtin ⟨order, true⟩).resolve t k target).map (·.call)

end Memberwise.Custom
