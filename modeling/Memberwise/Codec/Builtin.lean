import Memberwise.Bytes.Varint
import Memberwise.Codec.Registry
import Memberwise.Text.Utf8

/-!
# Built-in codecs

What a registry starts with: a truth value takes one byte, a number its width in the configured byte order, byte
strings and texts their bytes without a length. The last two are read from a given number of bytes only. With
`varint` set, the unsigned integers of 16, 32 and 64 bits can also be written at variable length.

Characters, addresses and spans of time have no built-in codec.
-/

namespace Memberwise.Builtin

/-- The name under which every type has its plain writer. -/
def writeName : String := "GetBytes"

/-- The name under which every type has its plain size. -/
def sizeName : String := "GetByteCount"

/-- Truth values: one byte, and every byte but zero reads as true. -/
def bool : List Operation :=
  [⟨.bool, .write, writeName, Writer.ofBytes fun v => [Bool.toUInt8 v]⟩,
   ⟨.bool, .sizeOf, sizeName, fun _ => (1 : UInt64)⟩,
   ⟨.bool, .readScalar, "ToBoolean", fun buf offset => (buf[offset.toNat]?).map fun b => b != 0⟩]

/-- The name of the reader of a number type. -/
def readerName : Scalar → String
  | .u8 => "ToByte" | .i8 => "ToSByte"
  | .u16 => "ToUInt16" | .i16 => "ToInt16"
  | .u32 => "ToUInt32" | .i32 => "ToInt32"
  | .u64 => "ToUInt64" | .i64 => "ToInt64"
  | .u128 => "ToUInt128" | .i128 => "ToInt128"
  | .f32 => "ToSingle" | .f64 => "ToDouble"

/-- Writes a number at its full width. -/
def writeScalar (order : ByteOrder) (t : Scalar) : Writer (BitVec (8 * t.width)) :=
  Writer.ofBytes fun v => order.encode t.width v.toNat

/-- Reads a number at its full width. -/
def readScalar (order : ByteOrder) (t : Scalar) (buf : Bytes) (offset : UInt64) : Option (BitVec (8 * t.width)) :=
  (buf.slice? offset.toNat t.width).map fun bs => BitVec.ofNat (8 * t.width) (order.decode bs)

/-- The codecs of a number type. -/
def scalar (order : ByteOrder) (t : Scalar) : List Operation :=
  [⟨.scalar t, .sizeOf, sizeName, fun _ => UInt64.ofNat t.width⟩,
   ⟨.scalar t, .write, writeName, writeScalar order t⟩,
   ⟨.scalar t, .readScalar, readerName t, readScalar order t⟩]

/-- Byte strings, as they are. -/
def bytes : List Operation :=
  [⟨.bytes, .write, writeName, Writer.ofBytes fun v : Bytes => v⟩,
   ⟨.bytes, .sizeOf, sizeName, fun v : Bytes => UInt64.ofNat v.length⟩,
   ⟨.bytes, .readBounded, "ToArray", fun buf offset length => buf.slice? offset.toNat length.toNat⟩]

/-- Texts, as UTF-8; ill-formed input is repaired. -/
def string : List Operation :=
  [⟨.string, .write, writeName, Writer.ofBytes Text.utf8⟩,
   ⟨.string, .sizeOf, sizeName, fun v : String => UInt64.ofNat v.utf8ByteSize⟩,
   ⟨.string, .readBounded, "GetString", fun buf offset length =>
     (buf.slice? offset.toNat length.toNat).map Text.lossy⟩]

/-- Writes a number at variable length. A buffer without room for all of it keeps the first bytes. -/
def writeVarint (w : Nat) : Writer (BitVec w) where
  run v buf offset :=
    let (out, stored) := Varint.store buf offset.toNat v.toNat
    ⟨out, if stored then some (UInt64.ofNat (Varint.encode v.toNat).length) else none⟩
  length_run _ _ _ := Bytes.length_storeEach ..

/-- Reads a number of variable length; higher bits than the type has are dropped. -/
def readVarint (w : Nat) (buf : Bytes) (offset : UInt64) : Option (BitVec w) :=
  (Varint.load? buf offset.toNat).map (BitVec.ofNat w)

/-- The codecs of a number type at variable length. -/
def varint (t : Scalar) (reader : String) : List Operation :=
  [⟨.scalar t, .sizeOf, "GetVarByteCount", fun v => UInt64.ofNat (Varint.size (BitVec.toNat v))⟩,
   ⟨.scalar t, .write, "GetVarBytes", writeVarint (8 * t.width)⟩,
   ⟨.scalar t, .readScalar, reader, readVarint (8 * t.width)⟩]

/-- The codecs that every registry with the given settings starts with. -/
def operations (config : RegistryConfig) : List Operation :=
  bool ++ Scalar.all.flatMap (scalar config.byteOrder) ++ bytes ++ string ++
    if config.varint then
      varint .u16 "ReadVarUInt16" ++ varint .u32 "ReadVarUInt32" ++ varint .u64 "ReadVarUInt64"
    else []

end Builtin

/-- The registry of the built-in codecs. -/
def Registry.builtin (config : RegistryConfig := {}) : Registry := ⟨config, Builtin.operations config⟩

end Memberwise
