import Memberwise.Bytes.Numeral
import Memberwise.Value.TypeName

/-!
# Value types

The types that a member can hold, and for each the Lean type of its values. Integers and floating-point numbers
of a fixed width are their bit patterns, so two floating-point values are equal exactly when they agree bit for
bit.
-/

namespace Memberwise

/-- The number types of a fixed width: integers without and with sign, and binary floating point. -/
inductive Scalar
  | u8 | i8 | u16 | i16 | u32 | i32 | u64 | i64 | u128 | i128 | f32 | f64
  deriving DecidableEq, Repr

namespace Scalar

def width : Scalar → Nat
  | .u8 | .i8 => 1
  | .u16 | .i16 => 2
  | .u32 | .i32 | .f32 => 4
  | .u64 | .i64 | .f64 => 8
  | .u128 | .i128 => 16

def name : Scalar → String
  | .u8 => "u8" | .i8 => "i8" | .u16 => "u16" | .i16 => "i16" | .u32 => "u32" | .i32 => "i32"
  | .u64 => "u64" | .i64 => "i64" | .u128 => "u128" | .i128 => "i128" | .f32 => "f32" | .f64 => "f64"

/-- All scalar types, in the order in which their codecs are installed. -/
def all : List Scalar := [.u8, .i8, .u16, .i16, .u32, .i32, .u64, .i64, .u128, .i128, .f32, .f64]

theorem mem_all (t : Scalar) : t ∈ all := by cases t <;> decide

end Scalar

/-- A span of time: whole seconds and the nanoseconds beyond them. -/
structure Duration where
  seconds : UInt64
  nanos : Fin 1000000000
  deriving DecidableEq, Repr

namespace Duration

def zero : Duration := ⟨0, 0⟩

/-- A span of so many seconds and nanoseconds; numbers that are too large wrap. -/
def ofParts (seconds nanos : Nat) : Duration := ⟨UInt64.ofNat seconds, Fin.ofNat 1000000000 nanos⟩

/-- The whole milliseconds in a span. -/
def toMillis (d : Duration) : Nat := d.seconds.toNat * 1000 + d.nanos.val / 1000000

/-- The span of a number of milliseconds. -/
def ofMillis (ms : BitVec 64) : Duration where
  seconds := UInt64.ofNat (ms.toNat / 1000)
  nanos := ⟨ms.toNat % 1000 * 1000000, by have := Nat.mod_lt ms.toNat (by decide : 0 < 1000); omega⟩

end Duration

/-- A type that members and slots can hold. -/
inductive ValueType
  | bool
  | scalar (t : Scalar)
  | bytes
  | string
  | char
  | ipv4
  | duration
  deriving DecidableEq, Repr

namespace ValueType

/-- The values of a type. -/
def Carrier : ValueType → Type
  | .bool => Bool
  | .scalar t => BitVec (8 * t.width)
  | .bytes => Bytes
  | .string => String
  | .char => Char
  | .ipv4 => BitVec 32
  | .duration => Duration

instance : (t : ValueType) → DecidableEq t.Carrier
  | .bool => inferInstanceAs (DecidableEq Bool)
  | .scalar t => inferInstanceAs (DecidableEq (BitVec (8 * t.width)))
  | .bytes => inferInstanceAs (DecidableEq (List UInt8))
  | .string => inferInstanceAs (DecidableEq String)
  | .char => inferInstanceAs (DecidableEq Char)
  | .ipv4 => inferInstanceAs (DecidableEq (BitVec 32))
  | .duration => inferInstanceAs (DecidableEq Duration)

def name : ValueType → String
  | .bool => "bool"
  | .scalar t => t.name
  | .bytes => "alloc::vec::Vec<u8>"
  | .string => "alloc::string::String"
  | .char => "char"
  | .ipv4 => "core::net::ip_addr::Ipv4Addr"
  | .duration => "core::time::Duration"

/-- The name without module paths. -/
def shortName (t : ValueType) : String := TypeName.short t.name

/-- The value that a slot of this type starts with. -/
def zero : (t : ValueType) → t.Carrier
  | .bool => false
  | .scalar t => BitVec.ofNat (8 * t.width) 0
  | .bytes => ([] : Bytes)
  | .string => ""
  | .char => '\x00'
  | .ipv4 => BitVec.ofNat 32 0
  | .duration => Duration.zero

end ValueType

end Memberwise
