import Memberwise.Bytes.Numeral

/-!
# Message settings

How wide the length in front of a prefixed member is, and how large a message may be.
-/

namespace Memberwise

/-- The width of the length in front of a prefixed member. -/
inductive LengthPrefix
  | u16
  | u32
  deriving DecidableEq, Repr

namespace LengthPrefix

def width : LengthPrefix → Nat
  | .u16 => 2
  | .u32 => 4

/-- The greatest length that fits. -/
def maxLength : LengthPrefix → Nat
  | .u16 => 65535
  | .u32 => 4294967295

def text : LengthPrefix → String
  | .u16 => "u16"
  | .u32 => "u32"

def debug : LengthPrefix → String
  | .u16 => "U16"
  | .u32 => "U32"

/-- A length as the bytes of a prefix, lowest first. -/
def encode (p : LengthPrefix) (n : Nat) : Bytes := Numeral.little p.width n

end LengthPrefix

/-- The settings of a serializer. -/
structure MessageConfig where
  lengthPrefix : LengthPrefix := .u32
  maxSize : UInt64 := 16777216
  deriving DecidableEq, Repr

end Memberwise
