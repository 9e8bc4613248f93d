import Memberwise.Text.Hex
import Memberwise.Value.Type

/-!
# Numbers and addresses as text

Integers are written in decimal, with a sign where the type has one; floating-point numbers as the hexadecimal
digits of their bits, so that nothing is lost; addresses as four decimal numbers with dots between them.
-/

namespace Memberwise

namespace Scalar

/-- Whether values have a sign. -/
def isSigned : Scalar → Bool
  | .i8 | .i16 | .i32 | .i64 | .i128 => true
  | _ => false

/-- Whether values are floating-point numbers. -/
def isFloat : Scalar → Bool
  | .f32 | .f64 => true
  | _ => false

/-- The text of a number. -/
def print (t : Scalar) (v : BitVec (8 * t.width)) : String :=
  if t.isFloat then Text.Hex.ofNat (2 * t.width) v.toNat
  else if t.isSigned then toString v.toInt
  else toString v.toNat

/-- The number of a text; what is out of range wraps. -/
def parse? (t : Scalar) (s : String) : Option (BitVec (8 * t.width)) :=
  if t.isFloat then (Text.Hex.toNat? s).map (BitVec.ofNat (8 * t.width))
  else s.toInt?.map (BitVec.ofInt (8 * t.width))

end Scalar

namespace Address

/-- The text of an address. -/
def print (v : BitVec 32) : String :=
  ".".intercalate ([v.toNat >>> 24, v.toNat >>> 16 % 256, v.toNat >>> 8 % 256, v.toNat % 256].map toString)

/-- The address of a text. -/
def parse? (s : String) : Option (BitVec 32) :=
  match (s.splitOn ".").mapM String.toNat? with
  | some [a, b, c, d] => some (BitVec.ofNat 32 (((a * 256 + b) * 256 + c) * 256 + d))
  | _ => none

end Address

end Memberwise
