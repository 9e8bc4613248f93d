import Memberwise.Text.Utf8
import Memberwise.Value.Type

/-!
# Raw form of a value

The raw form of a value is its bytes without any framing: numbers at their full width with the highest byte
first, a character as its 32-bit code point, byte strings and texts as they are. `ofRaw` accepts any number of
bytes: of a number only the lowest ones count that fit, a number that is no code point reads as U+FFFD, and
ill-formed text is repaired.
-/

namespace Memberwise.ValueType

/-- The character of a code point, or U+FFFD where there is none. -/
def charOfCode (n : Nat) : Char := if n.isValidChar then Char.ofNat n else Text.replacement

/-- The bytes of a value. -/
def raw : (t : ValueType) → t.Carrier → Bytes
  | .bool, v => [Bool.toUInt8 v]
  | .scalar t, v => ByteOrder.big.encode t.width (BitVec.toNat v)
  | .bytes, v => v
  | .string, v => Text.utf8 v
  | .char, v => ByteOrder.big.encode 4 (Char.toNat v)
  | .ipv4, v => ByteOrder.big.encode 4 (BitVec.toNat v)
  | .duration, v =>
    ByteOrder.big.encode 8 (Duration.seconds v).toNat ++ ByteOrder.big.encode 4 (Duration.nanos v).val

/-- The number in the last bytes of a sequence, at most `width` of them, highest first. -/
def lowest (width : Nat) (bs : Bytes) : Nat := ByteOrder.big.decode (bs.drop (bs.length - width))

/-- The value of a sequence of raw bytes. -/
def ofRaw : (t : ValueType) → Bytes → t.Carrier
  | .bool, bs => bs.any (· != 0)
  | .scalar t, bs => BitVec.ofNat (8 * t.width) (lowest t.width bs)
  | .bytes, bs => bs
  | .string, bs => Text.lossy bs
  | .char, bs => charOfCode (lowest 4 bs)
  | .ipv4, bs => BitVec.ofNat 32 (lowest 4 bs)
  | .duration, bs => Duration.ofParts (ByteOrder.big.decode (bs.take 8)) (ByteOrder.big.decode (bs.drop 8))

/-- Number of raw bytes of the zero value of a type. -/
def rawWidth (t : ValueType) : Nat := (t.raw t.zero).length

/-- Whether some raw byte of the value is not zero. -/
def isNonzero (t : ValueType) (v : t.Carrier) : Bool := (t.raw v).any (· != 0)

end Memberwise.ValueType
