import Memberwise.Bytes

/-!
# Numerals of a fixed number of bytes

`little w n` writes the `w` lowest base-256 digits of `n`, lowest first, and `ofLittle` reads digits back;
`ByteOrder.encode` and `ByteOrder.decode` do the same in either byte order.
-/

namespace Memberwise

/-- Whether the lowest or the highest byte of a number comes first. -/
inductive ByteOrder
  | little
  | big
  deriving DecidableEq, Repr

namespace ByteOrder

/-- The name of a byte order in listings. -/
def text : ByteOrder → String
  | .little => "little"
  | .big => "big"

end ByteOrder

namespace Numeral

/-- The `width` lowest base-256 digits of a number, lowest first. -/
def little : Nat → Nat → Bytes
  | 0, _ => []
  | width + 1, n => UInt8.ofNat n :: little width (n / 256)

/-- The number that a sequence of base-256 digits denotes, lowest digit first. -/
def ofLittle (bs : Bytes) : Nat := bs.foldr (fun b n => b.toNat + 256 * n) 0

@[simp] theorem ofLittle_nil : ofLittle [] = 0 := rfl

theorem ofLittle_cons (b : UInt8) (rest : Bytes) : ofLittle (b :: rest) = b.toNat + 256 * ofLittle rest := rfl

@[simp] theorem length_little (width n : Nat) : (little width n).length = width := by
  induction width generalizing n with
  | zero => rfl
  | succ w ih => simp [little, ih]

end Numeral

namespace ByteOrder

/-- A number as `width` bytes in this byte order; higher digits are dropped. -/
def encode (order : ByteOrder) (width n : Nat) : Bytes :=
  match order with
  | .little => Numeral.little width n
  | .big => (Numeral.little width n).reverse

/-- The number that a sequence of bytes denotes in this byte order. -/
def decode (order : ByteOrder) (bs : Bytes) : Nat :=
  match order with
  | .little => Numeral.ofLittle bs
  | .big => Numeral.ofLittle bs.reverse

@[simp] theorem length_encode (order : ByteOrder) (width n : Nat) : (order.encode width n).length = width := by
  cases order <;> simp [encode]

end ByteOrder

end Memberwise
