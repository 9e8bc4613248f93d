import Memberwise.Bytes

/-!
# Hexadecimal text

Bytes and numbers as lower-case hexadecimal digits, the highest digit first.
-/

namespace Memberwise.Text.Hex

/-- The two digits of a byte. -/
def ofByte (b : UInt8) : List Char := [Nat.digitChar (b.toNat / 16), Nat.digitChar (b.toNat % 16)]

/-- Two digits for each byte. -/
def ofBytes (bs : Bytes) : String := String.ofList (bs.flatMap ofByte)

/-- The lowest digits of a number. -/
def ofNat (digits n : Nat) : String :=
  String.ofList ((List.range digits).reverse.map fun i => Nat.digitChar (n >>> (4 * i) % 16))

/-- The value of a digit. -/
def digit? (c : Char) : Option Nat :=
  if '0' ≤ c ∧ c ≤ '9' then some (c.toNat - '0'.toNat)
  else if 'a' ≤ c ∧ c ≤ 'f' then some (c.toNat - 'a'.toNat + 10)
  else none

/-- The number that digits denote. -/
def toNat? (s : String) : Option Nat :=
  s.toList.foldlM (fun n c => (digit? c).map (n * 16 + ·)) 0

/-- Pairs digits up into bytes; `acc` holds the bytes so far, last one first. -/
def pair? (acc : Bytes) : List Char → Option Bytes
  | [] => some acc.reverse
  | [_] => none
  | high :: low :: rest =>
    match digit? high, digit? low with
    | some h, some l => pair? (UInt8.ofNat (h * 16 + l) :: acc) rest
    | _, _ => none

/-- The bytes that digits denote, two for each. -/
def toBytes? (s : String) : Option Bytes := pair? [] s.toList

end Memberwise.Text.Hex
