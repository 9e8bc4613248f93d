import Mathlib.Algebra.Ring.Nat
import Memberwise.Bytes.Numeral

/-!
# What digits denote

Reading a number that was written gives `n % 256 ^ w` (`Numeral.ofLittle_little`), and writing what was read gives the
digits back (`Numeral.little_ofLittle`), in either byte order.
-/

namespace Memberwise

namespace Numeral

theorem ofLittle_lt (bs : Bytes) : ofLittle bs < 256 ^ bs.length := by
  induction bs with
  | nil => simp
  | cons b rest ih =>
    have hb : b.toNat < 256 := b.toNat_lt
    simp only [ofLittle_cons, List.length_cons, Nat.pow_succ]
    omega

theorem ofLittle_little (width n : Nat) : ofLittle (little width n) = n % 256 ^ width := by
  induction width generalizing n with
  | zero => simp [little, Nat.mod_one]
  | succ w ih =>
    simp only [little, ofLittle_cons, ih, UInt8.toNat_ofNat', Nat.reducePow]
    rw [Nat.pow_succ, Nat.mul_comm (256 ^ w) 256, Nat.mod_mul]

/-- The digit in a place does not depend on how many digits are written. -/
theorem getElem?_little {width i : Nat} (h : i < width) (n : Nat) :
    (little width n)[i]? = some (UInt8.ofNat (n / 256 ^ i)) := by
  induction width generalizing n i with
  | zero => exact absurd h (Nat.not_lt_zero i)
  | succ w ih =>
    cases i with
    | zero => rw [little, List.getElem?_cons_zero, Nat.pow_zero, Nat.div_one]
    | succ i =>
      rw [little, List.getElem?_cons_succ, ih (Nat.lt_of_succ_lt_succ h), Nat.div_div_eq_div_mul, Nat.pow_succ,
        Nat.mul_comm]

theorem little_ofLittle (bs : Bytes) : little bs.length (ofLittle bs) = bs := by
  induction bs with
  | nil => rfl
  | cons b rest ih =>
    have hb : b.toNat < 256 := b.toNat_lt
    have hq : (b.toNat + 256 * ofLittle rest) / 256 = ofLittle rest := by omega
    simp only [List.length_cons, ofLittle_cons, little, hq, ih, List.cons.injEq, and_true]
    apply UInt8.toNat_inj.mp
    simp only [UInt8.toNat_ofNat', Nat.reducePow]
    omega

end Numeral

namespace ByteOrder

theorem decode_encode (order : ByteOrder) (width n : Nat) :
    order.decode (order.encode width n) = n % 256 ^ width := by
  cases order <;> simp [encode, decode, Numeral.ofLittle_little]

theorem decode_lt (order : ByteOrder) (bs : Bytes) : order.decode bs < 256 ^ bs.length := by
  cases order with
  | little => exact Numeral.ofLittle_lt bs
  | big =>
    have h := Numeral.ofLittle_lt bs.reverse
    rwa [List.length_reverse] at h

theorem encode_decode (order : ByteOrder) (bs : Bytes) : order.encode bs.length (order.decode bs) = bs := by
  cases order with
  | little => exact Numeral.little_ofLittle bs
  | big =>
    have h := Numeral.little_ofLittle bs.reverse
    rw [List.length_reverse] at h
    simp [encode, decode, h]

end ByteOrder

end Memberwise
