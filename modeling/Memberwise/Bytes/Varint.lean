import Memberwise.Bytes

/-!
# Variable-length integers

A number is written in base 128, lowest digit first, one digit to a byte; every byte but the last has its high
bit set. A 64-bit number takes one to ten bytes.

* `size` counts the bytes of `encode` (`length_encode`).
* `store` writes byte by byte, so a buffer that is too short keeps the first bytes of the number.
* `decode` reads at most ten bytes and stops at the end of its input without complaint; the digits beyond bit 63
  are dropped.
-/

namespace Memberwise.Varint

/-- Number of bytes that a number takes. -/
def size (n : Nat) : Nat :=
  if n < 128 then 1 else size (n / 128) + 1

/-- The bytes of a number. -/
def encode (n : Nat) : Bytes :=
  if n < 128 then [UInt8.ofNat n] else UInt8.ofNat (n % 128 + 128) :: encode (n / 128)

/-- Reads at most `limit` bytes and stops after the first one below 128, or where the input ends. -/
def read : (limit : Nat) → Bytes → Nat
  | 0, _ => 0
  | _ + 1, [] => 0
  | limit + 1, b :: rest => if b < 128 then b.toNat else b.toNat % 128 + 128 * read limit rest

/-- The number at the front of a byte sequence, modulo `2 ^ 64`. -/
def decode (bs : Bytes) : Nat := read 10 bs % UInt64.size

/-- Writes a number at `offset`; the flag says whether the buffer had room for all of it. -/
def store (buf : Bytes) (offset n : Nat) : Bytes × Bool := buf.storeEach offset (encode n)

/-- The number at `offset`, unless that lies beyond the end of the buffer. -/
def load? (buf : Bytes) (offset : Nat) : Option Nat :=
  if offset ≤ buf.length then some (decode (buf.drop offset)) else none

theorem length_encode (n : Nat) : (encode n).length = size n := by
  fun_induction encode n with
  | case1 n h => rw [size]; simp [h]
  | case2 n h ih => rw [size]; simp [h, ih]

/-- What was written is read back, whatever follows it, if it is within the reader's limit. -/
theorem read_encode {limit n : Nat} (rest : Bytes) (h : size n ≤ limit) : read limit (encode n ++ rest) = n := by
  fun_induction encode n generalizing limit with
  | case1 n hn =>
    rw [size, if_pos hn] at h
    obtain ⟨l, rfl⟩ : ∃ l, limit = l + 1 := ⟨limit - 1, by omega⟩
    have hb : (UInt8.ofNat n).toNat = n := by simp only [UInt8.toNat_ofNat', Nat.reducePow]; omega
    simp [read, UInt8.lt_iff_toNat_lt, hb, hn]
  | case2 n hn ih =>
    rw [size, if_neg hn] at h
    obtain ⟨l, rfl⟩ : ∃ l, limit = l + 1 := ⟨limit - 1, by omega⟩
    have hb : (UInt8.ofNat (n % 128 + 128)).toNat = n % 128 + 128 := by
      simp only [UInt8.toNat_ofNat', Nat.reducePow]; omega
    have hlt : ¬ UInt8.ofNat (n % 128 + 128) < 128 := by
      rw [UInt8.lt_iff_toNat_lt, hb]; simp
    simp only [List.cons_append, read, if_neg hlt, hb, ih (by omega : size (n / 128) ≤ l)]
    omega

end Memberwise.Varint
