/-!
# Byte sequences

Buffers, messages and byte-string values are lists of bytes. Positions inside a buffer are given as natural
numbers here; the codecs turn their 64-bit offsets into these.

* `slice?` reads a range and `overwrite?` replaces one; both refuse a range that leaves the buffer.
* `storeEach` replaces byte by byte, so that a buffer that is too short keeps the bytes that fit.
* Nothing here changes the length of a buffer.
-/

namespace Memberwise

/-- A byte sequence. -/
abbrev Bytes := List UInt8

namespace Bytes

/-- The `len` bytes from `offset` on, if the buffer holds all of them. -/
def slice? (buf : Bytes) (offset len : Nat) : Option Bytes :=
  if offset + len ≤ buf.length then some ((buf.drop offset).take len) else none

/-- The buffer with the bytes from `offset` on replaced by `data`. -/
def overwrite (buf : Bytes) (offset : Nat) (data : Bytes) : Bytes :=
  buf.take offset ++ data ++ buf.drop (offset + data.length)

/-- Replaces the bytes from `offset` on by `data`, if the buffer has room for all of it. -/
def overwrite? (buf : Bytes) (offset : Nat) (data : Bytes) : Option Bytes :=
  if offset + data.length ≤ buf.length then some (buf.overwrite offset data) else none

/-- Stores `data` one byte at a time from `offset` on and stops at the first position outside the buffer.
The flag says whether everything was stored. -/
def storeEach : Bytes → Nat → Bytes → Bytes × Bool
  | buf, _, [] => (buf, true)
  | buf, i, b :: rest => if i < buf.length then storeEach (buf.set i b) (i + 1) rest else (buf, false)

theorem length_overwrite {buf data : Bytes} {offset : Nat} (h : offset + data.length ≤ buf.length) :
    (buf.overwrite offset data).length = buf.length := by
  simp only [overwrite, List.length_append, List.length_take, List.length_drop]
  omega

theorem length_of_overwrite? {buf data out : Bytes} {offset : Nat} (h : buf.overwrite? offset data = some out) :
    out.length = buf.length := by
  unfold overwrite? at h
  split at h
  · next hr => cases h; exact length_overwrite hr
  · cases h

theorem length_of_slice? {buf out : Bytes} {offset len : Nat} (h : buf.slice? offset len = some out) :
    out.length = len := by
  unfold slice? at h
  split at h
  · cases h; simp only [List.length_take, List.length_drop]; omega
  · cases h

@[simp] theorem length_storeEach (buf : Bytes) (i : Nat) (data : Bytes) :
    (storeEach buf i data).1.length = buf.length := by
  induction data generalizing buf i with
  | nil => rfl
  | cons b rest ih =>
    unfold storeEach
    split
    · simp [ih]
    · rfl

end Bytes

end Memberwise
