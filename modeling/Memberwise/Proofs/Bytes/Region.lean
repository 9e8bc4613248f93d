import Mathlib.Algebra.Ring.Nat
import Memberwise.Bytes

/-!
# Regions of a buffer

Reading and replacing a region of a buffer, seen through the parts before and after it.

* Reading the middle of `pre ++ mid ++ post` gives `mid` (`slice?_append`), and a range can be read exactly when
  it lies inside the buffer (`isSome_slice?`).
* Replacing two adjacent regions one after the other is replacing one region by both pieces of data
  (`overwrite_overwrite`), which turns a writer that goes through a buffer into one concatenation.
* Storing byte by byte does the same as replacing where there is room, and is noticed where there is not.
-/

namespace Memberwise.Bytes

/-! ### Reading -/

theorem slice?_eq_some_iff {buf out : Bytes} {offset len : Nat} :
    buf.slice? offset len = some out ↔ offset + len ≤ buf.length ∧ (buf.drop offset).take len = out := by
  unfold slice?
  split
  · next h => simp [h]
  · next h => simp [h]

theorem isSome_slice? {buf : Bytes} {offset len : Nat} :
    (buf.slice? offset len).isSome ↔ offset + len ≤ buf.length := by
  unfold slice?
  split <;> simp_all

theorem slice?_append (pre mid post : Bytes) : (pre ++ mid ++ post).slice? pre.length mid.length = some mid := by
  rw [slice?_eq_some_iff]
  constructor
  · simp only [List.length_append]
    omega
  · rw [List.append_assoc, List.drop_left, List.take_left]

/-- A range is read as its two parts are. -/
theorem slice?_add {buf data : Bytes} {offset first second : Nat}
    (h : buf.slice? offset (first + second) = some data) :
    buf.slice? offset first = some (data.take first) ∧
      buf.slice? (offset + first) second = some (data.drop first) := by
  obtain ⟨hin, rfl⟩ := slice?_eq_some_iff.1 h
  rw [slice?_eq_some_iff, slice?_eq_some_iff]
  refine ⟨⟨by omega, ?_⟩, by omega, ?_⟩
  · rw [List.take_take, Nat.min_eq_left (Nat.le_add_right _ _)]
  · rw [List.drop_take, List.drop_drop, Nat.add_sub_cancel_left]

/-- Two adjacent ranges are read as one. -/
theorem slice?_join {buf first second : Bytes} {offset : Nat} (hfirst : buf.slice? offset first.length = some first)
    (hsecond : buf.slice? (offset + first.length) second.length = some second) :
    buf.slice? offset (first ++ second).length = some (first ++ second) := by
  obtain ⟨-, htake⟩ := slice?_eq_some_iff.1 hfirst
  obtain ⟨hin, htake'⟩ := slice?_eq_some_iff.1 hsecond
  rw [slice?_eq_some_iff, List.length_append]
  refine ⟨by omega, ?_⟩
  rw [List.take_add, htake, List.drop_drop, htake']

/-! ### Replacing -/

theorem overwrite?_eq_some_iff {buf data out : Bytes} {offset : Nat} :
    buf.overwrite? offset data = some out ↔ offset + data.length ≤ buf.length ∧ buf.overwrite offset data = out := by
  unfold overwrite?
  split
  · next h => simp [h]
  · next h => simp [h]

theorem overwrite?_eq_none_iff {buf data : Bytes} {offset : Nat} :
    buf.overwrite? offset data = none ↔ ¬ offset + data.length ≤ buf.length := by
  unfold overwrite?
  split <;> simp_all

theorem overwrite_nil (buf : Bytes) (offset : Nat) : buf.overwrite offset [] = buf := by
  simp [overwrite]

theorem overwrite_all {buf data : Bytes} (h : data.length = buf.length) : buf.overwrite 0 data = data := by
  simp [overwrite, h]

/-- Replacing a range by what stands there changes nothing. -/
theorem overwrite_of_slice? {buf data : Bytes} {offset len : Nat} (h : buf.slice? offset len = some data) :
    buf.overwrite offset data = buf := by
  obtain ⟨hin, htake⟩ := slice?_eq_some_iff.1 h
  have hlength : data.length = len := length_of_slice? h
  calc buf.overwrite offset data
      = buf.take offset ++ ((buf.drop offset).take len ++ (buf.drop offset).drop len) := by
        rw [overwrite, hlength, htake, List.drop_drop, List.append_assoc]
    _ = buf := by rw [List.take_append_drop, List.take_append_drop]

/-- Two adjacent regions replaced in turn are one region replaced by both pieces of data. -/
theorem overwrite_overwrite {buf : Bytes} {offset : Nat} (first second : Bytes) (h : offset ≤ buf.length) :
    (buf.overwrite offset first).overwrite (offset + first.length) second =
      buf.overwrite offset (first ++ second) := by
  have hl : (buf.take offset ++ first).length = offset + first.length := by
    rw [List.length_append, List.length_take, Nat.min_eq_left h]
  unfold overwrite
  rw [List.take_left' hl, ← List.drop_drop, List.drop_left' hl, List.drop_drop]
  simp [Nat.add_assoc]

/-! ### Storing byte by byte -/

theorem overwrite_set {buf : Bytes} {i : Nat} (h : i < buf.length) (b : UInt8) (rest : Bytes) :
    overwrite (buf.set i b) (i + 1) rest = buf.overwrite i (b :: rest) := by
  have hset : buf.set i b = buf.overwrite i [b] := by
    rw [List.set_eq_take_append_cons_drop, if_pos h]
    simp [overwrite]
  rw [hset, show i + 1 = i + [b].length from rfl, overwrite_overwrite _ _ (Nat.le_of_lt h)]
  rfl

/-- Whatever fits is stored, and nothing else. -/
theorem storeEach_fst (buf : Bytes) (i : Nat) (data : Bytes) :
    (storeEach buf i data).1 = buf.overwrite i (data.take (buf.length - i)) := by
  induction data generalizing buf i with
  | nil => rw [storeEach, List.take_nil, overwrite_nil]
  | cons b rest ih =>
    unfold storeEach
    split
    · next hi =>
      have hroom : buf.length - i = buf.length - (i + 1) + 1 := by omega
      rw [ih, List.length_set, overwrite_set hi, hroom, List.take_succ_cons]
    · next hi =>
      have hroom : buf.length - i = 0 := by omega
      rw [hroom, List.take_zero, overwrite_nil]

theorem storeEach_of_le {buf data : Bytes} {i : Nat} (h : i + data.length ≤ buf.length) :
    storeEach buf i data = (buf.overwrite i data, true) := by
  induction data generalizing buf i with
  | nil => simp [storeEach, overwrite_nil]
  | cons b rest ih =>
    rw [List.length_cons] at h
    have hi : i < buf.length := by omega
    rw [storeEach, if_pos hi, ih (by rw [List.length_set]; omega), overwrite_set hi]

theorem storeEach_of_not_le {buf data : Bytes} {i : Nat} (hd : data ≠ []) (h : ¬ i + data.length ≤ buf.length) :
    (storeEach buf i data).2 = false := by
  induction data generalizing buf i with
  | nil => exact absurd rfl hd
  | cons b rest ih =>
    rw [List.length_cons] at h
    unfold storeEach
    split
    · next hi =>
      apply ih
      · rintro rfl
        simp only [List.length_nil] at h
        omega
      · rw [List.length_set]
        omega
    · rfl

/-! ### Positions -/

/-- A position that stays inside a buffer does not wrap. -/
theorem toNat_add_of_le {pos n : UInt64} {bound : Nat} (h : pos.toNat + n.toNat ≤ bound) (hbound : bound < 2 ^ 64) :
    (pos + n).toNat = pos.toNat + n.toNat := by
  rw [UInt64.toNat_add, Nat.mod_eq_of_lt (by omega)]

theorem toNat_add_ofNat {pos : UInt64} {n bound : Nat} (h : pos.toNat + n ≤ bound) (hbound : bound < 2 ^ 64) :
    (pos + UInt64.ofNat n).toNat = pos.toNat + n := by
  rw [UInt64.toNat_add, UInt64.toNat_ofNat', Nat.add_mod_mod, Nat.mod_eq_of_lt (by omega)]

end Memberwise.Bytes
