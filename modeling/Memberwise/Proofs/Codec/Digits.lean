import Memberwise.Proofs.Codec.Law

/-!
# Numbers of variable length that were cut

The first `k` bytes of a number of variable length are `k` of its digits in base 128, lowest first, each with the high bit
set (`take_encode`). A reader that finds no more than these stops where they end and takes them for a number: what the
number is modulo `128 ^ k` (`read_take_encode`). The highest of the digits can be zero, and then this smaller number has
fewer of them: behind as many bytes as it takes, only zero digits are left (`drop_take_encode`), and a run of these reads
as zero (`read_replicate`).
-/

namespace Memberwise.Varint

private theorem encode_of_le {n : Nat} (h : 128 ≤ n) :
    encode n = UInt8.ofNat (n % 128 + 128) :: encode (n / 128) := by
  rw [encode, if_neg (Nat.not_lt.2 h)]

private theorem le_of_lt_size {n k : Nat} (h : k + 1 < size n) : 128 ≤ n ∧ k < size (n / 128) := by
  unfold size at h
  split at h
  · omega
  · next hn => exact ⟨Nat.not_lt.1 hn, by omega⟩

theorem lt_pow_size (n : Nat) : n < 128 ^ size n := by
  fun_induction size n with
  | case1 n h => omega
  | case2 n h ih =>
    rw [Nat.pow_succ]
    exact (Nat.div_lt_iff_lt_mul (by decide)).1 ih

theorem size_pos (n : Nat) : 0 < size n := by
  unfold size
  split <;> omega

/-- The first bytes of a number are its lowest digits, all of which say that more follow. -/
theorem take_encode {n k : Nat} (h : k < size n) :
    (encode n).take k = (List.range k).map fun i => UInt8.ofNat (n / 128 ^ i % 128 + 128) := by
  induction k generalizing n with
  | zero => rfl
  | succ k ih =>
    obtain ⟨hn, hk⟩ := le_of_lt_size h
    rw [encode_of_le hn, List.take_succ_cons, ih hk, List.range_succ_eq_map, List.map_cons, List.map_map]
    have hdigit : ∀ i, n / 128 / 128 ^ i = n / 128 ^ (i + 1) := by
      intro i
      rw [Nat.div_div_eq_div_mul, Nat.pow_succ']
    simp only [hdigit, Nat.pow_zero, Nat.div_one]
    rfl

/-- A number that was cut reads as what it is modulo a power of the base. -/
theorem read_take_encode {limit n k : Nat} (h : k < size n) (hlimit : k ≤ limit) :
    read limit ((encode n).take k) = n % 128 ^ k := by
  induction k generalizing n limit with
  | zero =>
    rw [List.take_zero, Nat.pow_zero, Nat.mod_one]
    cases limit <;> rfl
  | succ k ih =>
    obtain ⟨hn, hk⟩ := le_of_lt_size h
    obtain ⟨limit, rfl⟩ : ∃ l, limit = l + 1 := ⟨limit - 1, by omega⟩
    have hbyte : (UInt8.ofNat (n % 128 + 128)).toNat = n % 128 + 128 := by
      rw [UInt8.toNat_ofNat', Nat.mod_eq_of_lt (by omega)]
    have hmore : ¬ UInt8.ofNat (n % 128 + 128) < 128 := by
      rw [UInt8.lt_iff_toNat_lt, hbyte]
      simp
    rw [encode_of_le hn, List.take_succ_cons, read, if_neg hmore, ih hk (Nat.le_of_succ_le_succ hlimit), hbyte,
      Nat.pow_succ', Nat.mod_mul, Nat.add_mod_right, Nat.mod_mod]

private theorem digit_eq_zero {n k i : Nat} (hi : size (n % 128 ^ k) ≤ i) (hik : i < k) : n / 128 ^ i % 128 = 0 := by
  have hlt : n % 128 ^ k < 128 ^ i :=
    Nat.lt_of_lt_of_le (lt_pow_size _) (Nat.pow_le_pow_right (by decide) hi)
  have hsplit : 128 ^ k = 128 ^ i * 128 ^ (k - i) := by
    rw [← Nat.pow_add, Nat.add_sub_cancel' (Nat.le_of_lt hik)]
  have hhigh : n / 128 ^ i % 128 ^ (k - i) = 0 := by
    rw [← Nat.mod_mul_right_div_self, ← hsplit]
    exact Nat.div_eq_of_lt hlt
  have hdvd : 128 ∣ 128 ^ (k - i) := by
    rw [show k - i = k - i - 1 + 1 by omega, Nat.pow_succ]
    exact Nat.dvd_mul_left ..
  rw [← Nat.mod_mod_of_dvd _ hdvd, hhigh]

theorem drop_take_encode {n k : Nat} (h : k < size n) :
    ((encode n).take k).drop (size (n % 128 ^ k)) = List.replicate (k - size (n % 128 ^ k)) 128 := by
  rw [take_encode h, ← List.map_drop, List.range_eq_range', List.drop_range', List.eq_replicate_iff]
  refine ⟨by simp, fun b hb => ?_⟩
  obtain ⟨i, hi, rfl⟩ := List.mem_map.1 hb
  rw [List.mem_range'_1] at hi
  have hle : size (n % 128 ^ k) ≤ i := by omega
  have hzero : n / 128 ^ i % 128 = 0 := digit_eq_zero hle (by omega)
  rw [hzero]
  rfl

theorem read_replicate (limit j : Nat) : read limit (List.replicate j 128) = 0 := by
  induction limit generalizing j with
  | zero => rfl
  | succ limit ih =>
    cases j with
    | zero => rfl
    | succ j =>
      rw [List.replicate_succ, read, if_neg (by decide), ih]
      rfl

/-- A number of a type of at most 64 bits that was cut, as its reader takes it. -/
theorem decode_take_encode {n k w : Nat} (hn : n < 2 ^ w) (hw : w ≤ 64) (hk : k < size n) :
    decode ((encode n).take k) % 2 ^ w = n % 128 ^ k := by
  have hn64 : n < 2 ^ 64 := Nat.lt_of_lt_of_le hn (Nat.pow_le_pow_right (by decide) hw)
  have hsize : size n ≤ 10 := Builtin.size_le_ten hn64
  have hle : n % 128 ^ k ≤ n := Nat.mod_le _ _
  rw [Builtin.decode_eq, read_take_encode hk (by omega), Nat.mod_eq_of_lt (by omega), Nat.mod_eq_of_lt (by omega)]

theorem decode_replicate (j : Nat) : decode (List.replicate j 128) = 0 := by
  rw [Builtin.decode_eq, read_replicate, Nat.zero_mod]

end Memberwise.Varint
