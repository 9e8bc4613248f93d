import Mathlib.Algebra.BigOperators.Ring.Finset
import Mathlib.Tactic.Ring
import Memberwise.Proofs.Codec.Digits
import Memberwise.Proofs.Codec.Window

/-!
# Numbers of variable length in arbitrary input

A reader of numbers of variable length takes bytes up to the first one below 128, but no more than ten and no more than
there are (`Varint.span`). Whatever these bytes are, it makes of their digits the number that they denote, modulo `2 ^ 64`
(`Varint.read_eq_sum`). Putting each digit in its place by a shift of a 64-bit word gives the same, and no digit is ever
shifted by 64 bits or more (`Varint.gather_eq`).

The number found takes no more bytes than were read. It is written as these bytes exactly if they are what a writer would
have written: the last one ends the number and is not a superfluous zero, and a tenth one does not overflow
(`Varint.load?_arbitrary`).
-/

namespace Memberwise.Varint

/-! ### The bytes that a reader takes -/

/-- Number of bytes that a reader with a limit takes. -/
def span : (limit : Nat) → Bytes → Nat
  | 0, _ => 0
  | _ + 1, [] => 0
  | limit + 1, b :: rest => if b < 128 then 1 else span limit rest + 1

theorem span_eq (limit : Nat) (bs : Bytes) :
    span limit bs = min limit (min bs.length (bs.findIdx (· < 128) + 1)) := by
  fun_induction span limit bs with
  | case1 bs => simp
  | case2 limit => simp
  | case3 limit b rest hlast =>
    simp only [List.findIdx_cons, hlast, decide_true, cond_true, List.length_cons]
    omega
  | case4 limit b rest hmore ih =>
    simp only [List.findIdx_cons, hmore, decide_false, cond_false, List.length_cons, ih]
    omega

theorem span_le_length (limit : Nat) (bs : Bytes) : span limit bs ≤ bs.length := by
  rw [span_eq]
  omega

/-- Bytes behind those taken make no difference. -/
theorem read_take_span (limit : Nat) (bs : Bytes) : read limit (bs.take (span limit bs)) = read limit bs := by
  fun_induction span limit bs with
  | case1 bs => rfl
  | case2 limit => rfl
  | case3 limit b rest hlast => simp [read, hlast]
  | case4 limit b rest hmore ih => simp [read, hmore, ih]

theorem read_lt_pow_span (limit : Nat) (bs : Bytes) : read limit bs < 128 ^ span limit bs := by
  have hlt := read_lt limit (bs.take (span limit bs))
  rwa [read_take_span, List.length_take, Nat.min_eq_left (span_le_length limit bs)] at hlt

/-- What is read is the number that the digits denote. -/
theorem read_eq_sum (limit : Nat) (bs : Bytes) :
    read limit bs = ∑ i ∈ Finset.range (span limit bs), (bs.getD i 0).toNat % 128 * 2 ^ (7 * i) := by
  fun_induction span limit bs with
  | case1 bs => rfl
  | case2 limit => rfl
  | case3 limit b rest hlast =>
    have hb : b.toNat < 128 := UInt8.lt_iff_toNat_lt.1 hlast
    simp [read, hlast, Nat.mod_eq_of_lt hb]
  | case4 limit b rest hmore ih =>
    rw [read, if_neg hmore, ih, Finset.sum_range_succ', Finset.mul_sum]
    have hdigit : ∀ i, 128 * ((rest.getD i 0).toNat % 128 * 2 ^ (7 * i)) =
        ((b :: rest).getD (i + 1) 0).toNat % 128 * 2 ^ (7 * (i + 1)) := by
      intro i
      rw [List.getD_cons_succ, Nat.mul_add, Nat.pow_add, Nat.mul_left_comm, Nat.mul_comm 128]
    simp only [hdigit, List.getD_cons_zero, Nat.mul_zero, Nat.pow_zero, Nat.mul_one]
    rw [Nat.add_comm]

/-! ### Digits put in their place by shifts -/

/-- A digit shifted to its place, unless all of it would be shifted out of the word. -/
def shifted? (digit : UInt64) (shift : Nat) : Option UInt64 :=
  if shift < 64 then some (digit <<< UInt64.ofNat shift) else none

/-- Reads a number into a word, the next digit to be shifted by so many bits. -/
def gather : (limit : Nat) → (word : UInt64) → (shift : Nat) → Bytes → Option UInt64
  | 0, word, _, _ => some word
  | _ + 1, word, _, [] => some word
  | limit + 1, word, shift, b :: rest =>
    match shifted? (b &&& 127).toUInt64 shift with
    | none => none
    | some digit => if b &&& 128 = 0 then some (word ||| digit) else gather limit (word ||| digit) (shift + 7) rest

theorem toNat_and_127 (b : UInt8) : (b &&& 127).toUInt64.toNat = b.toNat % 128 := by
  rw [UInt8.toNat_toUInt64, UInt8.toNat_and]
  exact Nat.and_two_pow_sub_one_eq_mod b.toNat 7

theorem and_128_eq_zero_iff (b : UInt8) : b &&& 128 = 0 ↔ b < 128 := by
  have hall : ∀ i : Fin 256, UInt8.ofNat i.val &&& 128 = 0 ↔ UInt8.ofNat i.val < 128 := by decide +kernel
  have hb := hall ⟨b.toNat, b.toNat_lt⟩
  rwa [UInt8.ofNat_toNat] at hb

/-- A digit in its place does not meet those before it, and what does not fit the word is lost. -/
theorem toNat_or_shifted {word digit placed : UInt64} {shift : Nat} (hword : word.toNat < 2 ^ shift)
    (hplaced : shifted? digit shift = some placed) :
    (word ||| placed).toNat = (word.toNat + 2 ^ shift * digit.toNat) % 2 ^ 64 := by
  unfold shifted? at hplaced
  split at hplaced
  · next hshift =>
    cases hplaced
    have hamount : (UInt64.ofNat shift).toNat % 64 = shift := by
      rw [UInt64.toNat_ofNat', Nat.mod_eq_of_lt (show shift < 2 ^ 64 by omega), Nat.mod_eq_of_lt hshift]
    have hsplit : 2 ^ 64 = 2 ^ shift * 2 ^ (64 - shift) := by
      rw [← Nat.pow_add, Nat.add_sub_cancel' (Nat.le_of_lt hshift)]
    have hkept : (2 ^ shift * digit.toNat) % 2 ^ 64 = 2 ^ shift * (digit.toNat % 2 ^ (64 - shift)) := by
      rw [hsplit, Nat.mul_mod_mul_left]
    have hfits : word.toNat + 2 ^ shift * (digit.toNat % 2 ^ (64 - shift)) < 2 ^ 64 := by
      have hdigit : digit.toNat % 2 ^ (64 - shift) + 1 ≤ 2 ^ (64 - shift) := Nat.mod_lt _ (Nat.two_pow_pos _)
      have hscaled := Nat.mul_le_mul_left (2 ^ shift) hdigit
      rw [Nat.mul_add, Nat.mul_one, ← hsplit] at hscaled
      omega
    rw [UInt64.toNat_or, UInt64.toNat_shiftLeft, hamount, Nat.shiftLeft_eq, Nat.mul_comm, hkept, Nat.or_comm,
      ← Nat.two_pow_add_eq_or_of_lt hword, Nat.add_comm, ← Nat.add_mod_mod, hkept, Nat.mod_eq_of_lt hfits]
  · cases hplaced

/-- Within ten bytes no digit is shifted out, and the word is the number read, modulo `2 ^ 64`. -/
theorem gather_eq {limit shift : Nat} {word : UInt64} (bs : Bytes) (hshift : shift + 7 * limit ≤ 70)
    (hword : word.toNat < 2 ^ shift) :
    gather limit word shift bs = some (UInt64.ofNat (word.toNat + 2 ^ shift * read limit bs)) := by
  induction limit generalizing word shift bs with
  | zero => simp [gather, read]
  | succ limit ih =>
    cases bs with
    | nil => simp [gather, read]
    | cons b rest =>
      have hplaced : shifted? (b &&& 127).toUInt64 shift =
          some ((b &&& 127).toUInt64 <<< UInt64.ofNat shift) := if_pos (by omega)
      have hor := toNat_or_shifted hword hplaced
      rw [toNat_and_127] at hor
      simp only [gather, hplaced, and_128_eq_zero_iff, read]
      by_cases hlast : b < 128
      · have hb : b.toNat < 128 := UInt8.lt_iff_toNat_lt.1 hlast
        rw [if_pos hlast, if_pos hlast, Option.some.injEq, ← UInt64.toNat_inj, hor, UInt64.toNat_ofNat',
          Nat.mod_eq_of_lt hb]
      · have hnext : (word ||| (b &&& 127).toUInt64 <<< UInt64.ofNat shift).toNat < 2 ^ (shift + 7) := by
          have hdigit : b.toNat % 128 + 1 ≤ 128 := Nat.mod_lt _ (by decide)
          have hscaled := Nat.mul_le_mul_left (2 ^ shift) hdigit
          have hle := Nat.mod_le (word.toNat + 2 ^ shift * (b.toNat % 128)) (2 ^ 64)
          rw [Nat.mul_add, Nat.mul_one] at hscaled
          rw [hor, Nat.pow_add]
          omega
        rw [if_neg hlast, if_neg hlast, ih rest (by omega) hnext, Option.some.injEq, ← UInt64.toNat_inj,
          UInt64.toNat_ofNat', UInt64.toNat_ofNat', hor, Nat.mod_add_mod, Nat.pow_add]
        congr 1
        ring

/-! ### Bytes as a writer would have written them -/

private theorem digits_lt (digit : Nat → Nat) (k : Nat) :
    ∑ i ∈ Finset.range k, digit i % 128 * 2 ^ (7 * i) < 128 ^ k := by
  induction k with
  | zero => simp
  | succ k ih =>
    have hdigit : digit k % 128 + 1 ≤ 128 := Nat.mod_lt _ (by decide)
    have hscaled := Nat.mul_le_mul_right (128 ^ k) hdigit
    have hpow : 2 ^ (7 * k) = 128 ^ k := Nat.pow_mul 2 7 k
    rw [Nat.add_mul, Nat.one_mul] at hscaled
    rw [Finset.sum_range_succ, hpow, Nat.pow_succ']
    omega

/-- The last byte taken holds the highest digit. -/
theorem exists_low_digits {limit : Nat} {bs : Bytes} (h : 0 < span limit bs) :
    ∃ low < 128 ^ (span limit bs - 1),
      read limit bs = low + (bs.getD (span limit bs - 1) 0).toNat % 128 * 128 ^ (span limit bs - 1) := by
  obtain ⟨k, hk⟩ : ∃ k, span limit bs = k + 1 := ⟨span limit bs - 1, by omega⟩
  rw [read_eq_sum, hk, Nat.add_sub_cancel, Finset.sum_range_succ, Nat.pow_mul]
  exact ⟨_, digits_lt _ k, rfl⟩

/-- A byte that announces more is the first byte of a number only if more digits follow. -/
theorem encode_eq_cons_iff {b : UInt8} (hb : ¬ b < 128) {n : Nat} {rest : Bytes} :
    encode (b.toNat % 128 + 128 * n) = b :: rest ↔ n ≠ 0 ∧ encode n = rest := by
  have hlow : 128 ≤ b.toNat := Nat.le_of_not_lt fun hlt => hb (UInt8.lt_iff_toNat_lt.2 hlt)
  have hhigh : b.toNat < 256 := b.toNat_lt
  by_cases hn : n = 0
  · subst hn
    have hne : UInt8.ofNat (b.toNat % 128) ≠ b := by
      intro heq
      have hbyte := congrArg UInt8.toNat heq
      rw [UInt8.toNat_ofNat'] at hbyte
      omega
    rw [Nat.mul_zero, Nat.add_zero, encode, if_pos (Nat.mod_lt _ (by decide))]
    simp [hne]
  · have hbyte : UInt8.ofNat ((b.toNat % 128 + 128 * n) % 128 + 128) = b := by
      rw [Nat.add_mul_mod_self_left, Nat.mod_mod, show b.toNat % 128 + 128 = b.toNat by omega, UInt8.ofNat_toNat]
    have hquotient : (b.toNat % 128 + 128 * n) / 128 = n := by omega
    rw [encode, if_neg (by omega), hbyte, hquotient, List.cons_inj_right]
    simp [hn]

/-- What is read is not zero if the highest digit is not, and a single digit is what is read. -/
theorem read_ne_zero_iff {limit : Nat} {bs : Bytes} (h : 0 < span limit bs) (hlast : bs.getD (span limit bs - 1) 0 < 128) :
    (read limit bs ≠ 0 ∧ (span limit bs = 1 ∨ bs.getD (span limit bs - 1) 0 ≠ 0)) ↔
      bs.getD (span limit bs - 1) 0 ≠ 0 := by
  obtain ⟨low, hlow, hread⟩ := exists_low_digits h
  have hbelow : (bs.getD (span limit bs - 1) 0).toNat < 128 := UInt8.lt_iff_toNat_lt.1 hlast
  rw [Nat.mod_eq_of_lt hbelow] at hread
  rw [ne_eq, ne_eq, ← UInt8.toNat_inj, UInt8.toNat_zero]
  generalize (bs.getD (span limit bs - 1) 0).toNat = digit at hread ⊢
  constructor
  · rintro ⟨hne, hone | hdigit⟩
    · rw [hone] at hread hlow
      omega
    · exact hdigit
  · intro hdigit
    have hpow : 0 < 128 ^ (span limit bs - 1) := Nat.pow_pos (by decide)
    have hpos : 0 < digit * 128 ^ (span limit bs - 1) := Nat.mul_pos (Nat.pos_of_ne_zero hdigit) hpow
    exact ⟨by omega, .inr hdigit⟩

/-- What is read is written as the bytes taken exactly if the last of them ends the number, and is no superfluous zero. -/
theorem encode_read_eq_take_iff {limit : Nat} {bs : Bytes} (h : 0 < span limit bs) :
    encode (read limit bs) = bs.take (span limit bs) ↔
      bs.getD (span limit bs - 1) 0 < 128 ∧ (span limit bs = 1 ∨ bs.getD (span limit bs - 1) 0 ≠ 0) := by
  fun_induction span limit bs with
  | case1 bs => omega
  | case2 limit => omega
  | case3 limit b rest hlast =>
    have hb : b.toNat < 128 := UInt8.lt_iff_toNat_lt.1 hlast
    have hencode : encode b.toNat = [b] := by rw [encode, if_pos hb, UInt8.ofNat_toNat]
    simp [read, hlast, hencode]
  | case4 limit b rest hmore ih =>
    rw [read, if_neg hmore, Nat.add_sub_cancel, List.take_succ_cons, encode_eq_cons_iff hmore]
    rcases Nat.eq_zero_or_pos (span limit rest) with hend | hpos
    · -- the byte announces more, but the input or the limit ends here
      have hzero : read limit rest = 0 := by
        have hlt := read_lt_pow_span limit rest
        rw [hend] at hlt
        omega
      rw [hzero, hend]
      simp [hmore]
    · have hlast : (b :: rest).getD (span limit rest) 0 = rest.getD (span limit rest - 1) 0 := by
        obtain ⟨j, hj⟩ : ∃ j, span limit rest = j + 1 := ⟨span limit rest - 1, by omega⟩
        rw [hj, List.getD_cons_succ, Nat.add_sub_cancel]
      have hmany : ¬ span limit rest + 1 = 1 := by omega
      rw [ih hpos, hlast, and_left_comm]
      refine and_congr_right fun hends => ?_
      rw [read_ne_zero_iff hpos hends, or_iff_right hmany]

/-- Ten digits are a number of 64 bits exactly if the tenth is at most one. -/
theorem read_lt_word_iff {bs : Bytes} (h : 0 < span 10 bs) (hlast : bs.getD (span 10 bs - 1) 0 < 128) :
    read 10 bs < 2 ^ 64 ↔ span 10 bs < 10 ∨ bs.getD 9 0 ≤ 1 := by
  have hspan : span 10 bs ≤ 10 := by
    rw [span_eq]
    omega
  obtain ⟨low, hlow, hread⟩ := exists_low_digits h
  have hbelow : (bs.getD (span 10 bs - 1) 0).toNat < 128 := UInt8.lt_iff_toNat_lt.1 hlast
  rw [Nat.mod_eq_of_lt hbelow] at hread
  by_cases hten : span 10 bs = 10
  · rw [hten] at hlow hread
    simp only [Nat.reduceSub] at hlow hread
    rw [hten, UInt8.le_iff_toNat_le, hread]
    simp only [Nat.lt_irrefl, false_or, UInt8.reduceToNat]
    omega
  · have hle : 128 ^ span 10 bs ≤ 128 ^ 9 := Nat.pow_le_pow_right (by decide) (by omega)
    have hlt := read_lt_pow_span 10 bs
    exact iff_of_true (by omega) (.inl (by omega))

/-- Bytes are those of the number found in them exactly if this number was not cut to 64 bits and is written as they are. -/
theorem encode_decode_eq_take_iff (bs : Bytes) :
    encode (decode bs) = bs.take (span 10 bs) ↔ read 10 bs < 2 ^ 64 ∧ encode (read 10 bs) = bs.take (span 10 bs) := by
  constructor
  · intro heq
    have hlt : decode bs < 2 ^ 64 := Nat.mod_lt _ (by decide)
    have hsize : size (decode bs) ≤ 10 := Builtin.size_le_ten hlt
    have hsame : decode bs = read 10 bs := by
      rw [← read_encode [] hsize, List.append_nil, heq, read_take_span]
    rw [← hsame]
    exact ⟨hlt, heq⟩
  · rintro ⟨hlt, heq⟩
    rw [Builtin.decode_eq, Nat.mod_eq_of_lt hlt]
    exact heq

theorem size_decode_le (bs : Bytes) : size (decode bs) ≤ max (span 10 bs) 1 := by
  refine Builtin.size_le (by omega) ?_
  calc decode bs ≤ read 10 bs := Nat.mod_le _ _
    _ < 128 ^ span 10 bs := read_lt_pow_span 10 bs
    _ ≤ 128 ^ max (span 10 bs) 1 := Nat.pow_le_pow_right (by decide) (Nat.le_max_left _ _)

/-- What is found in arbitrary input.

Up to the end of a buffer a number is always found. Of the bytes up to the first one below 128, but of no more than ten
and no more than there are, it is what their digits denote, modulo `2 ^ 64`, and no digit is shifted by 64 bits or more. It
takes no more bytes than these. It is written as they stand there exactly if the last one is below 128, is not zero
unless it is the only one, and as a tenth one is at most one. -/
theorem load?_arbitrary (buf : Bytes) (offset : Nat) (h : offset ≤ buf.length) :
    let s := buf.drop offset
    let k := min 10 (min s.length (s.findIdx (· < 128) + 1))
    ∃ n, load? buf offset = some n ∧
      n = (∑ i ∈ Finset.range k, (s.getD i 0).toNat % 128 * 2 ^ (7 * i)) % 2 ^ 64 ∧
      gather 10 0 0 s = some (UInt64.ofNat n) ∧
      size n ≤ max k 1 ∧
      (0 < k → (encode n = s.take k ↔
        s.getD (k - 1) 0 < 128 ∧ (k = 1 ∨ s.getD (k - 1) 0 ≠ 0) ∧ (k < 10 ∨ s.getD 9 0 ≤ 1))) := by
  intro s k
  have hk : span 10 s = k := span_eq 10 s
  refine ⟨decode s, if_pos h, ?_, ?_, ?_, fun hpos => ?_⟩
  · rw [← hk, ← read_eq_sum, Builtin.decode_eq]
  · have hgather : gather 10 0 0 s = some (UInt64.ofNat (0 + 2 ^ 0 * read 10 s)) := gather_eq s (by decide) (by decide)
    rw [hgather, Option.some.injEq, ← UInt64.toNat_inj, UInt64.toNat_ofNat', UInt64.toNat_ofNat', Builtin.decode_eq]
    simp
  · rw [← hk]
    exact size_decode_le s
  · rw [← hk] at hpos ⊢
    rw [encode_decode_eq_take_iff, encode_read_eq_take_iff hpos, and_left_comm]
    refine and_congr_right fun hends => ?_
    rw [read_lt_word_iff hpos hends, and_comm]

/-- The greatest number of 64 bits fills ten bytes. With a greater tenth byte it is found again, but written otherwise. -/
theorem load?_arbitrary_tenth :
    let full : Bytes := List.replicate 9 255 ++ [1]
    let excess : Bytes := List.replicate 9 255 ++ [127]
    1 ≤ (7 :: full ++ [5]).length ∧ 1 ≤ (7 :: excess ++ [5]).length ∧
      load? (7 :: full ++ [5]) 1 = some (2 ^ 64 - 1) ∧ encode (2 ^ 64 - 1) = full ∧
      load? (7 :: excess ++ [5]) 1 = some (2 ^ 64 - 1) ∧ encode (2 ^ 64 - 1) ≠ excess := by
  intro full excess
  have hfull : 1 ≤ (7 :: full ++ [5]).length := by decide
  have hexcess : 1 ≤ (7 :: excess ++ [5]).length := by decide
  have hloadFull : load? (7 :: full ++ [5]) 1 = some (2 ^ 64 - 1) := by decide +kernel
  have hloadExcess : load? (7 :: excess ++ [5]) 1 = some (2 ^ 64 - 1) := by decide +kernel
  obtain ⟨n, hn, -, -, -, hcanonical⟩ := load?_arbitrary (7 :: full ++ [5]) 1 hfull
  obtain ⟨n', hn', -, -, -, hcanonical'⟩ := load?_arbitrary (7 :: excess ++ [5]) 1 hexcess
  cases hn.symm.trans hloadFull
  cases hn'.symm.trans hloadExcess
  refine ⟨hfull, hexcess, hloadFull, ?_, hloadExcess, fun heq => ?_⟩
  · exact (hcanonical (by decide +kernel)).2 (by decide +kernel)
  · have htenth := ((hcanonical' (by decide +kernel)).1 heq).2.2
    revert htenth
    decide +kernel

end Memberwise.Varint
