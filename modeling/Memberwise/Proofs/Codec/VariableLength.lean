import Mathlib.Order.Bounds.Defs
import Memberwise.Proofs.Codec.Digits
import Memberwise.Proofs.Codec.InUse

/-!
# The codecs of variable length

A number takes as few digits in base 128 as it can (`Varint.isLeast_size`), which for 64 bits is ten at most. Where there
is room they are stored, and nothing else is touched; where there is not, those are stored that fit, and the writer faults
(`Varint.store_of_le`, `Varint.store_of_not_le`).

The operations registered for numbers of 16, 32 and 64 bits do the same, and their readers keep of any number of 64 bits
the bits that their type has (`Builtin.variable_length_codec`).
-/

namespace Memberwise

namespace Varint

/-- A number takes the fewest digits that can hold it. -/
theorem isLeast_size (n : Nat) : IsLeast {k | 1 ≤ k ∧ n < 2 ^ (7 * k)} (size n) := by
  have hpow : ∀ k, 2 ^ (7 * k) = 128 ^ k := by
    intro k
    rw [Nat.pow_mul]
  constructor
  · refine ⟨size_pos n, ?_⟩
    rw [hpow]
    exact lt_pow_size n
  · rintro k ⟨hk, hlt⟩
    rw [hpow] at hlt
    exact Builtin.size_le hk hlt

theorem store_of_le {buf : Bytes} {offset n : Nat} (h : offset + size n ≤ buf.length) :
    store buf offset n = (buf.overwrite offset (encode n), true) := by
  rw [← length_encode] at h
  exact Bytes.storeEach_of_le h

theorem store_of_not_le {buf : Bytes} {offset n : Nat} (h : ¬ offset + size n ≤ buf.length) :
    store buf offset n = (buf.overwrite offset ((encode n).take (buf.length - offset)), false) := by
  rw [← length_encode] at h
  exact Prod.ext (Bytes.storeEach_fst buf offset (encode n)) (Bytes.storeEach_of_not_le (Builtin.encode_ne_nil n) h)

end Varint

namespace Builtin

variable {t : Scalar} {reader : String}

theorem mem_operations_varint (order : ByteOrder) (ht : varintReader (.scalar t) = some reader) {op : Operation}
    (hop : op ∈ varint t reader) : op ∈ (Registry.builtin ⟨order, true⟩).operations := by
  refine List.mem_append_right _ ?_
  rw [if_pos rfl]
  simp only [List.mem_append]
  cases t with
  | u16 =>
    cases ht
    exact .inl (.inl hop)
  | u32 =>
    cases ht
    exact .inl (.inr hop)
  | u64 =>
    cases ht
    exact .inr hop
  | _ => cases ht

/-- The operations of variable length on numbers of 16, 32 and 64 bits are found by their names. -/
theorem resolve_varint (order : ByteOrder) (ht : varintReader (.scalar t) = some reader) :
    (Registry.builtin ⟨order, true⟩).resolve (.scalar t) .write (some "GetVarBytes") =
        .ok ⟨"GetVarBytes", writeVarint (8 * t.width)⟩ ∧
      (Registry.builtin ⟨order, true⟩).resolve (.scalar t) .sizeOf (some "GetVarByteCount") =
        .ok ⟨"GetVarByteCount", fun v => UInt64.ofNat (Varint.size (BitVec.toNat v))⟩ ∧
      (Registry.builtin ⟨order, true⟩).resolve (.scalar t) .readScalar (some reader) =
        .ok ⟨reader, readVarint (8 * t.width)⟩ := by
  have hdistinct := Registry.distinct_builtin ⟨order, true⟩
  refine ⟨hdistinct.resolve ?_, hdistinct.resolve ?_, hdistinct.resolve ?_⟩
  · exact mem_operations_varint order ht (.tail _ (.head _))
  · exact mem_operations_varint order ht (.head _)
  · exact mem_operations_varint order ht (.tail _ (.tail _ (.head _)))

theorem run_writeVarint_of_le {w : Nat} {v : BitVec w} {buf : Bytes} {offset : UInt64}
    (h : offset.toNat + Varint.size v.toNat ≤ buf.length) :
    (writeVarint w).run v buf offset =
      ⟨buf.overwrite offset.toNat (Varint.encode v.toNat), some (UInt64.ofNat (Varint.size v.toNat))⟩ := by
  rw [← Varint.length_encode] at h ⊢
  exact (stores_varint w).run_of_le v buf offset h

theorem run_writeVarint_of_not_le {w : Nat} {v : BitVec w} {buf : Bytes} {offset : UInt64}
    (h : ¬ offset.toNat + Varint.size v.toNat ≤ buf.length) :
    (writeVarint w).run v buf offset =
      ⟨buf.overwrite offset.toNat ((Varint.encode v.toNat).take (buf.length - offset.toNat)), none⟩ := by
  simp only [writeVarint, Varint.store_of_not_le h, Bool.false_eq_true, if_false]

/-- Numbers of variable length.

A number of 64 bits takes the fewest digits in base 128 that can hold it, ten at most. Where a buffer has room for them,
they are stored and nothing else is; at their place the number is read back, whatever follows it. Where there is no room
for all of them, those are stored that fit, and nothing else is.

The operations registered for numbers of 16, 32 and 64 bits store, measure and fault in the same way, and a reader gives
of a number of 64 bits what its type can hold. -/
theorem variable_length_codec :
    (∀ n : UInt64,
      IsLeast {k | 1 ≤ k ∧ n.toNat < 2 ^ (7 * k)} (Varint.size n.toNat) ∧ Varint.size n.toNat ≤ 10 ∧
      (Varint.encode n.toNat).length = Varint.size n.toNat ∧
      ∀ (buf : Bytes) (offset : UInt64),
        if offset.toNat + Varint.size n.toNat ≤ buf.length then
          Varint.store buf offset.toNat n.toNat = (buf.overwrite offset.toNat (Varint.encode n.toNat), true) ∧
          ∀ rest, Varint.load? (buf.take offset.toNat ++ Varint.encode n.toNat ++ rest) offset.toNat = some n.toNat
        else
          Varint.store buf offset.toNat n.toNat =
            (buf.overwrite offset.toNat ((Varint.encode n.toNat).take (buf.length - offset.toNat)), false)) ∧
    ∀ (order : ByteOrder) (t : Scalar) (reader : String), varintReader (.scalar t) = some reader →
      ∃ write measure read,
        (Registry.builtin ⟨order, true⟩).resolve (.scalar t) .write (some "GetVarBytes") = .ok ⟨"GetVarBytes", write⟩ ∧
        (Registry.builtin ⟨order, true⟩).resolve (.scalar t) .sizeOf (some "GetVarByteCount") =
          .ok ⟨"GetVarByteCount", measure⟩ ∧
        (Registry.builtin ⟨order, true⟩).resolve (.scalar t) .readScalar (some reader) = .ok ⟨reader, read⟩ ∧
        (∀ v : BitVec (8 * t.width), (measure v).toNat = Varint.size v.toNat ∧
          ∀ buf offset,
            if offset.toNat + Varint.size v.toNat ≤ buf.length then
              write.run v buf offset = ⟨buf.overwrite offset.toNat (Varint.encode v.toNat), some (measure v)⟩
            else
              write.run v buf offset =
                ⟨buf.overwrite offset.toNat ((Varint.encode v.toNat).take (buf.length - offset.toNat)), none⟩) ∧
        ∀ (n : UInt64) (pre rest : Bytes) (offset : UInt64), offset.toNat = pre.length →
          (read (pre ++ Varint.encode n.toNat ++ rest) offset).map BitVec.toNat =
            some (n.toNat % 2 ^ (8 * t.width)) := by
  constructor
  · intro n
    have hn : n.toNat < 2 ^ 64 := n.toNat_lt
    refine ⟨Varint.isLeast_size _, size_le_ten hn, Varint.length_encode _, fun buf offset => ?_⟩
    split
    · next hroom =>
      refine ⟨Varint.store_of_le hroom, fun rest => ?_⟩
      have hlength : (buf.take offset.toNat).length = offset.toNat := by
        rw [List.length_take]
        omega
      have hload := load?_append hn (buf.take offset.toNat) rest
      rwa [hlength] at hload
    · next hroom => exact Varint.store_of_not_le hroom
  · intro order t reader ht
    obtain ⟨hwrite, hmeasure, hread⟩ := resolve_varint order ht
    refine ⟨_, _, _, hwrite, hmeasure, hread, fun v => ⟨?_, fun buf offset => ?_⟩, fun n pre rest offset hpre => ?_⟩
    · have hdigits := toNat_of_measures_digits (t := .scalar t) (measures_varint (8 * t.width)) v
      exact hdigits.trans (Varint.length_encode v.toNat)
    · split
      · next hroom => exact run_writeVarint_of_le hroom
      · next hroom => exact run_writeVarint_of_not_le hroom
    · rw [readVarint_append _ n.toNat_lt pre rest hpre, Option.map_some, BitVec.toNat_ofNat]

/-- A number of 16 bits in a buffer with room for one of its two bytes, and the reader of such numbers before one that
takes more bits. -/
theorem variable_length_codec_u16 :
    varintReader (.scalar .u16) = some "ReadVarUInt16" ∧
      ∃ (write : Writer (BitVec 16)) (read : Bytes → UInt64 → Option (BitVec 16)),
        (Registry.builtin ⟨.big, true⟩).resolve (.scalar .u16) .write (some "GetVarBytes") =
          .ok ⟨"GetVarBytes", write⟩ ∧
        (Registry.builtin ⟨.big, true⟩).resolve (.scalar .u16) .readScalar (some "ReadVarUInt16") =
          .ok ⟨"ReadVarUInt16", read⟩ ∧
        write.run 300 [9, 9] 1 = ⟨[9, 172], none⟩ ∧
        (read [9, 133, 128, 128, 128, 16, 7] 1).map BitVec.toNat = some 5 := by
  have hreader : varintReader (.scalar .u16) = some "ReadVarUInt16" := rfl
  obtain ⟨-, hcodecs⟩ := variable_length_codec
  obtain ⟨write, measure, read, hwrite, -, hread, hstores, hreads⟩ := hcodecs .big .u16 "ReadVarUInt16" hreader
  refine ⟨hreader, write, read, hwrite, hread, ?_, ?_⟩
  · have hcramped := (hstores 300#16).2 [9, 9] 1
    rw [if_neg (by decide +kernel)] at hcramped
    have hbytes : Bytes.overwrite [9, 9] 1 ((Varint.encode 300).take 1) = [9, 172] := by decide +kernel
    exact hcramped.trans (congrArg (Written.mk · none) hbytes)
  · have hbytes : [9] ++ Varint.encode (4294967301 : UInt64).toNat ++ [7] = [9, 133, 128, 128, 128, 16, 7] := by
      decide +kernel
    have hfive := hreads 4294967301 [9] [7] 1 rfl
    rw [hbytes] at hfive
    exact hfive

end Builtin

end Memberwise
