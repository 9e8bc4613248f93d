import Memberwise.Proofs.Codec.InUse
import Memberwise.Proofs.Codec.Window

/-!
# The codecs of byte strings and texts

Byte strings are stored as they are and texts as UTF-8, and both are read from a given number of bytes. A range of a
buffer ends at the sum of two words. If this sum wraps, it lies before the place where the range starts, so that no range
is stored or read that is not in the buffer (`Bytes.between?_add`).

The three operations of a type are found by their names (`Builtin.resolve_bounded`) and belong together
(`Builtin.bounded_length_codec`). Every range in the buffer can be read. Of a byte string this gives what stands there, of
a text as well if that is well-formed, and only then (`Builtin.plain_parse_eq_iff`).
-/

namespace Memberwise

namespace Bytes

/-- The bytes from one position up to another, unless the second lies before the first or outside of the buffer. -/
def between? (buf : Bytes) (first last : UInt64) : Option Bytes :=
  if first.toNat ≤ last.toNat ∧ last.toNat ≤ buf.length then some ((buf.take last.toNat).drop first.toNat) else none

/-- A range that leaves the buffer is refused, also if its end wraps. -/
theorem between?_add {buf : Bytes} (hbuf : buf.length < 2 ^ 64) (offset length : UInt64) :
    buf.between? offset (offset + length) = buf.slice? offset.toNat length.toNat := by
  have hoffset : offset.toNat < 2 ^ 64 := offset.toNat_lt
  have hlength : length.toNat < 2 ^ 64 := length.toNat_lt
  unfold between? slice?
  by_cases hin : offset.toNat + length.toNat ≤ buf.length
  · have hlast : (offset + length).toNat = offset.toNat + length.toNat := toNat_add_of_le hin hbuf
    rw [hlast, if_pos ⟨Nat.le_add_right _ _, hin⟩, if_pos hin, List.drop_take, Nat.add_sub_cancel_left]
  · have hlast : (offset + length).toNat = (offset.toNat + length.toNat) % 2 ^ 64 := UInt64.toNat_add offset length
    rw [if_neg hin, if_neg]
    rintro ⟨hforward, hend⟩
    -- a sum that wraps is less than the start, one that does not lies outside of the buffer
    omega

theorem isSome_between?_add {buf : Bytes} (hbuf : buf.length < 2 ^ 64) (offset length : UInt64) :
    (buf.between? offset (offset + length)).isSome ↔ offset.toNat + length.toNat ≤ buf.length := by
  rw [between?_add hbuf, isSome_slice?]

end Bytes

namespace Builtin

variable {t : ValueType} {reader : String}

/-! ### What is read -/

/-- The bytes that a value of a type can have: those of a text are well-formed. -/
def WellFormed : ValueType → Bytes → Prop
  | .string, bs => bs.toByteArray.IsValidUTF8
  | _, _ => True

/-- The value read of bytes has these bytes exactly if some value can have them. -/
theorem plain_parse_eq_iff (order : ByteOrder) (ht : boundedReader t = some reader) (bs : Bytes) :
    plain order t (parse order t bs) = bs ↔ WellFormed t bs := by
  cases t with
  | bytes => exact iff_of_true rfl trivial
  | string => exact Text.utf8_lossy_eq_iff
  | _ => cases ht

/-! ### The operations of a type -/

/-- The operations on byte strings and on texts are found by their names. -/
theorem resolve_bounded (config : RegistryConfig) (ht : boundedReader t = some reader) :
    (Registry.builtin config).resolve t .write (some writeName) =
        .ok ⟨writeName, Writer.ofBytes (plain config.byteOrder t)⟩ ∧
      (∃ measure, (Registry.builtin config).resolve t .sizeOf (some sizeName) = .ok ⟨sizeName, measure⟩ ∧
        Measures measure (plain config.byteOrder t)) ∧
      ∃ read, (Registry.builtin config).resolve t .readBounded (some reader) = .ok ⟨reader, read⟩ ∧
        ParsesRanges read (parse config.byteOrder t) := by
  have hdistinct := Registry.distinct_builtin config
  cases t with
  | bytes =>
    cases ht
    refine ⟨hdistinct.resolve ?_, ⟨_, hdistinct.resolve ?_, fun _ => rfl⟩, readBytes, hdistinct.resolve ?_, ?_⟩
    · exact mem_operations_bytes (.head _)
    · exact mem_operations_bytes (.tail _ (.head _))
    · exact mem_operations_bytes (.tail _ (.tail _ (.head _)))
    · exact fun _ _ _ => Option.map_id'.symm
  | string =>
    cases ht
    refine ⟨hdistinct.resolve ?_, ⟨_, hdistinct.resolve ?_, measures_text⟩, readText, hdistinct.resolve ?_, ?_⟩
    · exact mem_operations_string (.head _)
    · exact mem_operations_string (.tail _ (.head _))
    · exact mem_operations_string (.tail _ (.tail _ (.head _)))
    · exact fun _ _ _ => rfl
  | _ => cases ht

/-- Codecs of byte strings and texts.

The registry finds the three operations of the type by their names. A value measures as many bytes as it has; any value
that fits in memory has fewer than `2 ^ 64` of them. Where a buffer has room for these bytes, they are stored and counted,
nothing else is touched, and the reader finds the value again if it is told their number. Where there is no room, the
buffer stays as it is, and the writer faults.

Told any number of bytes, the reader faults exactly if the buffer does not hold so many from the offset on. Otherwise the
value read has just the bytes that stand there, provided that they are well-formed, and other bytes if they are not.

All this is so although the end of the range is computed in 64 bits, and may wrap. -/
theorem bounded_length_codec (config : RegistryConfig) (ht : boundedReader t = some reader) :
    ∃ write measure read,
      (Registry.builtin config).resolve t .write (some "GetBytes") = .ok ⟨"GetBytes", write⟩ ∧
      (Registry.builtin config).resolve t .sizeOf (some "GetByteCount") = .ok ⟨"GetByteCount", measure⟩ ∧
      (Registry.builtin config).resolve t .readBounded (some reader) = .ok ⟨reader, read⟩ ∧
      (∀ v, (plain config.byteOrder t v).length < 2 ^ 64 →
        (measure v).toNat = (plain config.byteOrder t v).length ∧
        ∀ buf offset,
          (if offset.toNat + (plain config.byteOrder t v).length ≤ buf.length then
            write.run v buf offset = ⟨buf.overwrite offset.toNat (plain config.byteOrder t v), some (measure v)⟩ ∧
            read (buf.overwrite offset.toNat (plain config.byteOrder t v)) offset (measure v) = some v
          else
            write.run v buf offset = ⟨buf, none⟩) ∧
          (buf.length < 2 ^ 64 →
            ((write.run v buf offset).count.isSome ↔ (buf.between? offset (offset + measure v)).isSome))) ∧
      ∀ buf offset length,
        (if offset.toNat + length.toNat ≤ buf.length then
          ∃ v, read buf offset length = some v ∧
            (plain config.byteOrder t v = (buf.drop offset.toNat).take length.toNat ↔
              WellFormed t ((buf.drop offset.toNat).take length.toNat))
        else
          read buf offset length = none) ∧
        (buf.length < 2 ^ 64 →
          read buf offset length = (buf.between? offset (offset + length)).map (parse config.byteOrder t)) := by
  obtain ⟨hwrite, ⟨measure, hmeasure, hcounts⟩, read, hread, hparses⟩ := resolve_bounded config ht
  rcases promise_of_resolve hread with ⟨-, hback, -⟩
  have hstores : Stores (Writer.ofBytes (plain config.byteOrder t)) (plain config.byteOrder t) := Stores.ofBytes _
  refine ⟨_, measure, read, hwrite, hmeasure, hread, fun v hsize => ?_, fun buf offset length => ⟨?_, fun hbuf => ?_⟩⟩
  · have hcount : (measure v).toNat = (plain config.byteOrder t v).length := by
      rw [hcounts v, UInt64.toNat_ofNat', Nat.mod_eq_of_lt hsize]
    refine ⟨hcount, fun buf offset => ⟨?_, fun hbuf => ?_⟩⟩
    · split
      · next hroom =>
        have hpre : offset.toNat = (buf.take offset.toNat).length := by
          rw [List.length_take]
          omega
        refine ⟨?_, hback v _ _ offset _ hpre hcount⟩
        rw [hcounts v]
        exact hstores.run_of_le v buf offset hroom
      · next hroom => exact Stores.run_ofBytes_of_not_le hroom
    · rw [Bytes.isSome_between?_add hbuf, hcount, hstores.count_eq]
      split
      · next hroom => exact iff_of_true rfl hroom
      · next hroom => exact iff_of_false Bool.false_ne_true hroom
  · rw [hparses]
    split
    · next hin =>
      refine ⟨_, ?_, plain_parse_eq_iff _ ht _⟩
      rw [Bytes.slice?, if_pos hin, Option.map_some]
    · next hout => rw [Bytes.slice?, if_neg hout, Option.map_none]
  · rw [Bytes.between?_add hbuf, hparses]

/-- A text of one character and two bytes. The buffer has room for it at the second byte, but not at the last position
that there is, from which the range would end in the buffer. Half of the character is no text. -/
theorem bounded_length_codec_half :
    boundedReader .string = some "GetString" ∧
      ∃ (write : Writer String) (read : Bytes → UInt64 → UInt64 → Option String),
        (Registry.builtin {}).resolve .string .write (some "GetBytes") = .ok ⟨"GetBytes", write⟩ ∧
        (Registry.builtin {}).resolve .string .readBounded (some "GetString") = .ok ⟨"GetString", read⟩ ∧
        (write.run "ü" [9, 9, 9, 9] 1).buffer = [9, 0xc3, 0xbc, 9] ∧
        read [9, 0xc3, 0xbc, 9] 1 2 = some "ü" ∧
        (18446744073709551615 + 2 : UInt64) = 1 ∧
        write.run "ü" [9, 9, 9, 9] 18446744073709551615 = ⟨[9, 9, 9, 9], none⟩ ∧
        read [9, 0xc3, 0xbc, 9] 18446744073709551615 2 = none ∧
        ∃ v, read [9, 0xc3, 0xbc, 9] 1 1 = some v ∧ Text.utf8 v ≠ [0xc3] := by
  have hreader : boundedReader .string = some "GetString" := rfl
  obtain ⟨write, measure, read, hwrite, -, hread, hvalues, hranges⟩ := bounded_length_codec {} hreader
  have hbytes : plain ({} : RegistryConfig).byteOrder .string "ü" = [0xc3, 0xbc] := by decide +kernel
  obtain ⟨hcount, hruns⟩ := hvalues "ü" (by rw [hbytes]; decide)
  have htwo : measure "ü" = 2 := UInt64.toNat_inj.1 (by rw [hcount, hbytes]; rfl)
  rw [hbytes] at hruns
  have hroom := (hruns [9, 9, 9, 9] 1).1
  have hcramped := (hruns [9, 9, 9, 9] 18446744073709551615).1
  have hwhole := (hranges [9, 0xc3, 0xbc, 9] 18446744073709551615 2).1
  have hhalf := (hranges [9, 0xc3, 0xbc, 9] 1 1).1
  rw [if_pos (by decide), htwo] at hroom
  rw [if_neg (by decide)] at hcramped
  rw [if_neg (by decide)] at hwhole
  rw [if_pos (by decide)] at hhalf
  refine ⟨hreader, write, read, hwrite, hread, congrArg Written.buffer hroom.1, hroom.2, rfl, hcramped, hwhole, ?_⟩
  obtain ⟨v, hv, hkept⟩ := hhalf
  have hill : ¬ ByteArray.IsValidUTF8 [0xc3].toByteArray := by decide +kernel
  exact ⟨v, hv, fun h => hill (hkept.1 h)⟩

end Builtin

end Memberwise
