import Memberwise.Proofs.Codec.InUse
import Memberwise.Proofs.Codec.Window

/-!
# The codecs of fixed width

Truth values and numbers take the bytes of their width, in the byte order of the registry. Byte `i` of a number holds the
bits from `8 * i` on if the lowest byte comes first (`Builtin.getElem?_plain_little`), and the other order is the reverse
of this one (`Builtin.plain_big_eq_reverse`).

The three operations of a type are found by their names (`Builtin.resolve_fixed`) and belong together: what one stores,
one measures and one reads (`Builtin.fixed_width_codec`). Numbers are read bit for bit, so that reading one and writing it
changes nothing. A truth value does not have this: any byte but zero is read as true.
-/

namespace Memberwise.Builtin

variable {t : ValueType} {reader : String}

/-! ### The bytes of a value -/

/-- The byte orders differ by reversal, on one byte by nothing. -/
theorem plain_big_eq_reverse (ht : fixedReader t = some reader) (v : t.Carrier) :
    plain .big t v = (plain .little t v).reverse := by
  cases t with
  | bool => rfl
  | scalar u => rfl
  | _ => cases ht

theorem exists_scalar_of_fixedReader (ht : fixedReader t = some reader) (hbool : t ≠ .bool) : ∃ u, t = .scalar u := by
  cases t with
  | bool => exact absurd rfl hbool
  | scalar u => exact ⟨u, rfl⟩
  | _ => cases ht

/-- The bytes of a number are its digits in base 256. -/
theorem getElem?_plain_little (ht : fixedReader t = some reader) (hbool : t ≠ .bool) (v : t.Carrier) {i : Nat}
    (hi : i < fixedWidth t) : (plain .little t v)[i]? = some (UInt8.ofNat (magnitude t v / 256 ^ i)) := by
  obtain ⟨u, rfl⟩ := exists_scalar_of_fixedReader ht hbool
  exact Numeral.getElem?_little hi _

/-! ### The operations of a type -/

variable {config : RegistryConfig}

/-- The operations of fixed width on a type are found by their names. -/
theorem resolve_fixed (config : RegistryConfig) (ht : fixedReader t = some reader) :
    (Registry.builtin config).resolve t .write (some writeName) =
        .ok ⟨writeName, Writer.ofBytes (plain config.byteOrder t)⟩ ∧
      (Registry.builtin config).resolve t .sizeOf (some sizeName) =
        .ok ⟨sizeName, fun _ => UInt64.ofNat (fixedWidth t)⟩ ∧
      ∃ read, (Registry.builtin config).resolve t .readScalar (some reader) = .ok ⟨reader, read⟩ := by
  have hdistinct := Registry.distinct_builtin config
  cases t with
  | bool =>
    cases ht
    refine ⟨hdistinct.resolve ?_, hdistinct.resolve ?_, readBool, hdistinct.resolve ?_⟩
    · exact mem_operations_bool (.head _)
    · exact mem_operations_bool (.tail _ (.head _))
    · exact mem_operations_bool (.tail _ (.tail _ (.head _)))
  | scalar u =>
    cases ht
    refine ⟨hdistinct.resolve ?_, hdistinct.resolve ?_, readScalar config.byteOrder u, hdistinct.resolve ?_⟩
    · exact mem_operations_scalar (.tail _ (.head _))
    · exact mem_operations_scalar (.head _)
    · exact mem_operations_scalar (.tail _ (.tail _ (.head _)))
  | _ => cases ht

variable {read : Bytes → UInt64 → Option t.Carrier}

theorem reads_of_resolve (ht : fixedReader t = some reader)
    (h : (Registry.builtin config).resolve t .readScalar (some reader) = .ok ⟨reader, read⟩) :
    ReadsBack read (plain config.byteOrder t) ∧ ReadsWithin read (fixedWidth t) := by
  rcases promise_of_resolve h with ⟨-, hback, hwithin⟩ | ⟨hvarint, -⟩
  · exact ⟨hback, hwithin⟩
  · exact absurd hvarint (varintReader_ne_of_fixedReader ht)

/-- A number that was read has the bytes that it was read from. -/
theorem slice?_of_read (ht : fixedReader t = some reader) (hbool : t ≠ .bool)
    (h : (Registry.builtin config).resolve t .readScalar (some reader) = .ok ⟨reader, read⟩) {buf : Bytes}
    {offset : UInt64} {v : t.Carrier} (hv : read buf offset = some v) :
    buf.slice? offset.toNat (fixedWidth t) = some (plain config.byteOrder t v) := by
  have hparses : Parses read (fixedWidth t) (parse config.byteOrder t) := sees_of_resolve h ht
  rw [hparses] at hv
  obtain ⟨bs, hslice, rfl⟩ := Option.map_eq_some_iff.1 hv
  have hscalar : ∃ u, t = .scalar u := exists_scalar_of_fixedReader ht hbool
  rw [hslice, plain_parse_number _ hscalar (Bytes.length_of_slice? hslice)]

/-- Codecs of fixed width.

A value of the type has as many bytes as the type is wide; those of a number are its digits in base 256, the lowest first
or in reverse. The registry finds the three operations by their names. Where a buffer has room for the bytes of a value,
these are stored and counted, nothing else is touched, and the reader finds the value again; where there is no room, both
fault, and the buffer stays as it is. And a number that was read anywhere stands there with its own bytes, so writing it
back changes nothing. -/
theorem fixed_width_codec (config : RegistryConfig) (ht : fixedReader t = some reader) :
    (∀ v : t.Carrier, plain .big t v = (plain .little t v).reverse ∧
      (plain config.byteOrder t v).length = fixedWidth t ∧
      (t ≠ .bool → ∀ i < fixedWidth t, (plain .little t v)[i]? = some (UInt8.ofNat (magnitude t v / 256 ^ i)))) ∧
    ∃ write measure read,
      (Registry.builtin config).resolve t .write (some "GetBytes") = .ok ⟨"GetBytes", write⟩ ∧
      (Registry.builtin config).resolve t .sizeOf (some "GetByteCount") = .ok ⟨"GetByteCount", measure⟩ ∧
      (Registry.builtin config).resolve t .readScalar (some reader) = .ok ⟨reader, read⟩ ∧
      (∀ v, (measure v).toNat = fixedWidth t) ∧
      (∀ buf offset,
        if offset.toNat + fixedWidth t ≤ buf.length then
          (read buf offset).isSome ∧ ∀ v,
            write.run v buf offset = ⟨buf.overwrite offset.toNat (plain config.byteOrder t v), some (measure v)⟩ ∧
            read (buf.overwrite offset.toNat (plain config.byteOrder t v)) offset = some v
        else
          read buf offset = none ∧ ∀ v, write.run v buf offset = ⟨buf, none⟩) ∧
      (t ≠ .bool → ∀ buf offset v, read buf offset = some v →
        buf.slice? offset.toNat (fixedWidth t) = some (plain config.byteOrder t v) ∧
        write.run v buf offset = ⟨buf, some (measure v)⟩) := by
  obtain ⟨hwrite, hmeasure, read, hread⟩ := resolve_fixed config ht
  obtain ⟨hback, hwithin⟩ := reads_of_resolve ht hread
  have hlength : ∀ v, (plain config.byteOrder t v).length = fixedWidth t := length_plain _ ht
  -- with room for the width of the type there is room for the bytes of any value
  have hstores : ∀ v buf (offset : UInt64), offset.toNat + fixedWidth t ≤ buf.length →
      (Writer.ofBytes (plain config.byteOrder t)).run v buf offset =
        ⟨buf.overwrite offset.toNat (plain config.byteOrder t v), some (UInt64.ofNat (fixedWidth t))⟩ := by
    intro v buf offset hroom
    rw [← hlength v] at hroom ⊢
    exact (Stores.ofBytes _).run_of_le v buf offset hroom
  refine ⟨fun v => ⟨plain_big_eq_reverse ht v, hlength v, fun hbool i hi => getElem?_plain_little ht hbool v hi⟩,
    _, _, read, hwrite, hmeasure, hread, fun _ => toNat_ofNat_fixedWidth t, fun buf offset => ?_,
    fun hbool buf offset v hv => ?_⟩
  · split
    · next hroom =>
      have hpre : offset.toNat = (buf.take offset.toNat).length := by
        rw [List.length_take]
        omega
      exact ⟨(hwithin buf offset).2 hroom, fun v => ⟨hstores v buf offset hroom, hback v _ _ offset hpre⟩⟩
    · next hroom =>
      have hnone : read buf offset = none := by
        rw [← Option.not_isSome_iff_eq_none, hwithin buf offset]
        exact hroom
      refine ⟨hnone, fun v => Stores.run_ofBytes_of_not_le ?_⟩
      rwa [hlength]
  · have hslice := slice?_of_read ht hbool hread hv
    have hroom := (Bytes.slice?_eq_some_iff.1 hslice).1
    refine ⟨hslice, ?_⟩
    rw [hstores v buf offset hroom, Bytes.overwrite_of_slice? hslice]

/-- A number of eight bytes that is no number in floating point keeps the bits that tell such numbers apart. The buffer
has room for it at the second byte, but not at the fourth. -/
theorem fixed_width_codec_nan :
    fixedReader (.scalar .f64) = some "ToDouble" ∧
      ∃ (write : Writer (BitVec 64)) (read : Bytes → UInt64 → Option (BitVec 64)),
        (Registry.builtin ⟨.big, false⟩).resolve (.scalar .f64) .write (some "GetBytes") = .ok ⟨"GetBytes", write⟩ ∧
        (Registry.builtin ⟨.big, false⟩).resolve (.scalar .f64) .readScalar (some "ToDouble") = .ok ⟨"ToDouble", read⟩ ∧
        read [9, 0x7f, 0xf8, 0, 0, 0xde, 0xad, 0xbe, 0xef, 9] 1 = some 0x7ff80000deadbeef ∧
        write.run 0x7ff80000deadbeef (List.replicate 10 9) 3 = ⟨List.replicate 10 9, none⟩ := by
  have hreader : fixedReader (.scalar .f64) = some "ToDouble" := rfl
  obtain ⟨-, write, measure, read, hwrite, -, hread, -, hruns, -⟩ := fixed_width_codec ⟨.big, false⟩ hreader
  refine ⟨hreader, write, read, hwrite, hread, ?_, ?_⟩
  · have hroom := hruns (List.replicate 10 9) 1
    rw [if_pos (by decide +kernel)] at hroom
    have hbytes : Bytes.overwrite (List.replicate 10 9) 1 (plain .big (.scalar .f64) 0x7ff80000deadbeef#64) =
        [9, 0x7f, 0xf8, 0, 0, 0xde, 0xad, 0xbe, 0xef, 9] := by decide +kernel
    have hnan := (hroom.2 0x7ff80000deadbeef#64).2
    rw [← hbytes]
    exact hnan
  · have hcramped := hruns (List.replicate 10 9) 3
    rw [if_neg (by decide +kernel)] at hcramped
    exact hcramped.2 0x7ff80000deadbeef#64

end Memberwise.Builtin
