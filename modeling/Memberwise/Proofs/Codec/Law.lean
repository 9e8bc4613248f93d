import Memberwise.Codec.Builtin
import Memberwise.Proofs.Bytes.Numeral
import Memberwise.Proofs.Bytes.Region
import Memberwise.Proofs.Text.Repair

/-!
# Laws of codecs

What the operations of one codec promise each other, stated through the bytes `enc v` of a value.

* `Measures`: the measure counts the bytes of the value. `Stores`: the writer stores exactly them, or faults where
  there is no room for them. `Lawful` is both.
* `ReadsBack`, `ReadsBackBounded`: the reader finds the value where its bytes are, whatever stands around them.
* `ReadsWithin`: the reader faults exactly where the buffer ends too soon. `ReadsRanges`: it does not fault on a range
  that lies inside the buffer. What the buffer holds does not matter.

The built-in codecs keep all of these.
-/

namespace Memberwise

variable {α β : Type}

/-! ### The laws -/

/-- The measure is the number of bytes. -/
def Measures (measure : α → UInt64) (enc : α → Bytes) : Prop := ∀ v, measure v = UInt64.ofNat (enc v).length

/-- Where there is room for the bytes the writer stores them, reports their number and leaves the rest of the buffer
alone; elsewhere it faults. -/
structure Stores (w : Writer α) (enc : α → Bytes) : Prop where
  run_of_le : ∀ v buf offset, offset.toNat + (enc v).length ≤ buf.length →
    w.run v buf offset = ⟨buf.overwrite offset.toNat (enc v), some (UInt64.ofNat (enc v).length)⟩
  run_of_not_le : ∀ v buf offset, ¬ offset.toNat + (enc v).length ≤ buf.length →
    (w.run v buf offset).count = none

/-- A writer and a measure that keep to one encoding. -/
structure Lawful (w : Writer α) (measure : α → UInt64) (enc : α → Bytes) : Prop where
  stores : Stores w enc
  measures : Measures measure enc

/-- The reader finds a value where its bytes are. -/
def ReadsBack (read : Bytes → UInt64 → Option α) (enc : α → Bytes) : Prop :=
  ∀ v pre post offset, offset.toNat = pre.length → read (pre ++ enc v ++ post) offset = some v

/-- The reader finds a value where its bytes are, if it is told their number. -/
def ReadsBackBounded (read : Bytes → UInt64 → UInt64 → Option α) (enc : α → Bytes) : Prop :=
  ∀ v pre post offset length, offset.toNat = pre.length → length.toNat = (enc v).length →
    read (pre ++ enc v ++ post) offset length = some v

/-- The reader finds some value exactly where the buffer holds `width` bytes. -/
def ReadsWithin (read : Bytes → UInt64 → Option α) (width : Nat) : Prop :=
  ∀ buf offset, (read buf offset).isSome ↔ offset.toNat + width ≤ buf.length

/-- The reader finds some value in every range inside the buffer. -/
def ReadsRanges (read : Bytes → UInt64 → UInt64 → Option α) : Prop :=
  ∀ buf offset length, offset.toNat + length.toNat ≤ buf.length → (read buf offset length).isSome

theorem Measures.comp {measure : α → UInt64} {enc : α → Bytes} (h : Measures measure enc) (get : β → α) :
    Measures (measure ∘ get) (enc ∘ get) := fun x => h (get x)

namespace Stores

variable {w : Writer α} {enc : α → Bytes}

/-- A part of a larger value is stored as it is by itself. -/
theorem comap (h : Stores w enc) (get : β → α) : Stores (w.comap get) (enc ∘ get) where
  run_of_le x := h.run_of_le (get x)
  run_of_not_le x := h.run_of_not_le (get x)

/-- A writer that did not fault had room, and did what it was to do. -/
theorem of_run_eq_some (h : Stores w enc) {v : α} {buf out : Bytes} {offset n : UInt64}
    (hrun : w.run v buf offset = ⟨out, some n⟩) :
    offset.toNat + (enc v).length ≤ buf.length ∧ out = buf.overwrite offset.toNat (enc v) ∧
      n = UInt64.ofNat (enc v).length := by
  by_cases hle : offset.toNat + (enc v).length ≤ buf.length
  · rw [h.run_of_le v buf offset hle, Written.mk.injEq, Option.some.injEq] at hrun
    exact ⟨hle, hrun.1.symm, hrun.2.symm⟩
  · have hnone := h.run_of_not_le v buf offset hle
    rw [hrun] at hnone
    cases hnone

theorem count_eq (h : Stores w enc) (v : α) (buf : Bytes) (offset : UInt64) :
    (w.run v buf offset).count =
      if offset.toNat + (enc v).length ≤ buf.length then some (UInt64.ofNat (enc v).length) else none := by
  split
  · next hle => rw [h.run_of_le v buf offset hle]
  · next hle => exact h.run_of_not_le v buf offset hle

/-- A writer of given bytes leaves the buffer alone where there is no room for all of them. -/
theorem run_ofBytes_of_not_le {bytes : α → Bytes} {v : α} {buf : Bytes} {offset : UInt64}
    (h : ¬ offset.toNat + (bytes v).length ≤ buf.length) : (Writer.ofBytes bytes).run v buf offset = ⟨buf, none⟩ := by
  have hnone : buf.overwrite? offset.toNat (bytes v) = none := Bytes.overwrite?_eq_none_iff.2 h
  simp only [Writer.ofBytes, hnone]

theorem ofBytes (bytes : α → Bytes) : Stores (Writer.ofBytes bytes) bytes where
  run_of_le v buf offset hle := by
    have hsome : buf.overwrite? offset.toNat (bytes v) = some (buf.overwrite offset.toNat (bytes v)) :=
      Bytes.overwrite?_eq_some_iff.2 ⟨hle, rfl⟩
    simp only [Writer.ofBytes, hsome]
  run_of_not_le v buf offset hle := congrArg Written.count (run_ofBytes_of_not_le hle)

end Stores

namespace Builtin

/-! ### Plain codecs -/

theorem stores_scalar (order : ByteOrder) (t : Scalar) :
    Stores (writeScalar order t) fun v => order.encode t.width v.toNat := Stores.ofBytes _

theorem measures_scalar (order : ByteOrder) (t : Scalar) :
    Measures (fun _ => UInt64.ofNat t.width) fun v : BitVec (8 * t.width) => order.encode t.width v.toNat :=
  fun v => by rw [ByteOrder.length_encode]

theorem measures_text : Measures (fun v => UInt64.ofNat v.utf8ByteSize) Text.utf8 :=
  fun v => by rw [Text.length_utf8]

/-- Reads a truth value: every byte but zero is true. -/
def readBool (buf : Bytes) (offset : UInt64) : Option Bool := (buf[offset.toNat]?).map fun b => b != 0

theorem readsBack_bool : ReadsBack readBool fun v => [v.toUInt8] := by
  intro v pre post offset h
  have hget : (pre ++ [v.toUInt8] ++ post)[pre.length]? = some v.toUInt8 := by
    rw [List.append_assoc, List.getElem?_append_right (Nat.le_refl _), Nat.sub_self]
    rfl
  rw [readBool, h, hget]
  cases v <;> rfl

theorem readsWithin_bool : ReadsWithin readBool 1 := by
  intro buf offset
  rw [readBool, Option.isSome_map, isSome_getElem?]
  exact Nat.succ_le_iff.symm

theorem readsBack_scalar (order : ByteOrder) (t : Scalar) :
    ReadsBack (readScalar order t) fun v => order.encode t.width v.toNat := by
  intro v pre post offset h
  have hslice := Bytes.slice?_append pre (order.encode t.width v.toNat) post
  rw [ByteOrder.length_encode] at hslice
  have hlt : v.toNat < 256 ^ t.width := by
    rw [show 256 = 2 ^ 8 from rfl, ← Nat.pow_mul]
    exact v.isLt
  rw [readScalar, h, hslice, Option.map_some, ByteOrder.decode_encode, Nat.mod_eq_of_lt hlt, BitVec.ofNat_toNat,
    BitVec.setWidth_eq]

theorem readsWithin_scalar (order : ByteOrder) (t : Scalar) : ReadsWithin (readScalar order t) t.width := by
  intro buf offset
  rw [readScalar, Option.isSome_map]
  exact Bytes.isSome_slice?

/-- Reads a byte string. -/
def readBytes (buf : Bytes) (offset length : UInt64) : Option Bytes := buf.slice? offset.toNat length.toNat

/-- Reads a text; ill-formed input is repaired. -/
def readText (buf : Bytes) (offset length : UInt64) : Option String := (readBytes buf offset length).map Text.lossy

theorem readsBack_bytes : ReadsBackBounded readBytes fun v => v := by
  intro v pre post offset length h hlen
  rw [readBytes, h, hlen]
  exact Bytes.slice?_append pre v post

theorem readsBack_text : ReadsBackBounded readText Text.utf8 := by
  intro v pre post offset length h hlen
  rw [readText, readsBack_bytes (Text.utf8 v) pre post offset length h hlen, Option.map_some, Text.lossy_utf8]

theorem readsRanges_bytes : ReadsRanges readBytes := fun _ _ _ h => Bytes.isSome_slice?.2 h

theorem readsRanges_text : ReadsRanges readText := by
  intro buf offset length h
  rw [readText, Option.isSome_map]
  exact readsRanges_bytes buf offset length h

/-! ### Codecs of variable length -/

theorem encode_ne_nil (n : Nat) : Varint.encode n ≠ [] := by
  unfold Varint.encode
  split <;> simp

/-- A number below `128 ^ k` takes at most `k` bytes. -/
theorem size_le {k n : Nat} (hk : 0 < k) (h : n < 128 ^ k) : Varint.size n ≤ k := by
  induction k generalizing n with
  | zero => omega
  | succ k ih =>
    unfold Varint.size
    split
    · omega
    · next hn =>
      rw [Nat.pow_succ] at h
      have hk' : 0 < k := by
        rcases Nat.eq_zero_or_pos k with rfl | hpos
        · simp only [Nat.pow_zero] at h
          omega
        · exact hpos
      have := ih hk' (Nat.div_lt_of_lt_mul (by rw [Nat.mul_comm]; exact h) : n / 128 < 128 ^ k)
      omega

theorem size_le_ten {n : Nat} (hn : n < 2 ^ 64) : Varint.size n ≤ 10 :=
  size_le (by decide) (Nat.lt_of_lt_of_le hn (by decide))

/-- A number is read modulo `2 ^ 64`. -/
theorem decode_eq (bs : Bytes) : Varint.decode bs = Varint.read 10 bs % 2 ^ 64 := rfl

theorem stores_varint (w : Nat) : Stores (writeVarint w) fun v => Varint.encode v.toNat where
  run_of_le v buf offset h := by
    simp only [writeVarint, Varint.store, Bytes.storeEach_of_le h, if_true]
  run_of_not_le v buf offset h := by
    simp only [writeVarint, Varint.store, Bytes.storeEach_of_not_le (encode_ne_nil _) h]
    rfl

theorem measures_varint (w : Nat) :
    Measures (fun v : BitVec w => UInt64.ofNat (Varint.size v.toNat)) fun v => Varint.encode v.toNat :=
  fun v => by rw [Varint.length_encode]

/-- A number of 64 bits is found where its bytes are, whatever stands around them. -/
theorem load?_append {n : Nat} (hn : n < 2 ^ 64) (pre post : Bytes) :
    Varint.load? (pre ++ Varint.encode n ++ post) pre.length = some n := by
  have hdrop : (pre ++ Varint.encode n ++ post).drop pre.length = Varint.encode n ++ post := by
    rw [List.append_assoc, List.drop_left]
  have hle : pre.length ≤ (pre ++ Varint.encode n ++ post).length := by
    simp only [List.length_append]
    omega
  rw [Varint.load?, if_pos hle, hdrop, decode_eq, Varint.read_encode post (size_le_ten hn), Nat.mod_eq_of_lt hn]

/-- Of a number of 64 bits a reader keeps the bits that its type has. -/
theorem readVarint_append (w : Nat) {n : Nat} (hn : n < 2 ^ 64) (pre post : Bytes) {offset : UInt64}
    (hoffset : offset.toNat = pre.length) :
    readVarint w (pre ++ Varint.encode n ++ post) offset = some (BitVec.ofNat w n) := by
  rw [readVarint, hoffset, load?_append hn, Option.map_some]

theorem readsBack_varint {w : Nat} (hw : w ≤ 64) : ReadsBack (readVarint w) fun v => Varint.encode v.toNat := by
  intro v pre post offset h
  have hlt : v.toNat < 2 ^ 64 := Nat.lt_of_lt_of_le v.isLt (Nat.pow_le_pow_right (by decide) hw)
  rw [readVarint_append w hlt pre post h, BitVec.ofNat_toNat, BitVec.setWidth_eq]

theorem readsWithin_varint (w : Nat) : ReadsWithin (readVarint w) 0 := by
  intro buf offset
  rw [readVarint, Option.isSome_map, Varint.load?]
  split
  · next hle => exact iff_of_true rfl hle
  · next hle => exact iff_of_false (by simp) hle

end Builtin

end Memberwise
