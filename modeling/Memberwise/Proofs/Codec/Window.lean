import Memberwise.Proofs.Codec.Family

/-!
# What readers see

The built-in readers of fixed width, and those that are told a number of bytes, take these bytes and make a value of
them (`Parses`, `ParsesRanges`), the same value wherever the bytes stand. For numbers and byte strings this undoes the
plain encoding, bit for bit: what was read is written as it stood there (`Builtin.plain_parse_number`).

A reader of variable length sees all of the buffer from its offset on. But the number that it finds takes no more bytes
than it had before it, though it may take fewer (`Builtin.ReadsNumbers.length_digits_le`).
-/

namespace Memberwise

variable {α : Type}

/-- The reader makes a value of the `width` bytes from its offset on. -/
def Parses (read : Bytes → UInt64 → Option α) (width : Nat) (parse : Bytes → α) : Prop :=
  ∀ buf offset, read buf offset = (buf.slice? offset.toNat width).map parse

/-- The reader makes a value of the bytes that it is told to read. -/
def ParsesRanges (read : Bytes → UInt64 → UInt64 → Option α) (parse : Bytes → α) : Prop :=
  ∀ buf offset length, read buf offset length = (buf.slice? offset.toNat length.toNat).map parse

/-! ### Numbers of variable length -/

theorem Varint.read_lt (limit : Nat) (bs : Bytes) : read limit bs < 128 ^ bs.length := by
  fun_induction read limit bs with
  | case1 bs => exact Nat.pow_pos (by decide)
  | case2 limit => decide
  | case3 limit b rest hlast =>
    have hb : b.toNat < 128 := by simpa [UInt8.lt_iff_toNat_lt] using hlast
    have hpos : 0 < 128 ^ rest.length := Nat.pow_pos (by decide)
    rw [List.length_cons, Nat.pow_succ]
    omega
  | case4 limit b rest hmore ih =>
    rw [List.length_cons, Nat.pow_succ]
    omega

theorem Varint.decode_lt (bs : Bytes) : decode bs < 128 ^ bs.length :=
  Nat.lt_of_le_of_lt (Nat.mod_le _ _) (read_lt 10 bs)

namespace Builtin

variable {config : RegistryConfig} {t : ValueType}

/-- However it was written, the number found takes no more bytes than there were. -/
theorem ReadsNumbers.length_digits_le {read : Bytes → UInt64 → Option t.Carrier} (h : ReadsNumbers t read) {buf : Bytes}
    {offset : UInt64} {v : t.Carrier} (hv : read buf offset = some v) (hroom : offset.toNat < buf.length) :
    (digits t v).length ≤ buf.length - offset.toNat := by
  obtain ⟨v', hv', hmagnitude⟩ := h buf offset (Nat.le_of_lt hroom)
  cases hv.symm.trans hv'
  have hlt : magnitude t v < 128 ^ (buf.length - offset.toNat) := by
    rw [hmagnitude, ← List.length_drop]
    exact Nat.lt_of_le_of_lt (Nat.mod_le _ _) (Varint.decode_lt _)
  rw [digits, Varint.length_encode]
  exact size_le (by omega) hlt

/-! ### Values of the bytes read -/

/-- The value that the plain codec of a type makes of bytes. A type that has none gives its zero. -/
def parse (order : ByteOrder) : (t : ValueType) → Bytes → t.Carrier
  | .bool, bs => bs.any (· != 0)
  | .scalar t, bs => BitVec.ofNat (8 * t.width) (order.decode bs)
  | .bytes, bs => bs
  | .string, bs => Text.lossy bs
  | .char, _ => ValueType.zero .char
  | .ipv4, _ => ValueType.zero .ipv4
  | .duration, _ => ValueType.zero .duration

/-- A number is written as it was read, every bit of it. -/
theorem plain_parse_number (order : ByteOrder) (ht : ∃ u, t = .scalar u) {bs : Bytes} (h : bs.length = fixedWidth t) :
    plain order t (parse order t bs) = bs := by
  obtain ⟨u, rfl⟩ := ht
  have hlength : bs.length = u.width := h
  have hlt : order.decode bs < 2 ^ (8 * u.width) := by
    have hdecode := order.decode_lt bs
    rwa [hlength, show 256 = 2 ^ 8 from rfl, ← Nat.pow_mul] at hdecode
  change order.encode u.width (BitVec.ofNat (8 * u.width) (order.decode bs)).toNat = bs
  rw [BitVec.toNat_ofNat, Nat.mod_eq_of_lt hlt, ← hlength, ByteOrder.encode_decode]

theorem plain_parse_bytes (order : ByteOrder) (ht : t = .bytes) (bs : Bytes) :
    plain order t (parse order t bs) = bs := by
  subst ht
  rfl

theorem parses_bool (order : ByteOrder) : Parses readBool 1 (parse order .bool) := by
  intro buf offset
  unfold readBool
  cases hget : buf[offset.toNat]? with
  | none =>
    have hout : ¬ offset.toNat + 1 ≤ buf.length := by
      rw [List.getElem?_eq_none_iff] at hget
      omega
    rw [Bytes.slice?, if_neg hout]
    rfl
  | some b =>
    obtain ⟨hin, hb⟩ := List.getElem?_eq_some_iff.1 hget
    have hslice : buf.slice? offset.toNat 1 = some [b] := by
      rw [Bytes.slice?_eq_some_iff, List.drop_eq_getElem_cons hin, hb]
      exact ⟨hin, rfl⟩
    have hparse : parse order .bool [b] = (b != 0) := Bool.or_false _
    rw [hslice]
    exact congrArg some hparse.symm

/-! ### What resolves to what -/

/-- What a built-in reader makes of the bytes before it, if these are of a fixed number. -/
def Sees (order : ByteOrder) (t : ValueType) : (k : OperationKind) → String → k.Call t.Carrier → Prop
  | .readScalar, name, call => fixedReader t = some name → Parses call (fixedWidth t) (parse order t)
  | .readBounded, _, call => ParsesRanges call (parse order t)
  | .write, _, _ | .sizeOf, _, _ => True

/-- A reader sees what stands before it. -/
def Clear (order : ByteOrder) (op : Operation) : Prop := Sees order op.type op.kind op.name op.call

theorem clear_operations (config : RegistryConfig) : ∀ op ∈ operations config, Clear config.byteOrder op := by
  apply forall_mem_operations (P := Clear config.byteOrder)
  · simp only [bool, List.forall_mem_cons, List.not_mem_nil, false_imp_iff, implies_true, and_true]
    exact ⟨trivial, trivial, fun _ => parses_bool _⟩
  · intro u
    simp only [scalar, List.forall_mem_cons, List.not_mem_nil, false_imp_iff, implies_true, and_true]
    exact ⟨trivial, trivial, fun _ _ _ => rfl⟩
  · simp only [bytes, List.forall_mem_cons, List.not_mem_nil, false_imp_iff, implies_true, and_true]
    exact ⟨trivial, trivial, fun _ _ _ => Option.map_id'.symm⟩
  · simp only [string, List.forall_mem_cons, List.not_mem_nil, false_imp_iff, implies_true, and_true]
    exact ⟨trivial, trivial, fun _ _ _ => rfl⟩
  · intro u reader _ hreader
    simp only [varint, List.forall_mem_cons, List.not_mem_nil, false_imp_iff, implies_true, and_true]
    exact ⟨trivial, trivial, fun hfixed => absurd hreader (varintReader_ne_of_fixedReader hfixed)⟩

theorem sees_of_resolve {k : OperationKind} {name : Option String} {b : Bound (k.Call t.Carrier)}
    (h : (Registry.builtin config).resolve t k name = .ok b) : Sees config.byteOrder t k b.name b.call :=
  clear_operations config _ (List.mem_filter.1 (Registry.mem_of_resolve h).1).1

end Builtin

namespace Member

variable {H : Type} {m : Member H} {config : RegistryConfig}

/-- A member that is measured or read at variable length. -/
def Varies (m : Member H) : Prop :=
  m.codec.sizeOf = "GetVarByteCount" ∨ ∃ name ∈ m.codec.readScalar, Builtin.varintReader m.type = some name

/-- A scalar reader that is not named as one of variable length is of fixed width. -/
theorem parses_of_resolve (hreader : ∀ name ∈ m.codec.readScalar, Builtin.varintReader m.type ≠ some name)
    {read : Bound (Bytes → UInt64 → Option m.type.Carrier)}
    (h : (Registry.builtin config).resolve m.type .readScalar m.codec.readScalar = .ok read) :
    Builtin.fixedReader m.type = some read.name ∧
      Parses read.call (Builtin.fixedWidth m.type) (Builtin.parse config.byteOrder m.type) := by
  have hname : Builtin.fixedReader m.type = some read.name := by
    rcases Builtin.promise_of_resolve h with ⟨hfixed, -⟩ | ⟨hvarint, -⟩
    · exact hfixed
    cases hcodec : m.codec.readScalar with
    | none =>
      rw [hcodec] at h
      exact Builtin.fixedReader_of_resolve_none h
    | some name =>
      rw [(Registry.mem_of_resolve h).2.1 name hcodec] at hvarint
      exact absurd hvarint (hreader name hcodec)
  exact ⟨hname, Builtin.sees_of_resolve h hname⟩

end Member

end Memberwise
