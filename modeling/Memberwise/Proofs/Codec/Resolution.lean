import Memberwise.Proofs.Codec.Law

/-!
# What resolves to what

An operation that was found is one of the candidates of its type and kind, has the name asked for, and is the only
candidate if no name was given (`Registry.mem_of_resolve`).

Every operation of the built-in registry keeps a law that its kind and name tell (`Builtin.Promise`), so whatever
is found there does (`Builtin.promise_of_resolve`):

* plain writers and measures keep to `Builtin.plain`, those of variable length to `Builtin.digits`;
* a scalar reader is the one of fixed width or the one of variable length, and without a name the former;
* a bounded reader reads back what the plain writer stores.
-/

namespace Memberwise

namespace Registry

variable {r : Registry} {t : ValueType} {k : OperationKind}

theorem lookup_some_eq_ok_iff {n : String} {op : Operation} :
    r.lookup t k (some n) = .ok op ↔ r.find? t k n = some op := by
  simp only [lookup]
  split
  · next h => rw [h, Except.ok.injEq, Option.some.injEq]
  · next h => split <;> simp [h]

theorem lookup_none_eq_ok_iff {op : Operation} : r.lookup t k none = .ok op ↔ r.candidates t k = [op] := by
  simp only [lookup]
  split
  · next h => simp [h]
  · next h => simp [h]
  · next h => exact iff_of_false (by simp) (h op)

theorem mem_candidates_of_find? {n : String} {op : Operation} (h : r.find? t k n = some op) :
    op ∈ r.candidates t k ∧ op.name = n :=
  ⟨List.mem_of_find?_eq_some h, by simpa using List.find?_some h⟩

theorem otherKinds_ascending (r : Registry) (t : ValueType) (k : OperationKind) (n : String) :
    (r.otherKinds t k n).Pairwise fun j j' => j.index < j'.index := by
  have hall : OperationKind.all.Pairwise fun j j' => j.index < j'.index := by decide
  exact hall.filter _

theorem mem_otherKinds {j : OperationKind} {n : String} :
    j ∈ r.otherKinds t k n ↔ j ≠ k ∧ (r.find? t j n).isSome := by
  simp [otherKinds, OperationKind.mem_all]

/-- All that a look-up can end with. By name it fails if no operation of the kind has the name, and names the other kinds
that one of the name has. By shape it fails if there is no operation of the kind, or more than one. -/
theorem lookup_cases (r : Registry) (t : ValueType) (k : OperationKind) (name : Option String) :
    (∃ op, r.lookup t k name = .ok op) ∨
      (name = none → r.candidates t k = []) ∧ r.lookup t k name = .error (.notFound t.name k name) ∨
      (name = none ∧ 2 ≤ (r.candidates t k).length ∧
        r.lookup t k name = .error (.ambiguous t.name k ((r.candidates t k).map (·.name)))) ∨
      ∃ n, name = some n ∧ r.otherKinds t k n ≠ [] ∧
        r.lookup t k name = .error (.shapeMismatch t.name n k (r.otherKinds t k n)) := by
  cases name with
  | some n =>
    simp only [lookup]
    split
    · next op _ => exact .inl ⟨op, rfl⟩
    split
    · exact .inr (.inl ⟨nofun, rfl⟩)
    · next hfound => exact .inr (.inr (.inr ⟨n, rfl, hfound, rfl⟩))
  | none =>
    simp only [lookup]
    split
    · next hnone => exact .inr (.inl ⟨fun _ => hnone, rfl⟩)
    · next op _ => exact .inl ⟨op, rfl⟩
    · next hnone hone =>
      refine .inr (.inr (.inl ⟨trivial, ?_, rfl⟩))
      match hops : r.candidates t k with
      | [] => exact absurd hops hnone
      | [op] => exact absurd hops (hone op)
      | _ :: _ :: _ => simp

theorem lookup_ne_signatureMismatch (r : Registry) (t : ValueType) (k : OperationKind) (name : Option String)
    (type n : String) (kind : OperationKind) : r.lookup t k name ≠ .error (.signatureMismatch type n kind) := by
  rcases r.lookup_cases t k name with ⟨op, heq⟩ | ⟨-, heq⟩ | ⟨-, -, heq⟩ | ⟨n', -, -, heq⟩ <;> simp [heq]

theorem type_kind_of_mem {op : Operation} (h : op ∈ r.candidates t k) : op.type = t ∧ op.kind = k := by
  simpa using (List.mem_filter.1 h).2

theorem mem_candidates_of_lookup {name : Option String} {op : Operation} (h : r.lookup t k name = .ok op) :
    op ∈ r.candidates t k := by
  cases name with
  | none =>
    rw [lookup_none_eq_ok_iff.1 h]
    exact .head _
  | some n => exact (mem_candidates_of_find? (lookup_some_eq_ok_iff.1 h)).1

/-- An operation that was found has the type and the kind asked for, so its function is recovered. -/
theorem resolve_of_lookup {name : Option String} {op : Operation} (h : r.lookup t k name = .ok op) :
    ∃ call, op = ⟨t, k, op.name, call⟩ ∧ r.resolve t k name = .ok ⟨op.name, call⟩ := by
  obtain ⟨rfl, rfl⟩ := type_kind_of_mem (mem_candidates_of_lookup h)
  refine ⟨op.call, rfl, ?_⟩
  simp only [resolve, h, Operation.as?_self]

theorem resolve_eq_error_iff {name : Option String} {e : ResolutionError} :
    r.resolve t k name = .error e ↔ r.lookup t k name = .error e := by
  cases hlookup : r.lookup t k name with
  | error e' => simp [resolve, hlookup]
  | ok op =>
    obtain ⟨call, -, hresolve⟩ := resolve_of_lookup hlookup
    simp [hresolve]

theorem resolve_eq_ok_iff {name : Option String} {b : Bound (k.Call t.Carrier)} :
    r.resolve t k name = .ok b ↔ r.lookup t k name = .ok ⟨t, k, b.name, b.call⟩ := by
  cases hlookup : r.lookup t k name with
  | error e => simp [resolve_eq_error_iff.2 hlookup]
  | ok op =>
    obtain ⟨call, hop, hresolve⟩ := resolve_of_lookup hlookup
    rw [hresolve, hop]
    cases b
    simp

/-- What can be said of any operation found. -/
theorem mem_of_resolve {name : Option String} {b : Bound (k.Call t.Carrier)} (h : r.resolve t k name = .ok b) :
    ⟨t, k, b.name, b.call⟩ ∈ r.candidates t k ∧ (∀ n ∈ name, b.name = n) ∧
      (name = none → r.candidates t k = [⟨t, k, b.name, b.call⟩]) := by
  have hlookup := resolve_eq_ok_iff.1 h
  refine ⟨mem_candidates_of_lookup hlookup, ?_, ?_⟩
  · rintro n rfl
    exact (mem_candidates_of_find? (lookup_some_eq_ok_iff.1 hlookup)).2
  · rintro rfl
    exact lookup_none_eq_ok_iff.1 hlookup

end Registry

namespace Builtin

/-! ### Names and encodings of the built-in codecs -/

/-- The name of the reader of fixed width of a type. -/
def fixedReader : ValueType → Option String
  | .bool => some "ToBoolean"
  | .scalar t => some (readerName t)
  | _ => none

/-- The name of the reader of variable length of a type. -/
def varintReader : ValueType → Option String
  | .scalar .u16 => some "ReadVarUInt16"
  | .scalar .u32 => some "ReadVarUInt32"
  | .scalar .u64 => some "ReadVarUInt64"
  | _ => none

/-- The name of the bounded reader of a type. -/
def boundedReader : ValueType → Option String
  | .bytes => some "ToArray"
  | .string => some "GetString"
  | _ => none

/-- The bytes of a value under the plain codec of its type. A type that has none gives none. -/
def plain (order : ByteOrder) : (t : ValueType) → t.Carrier → Bytes
  | .bool, v => [Bool.toUInt8 v]
  | .scalar t, v => order.encode t.width (BitVec.toNat v)
  | .bytes, v => v
  | .string, v => Text.utf8 v
  | .char, _ | .ipv4, _ | .duration, _ => []

/-- The number that a value of a number type stands for, bit for bit. -/
def magnitude : (t : ValueType) → t.Carrier → Nat
  | .scalar _, v => BitVec.toNat v
  | _, _ => 0

/-- The bytes of a number at variable length. -/
def digits (t : ValueType) (v : t.Carrier) : Bytes := Varint.encode (magnitude t v)

/-- Number of bytes of every value of a type, for the types of fixed width. -/
def fixedWidth : ValueType → Nat
  | .bool => 1
  | .scalar t => t.width
  | _ => 0

variable {config : RegistryConfig} {t : ValueType} {name : Option String}

theorem length_plain (order : ByteOrder) {reader : String} (h : fixedReader t = some reader) (v : t.Carrier) :
    (plain order t v).length = fixedWidth t := by
  cases t with
  | bool => rfl
  | scalar u => exact order.length_encode u.width _
  | _ => cases h

theorem fixedWidth_pos {reader : String} (h : fixedReader t = some reader) : 0 < fixedWidth t := by
  cases t with
  | bool => decide
  | scalar u => cases u <;> decide
  | _ => cases h

theorem fixedWidth_le (t : ValueType) : fixedWidth t ≤ 16 := by
  cases t with
  | scalar u => cases u <;> decide
  | _ => decide

theorem toNat_ofNat_fixedWidth (t : ValueType) : (UInt64.ofNat (fixedWidth t)).toNat = fixedWidth t := by
  have := fixedWidth_le t
  exact UInt64.toNat_ofNat_of_lt' (by rw [UInt64.size]; omega)

/-- A number takes no more bytes at variable length than the widest type does. -/
theorem length_digits_le (t : ValueType) (v : t.Carrier) : (digits t v).length ≤ 19 := by
  have hlt : magnitude t v < 128 ^ 19 := by
    cases t with
    | scalar u =>
      have hw : u.width ≤ 16 := fixedWidth_le (.scalar u)
      refine Nat.lt_of_lt_of_le (BitVec.isLt v) ?_
      calc 2 ^ (8 * u.width) ≤ 2 ^ 128 := Nat.pow_le_pow_right (by decide) (by omega)
        _ ≤ 128 ^ 19 := by decide
    | _ => exact Nat.pow_pos (by decide)
  rw [digits, Varint.length_encode]
  exact size_le (by decide) hlt

theorem length_digits_pos (t : ValueType) (v : t.Carrier) : 0 < (digits t v).length :=
  List.length_pos_iff.2 (encode_ne_nil _)

theorem toNat_of_measures_plain {order : ByteOrder} {measure : t.Carrier → UInt64} {reader : String}
    (h : fixedReader t = some reader) (hmeasures : Measures measure (plain order t)) (v : t.Carrier) :
    (measure v).toNat = fixedWidth t := by
  rw [hmeasures, length_plain _ h, toNat_ofNat_fixedWidth]

theorem toNat_of_measures_digits {measure : t.Carrier → UInt64} (hmeasures : Measures measure (digits t))
    (v : t.Carrier) : (measure v).toNat = (digits t v).length := by
  have hlength := length_digits_le t v
  rw [hmeasures, UInt64.toNat_ofNat', Nat.mod_eq_of_lt (by omega)]

theorem isSome_fixedReader {reader : String} (h : varintReader t = some reader) :
    ∃ fixed, fixedReader t = some fixed := by
  cases t with
  | scalar u => exact ⟨_, rfl⟩
  | _ => cases h

theorem fixedWidth_le_of_varintReader {reader : String} (h : varintReader t = some reader) : fixedWidth t ≤ 8 := by
  cases t with
  | scalar u => cases u <;> first | decide | cases h
  | _ => cases h

theorem magnitude_lt (t : ValueType) (v : t.Carrier) : magnitude t v < 2 ^ (8 * fixedWidth t) := by
  cases t with
  | scalar u => exact BitVec.isLt v
  | _ => exact Nat.two_pow_pos _

/-- No name stands for both readers. -/
theorem varintReader_ne_of_fixedReader {reader : String} (h : fixedReader t = some reader) :
    varintReader t ≠ some reader := by
  cases t with
  | scalar u =>
    rw [← h]
    cases u <;> decide
  | bool =>
    rw [← h]
    decide
  | _ => cases h

/-! ### What each operation promises -/

/-- The reader takes whatever number of variable length starts at a position, less the bits that the type does not
have. -/
def ReadsNumbers (t : ValueType) (read : Bytes → UInt64 → Option t.Carrier) : Prop :=
  ∀ buf offset, offset.toNat ≤ buf.length → ∃ v, read buf offset = some v ∧
    magnitude t v = Varint.decode (buf.drop offset.toNat) % 2 ^ (8 * fixedWidth t)

theorem readsNumbers_varint (u : Scalar) : ReadsNumbers (.scalar u) (readVarint (8 * u.width)) := by
  intro buf offset h
  refine ⟨BitVec.ofNat (8 * u.width) (Varint.decode (buf.drop offset.toNat)), ?_, BitVec.toNat_ofNat ..⟩
  rw [readVarint, Varint.load?, if_pos h]
  rfl

/-- What a built-in operation on a type promises: under which name it stands, and which law it keeps. -/
def Promise (order : ByteOrder) (t : ValueType) : (k : OperationKind) → String → k.Call t.Carrier → Prop
  | .write, name, call =>
    name = writeName ∧ Stores call (plain order t) ∨ name = "GetVarBytes" ∧ Stores call (digits t)
  | .sizeOf, name, call =>
    name = sizeName ∧ Measures call (plain order t) ∨ name = "GetVarByteCount" ∧ Measures call (digits t)
  | .readScalar, name, call =>
    fixedReader t = some name ∧ ReadsBack call (plain order t) ∧ ReadsWithin call (fixedWidth t) ∨
      varintReader t = some name ∧ ReadsBack call (digits t) ∧ ReadsWithin call 0 ∧ ReadsNumbers t call
  | .readBounded, name, call =>
    boundedReader t = some name ∧ ReadsBackBounded call (plain order t) ∧ ReadsRanges call

/-- An operation keeps its promise. -/
def Kept (order : ByteOrder) (op : Operation) : Prop := Promise order op.type op.kind op.name op.call

theorem kept_bool (order : ByteOrder) : ∀ op ∈ bool, Kept order op := by
  simp only [bool, List.forall_mem_cons, List.not_mem_nil, false_imp_iff, implies_true, and_true]
  refine ⟨.inl ⟨rfl, Stores.ofBytes _⟩, .inl ⟨rfl, fun _ => rfl⟩, .inl ⟨rfl, readsBack_bool, readsWithin_bool⟩⟩

theorem kept_scalar (order : ByteOrder) (u : Scalar) : ∀ op ∈ scalar order u, Kept order op := by
  simp only [scalar, List.forall_mem_cons, List.not_mem_nil, false_imp_iff, implies_true, and_true]
  exact ⟨.inl ⟨rfl, measures_scalar order u⟩, .inl ⟨rfl, stores_scalar order u⟩,
    .inl ⟨rfl, readsBack_scalar order u, readsWithin_scalar order u⟩⟩

theorem kept_bytes (order : ByteOrder) : ∀ op ∈ bytes, Kept order op := by
  simp only [bytes, List.forall_mem_cons, List.not_mem_nil, false_imp_iff, implies_true, and_true]
  exact ⟨.inl ⟨rfl, Stores.ofBytes _⟩, .inl ⟨rfl, fun _ => rfl⟩, rfl, readsBack_bytes, readsRanges_bytes⟩

theorem kept_string (order : ByteOrder) : ∀ op ∈ string, Kept order op := by
  simp only [string, List.forall_mem_cons, List.not_mem_nil, false_imp_iff, implies_true, and_true]
  exact ⟨.inl ⟨rfl, Stores.ofBytes _⟩, .inl ⟨rfl, measures_text⟩, rfl, readsBack_text, readsRanges_text⟩

theorem kept_varint (order : ByteOrder) {u : Scalar} {reader : String} (hu : 8 * u.width ≤ 64)
    (h : varintReader (.scalar u) = some reader) : ∀ op ∈ varint u reader, Kept order op := by
  simp only [varint, List.forall_mem_cons, List.not_mem_nil, false_imp_iff, implies_true, and_true]
  exact ⟨.inr ⟨rfl, measures_varint _⟩, .inr ⟨rfl, stores_varint _⟩,
    .inr ⟨h, readsBack_varint hu, readsWithin_varint _, readsNumbers_varint u⟩⟩

/-- What is so of the codecs of each type is so of all built-in operations. -/
theorem forall_mem_operations {P : Operation → Prop} (config : RegistryConfig) (hbool : ∀ op ∈ bool, P op)
    (hscalar : ∀ u, ∀ op ∈ scalar config.byteOrder u, P op) (hbytes : ∀ op ∈ bytes, P op)
    (hstring : ∀ op ∈ string, P op)
    (hvarint : ∀ u reader, 8 * u.width ≤ 64 → varintReader (.scalar u) = some reader →
      ∀ op ∈ varint u reader, P op) : ∀ op ∈ operations config, P op := by
  intro op hop
  simp only [operations, List.mem_append, List.mem_flatMap] at hop
  rcases hop with (((hop | ⟨u, -, hop⟩) | hop) | hop) | hop
  · exact hbool op hop
  · exact hscalar u op hop
  · exact hbytes op hop
  · exact hstring op hop
  · split at hop
    · rcases List.mem_append.1 hop with hop | hop
      · rcases List.mem_append.1 hop with hop | hop
        · exact hvarint .u16 _ (by decide) rfl op hop
        · exact hvarint .u32 _ (by decide) rfl op hop
      · exact hvarint .u64 _ (by decide) rfl op hop
    · cases hop

theorem kept_operations (config : RegistryConfig) : ∀ op ∈ operations config, Kept config.byteOrder op :=
  forall_mem_operations config (kept_bool _) (kept_scalar _) (kept_bytes _) (kept_string _)
    fun _ _ hu hreader => kept_varint _ hu hreader

/-- An operation found in the built-in registry keeps its promise. -/
theorem promise_of_resolve {k : OperationKind} {b : Bound (k.Call t.Carrier)}
    (h : (Registry.builtin config).resolve t k name = .ok b) : Promise config.byteOrder t k b.name b.call :=
  kept_operations config _ (List.mem_filter.1 (Registry.mem_of_resolve h).1).1

theorem mem_operations_bool {op : Operation} (h : op ∈ bool) : op ∈ operations config := by
  simp only [operations, List.mem_append]
  exact .inl (.inl (.inl (.inl h)))

theorem mem_operations_scalar {u : Scalar} {op : Operation} (h : op ∈ scalar config.byteOrder u) :
    op ∈ operations config := by
  simp only [operations, List.mem_append, List.mem_flatMap]
  exact .inl (.inl (.inl (.inr ⟨u, Scalar.mem_all u, h⟩)))

theorem mem_operations_bytes {op : Operation} (h : op ∈ bytes) : op ∈ operations config := by
  simp only [operations, List.mem_append]
  exact .inl (.inl (.inr h))

theorem mem_operations_string {op : Operation} (h : op ∈ string) : op ∈ operations config := by
  simp only [operations, List.mem_append]
  exact .inl (.inr h)

/-- Found without a name, a scalar reader is the one of fixed width: a type with two has none without a name. -/
theorem fixedReader_of_resolve_none {b : Bound (Bytes → UInt64 → Option t.Carrier)}
    (h : (Registry.builtin config).resolve t .readScalar none = .ok b) : fixedReader t = some b.name := by
  rcases promise_of_resolve h with ⟨hname, -⟩ | ⟨hname, -⟩
  · exact hname
  cases t with
  | scalar u =>
    have hone := (Registry.mem_of_resolve h).2.2 rfl
    -- the reader of fixed width is always among the candidates, so it is the only one
    have hmem : ⟨.scalar u, .readScalar, readerName u, readScalar config.byteOrder u⟩ ∈
        (Registry.builtin config).candidates (.scalar u) .readScalar :=
      List.mem_filter.2 ⟨mem_operations_scalar (.tail _ (.tail _ (.head _))), by simp⟩
    rw [hone, List.mem_singleton] at hmem
    injection hmem with _ _ hreader
    exact congrArg some hreader
  | _ => cases hname

end Builtin

end Memberwise
