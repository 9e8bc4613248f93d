import Memberwise.Member
import Memberwise.Proofs.Codec.Resolution

/-!
# Families of codecs

The built-in codecs come in families: of fixed width, of variable length, and with a length in front. A member is of a
family if all the operations that it names are (`Member.IsFixed`, `Member.IsVarint`, `Member.IsPrefixed`).

A member that names its writer and its size operation from one family is bound to operations that keep to one encoding
(`Member.Matched.lawful`), and a member of a family also reads that encoding back.
-/

namespace Memberwise

/-- An encoding of the values of every member of a host type. -/
abbrev MemberEncoding (H : Type) := (m : Member H) → m.type.Carrier → Bytes

/-- A member is bound to a writer and a measure that keep to one encoding. -/
def LawfulMember {H : Type} (r : Registry) (enc : MemberEncoding H) (m : Member H) : Prop :=
  ∀ w z, r.resolve m.type .write (some m.codec.write) = .ok w →
    r.resolve m.type .sizeOf (some m.codec.sizeOf) = .ok z → Lawful w.call z.call (enc m)

/-- The built-in encoding that a member names by its writer. -/
def Builtin.encoding {H : Type} (order : ByteOrder) : MemberEncoding H := fun m =>
  if m.codec.write = "GetVarBytes" then digits m.type else plain order m.type

namespace Member

variable {H : Type} {m : Member H} {config : RegistryConfig}

/-- A member whose writer and size operation are of the same family. -/
def Matched (m : Member H) : Prop :=
  m.codec.write = Builtin.writeName ∧ m.codec.sizeOf = Builtin.sizeName ∨
    m.codec.write = "GetVarBytes" ∧ m.codec.sizeOf = "GetVarByteCount"

instance : Decidable m.Matched := inferInstanceAs (Decidable (_ ∨ _))

/-- The number that a member stands for in an instance, bit for bit. -/
def number (m : Member H) (x : H) : Nat :=
  match m.getter with
  | some get => Builtin.magnitude m.type (get x)
  | none => 0

/-- A member of fixed width. -/
structure IsFixed (m : Member H) : Prop where
  length : m.codec.length = .implicit
  write : m.codec.write = Builtin.writeName
  sizeOf : m.codec.sizeOf = Builtin.sizeName
  reader : ∀ name ∈ m.codec.readScalar, Builtin.fixedReader m.type = some name

/-- A number of variable length. -/
structure IsVarint (m : Member H) : Prop where
  length : m.codec.length = .implicit
  write : m.codec.write = "GetVarBytes"
  sizeOf : m.codec.sizeOf = "GetVarByteCount"
  reader : ∃ name ∈ m.codec.readScalar, Builtin.varintReader m.type = some name

/-- A byte string or a text with its length in front. -/
structure IsPrefixed (m : Member H) : Prop where
  type : m.type = .bytes ∨ m.type = .string
  length : m.codec.length = .prefixed
  write : m.codec.write = Builtin.writeName
  sizeOf : m.codec.sizeOf = Builtin.sizeName
  reader : ∀ name ∈ m.codec.readBounded, Builtin.boundedReader m.type = some name

theorem IsFixed.matched (hm : m.IsFixed) : m.Matched := .inl ⟨hm.write, hm.sizeOf⟩

theorem IsVarint.matched (hm : m.IsVarint) : m.Matched := .inr ⟨hm.write, hm.sizeOf⟩

theorem IsPrefixed.matched (hm : m.IsPrefixed) : m.Matched := .inl ⟨hm.write, hm.sizeOf⟩

theorem encoding_of_plain (order : ByteOrder) (h : m.codec.write = Builtin.writeName) :
    Builtin.encoding order m = Builtin.plain order m.type := by
  have hne : m.codec.write ≠ "GetVarBytes" := by
    rw [h]
    decide
  rw [Builtin.encoding, if_neg hne]

theorem encoding_of_digits (order : ByteOrder) (h : m.codec.write = "GetVarBytes") :
    Builtin.encoding order m = Builtin.digits m.type := if_pos h

/-- A writer that was found keeps to the encoding that the member names by it. -/
theorem stores_of_resolve {w : Bound (Writer m.type.Carrier)}
    (hw : (Registry.builtin config).resolve m.type .write (some m.codec.write) = .ok w) :
    Stores w.call (Builtin.encoding config.byteOrder m) := by
  have hname : w.name = m.codec.write := (Registry.mem_of_resolve hw).2.1 _ rfl
  rcases Builtin.promise_of_resolve hw with ⟨hplain, hstores⟩ | ⟨hdigits, hstores⟩
  · rwa [encoding_of_plain _ (hname.symm.trans hplain)]
  · rwa [encoding_of_digits _ (hname.symm.trans hdigits)]

/-- The operations of a matched member keep to the encoding that it names. -/
theorem Matched.lawful (hm : m.Matched) :
    LawfulMember (Registry.builtin config) (Builtin.encoding config.byteOrder) m := by
  intro w z hw hz
  refine ⟨stores_of_resolve hw, ?_⟩
  have hname : z.name = m.codec.sizeOf := (Registry.mem_of_resolve hz).2.1 _ rfl
  rcases hm with ⟨hwrite, hsizeOf⟩ | ⟨hwrite, hsizeOf⟩
  · rw [encoding_of_plain _ hwrite]
    rcases Builtin.promise_of_resolve hz with ⟨-, hmeasures⟩ | ⟨hdigits, -⟩
    · exact hmeasures
    · exact absurd (hdigits.symm.trans (hname.trans hsizeOf)) (by decide)
  · rw [encoding_of_digits _ hwrite]
    rcases Builtin.promise_of_resolve hz with ⟨hplain, -⟩ | ⟨-, hmeasures⟩
    · exact absurd (hplain.symm.trans (hname.trans hsizeOf)) (by decide)
    · exact hmeasures

/-- A member that names no reader, or the one of fixed width, is bound to this one. -/
theorem fixedReader_of_resolve (hreader : ∀ name ∈ m.codec.readScalar, Builtin.fixedReader m.type = some name)
    {read : Bound (Bytes → UInt64 → Option m.type.Carrier)}
    (h : (Registry.builtin config).resolve m.type .readScalar m.codec.readScalar = .ok read) :
    Builtin.fixedReader m.type = some read.name ∧ ReadsBack read.call (Builtin.plain config.byteOrder m.type) ∧
      ReadsWithin read.call (Builtin.fixedWidth m.type) := by
  have hname : Builtin.fixedReader m.type = some read.name := by
    cases hcodec : m.codec.readScalar with
    | none =>
      rw [hcodec] at h
      exact Builtin.fixedReader_of_resolve_none h
    | some name =>
      rw [(Registry.mem_of_resolve h).2.1 name hcodec]
      exact hreader name hcodec
  rcases Builtin.promise_of_resolve h with hfixed | ⟨hvarint, -⟩
  · exact hfixed
  · exact absurd hvarint (Builtin.varintReader_ne_of_fixedReader hname)

theorem IsFixed.readsBack (hm : m.IsFixed) {read : Bound (Bytes → UInt64 → Option m.type.Carrier)}
    (h : (Registry.builtin config).resolve m.type .readScalar m.codec.readScalar = .ok read) :
    ReadsBack read.call (Builtin.encoding config.byteOrder m) := by
  rw [encoding_of_plain _ hm.write]
  exact (fixedReader_of_resolve hm.reader h).2.1

/-- A number of variable length is bound to the reader of these, which takes whatever number it finds. -/
theorem IsVarint.reads_of_resolve (hm : m.IsVarint) {read : Bound (Bytes → UInt64 → Option m.type.Carrier)}
    (h : (Registry.builtin config).resolve m.type .readScalar m.codec.readScalar = .ok read) :
    ReadsBack read.call (Builtin.digits m.type) ∧ Builtin.ReadsNumbers m.type read.call := by
  obtain ⟨name, hname, hreader⟩ := hm.reader
  rw [← (Registry.mem_of_resolve h).2.1 name hname] at hreader
  rcases Builtin.promise_of_resolve h with ⟨hfixed, -⟩ | ⟨-, hback, -, hnumbers⟩
  · exact absurd hreader (Builtin.varintReader_ne_of_fixedReader hfixed)
  · exact ⟨hback, hnumbers⟩

theorem IsVarint.readsBack (hm : m.IsVarint) {read : Bound (Bytes → UInt64 → Option m.type.Carrier)}
    (h : (Registry.builtin config).resolve m.type .readScalar m.codec.readScalar = .ok read) :
    ReadsBack read.call (Builtin.encoding config.byteOrder m) := by
  rw [encoding_of_digits _ hm.write]
  exact (hm.reads_of_resolve h).1

theorem IsPrefixed.readsBack (hm : m.IsPrefixed) {read : Bound (Bytes → UInt64 → UInt64 → Option m.type.Carrier)}
    (h : (Registry.builtin config).resolve m.type .readBounded m.codec.readBounded = .ok read) :
    ReadsBackBounded read.call (Builtin.encoding config.byteOrder m) := by
  rw [encoding_of_plain _ hm.write]
  exact (Builtin.promise_of_resolve h).2.1

end Member

end Memberwise
