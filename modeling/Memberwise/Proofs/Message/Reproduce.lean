import Memberwise.Proofs.Message.Assignment
import Memberwise.Proofs.Message.InPlace

/-!
# Writing what was read

Numbers of fixed width and byte strings are exact: every sequence of bytes of the right length is one value and comes
from no other, and a length in front is the only one that stands for its number. So where such members were found in the
input, the bytes are those of their frames (`Member.IsExact.frame_of_foundAt`), and the bytes of all members found one
after the other are the message of an instance that holds them (`Layout.Holds.message`). What was read can therefore be
written again as it was, whoever wrote it.

This is not so of the other codecs: there are many bytes for a true truth value, for a text with repairs, and for a number
of variable length.
-/

namespace Memberwise

variable {H : Type} {rc : RegistryConfig} {p : LengthPrefix} {buf : Bytes} {y : H} {pos stop : UInt64}

/-- A number of fixed width, or a byte string with its length in front. -/
def Member.IsExact (m : Member H) : Prop := m.IsFixed ∧ (∃ u, m.type = .scalar u) ∨ m.IsPrefixed ∧ m.type = .bytes

theorem Member.IsExact.matched {m : Member H} (hm : m.IsExact) : m.Matched := by
  rcases hm with ⟨hfixed, -⟩ | ⟨hprefixed, -⟩
  · exact hfixed.matched
  · exact hprefixed.matched

/-- A length is written as it was read, and fits. -/
theorem LengthPrefix.encode_ofLittle (p : LengthPrefix) {head : Bytes} (h : head.length = p.width) :
    p.encode (Numeral.ofLittle head) = head ∧ Numeral.ofLittle head ≤ p.maxLength := by
  have hlt := Numeral.ofLittle_lt head
  rw [h, ← p.maxLength_eq] at hlt
  refine ⟨?_, by omega⟩
  rw [encode, ← h, Numeral.little_ofLittle]

namespace Member

variable {m : Member H} {get : H → m.type.Carrier}

/-- The frame of a member of an instance stands in the input between two positions. -/
structure Framed (m : Member H) (p : LengthPrefix) (enc : MemberEncoding H) (y : H) (buf : Bytes) (pos stop : UInt64) :
    Prop where
  slice : buf.slice? pos.toNat (m.frame p enc y).length = some (m.frame p enc y)
  stop : stop.toNat = pos.toNat + (m.frame p enc y).length
  fits : m.Fits p enc y

theorem IsFixed.framed (hm : m.IsFixed) (hnumber : ∃ u, m.type = .scalar u) (hget : m.getter = some get)
    (hfound : m.FoundAt (Registry.builtin rc) p buf pos (get y) stop) (hbuf : buf.length < 2 ^ 64) :
    m.Framed p (Builtin.encoding rc.byteOrder) y buf pos stop := by
  cases hfound with
  | prefixed mode => exact absurd (hm.length.symm.trans mode) (by decide)
  | @implicit read z _ _ reader measure value =>
    obtain ⟨hname, -⟩ := fixedReader_of_resolve hm.reader reader
    rw [Builtin.sees_of_resolve reader hname] at value
    obtain ⟨bs, hslice, hvalue⟩ := Option.map_eq_some_iff.1 value
    have hlength : bs.length = Builtin.fixedWidth m.type := Bytes.length_of_slice? hslice
    have hin := (Bytes.slice?_eq_some_iff.1 hslice).1
    have hsize : (z.call (get y)).toNat = bs.length := by
      have hzname : z.name = Builtin.sizeName := ((Registry.mem_of_resolve measure).2.1 _ rfl).trans hm.sizeOf
      rcases Builtin.promise_of_resolve measure with ⟨-, hmeasures⟩ | ⟨hcount, -⟩
      · rw [Builtin.toNat_of_measures_plain hname hmeasures, hlength]
      · exact absurd (hzname.symm.trans hcount) (by decide)
    have hframe : m.frame p (Builtin.encoding rc.byteOrder) y = bs := by
      rw [frame, hm.length, LengthPrefix.frame, LengthPrefix.head, List.nil_append, m.body_eq_comp hget,
        encoding_of_plain _ hm.write, Function.comp_apply, ← hvalue, Builtin.plain_parse_number _ hnumber hlength]
    have hreadable : m.isReadable := Option.isSome_of_mem hget
    refine ⟨by rw [hframe, hlength, hslice], ?_, hreadable, fun mode => ?_⟩
    · rw [hframe, Bytes.toNat_add_of_le (by omega) hbuf, hsize]
    · exact absurd (hm.length.symm.trans mode) (by decide)

theorem IsPrefixed.framed (hm : m.IsPrefixed) (hbytes : m.type = .bytes) (hget : m.getter = some get)
    (hfound : m.FoundAt (Registry.builtin rc) p buf pos (get y) stop) (hbuf : buf.length < 2 ^ 64) :
    m.Framed p (Builtin.encoding rc.byteOrder) y buf pos stop := by
  cases hfound with
  | implicit mode => exact absurd (hm.length.symm.trans mode) (by decide)
  | @prefixed read head _ _ reader length value =>
    rw [Builtin.sees_of_resolve reader] at value
    obtain ⟨bs, hslice, hvalue⟩ := Option.map_eq_some_iff.1 value
    have hwidth : head.length = p.width := Bytes.length_of_slice? length
    obtain ⟨hhead, hmax⟩ := p.encode_ofLittle hwidth
    have hin := (Bytes.slice?_eq_some_iff.1 length).1
    have hstart : (pos + UInt64.ofNat p.width).toNat = pos.toNat + head.length := by
      rw [Bytes.toNat_add_ofNat hin hbuf, hwidth]
    have hcount : (UInt64.ofNat (Numeral.ofLittle head)).toNat = Numeral.ofLittle head := by
      have hword : p.maxLength < 2 ^ 64 := by cases p <;> decide
      exact UInt64.toNat_ofNat_of_lt' (Nat.lt_of_le_of_lt hmax hword)
    rw [hstart, hcount] at hslice
    have hlength : bs.length = Numeral.ofLittle head := Bytes.length_of_slice? hslice
    have hend := (Bytes.slice?_eq_some_iff.1 hslice).1
    have hbody : m.body (Builtin.encoding rc.byteOrder m) y = bs := by
      rw [m.body_eq_comp hget, encoding_of_plain _ hm.write, Function.comp_apply, ← hvalue,
        Builtin.plain_parse_bytes _ hbytes]
    have hframe : m.frame p (Builtin.encoding rc.byteOrder) y = head ++ bs := by
      rw [frame, hm.length, hbody, LengthPrefix.frame, LengthPrefix.head, hlength, hhead]
    have hreadable : m.isReadable := Option.isSome_of_mem hget
    refine ⟨?_, ?_, hreadable, fun _ => by rwa [hbody, hlength]⟩
    · rw [hframe]
      exact Bytes.slice?_join (hwidth ▸ length) (hlength ▸ hslice)
    · rw [Bytes.toNat_add_of_le (by omega) hbuf, hstart, hcount, hframe, List.length_append, hlength, Nat.add_assoc]

theorem IsExact.framed (hm : m.IsExact) (hget : m.getter = some get)
    (hfound : m.FoundAt (Registry.builtin rc) p buf pos (get y) stop) (hbuf : buf.length < 2 ^ 64) :
    m.Framed p (Builtin.encoding rc.byteOrder) y buf pos stop := by
  rcases hm with ⟨hfixed, hnumber⟩ | ⟨hprefixed, hbytes⟩
  · exact hfixed.framed hnumber hget hfound hbuf
  · exact hprefixed.framed hbytes hget hfound hbuf

end Member

/-- Exact members that an instance holds as they were found stand in the input as its message. -/
theorem Layout.Holds.message {members : List (Member H)}
    (h : Holds (Registry.builtin rc) p buf y members pos stop) (hmembers : ∀ m ∈ members, m.IsExact)
    (hbuf : buf.length < 2 ^ 64) :
    (buf.drop pos.toNat).take (message p (Builtin.encoding rc.byteOrder) members y).length =
        message p (Builtin.encoding rc.byteOrder) members y ∧
      stop.toNat = pos.toNat + (message p (Builtin.encoding rc.byteOrder) members y).length ∧
      ∀ m ∈ members, m.Fits p (Builtin.encoding rc.byteOrder) y := by
  induction h with
  | nil pos => exact ⟨rfl, rfl, by simp⟩
  | @cons m rest get pos mid stop hget hfound _ ih =>
    obtain ⟨hm, hrest⟩ := List.forall_mem_cons.1 hmembers
    obtain ⟨hslice, hmid, hfits⟩ := hm.framed hget hfound hbuf
    obtain ⟨htail, hstop, hfits'⟩ := ih hrest
    have hframe := (Bytes.slice?_eq_some_iff.1 hslice).2
    rw [message_cons, List.length_append]
    refine ⟨?_, by omega, List.forall_mem_cons.2 ⟨hfits, hfits'⟩⟩
    rw [List.take_add, hframe, List.drop_drop, ← hmid, htail]

namespace Serializer

/-- What was read is written again as it was. Take a host type over the built-in codecs whose members can be read and
assigned, are numbers of fixed width or byte strings with their length in front, and are independent of each other. If
`n` bytes of an input were read into an instance, whatever it was before, and messages may be that large, then the
message of the instance is these bytes. The reader and the writer have the same settings, and neither has compiled another
member under the key of a declared one before. An input has less than `2 ^ 63` bytes. -/
theorem serialize_deserializeInto {F : HostFamily} (locate : Locator F) (rc : RegistryConfig) (config : MessageConfig)
    (received sent : List (Call F)) (hreceived : ∀ call ∈ received, call.Genuine locate)
    (hsent : ∀ call ∈ sent, call.Genuine locate) (h : F.Host)
    (haccess : ∀ m ∈ locate h, m.isReadable ∧ m.isWritable) (hexact : ∀ m ∈ locate h, m.IsExact)
    (hindependent : Independent (locate h)) (target y : F.Instance h) (buf : Bytes) (hbuf : buf.length < 2 ^ 63)
    (offset n : UInt64)
    (hread : ((inUse locate (Registry.builtin rc) config received).deserializeInto h (locate h) target buf offset).1 =
      (.ok n, y))
    (hmax : n ≤ config.maxSize) :
    ∃ b, ((inUse locate (Registry.builtin rc) config sent).serialize h (locate h) y).1 = .ok b ∧
      b.length = n.toNat ∧ (buf.drop offset.toNat).take n.toNat = b := by
  have hlawful : ∀ m ∈ locate h, LawfulMember (Registry.builtin rc) (Builtin.encoding rc.byteOrder) m :=
    fun m hm => (hexact m hm).matched.lawful
  have hmembers : ∀ m ∈ locate h, m.isReadable ∧ m.isWritable ∧ m.Returns := fun m hm =>
    ⟨(haccess m hm).1, (haccess m hm).2, hindependent.get_set m hm⟩
  cases ht : ((inUse locate (Registry.builtin rc) config received).table h (locate h)).1 with
  | error e =>
    rw [deserializeInto, withTable_fst, ht] at hread
    cases hread
  | ok t =>
    obtain ⟨hnodup, hcompiled⟩ := compiled_of_table hreceived ht
    rw [deserializeInto_of_table ht, config_inUse, deserializeIntoWith] at hread
    split at hread
    · cases hread
    next pos y' hdecode =>
    cases hread
    have hholds := (Layout.decode_assigns hcompiled hmembers hdecode).holds hindependent hnodup fun m hm =>
      (haccess m hm).1
    obtain ⟨hbytes, hpos, hfits⟩ := hholds.message hexact (by omega)
    have hlength := congrArg List.length hbytes
    rw [List.length_take, List.length_drop] at hlength
    have hsize : (pos - offset).toNat =
        (Layout.message config.lengthPrefix (Builtin.encoding rc.byteOrder) (locate h) y).length := by
      rw [UInt64.toNat_sub_of_le _ _ (UInt64.le_iff_toNat_le.2 (by omega))]
      omega
    rw [UInt64.le_iff_toNat_le, hsize] at hmax
    rw [hsize]
    obtain ⟨t', ht', hcompiled'⟩ := exists_table_compiled config hsent haccess hnodup hcompiled.exists_of_mem
    have hbalanced := hcompiled'.imp (R := fun m s => Layout.Balanced m s (Builtin.encoding rc.byteOrder m) y)
      fun m hm s hs =>
        have hb := Member.binds_of_compile hs
        (Layout.writes_of_binds hb (hlawful m hm)).balanced (hb.sized (haccess m hm).1) hb.paired y
    refine ⟨_, ?_, rfl, hbytes⟩
    rw [serialize_of_table ht', config_inUse, serializeWith_of_balanced hbalanced (fun m hm => (hfits m hm).2) hmax,
      if_pos (by omega)]

end Serializer

/-- What a beacon sends: how strong, what, and for which time. -/
structure Beacon where
  power : BitVec 32 := 0
  payload : Bytes := []
  serial : BitVec 16 := 0

namespace Beacon

def family : HostFamily where
  Host := Unit
  decEq := inferInstance
  name _ := "Beacon"
  Instance _ := Beacon
  default _ := {}

/-- The members of a beacon. The power is a floating-point number. -/
def members : List (Member Beacon) :=
  [.field "power" (.scalar .f32) (fun x : Beacon => x.power) fun x v => { x with power := v },
   (Member.field "payload" .bytes (fun x : Beacon => x.payload) fun x v => { x with payload := v }).prefixed,
   .field "serial" (.scalar .u16) (fun x : Beacon => x.serial) fun x v => { x with serial := v }]

theorem isExact_members : ∀ m ∈ members, m.IsExact := by
  simp only [members, List.forall_mem_cons, List.not_mem_nil, false_imp_iff, implies_true, and_true]
  refine ⟨.inl ⟨⟨rfl, rfl, rfl, ?_⟩, _, rfl⟩, .inr ⟨⟨.inl rfl, rfl, rfl, rfl, ?_⟩, rfl⟩,
    .inl ⟨⟨rfl, rfl, rfl, ?_⟩, _, rfl⟩⟩
  all_goals rintro _ ⟨⟩

theorem independent_members : Independent members where
  get_set m hm get hget set hset x a := by
    simp only [members, List.mem_cons, List.not_mem_nil, or_false] at hm
    rcases hm with rfl | rfl | rfl <;> cases hget <;> cases hset <;> rfl
  get_set_other m hm m' hm' hname get hget set hset x a := by
    simp only [members, List.mem_cons, List.not_mem_nil, or_false] at hm hm'
    rcases hm with rfl | rfl | rfl <;> rcases hm' with rfl | rfl | rfl <;> cases hget <;> cases hset <;>
      first | rfl | exact absurd rfl hname

/-- A beacon whose power is no number, with a payload in its bits. -/
def odd : Beacon := { power := 0x7fa00001, payload := [7, 8], serial := 0x0102 }

/-- The odd beacon is read from the middle of an input, and written as it stood there. -/
theorem serialize_deserializeInto_odd :
    let s := Serializer.inUse (F := family) (fun _ => members) (Registry.builtin ⟨.big, false⟩) ⟨.u16, 100⟩ []
    let buf := [9] ++ ([127, 160, 0, 1] ++ [2, 0] ++ [7, 8] ++ [1, 2]) ++ [255]
    (s.deserializeInto () members { serial := 5 } buf 1).1 = (.ok 10, odd) ∧
      ∃ b, (s.serialize () members odd).1 = .ok b ∧ b.length = 10 ∧ (buf.drop 1).take 10 = b := by
  intro s buf
  have hread : (s.deserializeInto () members { serial := 5 } buf 1).1 = (.ok 10, odd) := by cbv
  have haccess : ∀ m ∈ members, m.isReadable ∧ m.isWritable := by decide
  exact ⟨hread, Serializer.serialize_deserializeInto (F := family) (fun _ => members) ⟨.big, false⟩ ⟨.u16, 100⟩ [] []
    (List.forall_mem_nil _) (List.forall_mem_nil _) () haccess isExact_members independent_members _ _ buf (by decide)
    1 10 hread (by decide)⟩

end Beacon

end Memberwise
