import Memberwise.Proofs.Message.Refusal
import Memberwise.Proofs.Message.Truncation
import Memberwise.Proofs.Text.Repair

/-!
# The sample types in messages

A reading has members of fixed width only, so its message has always the same size and is read back as it was. A record
is not: its time of creation is a computed member, which keeps the whole milliseconds of a span as a 64-bit word
(`Duration.kept`). So a record comes out of a message with this time cut (`Record.kept`), and the message of the record
that came out is the same message again, since no member tells the two apart.

Over members of the families of built-in codecs, serializing succeeds exactly if the lengths in front fit and the
message is allowed (`Serializer.serialize_eq_ok_iff`). If no member is of variable length, reading the message gives the
default instance with all members copied (`Serializer.deserialize_message`).
-/

namespace Memberwise

/-! ### Spans of time -/

namespace Duration

/-- The nanoseconds in a span. -/
def toNanos (d : Duration) : Nat := d.seconds.toNat * 1000000000 + d.nanos.val

/-- A span as its whole milliseconds, modulo `2 ^ 64`. -/
def kept (d : Duration) : Duration := ofMillis (BitVec.ofNat 64 (d.toNanos / 1000000))

theorem toMillis_eq (d : Duration) : d.toMillis = d.toNanos / 1000000 := by
  rw [toMillis, toNanos]
  omega

theorem toNanos_ofMillis (ms : BitVec 64) : (ofMillis ms).toNanos = ms.toNat * 1000000 := by
  have hlt := ms.isLt
  have hseconds : (UInt64.ofNat (ms.toNat / 1000)).toNat = ms.toNat / 1000 :=
    UInt64.toNat_ofNat_of_lt' (by rw [UInt64.size]; omega)
  simp only [toNanos, ofMillis, hseconds]
  omega

theorem toNanos_inj {d d' : Duration} (h : d.toNanos = d'.toNanos) : d = d' := by
  obtain ⟨seconds, nanos⟩ := d
  obtain ⟨seconds', nanos'⟩ := d'
  simp only [toNanos] at h
  have hnanos := nanos.isLt
  have hnanos' := nanos'.isLt
  have hs : seconds.toNat = seconds'.toNat := by omega
  have hn : nanos.val = nanos'.val := by omega
  rw [UInt64.toNat_inj.1 hs, Fin.ext hn]

theorem toNanos_kept (d : Duration) : d.kept.toNanos = d.toNanos / 1000000 % 2 ^ 64 * 1000000 := by
  rw [kept, toNanos_ofMillis, BitVec.toNat_ofNat]

/-- A span is kept whole if it is a number of milliseconds that fits in a 64-bit word, and only then. -/
theorem kept_eq_self_iff (d : Duration) : d.kept = d ↔ ∃ ms < 2 ^ 64, d.toNanos = ms * 1000000 := by
  have hkept := toNanos_kept d
  constructor
  · intro h
    rw [h] at hkept
    exact ⟨_, Nat.mod_lt _ (by decide), hkept⟩
  · rintro ⟨ms, hlt, hms⟩
    apply toNanos_inj
    rw [hkept, hms, Nat.mul_div_cancel _ (by decide), Nat.mod_eq_of_lt hlt]

/-- What was kept has the same milliseconds in a word. -/
theorem ofNat_toMillis_kept (d : Duration) : BitVec.ofNat 64 d.kept.toMillis = BitVec.ofNat 64 d.toMillis := by
  rw [toMillis_eq, toMillis_eq, toNanos_kept, Nat.mul_div_cancel _ (by decide)]
  apply BitVec.eq_of_toNat_eq
  rw [BitVec.toNat_ofNat, BitVec.toNat_ofNat, Nat.mod_mod]

end Duration

/-! ### Members of the families of built-in codecs -/

theorem Member.OfFamily.balanced {H : Type} {m : Member H} (hm : m.OfFamily) {rc : RegistryConfig} {host : String}
    {s : AccessorSet H} (hs : m.compile (Registry.builtin rc) host = .ok s) (hread : m.isReadable) (x : H) :
    Layout.Balanced m s (Builtin.encoding rc.byteOrder m) x :=
  have hb := Member.binds_of_compile hs
  (Layout.writes_of_binds hb hm.matched.lawful).balanced (hb.sized hread) hb.paired x

/-- A member of fixed width has no length that could not fit. -/
theorem Member.IsFixed.fits {H : Type} {m : Member H} (hm : m.IsFixed) (hread : m.isReadable) (p : LengthPrefix)
    (enc : MemberEncoding H) (x : H) : m.Fits p enc x :=
  ⟨hread, fun hprefixed => absurd (hm.length.symm.trans hprefixed) (by decide)⟩

namespace Serializer

variable {F : HostFamily} {locate : Locator F} {h : F.Host} {rc : RegistryConfig} {calls : List (Call F)}
  {x : F.Instance h} {b : Bytes}

/-- A host type over the built-in codecs that can be serialized and read: its members differ in name, can be read and
assigned, are each of one family, and compile. -/
structure Usable (locate : Locator F) (rc : RegistryConfig) (h : F.Host) : Prop where
  access : ∀ m ∈ locate h, m.isReadable ∧ m.isWritable
  family : ∀ m ∈ locate h, m.OfFamily
  nodup : ((locate h).map (·.name)).Nodup
  compiles : ∀ m ∈ locate h, ∃ s, m.compile (Registry.builtin rc) (F.name h) = .ok s

/-- An instance is serialized if the lengths in front fit, the settings allow for its message and a buffer of this size
can be had, and only then. What results is the message. -/
theorem serialize_eq_ok_iff (hu : Usable locate rc h) (config : MessageConfig)
    (hcalls : ∀ call ∈ calls, call.Genuine locate) :
    ((inUse locate (Registry.builtin rc) config calls).serialize h (locate h) x).1 = .ok b ↔
      b = Layout.message config.lengthPrefix (Builtin.encoding rc.byteOrder) (locate h) x ∧
        (∀ m ∈ locate h, m.Fits config.lengthPrefix (Builtin.encoding rc.byteOrder) x) ∧
        b.length ≤ config.maxSize.toNat ∧ b.length < 2 ^ 63 := by
  constructor
  · intro hb
    obtain ⟨-, -, hmessage, -, hfits, -⟩ := serialize_ofFamily hcalls hu.access hu.family hb
    obtain ⟨t, -, hwith⟩ := serialize_eq_ok hb
    rw [config_inUse] at hwith
    obtain ⟨total, -, hchecked, hroom, -, hlength⟩ := serializeWith_inv hwith
    exact ⟨hmessage, hfits, hlength ▸ measureChecked_le hchecked, hlength ▸ hroom⟩
  · rintro ⟨rfl, hfits, hmax, hroom⟩
    obtain ⟨t, ht, hcompiled⟩ := exists_table_compiled config hcalls hu.access hu.nodup hu.compiles
    have hbalanced := hcompiled.imp (R := fun m s => Layout.Balanced m s (Builtin.encoding rc.byteOrder m) x)
      fun m hm _ hs => (hu.family m hm).balanced hs (hu.access m hm).1 x
    rw [serialize_of_table ht, config_inUse,
      serializeWith_of_balanced hbalanced (fun m hm => (hfits m hm).2) hmax, if_pos hroom]

/-- The message of an instance without numbers of variable length is read into the default instance whole. -/
theorem deserialize_message (hu : Usable locate rc h) (hfamily : ∀ m ∈ locate h, m.IsFixed ∨ m.IsPrefixed)
    (config : MessageConfig) (hcalls : ∀ call ∈ calls, call.Genuine locate)
    (hb : b = Layout.message config.lengthPrefix (Builtin.encoding rc.byteOrder) (locate h) x)
    (hfits : ∀ m ∈ locate h, m.Fits config.lengthPrefix (Builtin.encoding rc.byteOrder) x)
    (hlength : b.length < 2 ^ 64) :
    ((inUse locate (Registry.builtin rc) config calls).deserialize h (locate h) b).1 =
      .ok (Layout.copyAll (locate h) x (F.default h)) := by
  subst hb
  obtain ⟨t, ht, hreads⟩ := exists_table_reads config hcalls hu.access hu.family hu.nodup hu.compiles
  -- without numbers of variable length, the default instance takes what every instance takes
  have hsteady : ∀ m ∈ locate h, m.Steady (Builtin.encoding rc.byteOrder) (F.default h) x := by
    intro m hm
    obtain ⟨s, hs⟩ := hu.compiles m hm
    rcases hfamily m hm with hfixed | hprefixed
    · exact (hfixed.keepsWidth hs (hu.access m hm).1 (hu.access m hm).2).steady _ x
    · exact (hprefixed.keepsWidth _).steady _ x
  have hbuf : ([] ++ Layout.message config.lengthPrefix (Builtin.encoding rc.byteOrder) (locate h) x ++ []).length <
      2 ^ 64 := by rwa [List.nil_append, List.append_nil]
  have hstart : (0 : UInt64).toNat = ([] : Bytes).length := rfl
  obtain ⟨pos, hdecode, -⟩ := Layout.decode_message hreads hfits hsteady (F.default h) hstart hbuf
  rw [List.nil_append, List.append_nil] at hdecode
  have hinto : ((inUse locate (Registry.builtin rc) config calls).deserializeInto h (locate h) (F.default h)
      (Layout.message config.lengthPrefix (Builtin.encoding rc.byteOrder) (locate h) x) 0).1 =
      (.ok (pos - 0), Layout.copyAll (locate h) x (F.default h)) := by
    rw [deserializeInto_of_table ht, config_inUse, deserializeIntoWith, hdecode]
  rw [deserialize_fst hinto]
  rfl

end Serializer

/-! ### The sample types -/

theorem Reading.isFixed_members : ∀ m ∈ Reading.members, m.IsFixed := by
  simp only [Reading.members, Reading.slots, List.map_cons, List.map_nil, List.forall_mem_cons, List.not_mem_nil,
    false_imp_iff, implies_true, and_true]
  refine ⟨⟨rfl, rfl, rfl, ?_⟩, ⟨rfl, rfl, rfl, ?_⟩, ⟨rfl, rfl, rfl, ?_⟩, ⟨rfl, rfl, rfl, ?_⟩, ⟨rfl, rfl, rfl, ?_⟩⟩
  all_goals rintro _ ⟨⟩

namespace Sample

/-- The members of a sample type have fixed width or their length in front. -/
theorem isFixed_or_isPrefixed_members (s : Sample) : ∀ m ∈ s.members, m.IsFixed ∨ m.IsPrefixed := by
  cases s with
  | reading => exact fun m hm => .inl (Reading.isFixed_members m hm)
  | record => exact Serializer.isFixed_or_isPrefixed_record

theorem usable (path : String) (order : ByteOrder) (s : Sample) :
    Serializer.Usable (F := Sample.family path) Sample.members ⟨order, false⟩ s where
  access := by
    -- the members do not depend on `path`, but their type in the family does
    have h : ∀ m ∈ s.members, m.isReadable ∧ m.isWritable := by cases s <;> decide
    exact h
  family m hm := (isFixed_or_isPrefixed_members s m hm).elim .inl fun hprefixed => .inr (.inr hprefixed)
  nodup := by
    have h : (s.members.map (·.name)).Nodup := by cases s <;> decide
    exact h
  compiles := by
    cases s with
    | reading =>
      change ∀ m ∈ Reading.members, _
      simp only [Reading.members, Reading.slots, List.map_cons, List.map_nil, List.forall_mem_cons, List.not_mem_nil,
        false_imp_iff, implies_true, and_true]
      cases order <;> exact ⟨⟨_, rfl⟩, ⟨_, rfl⟩, ⟨_, rfl⟩, ⟨_, rfl⟩, ⟨_, rfl⟩⟩
    | record =>
      change ∀ m ∈ Record.members, _
      simp only [Record.members, List.forall_mem_cons, List.not_mem_nil, false_imp_iff, implies_true, and_true]
      cases order <;> exact ⟨⟨_, rfl⟩, ⟨_, rfl⟩, ⟨_, rfl⟩, ⟨_, rfl⟩, ⟨_, rfl⟩⟩

end Sample

namespace Reading

/-- The message of a reading is its fields at their width, whatever the lengths in front of other members. -/
theorem message_eq (p : LengthPrefix) (order : ByteOrder) (x : Reading) :
    Layout.message p (Builtin.encoding order) members x =
      order.encode 2 x.sensor.toNat ++ (order.encode 4 x.celsius.toNat ++ (order.encode 8 x.pressure.toNat ++
        ([x.healthy.toUInt8] ++ order.encode 8 x.sequence.toNat))) := by
  rw [← List.append_nil (order.encode 8 x.sequence.toNat)]
  rfl

theorem length_message (p : LengthPrefix) (order : ByteOrder) (x : Reading) :
    (Layout.message p (Builtin.encoding order) members x).length = 23 := by
  simp [message_eq]

/-- A reading with all members copied is the one that they were copied from. -/
theorem copyAll_start (x : Reading) : Layout.copyAll members x start = x := rfl

end Reading

namespace Record

/-- A record as it comes out of its message: the time of creation is kept in milliseconds. -/
def kept (x : Record) : Record := { x with created := x.created.kept }

/-- The message of a record. Of its time of creation there is one word of milliseconds. -/
theorem message_eq (p : LengthPrefix) (order : ByteOrder) (x : Record) :
    Layout.message p (Builtin.encoding order) members x =
      order.encode 8 x.id.toNat ++ ((p.encode (Text.utf8 x.name).length ++ Text.utf8 x.name) ++
        ((p.encode x.payload.length ++ x.payload) ++
          (order.encode 8 (BitVec.ofNat 64 x.created.toMillis).toNat ++ order.encode 1 x.flags.toNat))) := by
  rw [← List.append_nil (order.encode 1 x.flags.toNat)]
  rfl

theorem length_message (p : LengthPrefix) (order : ByteOrder) (x : Record) :
    (Layout.message p (Builtin.encoding order) members x).length =
      17 + 2 * p.width + x.name.utf8ByteSize + x.payload.length := by
  simp only [message_eq, List.length_append, ByteOrder.length_encode, LengthPrefix.length_encode, Text.length_utf8]
  omega

/-- A record with all members copied has its time of creation in milliseconds. -/
theorem copyAll_start (x : Record) : Layout.copyAll members x start = x.kept := by
  rw [kept, Duration.kept, ← Duration.toMillis_eq]
  rfl

theorem message_kept (p : LengthPrefix) (order : ByteOrder) (x : Record) :
    Layout.message p (Builtin.encoding order) members x.kept = Layout.message p (Builtin.encoding order) members x := by
  rw [message_eq, message_eq, kept, Duration.ofNat_toMillis_kept]

/-- A record can stand in a message exactly if its name and its payload are not too long. -/
theorem fits_iff (p : LengthPrefix) (order : ByteOrder) (x : Record) :
    (∀ m ∈ members, m.Fits p (Builtin.encoding order) x) ↔
      x.name.utf8ByteSize ≤ p.maxLength ∧ x.payload.length ≤ p.maxLength := by
  have himplicit : LengthMode.implicit ≠ .prefixed := by decide
  rw [← Text.length_utf8]
  simp only [members, List.forall_mem_cons, List.not_mem_nil, false_imp_iff, implies_true, and_true]
  constructor
  · rintro ⟨-, ⟨-, hname⟩, ⟨-, hpayload⟩, -, -⟩
    exact ⟨hname rfl, hpayload rfl⟩
  · rintro ⟨hname, hpayload⟩
    refine ⟨⟨rfl, fun hmode => ?_⟩, ⟨rfl, fun _ => hname⟩, ⟨rfl, fun _ => hpayload⟩, ⟨rfl, fun hmode => ?_⟩,
      ⟨rfl, fun hmode => ?_⟩⟩
    all_goals exact absurd hmode himplicit

/-- Whether a record can stand in a message does not depend on its time of creation. -/
theorem fits_created (p : LengthPrefix) (order : ByteOrder) (x : Record) (d : Duration) :
    (∀ m ∈ members, m.Fits p (Builtin.encoding order) { x with created := d }) ↔
      ∀ m ∈ members, m.Fits p (Builtin.encoding order) x := by
  rw [fits_iff, fits_iff]

/-- A record comes out of its message as it was if its time of creation is a number of milliseconds that fits in a
64-bit word, and only then. -/
theorem kept_eq_self_iff (x : Record) : x.kept = x ↔ ∃ ms < 2 ^ 64, x.created.toNanos = ms * 1000000 := by
  rw [← Duration.kept_eq_self_iff]
  obtain ⟨id, name, payload, created, flags⟩ := x
  simp [kept]

end Record

namespace Sample

/-- What the sample types are in messages, over the built-in codecs without those of variable length. If the settings
allow for 23 bytes, every reading is serialized into as many, and read back as it was. If a record is serialized, its
message has 17 bytes, two lengths, the name and the payload. It is read as the record with the whole milliseconds of its
time of creation, modulo `2 ^ 64`. So it is read back as it was if this time is a number of milliseconds below `2 ^ 64`,
and only then. The record that was read has the same message again. All serializers have the same settings, and none has
compiled another member under the key of a declared one before. -/
theorem read_back (path : String) (order : ByteOrder) (config : MessageConfig)
    (sent received again : List (Call (Sample.family path))) (hsent : ∀ call ∈ sent, call.Genuine Sample.members)
    (hreceived : ∀ call ∈ received, call.Genuine Sample.members)
    (hagain : ∀ call ∈ again, call.Genuine Sample.members) :
    let s := Serializer.inUse (F := Sample.family path) Sample.members (Registry.builtin ⟨order, false⟩) config
    (23 ≤ config.maxSize.toNat → ∀ x : Reading, ∃ b, ((s sent).serialize .reading Reading.members x).1 = .ok b ∧
      b.length = 23 ∧ ((s received).deserialize .reading Reading.members b).1 = .ok x) ∧
    ∀ (x : Record) (b : Bytes), ((s sent).serialize .record Record.members x).1 = .ok b →
      b.length = 17 + 2 * config.lengthPrefix.width + x.name.utf8ByteSize + x.payload.length ∧
      ((s received).deserialize .record Record.members b).1 = .ok x.kept ∧
      (((s received).deserialize .record Record.members b).1 = .ok x ↔
        ∃ ms < 2 ^ 64, x.created.toNanos = ms * 1000000) ∧
      ((s again).serialize .record Record.members x.kept).1 = .ok b := by
  intro s
  constructor
  · intro hmax x
    have hu := usable path order .reading
    have hlength := Reading.length_message config.lengthPrefix order x
    have hfits : ∀ m ∈ Reading.members, m.Fits config.lengthPrefix (Builtin.encoding order) x := fun m hm =>
      (Reading.isFixed_members m hm).fits (hu.access m hm).1 _ _ x
    refine ⟨Layout.message config.lengthPrefix (Builtin.encoding order) Reading.members x, ?_, hlength, ?_⟩
    · refine (Serializer.serialize_eq_ok_iff hu config hsent).2 ⟨rfl, hfits, ?_, ?_⟩
      · exact hlength ▸ hmax
      · exact hlength ▸ by decide
    · have hread := Serializer.deserialize_message hu (isFixed_or_isPrefixed_members .reading) config hreceived rfl
        hfits (hlength ▸ by decide)
      exact hread.trans (congrArg Except.ok (Reading.copyAll_start x))
  · intro x b hb
    have hu := usable path order .record
    obtain ⟨hmessage, hfits, hmax, hroom⟩ := (Serializer.serialize_eq_ok_iff hu config hsent).1 hb
    have hread : ((s received).deserialize .record Record.members b).1 = .ok x.kept := by
      rw [← Record.copyAll_start]
      exact Serializer.deserialize_message hu (isFixed_or_isPrefixed_members .record) config hreceived hmessage hfits
        (by omega)
    have hfits' : ∀ m ∈ Record.members, m.Fits config.lengthPrefix (Builtin.encoding order) x.kept :=
      (Record.fits_created config.lengthPrefix order x x.created.kept).2 hfits
    refine ⟨?_, hread, ?_, ?_⟩
    · rw [hmessage]
      exact Record.length_message config.lengthPrefix order x
    · have hsame := Record.kept_eq_self_iff x
      rw [hread]
      exact ⟨fun heq => hsame.1 (Except.ok.inj heq), fun hmillis => congrArg Except.ok (hsame.2 hmillis)⟩
    · refine (Serializer.serialize_eq_ok_iff hu config hagain).2 ⟨?_, hfits', hmax, hroom⟩
      rw [hmessage]
      exact (Record.message_kept config.lengthPrefix order x).symm

/-- A record whose time of creation is no number of milliseconds, and does not fit in a 64-bit word either. -/
def late : Record := { Record.sample with created := .ofParts 18446744073709552 500500000 }

/-- The message of the late record: 884 milliseconds are left. -/
def lateBytes : Bytes :=
  [255, 255, 255, 255, 255, 255, 255, 214] ++ [8, 0] ++ Text.utf8 "wirebind" ++ [4, 0] ++ [222, 173, 190, 239] ++
    [0, 0, 0, 0, 0, 0, 3, 116] ++ [5]

/-- A reading and the late record are written by one serializer and read by another. The record is not read back. -/
theorem read_back_late :
    let s := Serializer.inUse (F := Sample.family "samples") Sample.members (Registry.builtin ⟨.big, false⟩) ⟨.u16, 33⟩
    let calls : List (Call (Sample.family "samples")) := [.register .record]
    let onTime : Record := { late with created := .ofParts 0 884000000 }
    ((s []).serialize .record Record.members late).1 = .ok lateBytes ∧ 23 ≤ (33 : UInt64).toNat ∧
      (∃ b, ((s []).serialize .reading Reading.members Reading.sample).1 = .ok b ∧ b.length = 23 ∧
        ((s calls).deserialize .reading Reading.members b).1 = .ok Reading.sample) ∧
      lateBytes.length = 33 ∧ ((s calls).deserialize .record Record.members lateBytes).1 = .ok onTime ∧
      ((s calls).deserialize .record Record.members lateBytes).1 ≠ .ok late ∧
      ((s calls).serialize .record Record.members onTime).1 = .ok lateBytes := by
  intro s calls onTime
  have hb : ((s []).serialize .record Record.members late).1 = .ok lateBytes := by decide +kernel
  have hcalls : ∀ call ∈ calls, call.Genuine Sample.members := List.forall_mem_singleton.2 trivial
  have hmax : 23 ≤ (33 : UInt64).toNat := by decide
  have hkept : late.kept = onTime := by decide
  have hmillis : ¬ ∃ ms < 2 ^ 64, late.created.toNanos = ms * 1000000 := by
    have hnanos : late.created.toNanos = 18446744073709552500500000 := by decide
    rintro ⟨ms, -, hms⟩
    omega
  obtain ⟨hreading, hrecord⟩ := read_back "samples" .big ⟨.u16, 33⟩ [] calls calls (List.forall_mem_nil _) hcalls hcalls
  obtain ⟨hlength, hread, hiff, hagain⟩ := hrecord late lateBytes hb
  rw [hkept] at hread hagain
  exact ⟨hb, hmax, hreading hmax Reading.sample, hlength, hread, fun hsame => hmillis (hiff.1 hsame), hagain⟩

end Sample

end Memberwise
