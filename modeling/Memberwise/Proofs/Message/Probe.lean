import Memberwise.Proofs.Message.RoundTrip

/-!
# What the default instance decides

Before a member of implicit length is read, the input must hold as many bytes as the member takes in a default instance.
For a member of fixed width this is no more than its width. A number of variable length can take more bytes there than
in the instance that was written, so that the message may end too soon for it (`Layout.RoomForNumbers`).

The message of an instance is read back if from every number on it holds what the number takes by default. If it does
not, then it is turned away at such a number, though it is whole (`Serializer.deserialize_serialize`).
-/

namespace Memberwise

namespace Layout

variable {H : Type} {p : LengthPrefix} {enc : MemberEncoding H}

/-- From every number of variable length on, the message of the members holds as many bytes as the number takes in the
instance to probe with. -/
def RoomForNumbers (p : LengthPrefix) (enc : MemberEncoding H) (least v : H) (members : List (Member H)) : Prop :=
  ∀ before m after, members = before ++ m :: after → m.IsVarint →
    Varint.size (m.number least) ≤ (message p enc (m :: after) v).length

theorem probe_le_message {m : Member H} {least v : H} (hkeeps : m.KeepsWidth enc)
    (hmode : m.codec.length = .implicit) (after : List (Member H)) :
    m.probe enc least ≤ (message p enc (m :: after) v).length := by
  have hprobe := m.probe_le enc least
  rw [hkeeps hmode, ← hkeeps hmode v] at hprobe
  rw [message_cons, Member.frame, LengthPrefix.frame]
  simp only [List.length_append]
  omega

/-- A message is read whole if there is room for every number, and otherwise as far as one for which there is not. -/
theorem decode_probed {members : List (Member H)} {sets : List (AccessorSet H)} {order : ByteOrder} {v : H}
    (hs : List.Forall₂ (fun m s => Reads m s (Builtin.encoding order)) members sets)
    (hfits : ∀ m ∈ members, m.Fits p (Builtin.encoding order) v)
    (hagain : ∀ m ∈ members, m.Remeasures (Builtin.encoding order) v)
    (hwidth : ∀ m ∈ members, ¬ m.IsVarint → m.KeepsWidth (Builtin.encoding order)) (least x : H)
    (hbuf : (message p (Builtin.encoding order) members v).length < 2 ^ 64) :
    (RoomForNumbers p (Builtin.encoding order) least v members ∧ ∃ pos',
      decode p least sets x (message p (Builtin.encoding order) members v) 0 = (.ok pos', copyAll members v x)) ∨
    ∃ before m after, members = before ++ m :: after ∧ m.IsVarint ∧
      (message p (Builtin.encoding order) (m :: after) v).length < Varint.size (m.number least) ∧
      decode p least sets x (message p (Builtin.encoding order) members v) 0 =
        (.error (.error (.truncated m.name (Varint.size (m.number least))
          (message p (Builtin.encoding order) (m :: after) v).length)), copyAll before v x) := by
  have hall : ([] : Bytes) ++ message p (Builtin.encoding order) members v ++ [] =
      message p (Builtin.encoding order) members v := by simp
  have hpos : (0 : UInt64).toNat = ([] : Bytes).length := rfl
  rw [← hall] at hbuf
  have huntil := decode_until hs hfits hagain [] least x hpos hbuf
  rw [hall, List.append_nil] at huntil
  rcases huntil with ⟨hroomy, pos', -, hdecode⟩ | ⟨before, m, after, rfl, hmode, hshort, hdecode⟩
  · refine .inl ⟨fun before m after hsplit hvarint => ?_, pos', hdecode⟩
    have hread : m.isReadable := (hfits m (by simp [hsplit])).1
    have hroom := hroomy before m after hsplit hvarint.length
    rwa [hvarint.probe_eq hread] at hroom
  · have hmem : m ∈ before ++ m :: after := by simp
    rw [List.length_nil, Nat.add_zero] at hshort hdecode
    have hvarint : m.IsVarint := by
      by_contra hno
      exact absurd (probe_le_message (hwidth m hmem hno) hmode after) (Nat.not_le.2 hshort)
    rw [hvarint.probe_eq (hfits m hmem).1] at hshort hdecode
    exact .inr ⟨before, m, after, rfl, hvarint, hshort, hdecode⟩

end Layout

namespace Serializer

/-- Which messages are read back. Take a host type over the built-in codecs whose members can be read and assigned, are
each of one family, and are independent of each other, with any instance as the default. The message of an instance is
read into an instance that has all members as they were written, if from every number of variable length on it holds what
this number takes by default. Otherwise a number for which it does not is reported. No other member was compiled under
the key of a declared one before. -/
theorem deserialize_serialize {F : HostFamily} (locate : Locator F) (rc : RegistryConfig) (config : MessageConfig)
    (sent received : List (Call F)) (hsent : ∀ call ∈ sent, call.Genuine locate)
    (hreceived : ∀ call ∈ received, call.Genuine locate) (h : F.Host)
    (haccess : ∀ m ∈ locate h, m.isReadable ∧ m.isWritable) (hfamily : ∀ m ∈ locate h, m.OfFamily)
    (hindependent : Independent (locate h)) (v : F.Instance h) (b : Bytes)
    (hb : ((inUse locate (Registry.builtin rc) config sent).serialize h (locate h) v).1 = .ok b) :
    let result := ((inUse locate (Registry.builtin rc) config received).deserialize h (locate h) b).1
    (Layout.RoomForNumbers config.lengthPrefix (Builtin.encoding rc.byteOrder) (F.default h) v (locate h) ∧
      ∃ y, result = .ok y ∧ ∀ m ∈ locate h, ∀ get ∈ m.getter, get y = get v) ∨
    ∃ before m after, locate h = before ++ m :: after ∧ m.IsVarint ∧
      let rest := (Layout.message config.lengthPrefix (Builtin.encoding rc.byteOrder) (m :: after) v).length
      rest < Varint.size (m.number (F.default h)) ∧
        result = .error (.error (.truncated m.name (Varint.size (m.number (F.default h))) rest)) := by
  obtain ⟨hnodup, hcompile, hmessage, hlength, hfits, hwidth⟩ := serialize_ofFamily hsent haccess hfamily hb
  have hagain : ∀ m ∈ locate h, m.Remeasures (Builtin.encoding rc.byteOrder) v := by
    intro m hm
    by_cases hvarint : m.IsVarint
    · obtain ⟨get, hget⟩ := Option.isSome_iff_exists.1 (haccess m hm).1
      obtain ⟨set, hset⟩ := Option.isSome_iff_exists.1 (haccess m hm).2
      exact hvarint.remeasures hget hset (hindependent.get_set m hm get hget set hset) v
    · exact ((hwidth m hm hvarint).steady v v).remeasures
  obtain ⟨t, ht, hreads⟩ := exists_table_reads config hreceived haccess hfamily hnodup hcompile
  rw [hmessage] at hlength ⊢
  have hinto := deserializeInto_of_table ht (F.default h)
    (Layout.message config.lengthPrefix (Builtin.encoding rc.byteOrder) (locate h) v) 0
  rw [config_inUse, deserializeIntoWith] at hinto
  rcases Layout.decode_probed hreads hfits hagain hwidth (F.default h) (F.default h) hlength with
    ⟨hroom, pos', hdecode⟩ | ⟨before, m, after, hsplit, hvarint, hshort, hdecode⟩
  · rw [hdecode] at hinto
    refine .inl ⟨hroom, Layout.copyAll (locate h) v (F.default h), deserialize_fst hinto, ?_⟩
    intro m hm get hget
    exact hindependent.get_copyAll hnodup hm hget (haccess m hm).2 v (F.default h)
  · rw [hdecode] at hinto
    exact .inr ⟨before, m, after, hsplit, hvarint, hshort, deserialize_fst hinto⟩

end Serializer

namespace Visit

/-- Visits that start at 300 hits. -/
def popular : HostFamily := { family with default := fun _ => ({ hits := 300 } : Visit) }

/-- A visit with fewer hits than a popular one starts at. -/
def early : Visit := { hits := 5 }

theorem first_of_isVarint {before after : List (Member Visit)} {m : Member Visit} (h : members = before ++ m :: after)
    (hm : m.IsVarint) : members = m :: after := by
  rcases before with _ | ⟨_, _ | ⟨_, _ | ⟨_, before⟩⟩⟩
  · exact h
  · cases h
    exact absurd hm.write (by decide)
  · cases h
    exact absurd hm.write (by decide)
  · simp [members] at h

/-- The hits of an early visit take one byte and those of a new one two, but there are three more bytes in the
message. -/
theorem deserialize_early :
    let s := Serializer.inUse (F := popular) (fun _ => members) (Registry.builtin ⟨.big, true⟩) ⟨.u16, 100⟩ []
    (s.serialize () members early).1 = .ok [5, 0, 0, 0] ∧
      ∃ y : Visit, (s.deserialize () members [5, 0, 0, 0]).1 = .ok y ∧
        ∀ m ∈ members, ∀ get ∈ m.getter, get y = get early := by
  have hb : ((Serializer.inUse (F := popular) (fun _ => members) (Registry.builtin ⟨.big, true⟩) ⟨.u16, 100⟩
      []).serialize () members early).1 = .ok [5, 0, 0, 0] := by decide +kernel
  have haccess : ∀ m ∈ members, m.isReadable ∧ m.isWritable := by decide
  rcases Serializer.deserialize_serialize (F := popular) (fun _ => members) ⟨.big, true⟩ ⟨.u16, 100⟩ [] [] (by simp)
    (by simp) () haccess ofFamily_members independent_members early _ hb with
    ⟨-, hread⟩ | ⟨before, m, after, hsplit, hvarint, hshort, -⟩
  · exact ⟨hb, hread⟩
  · cases first_of_isVarint hsplit hvarint
    exact absurd hshort (by decide +kernel)

/-- The hits of an early visit alone are turned away. -/
theorem deserialize_early_hits :
    let s := Serializer.inUse (F := popular) (fun _ => members.take 1) (Registry.builtin ⟨.big, true⟩) ⟨.u16, 100⟩ []
    (s.serialize () (members.take 1) early).1 = .ok [5] ∧
      (s.deserialize () (members.take 1) [5]).1.map (fun x : Visit => x.hits) =
        .error (.error (.truncated "hits" 2 1)) := by
  intro s
  exact ⟨by decide +kernel, by decide +kernel⟩

end Visit

end Memberwise
