import Memberwise.Proofs.Message.Encode

/-!
# Reading what was written

Where the frame of a member of an instance stands in the input, reading the member copies it from that instance
(`Member.copy`) and moves the cursor behind the frame (`Layout.decodeMember_frame`). It needs to be measured well: the
instance read into takes as many bytes afterwards (`Member.Remeasures`), and the input holds as many bytes from the
member on as the instance that probes for room takes (`Member.probe`). So the cursor keeps step with the writer, though
the reader goes by what it measures, and reading copies one member after the other up to one that is not probed well
(`Layout.decode_until`).

If a member takes no more bytes in the instance that probes than in the one that was written (`Member.Steady`), there is
always room, and a whole message is read (`Layout.decode_message`).
-/

namespace Memberwise

namespace Member

variable {H : Type}

/-- The instance with a member as it is in another one. -/
def copy (m : Member H) (v x : H) : H :=
  match m.getter, m.setter with
  | some get, some set => set x (get v)
  | _, _ => x

/-- A member of implicit length takes no more bytes in the instance to probe with, and as many once it was copied. -/
def Steady (m : Member H) (enc : MemberEncoding H) (least v : H) : Prop :=
  m.codec.length = .implicit → (m.body (enc m) least).length ≤ (m.body (enc m) v).length ∧
    ∀ x, (m.body (enc m) (m.copy v x)).length = (m.body (enc m) v).length

/-- A member of implicit length takes as many bytes once it was copied. -/
def Remeasures (m : Member H) (enc : MemberEncoding H) (v : H) : Prop :=
  m.codec.length = .implicit → ∀ x, (m.body (enc m) (m.copy v x)).length = (m.body (enc m) v).length

/-- The bytes that a member takes in the instance to probe with, as a 64-bit word counts them. -/
def probe (m : Member H) (enc : MemberEncoding H) (least : H) : Nat :=
  (UInt64.ofNat (m.body (enc m) least).length).toNat

theorem probe_le (m : Member H) (enc : MemberEncoding H) (least : H) :
    m.probe enc least ≤ (m.body (enc m) least).length := by
  rw [probe, UInt64.toNat_ofNat']
  exact Nat.mod_le _ _

theorem Steady.remeasures {m : Member H} {enc : MemberEncoding H} {least v : H} (hm : m.Steady enc least v) :
    m.Remeasures enc v := fun hmode => (hm hmode).2

/-- Every value of a member of implicit length takes the width of its type. -/
def KeepsWidth (m : Member H) (enc : MemberEncoding H) : Prop :=
  m.codec.length = .implicit → ∀ x, (m.body (enc m) x).length = Builtin.fixedWidth m.type

theorem KeepsWidth.steady {m : Member H} {enc : MemberEncoding H} (hm : m.KeepsWidth enc) (least v : H) :
    m.Steady enc least v := by
  intro hmode
  have hsame : ∀ x, (m.body (enc m) x).length = (m.body (enc m) v).length := by
    intro x
    rw [hm hmode x, hm hmode v]
  exact ⟨Nat.le_of_eq (hsame least), fun x => hsame (m.copy v x)⟩

end Member

namespace Layout

variable {H : Type} {p : LengthPrefix} {enc : MemberEncoding H}

/-- An accessor set that measures a member in one encoding and copies it from where its bytes are. -/
structure Reads (m : Member H) (s : AccessorSet H) (enc : MemberEncoding H) : Prop where
  member : s.member = m.name
  length : s.length = m.codec.length
  sizeOf : ∃ z, s.sizeOf = some z ∧ Measures z.call (m.body (enc m))
  scalar : m.codec.length = .implicit → ∃ read, s.readScalar = some read ∧
    ∀ v x pre post pos, pos.toNat = pre.length →
      read.call x (pre ++ m.body (enc m) v ++ post) pos = some (m.copy v x)
  bounded : m.codec.length = .prefixed → ∃ read, s.readBounded = some read ∧
    ∀ v x pre post pos length, pos.toNat = pre.length → length.toNat = (m.body (enc m) v).length →
      read.call x (pre ++ m.body (enc m) v ++ post) pos length = some (m.copy v x)

/-- A member that can be read and assigned, and is bound to operations that agree on one encoding, is read through it. -/
theorem reads_of_binds {m : Member H} {r : Registry} {s : AccessorSet H} (hb : m.Binds r s) (hread : m.isReadable)
    (hwrite : m.isWritable) (hlawful : LawfulMember r enc m)
    (hscalar : m.codec.length = .implicit → ∀ read, r.resolve m.type .readScalar m.codec.readScalar = .ok read →
      ReadsBack read.call (enc m))
    (hbounded : m.codec.length = .prefixed → ∀ read, r.resolve m.type .readBounded m.codec.readBounded = .ok read →
      ReadsBackBounded read.call (enc m)) : Reads m s enc := by
  obtain ⟨get, hget⟩ := Option.isSome_iff_exists.1 hread
  obtain ⟨set, hset⟩ := Option.isSome_iff_exists.1 hwrite
  have hcopy : ∀ v x, m.copy v x = set x (get v) := fun v x => by simp only [Member.copy, hget, hset]
  have hbody := m.body_eq_comp hget (enc m)
  obtain ⟨w, z, hw, hz, -, hsize⟩ := hb.read get hget
  refine ⟨hb.member, hb.length, ⟨_, hsize, ?_⟩, fun hmode => ?_, fun hmode => ?_⟩
  · rw [hbody]
    exact (hlawful w z hw hz).measures.comp get
  · obtain ⟨read, hresolve, hreader⟩ := hb.assignScalar set hset hmode
    refine ⟨_, hreader, fun v x pre post pos hpos => ?_⟩
    have hback := hscalar hmode read hresolve (get v) pre post pos hpos
    rw [hcopy, hbody]
    exact Option.map_eq_some_iff.2 ⟨_, hback, rfl⟩
  · obtain ⟨read, hresolve, hreader⟩ := hb.assignBounded set hset hmode
    refine ⟨_, hreader, fun v x pre post pos length hpos hlength => ?_⟩
    rw [hbody] at hlength
    have hback := hbounded hmode read hresolve (get v) pre post pos length hpos hlength
    rw [hcopy, hbody]
    exact Option.map_eq_some_iff.2 ⟨_, hback, rfl⟩

/-! ### One member -/

theorem memberSize_of_reads {m : Member H} {s : AccessorSet H} (hs : Reads m s enc) (x : H) :
    memberSize s x = .ok (UInt64.ofNat (m.body (enc m) x).length) := by
  obtain ⟨z, hz, hmeasures⟩ := hs.sizeOf
  rw [memberSize, hz, ← hmeasures x]

/-- A member of implicit length is read if the input holds what the instance to probe with takes, and then what the
instance takes that was read into. -/
theorem decodeImplicit_of_le {s : AccessorSet H} {least x y : H} {buf : Bytes} {pos needed consumed : UInt64}
    {read : Bound (ScalarAssigner H)} (hneeded : memberSize s least = .ok needed)
    (hprobe : needed.toNat ≤ available buf pos) (hread : s.readScalar = some read)
    (hy : read.call x buf pos = some y) (hconsumed : memberSize s y = .ok consumed)
    (hroom : consumed.toNat ≤ available buf pos) : decodeImplicit s least x buf pos = (.ok (pos + consumed), y) := by
  simp only [decodeImplicit, hneeded, hread, hy, hconsumed]
  rw [if_neg (by omega), if_neg (by omega)]

theorem decodeImplicit_of_lt {s : AccessorSet H} {least : H} {buf : Bytes} {pos needed : UInt64} (x : H)
    (hneeded : memberSize s least = .ok needed) (hshort : available buf pos < needed.toNat) :
    decodeImplicit s least x buf pos =
      (.error (.error (.truncated s.member needed.toNat (available buf pos))), x) := by
  simp only [decodeImplicit, hneeded]
  rw [if_pos hshort]
  rfl

theorem decodeImplicit_body {m : Member H} {s : AccessorSet H} (hs : Reads m s enc)
    (hmode : m.codec.length = .implicit) {least v : H} (hagain : m.Remeasures enc v) (x : H) {pre post : Bytes}
    {pos : UInt64} (hpos : pos.toNat = pre.length) (hbuf : (pre ++ m.body (enc m) v ++ post).length < 2 ^ 64)
    (hprobe : m.probe enc least ≤ (m.body (enc m) v).length + post.length) :
    decodeImplicit s least x (pre ++ m.body (enc m) v ++ post) pos =
      (.ok (pos + UInt64.ofNat (m.body (enc m) v).length), m.copy v x) := by
  obtain ⟨read, hread, hback⟩ := hs.scalar hmode
  have hroom : available (pre ++ m.body (enc m) v ++ post) pos = (m.body (enc m) v).length + post.length := by
    simp only [available, hpos, List.length_append]
    omega
  have hsize : (UInt64.ofNat (m.body (enc m) v).length).toNat = (m.body (enc m) v).length := by
    simp only [List.length_append] at hbuf
    exact UInt64.toNat_ofNat_of_lt' (by rw [UInt64.size]; omega)
  have hconsumed := memberSize_of_reads hs (m.copy v x)
  rw [hagain hmode x] at hconsumed
  have hleast : (UInt64.ofNat (m.body (enc m) least).length).toNat ≤
      available (pre ++ m.body (enc m) v ++ post) pos := by rwa [hroom]
  exact decodeImplicit_of_le (memberSize_of_reads hs least) hleast hread (hback v x pre post pos hpos) hconsumed
    (by omega)

theorem decodeImplicit_of_lt_probe {m : Member H} {s : AccessorSet H} (hs : Reads m s enc) {least : H} (x : H)
    {buf : Bytes} {pos : UInt64} (hshort : available buf pos < m.probe enc least) :
    decodeImplicit s least x buf pos =
      (.error (.error (.truncated m.name (m.probe enc least) (available buf pos))), x) := by
  rw [← hs.member]
  exact decodeImplicit_of_lt x (memberSize_of_reads hs least) hshort

theorem decodePrefixed_body {m : Member H} {s : AccessorSet H} (hs : Reads m s enc)
    (hmode : m.codec.length = .prefixed) {v : H} (hfits : m.Fits p enc v) (x : H) {pre post : Bytes} {pos : UInt64}
    (hpos : pos.toNat = pre.length)
    (hbuf : (pre ++ p.encode (m.body (enc m) v).length ++ m.body (enc m) v ++ post).length < 2 ^ 64) :
    decodePrefixed p s x (pre ++ p.encode (m.body (enc m) v).length ++ m.body (enc m) v ++ post) pos =
      (.ok (pos + UInt64.ofNat p.width + UInt64.ofNat (m.body (enc m) v).length), m.copy v x) := by
  obtain ⟨read, hread, hback⟩ := hs.bounded hmode
  have hlength := p.length_encode (m.body (enc m) v).length
  simp only [List.length_append] at hbuf
  have hhead : (pre ++ p.encode (m.body (enc m) v).length ++ m.body (enc m) v ++ post).slice? pos.toNat p.width =
      some (p.encode (m.body (enc m) v).length) := by
    have hslice := Bytes.slice?_append pre (p.encode (m.body (enc m) v).length) (m.body (enc m) v ++ post)
    rw [hlength, ← List.append_assoc] at hslice
    rw [hpos, hslice]
  have hstart : (pos + UInt64.ofNat p.width).toNat = (pre ++ p.encode (m.body (enc m) v).length).length := by
    rw [List.length_append, hlength, ← hpos, Bytes.toNat_add_ofNat (Nat.le_refl _) (by omega)]
  have hsize : (UInt64.ofNat (m.body (enc m) v).length).toNat = (m.body (enc m) v).length :=
    UInt64.toNat_ofNat_of_lt' (by rw [UInt64.size]; omega)
  have hroom : ¬ available (pre ++ p.encode (m.body (enc m) v).length ++ m.body (enc m) v ++ post) pos - p.width <
      (m.body (enc m) v).length := by
    simp only [available, hpos, List.length_append, hlength]
    omega
  simp only [decodePrefixed, hhead, p.ofLittle_encode (hfits.2 hmode), hread]
  rw [if_neg hroom, hback v x _ post _ _ hstart hsize]

/-- Reading a member where its frame is copies it and moves the cursor behind the frame. -/
theorem decodeMember_frame {m : Member H} {s : AccessorSet H} (hs : Reads m s enc) {least v : H}
    (hfits : m.Fits p enc v) (hagain : m.Remeasures enc v) (x : H) {pre post : Bytes} {pos : UInt64}
    (hprobe : m.codec.length = .implicit → m.probe enc least ≤ (m.frame p enc v).length + post.length)
    (hpos : pos.toNat = pre.length) (hbuf : (pre ++ m.frame p enc v ++ post).length < 2 ^ 64) :
    ∃ pos', decodeMember p s least x (pre ++ m.frame p enc v ++ post) pos = (.ok pos', m.copy v x) ∧
      pos'.toNat = (pre ++ m.frame p enc v).length := by
  have hend : (pre ++ m.frame p enc v).length < 2 ^ 64 := by
    rw [List.length_append] at hbuf
    omega
  unfold decodeMember
  unfold Member.frame LengthPrefix.frame at hbuf hend hprobe ⊢
  rw [hs.length]
  cases hmode : m.codec.length with
  | implicit =>
    have hprobe := hprobe hmode
    rw [hmode, LengthPrefix.head, List.nil_append] at hbuf hend hprobe
    refine ⟨_, decodeImplicit_body hs hmode hagain x hpos hbuf hprobe, ?_⟩
    rw [LengthPrefix.head, List.nil_append]
    rw [List.length_append, ← hpos] at hend ⊢
    exact Bytes.toNat_add_ofNat (Nat.le_refl _) hend
  | prefixed =>
    rw [hmode] at hbuf hend
    rw [LengthPrefix.head, ← List.append_assoc] at hbuf hend ⊢
    refine ⟨_, decodePrefixed_body hs hmode hfits x hpos hbuf, ?_⟩
    simp only [List.length_append, p.length_encode, ← hpos] at hend ⊢
    have hstart := Bytes.toNat_add_ofNat (Nat.le_refl (pos.toNat + p.width)) (by omega)
    rw [Bytes.toNat_add_ofNat (by omega) hend, hstart]

/-! ### Whole messages -/

/-- The instance with the members as they are in another one. -/
def copyAll (members : List (Member H)) (v x : H) : H := members.foldl (fun x m => m.copy v x) x

/-- The message of the members, with `post` bytes behind it, holds from every member of implicit length on as many bytes
as the instance to probe with takes. -/
def Roomy (p : LengthPrefix) (enc : MemberEncoding H) (least v : H) (members : List (Member H)) (post : Nat) : Prop :=
  ∀ before m after, members = before ++ m :: after → m.codec.length = .implicit →
    m.probe enc least ≤ (message p enc (m :: after) v).length + post

theorem Roomy.cons {least v : H} {m : Member H} {rest : List (Member H)} {post : Nat}
    (hm : m.codec.length = .implicit → m.probe enc least ≤ (message p enc (m :: rest) v).length + post)
    (hrest : Roomy p enc least v rest post) : Roomy p enc least v (m :: rest) post := by
  intro before m' after hsplit hmode
  cases before with
  | nil =>
    obtain ⟨rfl, rfl⟩ := List.cons.inj hsplit
    exact hm hmode
  | cons _ before => exact hrest before m' after (List.cons.inj hsplit).2 hmode

/-- Members that take no more bytes in the instance to probe with find enough of them. -/
theorem roomy_of_steady {least v : H} {members : List (Member H)} (hsteady : ∀ m ∈ members, m.Steady enc least v)
    (post : Nat) : Roomy p enc least v members post := by
  intro before m after hsplit hmode
  have hleast := (hsteady m (by simp [hsplit]) hmode).1
  have hprobe := m.probe_le enc least
  rw [message_cons, Member.frame, LengthPrefix.frame]
  simp only [List.length_append]
  omega

/-- Where a message stands in the input, its members are copied and the cursor moves behind it, or one of them is not
probed well and reading stops there. -/
theorem decode_until {members : List (Member H)} {sets : List (AccessorSet H)} {v : H}
    (hs : List.Forall₂ (fun m s => Reads m s enc) members sets) (hfits : ∀ m ∈ members, m.Fits p enc v)
    (hagain : ∀ m ∈ members, m.Remeasures enc v) (more : List (AccessorSet H)) (least x : H) {pre post : Bytes}
    {pos : UInt64} (hpos : pos.toNat = pre.length) (hbuf : (pre ++ message p enc members v ++ post).length < 2 ^ 64) :
    (Roomy p enc least v members post.length ∧ ∃ pos', pos'.toNat = (pre ++ message p enc members v).length ∧
      decode p least (sets ++ more) x (pre ++ message p enc members v ++ post) pos =
        decode p least more (copyAll members v x) (pre ++ message p enc members v ++ post) pos') ∨
    ∃ before m after, members = before ++ m :: after ∧ m.codec.length = .implicit ∧
      (message p enc (m :: after) v).length + post.length < m.probe enc least ∧
      decode p least (sets ++ more) x (pre ++ message p enc members v ++ post) pos =
        (.error (.error (.truncated m.name (m.probe enc least) ((message p enc (m :: after) v).length + post.length))),
          copyAll before v x) := by
  -- the frame that was read joins what stands in front of the rest, so the cursor is always behind `pre`
  induction hs generalizing x pre pos with
  | nil => exact .inl ⟨by rintro (_ | _) _ _ ⟨⟩, pos, by simpa using hpos, rfl⟩
  | @cons m s rest sets hm _ ih =>
    by_cases hprobe : m.codec.length = .implicit →
        m.probe enc least ≤ (message p enc (m :: rest) v).length + post.length
    · have hroom : m.codec.length = .implicit →
          m.probe enc least ≤ (m.frame p enc v).length + (message p enc rest v ++ post).length := by
        intro hmode
        have := hprobe hmode
        rw [message_cons, List.length_append] at this
        rw [List.length_append]
        omega
      rw [message_cons, ← List.append_assoc] at hbuf ⊢
      obtain ⟨mid, hmember, hmid⟩ := decodeMember_frame hm (hfits m (.head _)) (hagain m (.head _)) x hroom hpos
        (by rwa [← List.append_assoc])
      rw [← List.append_assoc] at hmember
      have hstep : decode p least (s :: sets ++ more) x (pre ++ m.frame p enc v ++ message p enc rest v ++ post) pos =
          decode p least (sets ++ more) (m.copy v x) (pre ++ m.frame p enc v ++ message p enc rest v ++ post) mid := by
        rw [List.cons_append, decode, hmember]
      rw [hstep]
      have hrest := ih (fun m' hm' => hfits m' (.tail _ hm')) (fun m' hm' => hagain m' (.tail _ hm')) (m.copy v x)
        hmid hbuf
      rcases hrest with ⟨hroomy, hdecode⟩ | ⟨before, m', after, rfl, hfail⟩
      · exact .inl ⟨hroomy.cons hprobe, hdecode⟩
      · exact .inr ⟨m :: before, m', after, rfl, hfail⟩
    · rw [Classical.not_imp, Nat.not_le] at hprobe
      obtain ⟨hmode, hshort⟩ := hprobe
      refine .inr ⟨[], m, rest, rfl, hmode, hshort, ?_⟩
      have hroom : available (pre ++ message p enc (m :: rest) v ++ post) pos =
          (message p enc (m :: rest) v).length + post.length := by
        simp only [available, hpos, List.length_append]
        omega
      rw [← hroom] at hshort ⊢
      rw [List.cons_append, decode, decodeMember, hm.length, hmode]
      simp only [decodeImplicit_of_lt_probe hm x hshort]
      rfl

theorem decode_append {members : List (Member H)} {sets : List (AccessorSet H)} {least v : H}
    (hs : List.Forall₂ (fun m s => Reads m s enc) members sets) (hfits : ∀ m ∈ members, m.Fits p enc v)
    (hsteady : ∀ m ∈ members, m.Steady enc least v) (more : List (AccessorSet H)) (x : H) {pre post : Bytes}
    {pos : UInt64} (hpos : pos.toNat = pre.length) (hbuf : (pre ++ message p enc members v ++ post).length < 2 ^ 64) :
    ∃ pos', pos'.toNat = (pre ++ message p enc members v).length ∧
      decode p least (sets ++ more) x (pre ++ message p enc members v ++ post) pos =
        decode p least more (copyAll members v x) (pre ++ message p enc members v ++ post) pos' := by
  have hagain : ∀ m ∈ members, m.Remeasures enc v := fun m hm => (hsteady m hm).remeasures
  have hroomy : Roomy p enc least v members post.length := roomy_of_steady hsteady post.length
  rcases decode_until hs hfits hagain more least x hpos hbuf with
    ⟨-, hdecode⟩ | ⟨before, m, after, hsplit, hmode, hshort, -⟩
  · exact hdecode
  · have hroom := hroomy before m after hsplit hmode
    omega

/-- Reading a message, wherever it stands in the input, copies all members and moves the cursor behind it. -/
theorem decode_message {members : List (Member H)} {sets : List (AccessorSet H)} {least v : H}
    (hs : List.Forall₂ (fun m s => Reads m s enc) members sets) (hfits : ∀ m ∈ members, m.Fits p enc v)
    (hsteady : ∀ m ∈ members, m.Steady enc least v) (x : H) {pre post : Bytes} {pos : UInt64}
    (hpos : pos.toNat = pre.length) (hbuf : (pre ++ message p enc members v ++ post).length < 2 ^ 64) :
    ∃ pos', decode p least sets x (pre ++ message p enc members v ++ post) pos = (.ok pos', copyAll members v x) ∧
      pos'.toNat = (pre ++ message p enc members v).length := by
  obtain ⟨pos', hpos', hdecode⟩ := decode_append hs hfits hsteady [] x hpos hbuf
  rw [List.append_nil] at hdecode
  exact ⟨pos', hdecode, hpos'⟩

end Layout

/-! ### Built-in codecs -/

namespace Member

variable {H : Type} {m : Member H} {rc : RegistryConfig} {host : String} {s : AccessorSet H}

/-- A member of one of the families of built-in codecs. -/
def OfFamily (m : Member H) : Prop := m.IsFixed ∨ m.IsVarint ∨ m.IsPrefixed

theorem OfFamily.matched (hm : m.OfFamily) : m.Matched := by
  rcases hm with hfixed | hvarint | hprefixed
  · exact hfixed.matched
  · exact hvarint.matched
  · exact hprefixed.matched

/-- A member of a family is read through the encoding that it is written in. -/
theorem OfFamily.reads (hm : m.OfFamily) (hs : m.compile (Registry.builtin rc) host = .ok s) (hread : m.isReadable)
    (hwrite : m.isWritable) : Layout.Reads m s (Builtin.encoding rc.byteOrder) := by
  have hb := binds_of_compile hs
  apply Layout.reads_of_binds hb hread hwrite hm.matched.lawful
  · intro hmode read hresolve
    rcases hm with hfixed | hvarint | hprefixed
    · exact hfixed.readsBack hresolve
    · exact hvarint.readsBack hresolve
    · rw [hprefixed.length] at hmode
      cases hmode
  · intro hmode read hresolve
    rcases hm with hfixed | hvarint | hprefixed
    · rw [hfixed.length] at hmode
      cases hmode
    · rw [hvarint.length] at hmode
      cases hmode
    · exact hprefixed.readsBack hresolve

theorem IsFixed.keepsWidth (hm : m.IsFixed) (hs : m.compile (Registry.builtin rc) host = .ok s) (hread : m.isReadable)
    (hwrite : m.isWritable) : m.KeepsWidth (Builtin.encoding rc.byteOrder) := by
  obtain ⟨get, hget⟩ := Option.isSome_iff_exists.1 hread
  obtain ⟨set, hset⟩ := Option.isSome_iff_exists.1 hwrite
  obtain ⟨read, hresolve, -⟩ := (binds_of_compile hs).assignScalar set hset hm.length
  intro _ x
  rw [m.body_eq_comp hget, encoding_of_plain _ hm.write]
  exact Builtin.length_plain _ (fixedReader_of_resolve hm.reader hresolve).1 (get x)

theorem IsVarint.body_eq (hm : m.IsVarint) (hread : m.isReadable) (order : ByteOrder) (x : H) :
    m.body (Builtin.encoding order m) x = Varint.encode (m.number x) := by
  obtain ⟨get, hget⟩ := Option.isSome_iff_exists.1 hread
  rw [encoding_of_digits order hm.write, m.body_eq_comp hget]
  simp only [number, hget]
  rfl

theorem IsVarint.probe_eq (hm : m.IsVarint) (hread : m.isReadable) (order : ByteOrder) (least : H) :
    m.probe (Builtin.encoding order) least = Varint.size (m.number least) := by
  obtain ⟨get, hget⟩ := Option.isSome_iff_exists.1 hread
  have hle := Builtin.length_digits_le m.type (get least)
  have hnumber : m.number least = Builtin.magnitude m.type (get least) := by simp only [number, hget]
  rw [Builtin.digits, ← hnumber] at hle
  rw [probe, hm.body_eq hread, UInt64.toNat_ofNat_of_lt' (by rw [UInt64.size]; omega), Varint.length_encode]

theorem IsPrefixed.keepsWidth (hm : m.IsPrefixed) (enc : MemberEncoding H) : m.KeepsWidth enc := by
  intro hmode
  rw [hm.length] at hmode
  cases hmode

theorem OfFamily.keepsWidth (hm : m.OfFamily) (hno : ¬ m.IsVarint) (hs : m.compile (Registry.builtin rc) host = .ok s)
    (hread : m.isReadable) (hwrite : m.isWritable) : m.KeepsWidth (Builtin.encoding rc.byteOrder) := by
  rcases hm with hfixed | hvarint | hprefixed
  · exact hfixed.keepsWidth hs hread hwrite
  · exact absurd hvarint hno
  · exact hprefixed.keepsWidth _

end Member

namespace Serializer

variable {F : HostFamily} {locate : Locator F} {h : F.Host}

theorem exists_table_compiled {r : Registry} (config : MessageConfig) {calls : List (Call F)}
    (hcalls : ∀ call ∈ calls, call.Genuine locate) (haccess : ∀ m ∈ locate h, m.isReadable ∧ m.isWritable)
    (hnodup : ((locate h).map (·.name)).Nodup) (hcompile : ∀ m ∈ locate h, ∃ s, m.compile r (F.name h) = .ok s) :
    ∃ t, ((inUse locate r config calls).table h (locate h)).1 = .ok t ∧
      Compiled r (F.name h) (locate h) (t.value.sets.map (·.value)) := by
  obtain ⟨t, ht⟩ : ∃ t, ((inUse locate r config calls).table h (locate h)).1 = .ok t := by
    apply exists_table haccess hnodup
    rwa [registry_inUse]
  exact ⟨t, ht, (compiled_of_table hcalls ht).2⟩

/-- There is a table for members of the families that compile, and it reads each through the encoding that it is
written in. -/
theorem exists_table_reads {rc : RegistryConfig} (config : MessageConfig) {calls : List (Call F)}
    (hcalls : ∀ call ∈ calls, call.Genuine locate) (haccess : ∀ m ∈ locate h, m.isReadable ∧ m.isWritable)
    (hfamily : ∀ m ∈ locate h, m.OfFamily) (hnodup : ((locate h).map (·.name)).Nodup)
    (hcompile : ∀ m ∈ locate h, ∃ s, m.compile (Registry.builtin rc) (F.name h) = .ok s) :
    ∃ t, ((inUse locate (Registry.builtin rc) config calls).table h (locate h)).1 = .ok t ∧
      List.Forall₂ (fun m s => Layout.Reads m s (Builtin.encoding rc.byteOrder)) (locate h)
        (t.value.sets.map (·.value)) := by
  obtain ⟨t, ht, hcompiled⟩ := exists_table_compiled config hcalls haccess hnodup hcompile
  exact ⟨t, ht, hcompiled.imp fun m hm _ hs => (hfamily m hm).reads hs (haccess m hm).1 (haccess m hm).2⟩

/-- What is known once an instance was serialized whose members are each of one family. -/
theorem serialize_ofFamily {rc : RegistryConfig} {config : MessageConfig} {calls : List (Call F)}
    (hcalls : ∀ call ∈ calls, call.Genuine locate) (haccess : ∀ m ∈ locate h, m.isReadable ∧ m.isWritable)
    (hfamily : ∀ m ∈ locate h, m.OfFamily) {v : F.Instance h} {b : Bytes}
    (hb : ((inUse locate (Registry.builtin rc) config calls).serialize h (locate h) v).1 = .ok b) :
    ((locate h).map (·.name)).Nodup ∧
      (∀ m ∈ locate h, ∃ s, m.compile (Registry.builtin rc) (F.name h) = .ok s) ∧
      b = Layout.message config.lengthPrefix (Builtin.encoding rc.byteOrder) (locate h) v ∧ b.length < 2 ^ 64 ∧
      (∀ m ∈ locate h, m.Fits config.lengthPrefix (Builtin.encoding rc.byteOrder) v) ∧
      ∀ m ∈ locate h, ¬ m.IsVarint → m.KeepsWidth (Builtin.encoding rc.byteOrder) := by
  have hlawful : ∀ m ∈ locate h, LawfulMember (Registry.builtin rc) (Builtin.encoding rc.byteOrder) m :=
    fun m hm => (hfamily m hm).matched.lawful
  obtain ⟨_, -, hnodup, hcompiled, hmessage, hfits, total, -, htotal⟩ := serialize_spec hcalls hlawful hb
  have hlength : b.length < 2 ^ 64 := htotal ▸ total.toNat_lt
  refine ⟨hnodup, hcompiled.exists_of_mem, hmessage, hlength, hfits, fun m hm hno => ?_⟩
  obtain ⟨s, hs⟩ := hcompiled.exists_of_mem m hm
  exact (hfamily m hm).keepsWidth hno hs (haccess m hm).1 (haccess m hm).2

end Serializer

end Memberwise
