import Memberwise.Proofs.Accessor.Binding
import Memberwise.Proofs.Codec.Family
import Memberwise.Proofs.Message.History
import Memberwise.Samples

/-!
# What a message consists of

The message of an instance is the frames of its members back to back (`Layout.message`): the frame of a member is the
bytes of its value, behind their number if the member is prefixed (`LengthPrefix.frame`).

If the writer of every member keeps to one encoding (`Layout.Puts`), then encoding members into a buffer replaces one
region of it by their message and leaves the rest alone (`Layout.encode_eq_ok`). If the measure keeps to it as well
(`Layout.Writes`), a serialized instance fills a buffer of its own, so it is its message
(`Serializer.serializeWith_eq_ok`).
-/

namespace Memberwise

/-- What stands in front of a member of the given length. -/
def LengthPrefix.head (p : LengthPrefix) : LengthMode → Nat → Bytes
  | .implicit, _ => []
  | .prefixed, n => p.encode n

/-- The bytes of a member in a message, given the bytes of its value. -/
def LengthPrefix.frame (p : LengthPrefix) (mode : LengthMode) (body : Bytes) : Bytes :=
  p.head mode body.length ++ body

/-- The bytes of the value that a member has in an instance. -/
def Member.body {H : Type} (m : Member H) (enc : m.type.Carrier → Bytes) (x : H) : Bytes :=
  match m.getter with
  | some get => enc (get x)
  | none => []

/-- The frame of a member of an instance. -/
def Member.frame {H : Type} (m : Member H) (p : LengthPrefix) (enc : MemberEncoding H) (x : H) : Bytes :=
  p.frame m.codec.length (m.body (enc m) x)

/-- The message of an instance: the frames of its members, in their order. -/
def Layout.message {H : Type} (p : LengthPrefix) (enc : MemberEncoding H) (members : List (Member H)) (x : H) :
    Bytes :=
  members.flatMap fun m => m.frame p enc x

@[simp] theorem Layout.message_nil {H : Type} (p : LengthPrefix) (enc : MemberEncoding H) (x : H) :
    message p enc [] x = [] := rfl

theorem Layout.message_cons {H : Type} (p : LengthPrefix) (enc : MemberEncoding H) (m : Member H)
    (rest : List (Member H)) (x : H) : message p enc (m :: rest) x = m.frame p enc x ++ message p enc rest x :=
  List.flatMap_cons

/-- Whether a member can stand in a message: it can be read, and if it is prefixed then its length fits. -/
def Member.Fits {H : Type} (m : Member H) (p : LengthPrefix) (enc : MemberEncoding H) (x : H) : Prop :=
  m.isReadable ∧ (m.codec.length = .prefixed → (m.body (enc m) x).length ≤ p.maxLength)

theorem Member.body_eq_comp {H : Type} {m : Member H} {get : H → m.type.Carrier} (h : m.getter = some get)
    (enc : m.type.Carrier → Bytes) : m.body enc = enc ∘ get := by
  funext x
  simp only [Member.body, h, Function.comp_apply]

theorem LengthPrefix.maxLength_eq (p : LengthPrefix) : p.maxLength + 1 = 256 ^ p.width := by cases p <;> rfl

theorem LengthPrefix.length_encode (p : LengthPrefix) (n : Nat) : (p.encode n).length = p.width :=
  Numeral.length_little p.width n

/-- A length that fits is read back whole. -/
theorem LengthPrefix.ofLittle_encode (p : LengthPrefix) {n : Nat} (h : n ≤ p.maxLength) :
    Numeral.ofLittle (p.encode n) = n := by
  have hlt : n < 256 ^ p.width := by
    rw [← p.maxLength_eq]
    omega
  rw [encode, Numeral.ofLittle_little, Nat.mod_eq_of_lt hlt]

namespace Layout

variable {H : Type} {p : LengthPrefix} {enc : MemberEncoding H}

theorem length_body_le {members : List (Member H)} {x : H} {m : Member H} (hm : m ∈ members) :
    (m.body (enc m) x).length ≤ (message p enc members x).length := by
  induction members with
  | nil => cases hm
  | cons m' rest ih =>
    rw [message_cons, List.length_append]
    rcases List.mem_cons.1 hm with rfl | hm
    · rw [Member.frame, LengthPrefix.frame, List.length_append]
      omega
    · have hrest := ih hm
      omega

/-- An accessor set that writes and measures a member in one encoding of its values. -/
structure Writes (m : Member H) (s : AccessorSet H) (enc : m.type.Carrier → Bytes) : Prop where
  length : s.length = m.codec.length
  write : ∀ w ∈ s.write, Stores w.call (m.body enc)
  sizeOf : ∀ z ∈ s.sizeOf, Measures z.call (m.body enc) ∧ m.isReadable

/-- An accessor set that writes a member in one encoding of its values, however it measures them. -/
structure Puts (m : Member H) (s : AccessorSet H) (enc : m.type.Carrier → Bytes) : Prop where
  length : s.length = m.codec.length
  write : ∀ w ∈ s.write, Stores w.call (m.body enc)
  readable : s.sizeOf.isSome → m.isReadable

theorem Writes.puts {m : Member H} {s : AccessorSet H} {enc : m.type.Carrier → Bytes} (hs : Writes m s enc) :
    Puts m s enc where
  length := hs.length
  write := hs.write
  readable hsome := by
    obtain ⟨z, hz⟩ := Option.isSome_iff_exists.1 hsome
    exact (hs.sizeOf z hz).2

/-- A member that is bound to lawful operations is written and measured in their encoding. -/
theorem writes_of_binds {m : Member H} {r : Registry} {s : AccessorSet H} (hb : m.Binds r s)
    (hlawful : LawfulMember r enc m) : Writes m s (enc m) := by
  cases hget : m.getter with
  | none =>
    obtain ⟨hwrite, hsizeOf⟩ := hb.unread hget
    exact ⟨hb.length, by simp [hwrite], by simp [hsizeOf]⟩
  | some get =>
    obtain ⟨w, z, hw, hz, hwrite, hsizeOf⟩ := hb.read get hget
    have hlaw := hlawful w z hw hz
    refine ⟨hb.length, ?_, ?_⟩
    · rw [hwrite, m.body_eq_comp hget]
      rintro _ ⟨⟩
      exact hlaw.stores.comap get
    · rw [hsizeOf, m.body_eq_comp hget]
      rintro _ ⟨⟩
      exact ⟨hlaw.measures.comp get, by rw [Member.isReadable, hget]; rfl⟩

theorem puts_of_writes {members : List (Member H)} {sets : List (AccessorSet H)}
    (hs : List.Forall₂ (fun m s => Writes m s (enc m)) members sets) :
    List.Forall₂ (fun m s => Puts m s (enc m)) members sets := hs.imp fun _ _ hm => hm.puts

/-! ### Measuring -/

theorem isSome_of_memberSize {s : AccessorSet H} {x : H} {size : UInt64} (h : memberSize s x = .ok size) :
    s.sizeOf.isSome := by
  unfold memberSize at h
  split at h
  · next hz =>
    rw [hz]
    rfl
  · cases h

theorem memberSize_eq_ok {m : Member H} {s : AccessorSet H} (hs : Writes m s (enc m)) {x : H} {size : UInt64}
    (h : memberSize s x = .ok size) : size = UInt64.ofNat (m.body (enc m) x).length := by
  unfold memberSize at h
  split at h
  · next z hz =>
    cases h
    exact (hs.sizeOf z hz).1 x
  · cases h

theorem checkPrefix_eq_ok {s : AccessorSet H} {length : UInt64} (h : checkPrefix p s length = .ok ()) :
    length.toNat ≤ p.maxLength := by
  unfold checkPrefix at h
  split at h
  · cases h
  · omega

theorem advance_of_lt {total n : UInt64} (h : total.toNat + n.toNat < 2 ^ 64) : advance total n = .ok (total + n) :=
  if_pos h

theorem advance_of_le {total n : UInt64} (h : 2 ^ 64 ≤ total.toNat + n.toNat) : advance total n = Outcome.fault :=
  if_neg (Nat.not_lt_of_le h)

theorem advance_eq_ok {total n sum : UInt64} (h : advance total n = .ok sum) :
    sum = total + n ∧ sum.toNat = total.toNat + n.toNat := by
  unfold advance at h
  split at h
  · next hlt =>
    cases h
    exact ⟨rfl, by rw [UInt64.toNat_add, Nat.mod_eq_of_lt hlt]⟩
  · cases h

theorem advance_eq_error {total n : UInt64} {e : Stop} (h : advance total n = .error e) : e = .fault := by
  unfold advance at h
  split at h
  · cases h
  · cases h
    rfl

theorem measureMember_eq_ok {m : Member H} {s : AccessorSet H} (hs : Writes m s (enc m)) {x : H} {size : UInt64}
    (h : measureMember p s x = .ok size) : headWidth p s + size = UInt64.ofNat (m.frame p enc x).length := by
  obtain ⟨body, hbody, h⟩ := bind_eq_ok_iff.1 h
  have hsize := memberSize_eq_ok hs hbody
  rw [Member.frame, ← hs.length, LengthPrefix.frame, List.length_append, UInt64.ofNat_add, ← hsize, headWidth]
  split at h
  · next hmode =>
    cases h
    rw [hmode]
    rfl
  · next hmode =>
    obtain ⟨-, -, h⟩ := bind_eq_ok_iff.1 h
    cases h
    rw [hmode, LengthPrefix.head, p.length_encode]

theorem measureFrom_eq_ok {members : List (Member H)} {sets : List (AccessorSet H)} {x : H} {total size : UInt64}
    (hs : List.Forall₂ (fun m s => Writes m s (enc m)) members sets) (h : measureFrom p x total sets = .ok size) :
    size = total + UInt64.ofNat (message p enc members x).length := by
  induction hs generalizing total with
  | nil =>
    cases h
    exact (UInt64.add_zero _).symm
  | @cons m s rest sets hm _ ih =>
    unfold measureFrom at h
    split at h
    · cases h
    next first hfirst =>
    obtain ⟨start, hstart, h⟩ := bind_eq_ok_iff.1 h
    obtain ⟨total', htotal', h⟩ := bind_eq_ok_iff.1 h
    rw [ih h, (advance_eq_ok htotal').1, (advance_eq_ok hstart).1, UInt64.add_assoc total, measureMember_eq_ok hm hfirst,
      message_cons, List.length_append, UInt64.ofNat_add, UInt64.add_assoc]

theorem measure_eq_ok {members : List (Member H)} {sets : List (AccessorSet H)} {x : H} {size : UInt64}
    (hs : List.Forall₂ (fun m s => Writes m s (enc m)) members sets) (h : measure p sets x = .ok size) :
    size = UInt64.ofNat (message p enc members x).length := by
  rw [measureFrom_eq_ok hs h, UInt64.zero_add]

/-! ### Writing -/

/-- What writing data at a position leaves behind: the data stand there, the rest of the buffer is as it was, and the
position is behind them. -/
structure Placed (data buf : Bytes) (pos : UInt64) (out : Bytes) (pos' : UInt64) : Prop where
  fits : pos.toNat + data.length ≤ buf.length
  buffer : out = buf.overwrite pos.toNat data
  position : pos'.toNat = pos.toNat + data.length

theorem Placed.nil {buf : Bytes} {pos : UInt64} (h : pos.toNat ≤ buf.length) : Placed [] buf pos buf pos :=
  ⟨h, (Bytes.overwrite_nil buf pos.toNat).symm, rfl⟩

theorem Placed.length {data buf out : Bytes} {pos pos' : UInt64} (h : Placed data buf pos out pos') :
    out.length = buf.length := by
  rw [h.buffer]
  exact Bytes.length_overwrite h.fits

/-- Data written one after the other stand there as one piece. -/
theorem Placed.append {first second buf mid out : Bytes} {pos pos' pos'' : UInt64}
    (hfirst : Placed first buf pos mid pos') (hsecond : Placed second mid pos' out pos'') :
    Placed (first ++ second) buf pos out pos'' := by
  have hfits := hsecond.fits
  rw [hfirst.position, hfirst.length] at hfits
  refine ⟨?_, ?_, ?_⟩
  · rw [List.length_append]
    omega
  · have hpos : pos.toNat ≤ buf.length := Nat.le_trans (Nat.le_add_right _ _) hfirst.fits
    rw [hsecond.buffer, hfirst.position, hfirst.buffer, Bytes.overwrite_overwrite first second hpos]
  · rw [hsecond.position, hfirst.position, List.length_append, Nat.add_assoc]

theorem writeHead_eq_ok {s : AccessorSet H} {size pos : UInt64} {buf out : Bytes} (hpos : pos.toNat ≤ buf.length)
    (hbuf : buf.length < 2 ^ 64) (h : writeHead p s size buf pos = .ok out) :
    Placed (p.head s.length size.toNat) buf pos out (pos + headWidth p s) ∧
      (s.length = .prefixed → size.toNat ≤ p.maxLength) := by
  unfold writeHead at h
  unfold headWidth
  split at h
  · next hmode =>
    cases h
    rw [hmode]
    refine ⟨?_, by simp⟩
    rw [UInt64.add_zero]
    exact Placed.nil hpos
  next hmode =>
  split at h
  · cases h
  next hcheck =>
  rw [hmode]
  refine ⟨?_, fun _ => checkPrefix_eq_ok hcheck⟩
  cases hout : buf.overwrite? pos.toNat (p.encode size.toNat) with
  | none =>
    rw [hout] at h
    cases h
  | some out' =>
    rw [hout] at h
    cases h
    obtain ⟨hfits, hbuffer⟩ := Bytes.overwrite?_eq_some_iff.1 hout
    refine ⟨hfits, hbuffer.symm, ?_⟩
    rw [p.length_encode] at hfits
    rw [Bytes.toNat_add_ofNat hfits hbuf, LengthPrefix.head, p.length_encode]

/-- A member that was written takes as many bytes as were measured. -/
theorem writeBody_eq_ok {m : Member H} {s : AccessorSet H} (hs : Puts m s (enc m)) {x : H} {size pos pos' : UInt64}
    {buf out : Bytes} (hbuf : buf.length < 2 ^ 64) (h : writeBody s x size buf pos = (.ok pos', out)) :
    Placed (m.body (enc m) x) buf pos out pos' ∧ size.toNat = (m.body (enc m) x).length := by
  unfold writeBody at h
  split at h
  · cases h
  next w hw =>
  split at h
  · cases h
  next out' written hrun =>
  split at h
  · next hsame =>
    obtain ⟨hend, rfl⟩ := Prod.mk.inj h
    obtain ⟨hfits, hbuffer, hwritten⟩ := (hs.write w hw).of_run_eq_some hrun
    have hcounted : (m.body (enc m) x).length < 2 ^ 64 := by omega
    have hcount : written.toNat = (m.body (enc m) x).length := by
      rw [hwritten, UInt64.toNat_ofNat_of_lt' hcounted]
    refine ⟨⟨hfits, hbuffer, ?_⟩, by rw [← hsame, hcount]⟩
    rw [(advance_eq_ok hend).2, hcount]
  · cases h

theorem encodeMember_eq_ok {m : Member H} {s : AccessorSet H} (hs : Puts m s (enc m)) {x : H} {pos pos' : UInt64}
    {buf out : Bytes} (hpos : pos.toNat ≤ buf.length) (hbuf : buf.length < 2 ^ 64)
    (h : encodeMember p s x buf pos = (.ok pos', out)) :
    Placed (m.frame p enc x) buf pos out pos' ∧ m.Fits p enc x := by
  unfold encodeMember at h
  split at h
  · cases h
  next size hmeasured =>
  split at h
  · cases h
  next mid hhead =>
  split at h
  · cases h
  next start hstart =>
  obtain ⟨hplaced, hmax⟩ := writeHead_eq_ok hpos hbuf hhead
  rw [← (advance_eq_ok hstart).1] at hplaced
  -- only now is the size known to be that of the body: there was room for all of it, and the writer agrees
  obtain ⟨hbody, hsize⟩ := writeBody_eq_ok hs (hplaced.length ▸ hbuf) h
  rw [hsize, hs.length] at hplaced
  rw [hsize, hs.length] at hmax
  exact ⟨hplaced.append hbody, hs.readable (isSome_of_memberSize hmeasured), hmax⟩

/-- Writing members places their message. -/
theorem encode_eq_ok {members : List (Member H)} {sets : List (AccessorSet H)} {x : H} {pos pos' : UInt64}
    {buf out : Bytes} (hs : List.Forall₂ (fun m s => Puts m s (enc m)) members sets)
    (hpos : pos.toNat ≤ buf.length) (hbuf : buf.length < 2 ^ 64)
    (h : encode p x sets buf pos = (.ok pos', out)) :
    Placed (message p enc members x) buf pos out pos' ∧ ∀ m ∈ members, m.Fits p enc x := by
  -- what one member places is carried on as the buffer and the position that the next one starts from
  induction hs generalizing buf pos with
  | nil =>
    cases h
    exact ⟨Placed.nil hpos, by simp⟩
  | @cons m s rest sets hm _ ih =>
    unfold encode at h
    split at h
    · cases h
    next mid out' hmember =>
    obtain ⟨hfirst, hfits⟩ := encodeMember_eq_ok hm hpos hbuf hmember
    have hmid : mid.toNat ≤ out'.length := by
      rw [hfirst.position, hfirst.length]
      exact hfirst.fits
    obtain ⟨hrest, hfits'⟩ := ih hmid (hfirst.length ▸ hbuf) h
    rw [message_cons]
    exact ⟨hfirst.append hrest, List.forall_mem_cons.2 ⟨hfits, hfits'⟩⟩

end Layout

namespace Serializer

variable {F : HostFamily} {locate : Locator F} {origin : Origin F} {s : Serializer F} {h : F.Host}

theorem measureChecked_eq_ok {H : Type} {config : MessageConfig} {sets : List (AccessorSet H)} {x : H} {total : UInt64}
    (hchecked : measureChecked config sets x = .ok total) :
    Layout.measure config.lengthPrefix sets x = .ok total := by
  obtain ⟨total', htotal, hchecked⟩ := bind_eq_ok_iff.1 hchecked
  split at hchecked
  · cases hchecked
  · cases hchecked
    exact htotal

/-- A message written into a buffer of its own fills it. -/
theorem serializeWith_eq_ok {H : Type} {config : MessageConfig} {enc : MemberEncoding H} {members : List (Member H)}
    {sets : List (AccessorSet H)} {x : H} {b : Bytes}
    (hs : List.Forall₂ (fun m s => Layout.Writes m s (enc m)) members sets)
    (hb : serializeWith config x sets = .ok b) :
    b = Layout.message config.lengthPrefix enc members x ∧ (∀ m ∈ members, m.Fits config.lengthPrefix enc x) ∧
      ∃ total, Layout.measure config.lengthPrefix sets x = .ok total ∧ total.toNat = b.length := by
  unfold serializeWith at hb
  split at hb
  · cases hb
  next total hchecked =>
  split at hb
  · cases hb
  next hroom =>
  split at hb
  · cases hb
  next pos out hencode =>
  cases hb
  have hmeasure := measureChecked_eq_ok hchecked
  have hlength : (List.replicate total.toNat (0 : UInt8)).length = total.toNat := List.length_replicate
  obtain ⟨hplaced, hfits⟩ := Layout.encode_eq_ok (Layout.puts_of_writes hs) (by simp) (by rw [hlength]; omega)
    hencode
  -- the buffer is no longer than the message, since its length is that of the message modulo `2 ^ 64`
  have hfull : (Layout.message config.lengthPrefix enc members x).length = total.toNat := by
    have hroom' := hplaced.fits
    have hword := Layout.measure_eq_ok hs hmeasure
    have hle : total.toNat ≤ (Layout.message config.lengthPrefix enc members x).length := by
      rw [hword, UInt64.toNat_ofNat']
      exact Nat.mod_le _ _
    rw [hlength, UInt64.toNat_zero, Nat.zero_add] at hroom'
    omega
  have hall : b = Layout.message config.lengthPrefix enc members x := by
    rw [hplaced.buffer]
    exact Bytes.overwrite_all (hfull.trans hlength.symm)
  exact ⟨hall, hfits, total, hmeasure, by rw [hall, hfull]⟩

theorem serialize_eq_ok {members : List (Member (F.Instance h))} {x : F.Instance h} {b : Bytes}
    (hb : (s.serialize h members x).1 = .ok b) :
    ∃ t, (s.table h members).1 = .ok t ∧ serializeWith s.config x (t.value.sets.map (·.value)) = .ok b := by
  rw [serialize, withTable_fst] at hb
  split at hb
  · cases hb
  · next t ht => exact ⟨t, ht, hb⟩

/-- What is known once an instance of lawful members was serialized: the members differ in name, the table holds what
they compile to, and the bytes are the message of the instance, as many as were measured. -/
theorem serialize_spec {r : Registry} {config : MessageConfig} {calls : List (Call F)}
    {enc : MemberEncoding (F.Instance h)} (hcalls : ∀ call ∈ calls, call.Genuine locate)
    (hlawful : ∀ m ∈ locate h, LawfulMember r enc m) {x : F.Instance h} {b : Bytes}
    (hb : ((inUse locate r config calls).serialize h (locate h) x).1 = .ok b) :
    ∃ t, ((inUse locate r config calls).table h (locate h)).1 = .ok t ∧ ((locate h).map (·.name)).Nodup ∧
      Compiled r (F.name h) (locate h) (t.value.sets.map (·.value)) ∧
      b = Layout.message config.lengthPrefix enc (locate h) x ∧
      (∀ m ∈ locate h, m.Fits config.lengthPrefix enc x) ∧
      ∃ total, Layout.measure config.lengthPrefix (t.value.sets.map (·.value)) x = .ok total ∧
        total.toNat = b.length := by
  obtain ⟨t, ht, hwith⟩ := serialize_eq_ok hb
  rw [config_inUse] at hwith
  obtain ⟨hnodup, hcompiled⟩ := compiled_of_table hcalls ht
  have hwrites : List.Forall₂ (fun m s => Layout.Writes m s (enc m)) (locate h) (t.value.sets.map (·.value)) :=
    hcompiled.imp fun m hm s hs => Layout.writes_of_binds (Member.binds_of_compile hs) (hlawful m hm)
  exact ⟨t, ht, hnodup, hcompiled, serializeWith_eq_ok hwrites hwith⟩

/-- A serialized instance is its message: the values of its members back to back, in the order of the members, each
in the encoding that its writer and measure keep to, and the prefixed ones, but no others, behind their length. The
length is whole. Both before and after, the size of the message is the number of its bytes. Of the calls before it is
asked that they are genuine: none compiled another member under the key of a declared one. -/
theorem serialize_eq_message (locate : Locator F) (r : Registry) (config : MessageConfig) (calls : List (Call F))
    (hcalls : ∀ call ∈ calls, call.Genuine locate) (h : F.Host) (enc : MemberEncoding (F.Instance h))
    (hlawful : ∀ m ∈ locate h, LawfulMember r enc m) (x : F.Instance h) (b : Bytes)
    (hb : ((inUse locate r config calls).serialize h (locate h) x).1 = .ok b) :
    b = Layout.message config.lengthPrefix enc (locate h) x ∧
      (∀ m ∈ locate h, m.isReadable ∧ (m.codec.length = .prefixed →
        Numeral.ofLittle (config.lengthPrefix.encode (m.body (enc m) x).length) = (m.body (enc m) x).length)) ∧
      ∀ s ∈ [inUse locate r config calls, ((inUse locate r config calls).serialize h (locate h) x).2],
        ∃ size, (s.sizeOf h (locate h) x).1 = .ok size ∧ size.toNat = b.length := by
  obtain ⟨t, ht, -, -, hall, hfits, total, hmeasure, htotal⟩ := serialize_spec hcalls hlawful hb
  refine ⟨hall, fun m hm => ⟨(hfits m hm).1, fun hmode => ?_⟩, fun s hs => ⟨total, ?_, htotal⟩⟩
  · exact LengthPrefix.ofLittle_encode _ ((hfits m hm).2 hmode)
  have hsame : (s.table h (locate h)).1 = .ok t ∧ s.config = config := by
    rcases List.mem_cons.1 hs with rfl | hs
    · exact ⟨ht, config_inUse r config calls⟩
    · rw [List.mem_singleton] at hs
      subst hs
      refine ⟨?_, (config_after _ (.serialize h x)).trans (config_inUse r config calls)⟩
      rw [serialize, withTable_snd, table_table, ht]
  rw [sizeOf, withTable_fst, hsame.1, hsame.2]
  exact hmeasure

/-- The bytes of the sample record with its numbers highest byte first: its lengths are lowest byte first. -/
def recordBytes : Bytes :=
  [255, 255, 255, 255, 255, 255, 255, 214] ++ [8, 0] ++ Text.utf8 "wirebind" ++ [4, 0] ++ [222, 173, 190, 239] ++
    [0, 0, 1, 139, 207, 229, 104, 0] ++ [5]

theorem serialize_record_eq_message :
    ∃ s : Serializer (Sample.family "samples"),
      (s.serialize .record Record.members Record.sample).1 = .ok recordBytes ∧
        recordBytes = Layout.message .u16 (Builtin.encoding .big) Record.members Record.sample ∧
        ∃ size, (s.sizeOf .record Record.members Record.sample).1 = .ok size ∧ size.toNat = recordBytes.length := by
  have hb : ((inUse (F := Sample.family "samples") Sample.members (Registry.builtin ⟨.big, false⟩) ⟨.u16, 4096⟩
      [.register .record]).serialize .record Record.members Record.sample).1 = .ok recordBytes := by rfl
  have hmatched : ∀ m ∈ Record.members, m.Matched := by decide
  have h := serialize_eq_message (F := Sample.family "samples") Sample.members (Registry.builtin ⟨.big, false⟩)
    ⟨.u16, 4096⟩ [.register .record] (by simp [Call.Within]) .record (Builtin.encoding .big)
    (fun m hm => (hmatched m hm).lawful) Record.sample recordBytes hb
  exact ⟨_, hb, h.1, h.2.2 _ (.head _)⟩

end Serializer

end Memberwise
