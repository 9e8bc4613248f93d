import Memberwise.Proofs.Message.ReadBack

/-!
# Messages that were cut

If a message of members of fixed width and prefixed ones is cut anywhere, reading it stops at the member that the cut is
in, and reports this member with what it needs and what is left of it (`Member.shortfall`, `Layout.decode_take`). A
member of fixed width needs its width. A prefixed one needs the width of its length first, and then, if that is there, as
many bytes as it says.
-/

namespace Memberwise

/-- What is reported of a member of an instance if only the first `k` bytes of its frame are there. -/
def Member.shortfall {H : Type} (m : Member H) (p : LengthPrefix) (enc : MemberEncoding H) (v : H) (k : Nat) :
    MessageError :=
  match m.codec.length with
  | .implicit => .truncated m.name (Builtin.fixedWidth m.type) k
  | .prefixed =>
    if k < p.width then .truncated m.name p.width k
    else .truncated m.name (m.body (enc m) v).length (k - p.width)

namespace Layout

variable {H : Type} {p : LengthPrefix} {enc : MemberEncoding H}

/-! ### One member -/

theorem decodeImplicit_take {m : Member H} {s : AccessorSet H} (hs : Reads m s enc)
    (hmode : m.codec.length = .implicit) (hwidth : m.KeepsWidth enc) (least v x : H) {pre : Bytes} {pos : UInt64}
    (hpos : pos.toNat = pre.length) {k : Nat} (hk : k < (m.body (enc m) v).length) :
    decodeImplicit s least x (pre ++ (m.body (enc m) v).take k) pos =
      (.error (.error (.truncated m.name (Builtin.fixedWidth m.type) k)), x) := by
  have hlength := hwidth hmode
  have hroom : available (pre ++ (m.body (enc m) v).take k) pos = k := by
    simp only [available, hpos, List.length_append, List.length_take]
    omega
  have hprobe : m.probe enc least = Builtin.fixedWidth m.type := by
    rw [Member.probe, hlength, Builtin.toNat_ofNat_fixedWidth]
  have hshort : available (pre ++ (m.body (enc m) v).take k) pos < m.probe enc least := by
    rw [hroom, hprobe]
    rwa [hlength] at hk
  rw [decodeImplicit_of_lt_probe hs x hshort, hroom, hprobe]

theorem decodePrefixed_take {m : Member H} {s : AccessorSet H} (hs : Reads m s enc) {v : H}
    (hmax : (m.body (enc m) v).length ≤ p.maxLength) (x : H) {pre : Bytes} {pos : UInt64} (hpos : pos.toNat = pre.length)
    {k : Nat} (hk : k < (p.frame .prefixed (m.body (enc m) v)).length) :
    decodePrefixed p s x (pre ++ (p.frame .prefixed (m.body (enc m) v)).take k) pos =
      (.error (.error (if k < p.width then .truncated m.name p.width k
        else .truncated m.name (m.body (enc m) v).length (k - p.width))), x) := by
  have hlength := p.length_encode (m.body (enc m) v).length
  have hroom : available (pre ++ (p.frame .prefixed (m.body (enc m) v)).take k) pos = k := by
    simp only [available, hpos, List.length_append, List.length_take]
    omega
  by_cases hshort : k < p.width
  · have hnone : (pre ++ (p.frame .prefixed (m.body (enc m) v)).take k).slice? pos.toNat p.width = none := by
      rw [← Option.not_isSome_iff_eq_none, Bytes.isSome_slice?, hpos]
      simp only [List.length_append, List.length_take]
      omega
    simp only [decodePrefixed, hroom, hnone, hs.member]
    rw [if_pos hshort]
    rfl
  · have hsplit : (p.frame .prefixed (m.body (enc m) v)).take k =
        p.encode (m.body (enc m) v).length ++ (m.body (enc m) v).take (k - p.width) := by
      rw [LengthPrefix.frame, LengthPrefix.head, List.take_append, hlength,
        List.take_of_length_le (by rw [hlength]; omega)]
    have hhead : (pre ++ (p.frame .prefixed (m.body (enc m) v)).take k).slice? pos.toNat p.width =
        some (p.encode (m.body (enc m) v).length) := by
      have hslice := Bytes.slice?_append pre (p.encode (m.body (enc m) v).length) ((m.body (enc m) v).take (k - p.width))
      rw [hlength, List.append_assoc] at hslice
      rw [hpos, hsplit, hslice]
    have hless : k - p.width < (m.body (enc m) v).length := by
      rw [LengthPrefix.frame, LengthPrefix.head, List.length_append, hlength] at hk
      omega
    simp only [decodePrefixed, hroom, hhead, p.ofLittle_encode hmax, hs.member]
    rw [if_pos hless, if_neg hshort]
    rfl

/-- Reading a member whose frame was cut reports what is missing, and leaves the instance alone. -/
theorem decodeMember_take {m : Member H} {s : AccessorSet H} (hs : Reads m s enc) {v : H} (hfits : m.Fits p enc v)
    (hwidth : m.KeepsWidth enc) (least x : H) {pre : Bytes} {pos : UInt64} (hpos : pos.toNat = pre.length) {k : Nat}
    (hk : k < (m.frame p enc v).length) :
    decodeMember p s least x (pre ++ (m.frame p enc v).take k) pos = (.error (.error (m.shortfall p enc v k)), x) := by
  unfold decodeMember Member.shortfall
  unfold Member.frame at hk ⊢
  rw [hs.length]
  cases hmode : m.codec.length with
  | implicit =>
    rw [hmode] at hk
    exact decodeImplicit_take hs hmode hwidth least v x hpos hk
  | prefixed =>
    rw [hmode] at hk
    exact decodePrefixed_take hs (hfits.2 hmode) x hpos hk

/-! ### Whole messages -/

/-- A message that was cut is the message of the members before the cut, and what is left of the member that the cut is
in. -/
theorem exists_cut {members : List (Member H)} {v : H} {cut : Nat} (hcut : cut < (message p enc members v).length) :
    ∃ before m after, members = before ++ m :: after ∧ (message p enc before v).length ≤ cut ∧
      cut < (message p enc before v).length + (m.frame p enc v).length ∧
      (message p enc members v).take cut =
        message p enc before v ++ (m.frame p enc v).take (cut - (message p enc before v).length) := by
  induction members generalizing cut with
  | nil => exact absurd hcut (Nat.not_lt_zero cut)
  | cons m rest ih =>
    rw [message_cons] at hcut ⊢
    by_cases hin : cut < (m.frame p enc v).length
    · refine ⟨[], m, rest, rfl, Nat.zero_le _, by simpa using hin, ?_⟩
      rw [List.take_append_of_le_length (Nat.le_of_lt hin)]
      rfl
    · have hcut' : cut - (m.frame p enc v).length < (message p enc rest v).length := by
        rw [List.length_append] at hcut
        omega
      obtain ⟨before, m', after, rfl, hstart, hend, htake⟩ := ih hcut'
      have hbefore : (message p enc (m :: before) v).length =
          (m.frame p enc v).length + (message p enc before v).length := by
        rw [message_cons, List.length_append]
      refine ⟨m :: before, m', after, rfl, by omega, by omega, ?_⟩
      rw [List.take_append, List.take_of_length_le (Nat.le_of_not_lt hin), htake, hbefore, message_cons,
        List.append_assoc, Nat.sub_sub]

/-- Reading a message that was cut copies the members before the cut and comes to the one that the cut is in. -/
theorem decode_to_cut {R : Member H → AccessorSet H → Prop} (hR : ∀ m s, R m s → Reads m s enc)
    {members : List (Member H)} {sets : List (AccessorSet H)} {least v : H}
    (hs : List.Forall₂ R members sets) (hfits : ∀ m ∈ members, m.Fits p enc v)
    (hsteady : ∀ m ∈ members, m.Steady enc least v) (x : H) {pre : Bytes} {pos : UInt64} (hpos : pos.toNat = pre.length)
    {cut : Nat} (hcut : cut < (message p enc members v).length)
    (hbuf : (pre ++ (message p enc members v).take cut).length < 2 ^ 64) :
    ∃ before m after s more pos', members = before ++ m :: after ∧ R m s ∧ List.Forall₂ R after more ∧
      (message p enc before v).length ≤ cut ∧ cut < (message p enc before v).length + (m.frame p enc v).length ∧
      pos'.toNat = (pre ++ message p enc before v).length ∧
      decode p least sets x (pre ++ (message p enc members v).take cut) pos =
        decode p least (s :: more) (copyAll before v x)
          (pre ++ message p enc before v ++ (m.frame p enc v).take (cut - (message p enc before v).length)) pos' := by
  obtain ⟨before, m, after, rfl, hstart, hend, htake⟩ := exists_cut hcut
  obtain ⟨sets₁, sets₂, hbefore, hrest, rfl⟩ := exists_append_of_forall₂ hs
  obtain ⟨s, more, hm, hafter, rfl⟩ := List.forall₂_cons_left_iff.1 hrest
  rw [htake, ← List.append_assoc] at hbuf ⊢
  obtain ⟨pos', hpos', hdecode⟩ := decode_append (hbefore.imp fun {m s} => hR m s) (fun m' hm' => hfits m' (List.mem_append_left _ hm'))
    (fun m' hm' => hsteady m' (List.mem_append_left _ hm')) (s :: more) x hpos hbuf
  exact ⟨before, m, after, s, more, pos', rfl, hm, hafter, hstart, hend, hpos', hdecode⟩

/-- Reading a message that was cut copies the members before the cut and stops at the one that the cut is in. -/
theorem decode_take {members : List (Member H)} {sets : List (AccessorSet H)} {v : H}
    (hs : List.Forall₂ (fun m s => Reads m s enc) members sets) (hfits : ∀ m ∈ members, m.Fits p enc v)
    (hwidth : ∀ m ∈ members, m.KeepsWidth enc) (least x : H) {pre : Bytes} {pos : UInt64} (hpos : pos.toNat = pre.length)
    {cut : Nat} (hcut : cut < (message p enc members v).length)
    (hbuf : (pre ++ (message p enc members v).take cut).length < 2 ^ 64) :
    ∃ before m after, members = before ++ m :: after ∧ (message p enc before v).length ≤ cut ∧
      cut < (message p enc before v).length + (m.frame p enc v).length ∧
      decode p least sets x (pre ++ (message p enc members v).take cut) pos =
        (.error (.error (m.shortfall p enc v (cut - (message p enc before v).length))), copyAll before v x) := by
  obtain ⟨before, m, after, s, more, pos', rfl, hm, -, hstart, hend, hpos', hdecode⟩ := decode_to_cut
    (fun _ _ => id) hs hfits (fun m hm => (hwidth m hm).steady least v) x hpos hcut hbuf
  have hmem : m ∈ before ++ m :: after := by simp
  have hstop := decodeMember_take hm (hfits m hmem) (hwidth m hmem) least (copyAll before v x) hpos'
    (k := cut - (message p enc before v).length) (by omega)
  refine ⟨before, m, after, rfl, hstart, hend, ?_⟩
  rw [hdecode, decode, hstop]

end Layout

namespace Serializer

/-- Every cut of a message is reported exactly. Take a registered host type over the built-in codecs whose members are
of fixed width or prefixed. A message of it that was cut is read into any instance up to the first member that ends
after the cut, and the error names this member, what it needs and what is left for it. Both serializers may have been
called before, as long as no other member was compiled under the key of a declared one. -/
theorem deserializeInto_take {F : HostFamily} (locate : Locator F) (rc : RegistryConfig) (config : MessageConfig)
    (sent received : List (Call F)) (hsent : ∀ call ∈ sent, call.Genuine locate)
    (hreceived : ∀ call ∈ received, call.Genuine locate) (h : F.Host)
    (haccess : ∀ m ∈ locate h, m.isReadable ∧ m.isWritable) (hfamily : ∀ m ∈ locate h, m.IsFixed ∨ m.IsPrefixed)
    (v : F.Instance h) (b : Bytes)
    (hb : ((inUse locate (Registry.builtin rc) config sent).serialize h (locate h) v).1 = .ok b)
    (target : F.Instance h) (cut : Nat) (hcut : cut < b.length) :
    b = Layout.message config.lengthPrefix (Builtin.encoding rc.byteOrder) (locate h) v ∧
      ∃ before m after, locate h = before ++ m :: after ∧
        let start := (Layout.message config.lengthPrefix (Builtin.encoding rc.byteOrder) before v).length
        start ≤ cut ∧ cut < start + (m.frame config.lengthPrefix (Builtin.encoding rc.byteOrder) v).length ∧
          ((inUse locate (Registry.builtin rc) config received).deserializeInto h (locate h) target (b.take cut)
            0).1 = (.error (.error (m.shortfall config.lengthPrefix (Builtin.encoding rc.byteOrder) v (cut - start))),
              Layout.copyAll before v target) := by
  have hof : ∀ m ∈ locate h, m.OfFamily := fun m hm => (hfamily m hm).imp_right .inr
  have hlawful : ∀ m ∈ locate h, LawfulMember (Registry.builtin rc) (Builtin.encoding rc.byteOrder) m :=
    fun m hm => (hof m hm).matched.lawful
  obtain ⟨_, -, hnodup, hcompiled, hmessage, hfits, total, -, htotal⟩ := serialize_spec hsent hlawful hb
  have hwidth : ∀ m ∈ locate h, m.KeepsWidth (Builtin.encoding rc.byteOrder) := by
    intro m hm
    obtain ⟨s, hs⟩ := hcompiled.exists_of_mem m hm
    rcases hfamily m hm with hfixed | hprefixed
    · exact hfixed.keepsWidth hs (haccess m hm).1 (haccess m hm).2
    · exact hprefixed.keepsWidth _
  obtain ⟨t, ht, hreads⟩ := exists_table_reads config hreceived haccess hof hnodup hcompiled.exists_of_mem
  have hlength : b.length < 2 ^ 64 := htotal ▸ total.toNat_lt
  rw [hmessage] at hcut hlength
  have hbuf : ([] ++ (Layout.message config.lengthPrefix (Builtin.encoding rc.byteOrder) (locate h) v).take
      cut).length < 2 ^ 64 := by
    rw [List.nil_append, List.length_take]
    omega
  have hpos : (0 : UInt64).toNat = ([] : Bytes).length := rfl
  obtain ⟨before, m, after, hsplit, hstart, hend, hdecode⟩ := Layout.decode_take hreads hfits hwidth (F.default h) target
    hpos hcut hbuf
  refine ⟨hmessage, before, m, after, hsplit, hstart, hend, ?_⟩
  rw [List.nil_append] at hdecode
  rw [deserializeInto_of_table ht, config_inUse, deserializeIntoWith, hmessage, hdecode]

theorem isFixed_or_isPrefixed_record : ∀ m ∈ Record.members, m.IsFixed ∨ m.IsPrefixed := by
  simp only [Record.members, List.forall_mem_cons, List.not_mem_nil, false_imp_iff, implies_true, and_true]
  refine ⟨.inl ⟨rfl, rfl, rfl, ?_⟩, .inr ⟨.inr rfl, rfl, rfl, rfl, ?_⟩, .inr ⟨.inl rfl, rfl, rfl, rfl, ?_⟩,
    .inl ⟨rfl, rfl, rfl, ?_⟩, .inl ⟨rfl, rfl, rfl, ?_⟩⟩
  all_goals rintro _ ⟨⟩

/-- The sample record cut inside of its name, two bytes after the length of it. -/
theorem deserializeInto_take_record :
    let s := inUse (F := Sample.family "samples") Sample.members (Registry.builtin ⟨.big, false⟩) ⟨.u16, 4096⟩ []
    (s.serialize .record Record.members Record.sample).1 = .ok recordBytes ∧
      ∃ before m after, Record.members = before ++ m :: after ∧
        let start := (Layout.message .u16 (Builtin.encoding .big) before Record.sample).length
        start ≤ 12 ∧ 12 < start + (m.frame .u16 (Builtin.encoding .big) Record.sample).length ∧
          (s.deserializeInto .record Record.members Record.start (recordBytes.take 12) 0).1 =
            (.error (.error (m.shortfall .u16 (Builtin.encoding .big) Record.sample (12 - start))),
              Layout.copyAll before Record.sample Record.start) := by
  have hb : ((inUse (F := Sample.family "samples") Sample.members (Registry.builtin ⟨.big, false⟩) ⟨.u16, 4096⟩
      []).serialize .record Record.members Record.sample).1 = .ok recordBytes := by rfl
  have haccess : ∀ m ∈ Record.members, m.isReadable ∧ m.isWritable := by decide
  have htake := deserializeInto_take (F := Sample.family "samples") Sample.members ⟨.big, false⟩ ⟨.u16, 4096⟩ [] []
    (by simp) (by simp) .record haccess isFixed_or_isPrefixed_record Record.sample recordBytes hb Record.start 12
    (by decide)
  exact ⟨hb, htake.2⟩

end Serializer

end Memberwise
