import Memberwise.Proofs.Codec.Digits
import Memberwise.Proofs.Message.RoundTrip
import Memberwise.Proofs.Message.Truncation

/-!
# Messages cut inside of a number

What a cut leaves of a number of variable length still reads as a number, since the reader stops where the input ends, and
the cursor moves by what this other number takes (`Layout.ReadsNumber.decodeMember`). If that is less than there is, zero
digits are left for the members after it (`Varint.drop_take_encode`). As long as these last they are read as anything
else is: a member of fixed width takes its width of them, a number is zero. A prefixed member takes them for a length,
far beyond the end of the input (`Layout.decode_zeros`).

So a cut is overlooked in one case only: some of a number is left, and the zero digits behind what is read of it are
enough for all members that follow (`Member.Overlooked`). Every other cut is reported (`Serializer.deserializeInto_cut`).
-/

namespace Memberwise

variable {H : Type}

namespace Member

/-- Number of bytes that a member of implicit length takes of a run of zero digits. -/
def zeroWidth (m : Member H) : Nat := if m.codec.write = "GetVarBytes" then 1 else Builtin.fixedWidth m.type

/-- Whether all members can be read from so many zero digits. -/
def FitIn (members : List (Member H)) (room : Nat) : Prop :=
  (∀ m ∈ members, m.codec.length = .implicit) ∧ (members.map zeroWidth).sum ≤ room

/-- Whether it goes unnoticed that only `left` bytes of a member are there, and none of the members after it. -/
def Overlooked (m : Member H) (after : List (Member H)) (v : H) (left : Nat) : Prop :=
  m.IsVarint ∧ 0 < left ∧ FitIn after (left - Varint.size (m.number v % 128 ^ left))

instance (members : List (Member H)) (room : Nat) : Decidable (FitIn members room) :=
  inferInstanceAs (Decidable (_ ∧ _))

@[simp] theorem fitIn_nil (room : Nat) : FitIn ([] : List (Member H)) room := by simp [FitIn]

theorem fitIn_cons {m : Member H} {rest : List (Member H)} {room : Nat} :
    FitIn (m :: rest) room ↔
      (m.codec.length = .implicit ∧ m.zeroWidth ≤ room) ∧ FitIn rest (room - m.zeroWidth) := by
  simp only [FitIn, List.forall_mem_cons, List.map_cons, List.sum_cons]
  constructor
  · rintro ⟨⟨hm, hrest⟩, hsum⟩
    exact ⟨⟨hm, by omega⟩, hrest, by omega⟩
  · rintro ⟨⟨hm, hle⟩, hrest, hsum⟩
    exact ⟨⟨hm, hrest⟩, by omega⟩

theorem size_number_eq_one {m : Member H} {x : H} (h : m.number x < 128) : Varint.size (m.number x) = 1 := by
  rw [Varint.size, if_pos h]

end Member

namespace Layout

variable {p : LengthPrefix} {enc : MemberEncoding H} {least : H}

/-- The error of an input that is too short for one of the members. -/
def ReportsShort (members : List (Member H)) (result : Outcome UInt64) : Prop :=
  ∃ m ∈ members, ∃ needed available, available < needed ∧
    result = .error (.error (.truncated m.name needed available))

theorem ReportsShort.mono {members more : List (Member H)} {result : Outcome UInt64}
    (h : ReportsShort members result) (hsub : members ⊆ more) : ReportsShort more result := by
  obtain ⟨m, hm, hreport⟩ := h
  exact ⟨m, hsub hm, hreport⟩

theorem ReportsShort.decode {m : Member H} {s : AccessorSet H} {x : H} {buf : Bytes} {pos : UInt64}
    (h : ReportsShort [m] (decodeMember p s least x buf pos).1) (after : List (Member H))
    (more : List (AccessorSet H)) : ReportsShort (m :: after) (decode p least (s :: more) x buf pos).1 := by
  obtain ⟨m', hm', needed, avail, hlt, hreport⟩ := h
  rw [List.mem_singleton] at hm'
  subst hm'
  refine ⟨m', .head _, needed, avail, hlt, ?_⟩
  rw [Layout.decode]
  split
  · next heq => rwa [heq] at hreport
  · next heq =>
    rw [heq] at hreport
    cases hreport

theorem reportsShort_shortfall {m : Member H} {v : H} (hwidth : m.KeepsWidth enc) {k : Nat}
    (hk : k < (m.frame p enc v).length) : ReportsShort [m] (.error (.error (m.shortfall p enc v k))) := by
  unfold Member.frame LengthPrefix.frame at hk
  unfold Member.shortfall
  cases hmode : m.codec.length with
  | implicit =>
    rw [hmode, LengthPrefix.head, List.nil_append, hwidth hmode] at hk
    exact ⟨m, .head _, _, _, hk, rfl⟩
  | prefixed =>
    rw [hmode, LengthPrefix.head, List.length_append, p.length_encode] at hk
    dsimp only
    split
    · next hshort => exact ⟨m, .head _, _, _, hshort, rfl⟩
    · exact ⟨m, .head _, _, _, by omega, rfl⟩

/-! ### Reading numbers -/

/-- An accessor set that takes whatever it finds for a number, and measures the number that a member stands for. -/
structure ReadsNumber (m : Member H) (s : AccessorSet H) : Prop where
  length : s.length = .implicit
  size : ∀ x, ∃ size, memberSize s x = .ok size ∧ size.toNat = Varint.size (m.number x)
  read : ∃ read, s.readScalar = some read ∧ ∀ x buf pos, pos.toNat ≤ buf.length →
    ∃ y, read.call x buf pos = some y ∧
      m.number y = Varint.decode (buf.drop pos.toNat) % 2 ^ (8 * Builtin.fixedWidth m.type)

/-- A number is read from what there is, and the cursor moves by what this number takes. -/
theorem ReadsNumber.decodeMember {m : Member H} {s : AccessorSet H} (hs : ReadsNumber m s)
    (hleast : m.number least < 128) (x : H) {pre data : Bytes} {pos : UInt64} (hpos : pos.toNat = pre.length)
    (hbuf : (pre ++ data).length < 2 ^ 64) {n : Nat}
    (hn : Varint.decode data % 2 ^ (8 * Builtin.fixedWidth m.type) = n) (hroom : Varint.size n ≤ data.length) :
    ∃ pos' y, decodeMember p s least x (pre ++ data) pos = (.ok pos', y) ∧
      pos'.toNat = pre.length + Varint.size n := by
  obtain ⟨read, hread, hnumber⟩ := hs.read
  have hinside : pos.toNat ≤ (pre ++ data).length := by
    rw [hpos, List.length_append]
    omega
  obtain ⟨y, hy, hvalue⟩ := hnumber x (pre ++ data) pos hinside
  rw [hpos, List.drop_left, hn] at hvalue
  obtain ⟨needed, hneeded, hone⟩ := hs.size least
  obtain ⟨consumed, hconsumed, hsize⟩ := hs.size y
  rw [Member.size_number_eq_one hleast] at hone
  rw [hvalue] at hsize
  have havailable : available (pre ++ data) pos = data.length := by
    rw [available, hpos, List.length_append, Nat.add_sub_cancel_left]
  have hpositive := Varint.size_pos n
  refine ⟨pos + consumed, y, ?_, ?_⟩
  · simp only [Layout.decodeMember, hs.length]
    exact decodeImplicit_of_le hneeded (by omega) hread hy hconsumed (by omega)
  · rw [List.length_append] at hbuf
    rw [UInt64.toNat_add, hpos, hsize, Nat.mod_eq_of_lt (by omega)]

theorem ReadsNumber.decodeMember_of_end {m : Member H} {s : AccessorSet H} (hs : ReadsNumber m s)
    (hname : s.member = m.name) (hleast : m.number least < 128) (x : H) {buf : Bytes} {pos : UInt64}
    (hend : available buf pos = 0) : ReportsShort [m] (Layout.decodeMember p s least x buf pos).1 := by
  obtain ⟨needed, hneeded, hone⟩ := hs.size least
  rw [Member.size_number_eq_one hleast] at hone
  have hshort : available buf pos < needed.toNat := by omega
  refine ⟨m, .head _, _, _, hshort, ?_⟩
  simp only [Layout.decodeMember, hs.length]
  rw [decodeImplicit_of_lt x hneeded hshort, hname]

/-! ### Reading zero digits -/

/-- Zero digits, each of which says that more follow. -/
def zeros (j : Nat) : Bytes := List.replicate j 128

@[simp] theorem length_zeros (j : Nat) : (zeros j).length = j := List.length_replicate

theorem available_zeros {pre : Bytes} {pos : UInt64} (hpos : pos.toNat = pre.length) (j : Nat) :
    available (pre ++ zeros j) pos = j := by
  rw [available, hpos, List.length_append, length_zeros, Nat.add_sub_cancel_left]

theorem append_zeros (pre : Bytes) {k j : Nat} (h : k ≤ j) : pre ++ zeros j = pre ++ zeros k ++ zeros (j - k) := by
  rw [List.append_assoc, zeros, zeros, zeros, List.replicate_append_replicate, Nat.add_sub_cancel' h]

/-- Taken for a length, zero digits stand for more bytes than any number leaves behind. -/
theorem le_ofLittle_zeros (p : LengthPrefix) : 2 ^ 15 ≤ Numeral.ofLittle (zeros p.width) := by
  cases p <;> decide

/-- An accessor set that reads a member from zero digits, or reports that they are too few. -/
structure ReadsZeros (p : LengthPrefix) (least : H) (m : Member H) (s : AccessorSet H) : Prop where
  accepts : m.codec.length = .implicit → ∀ x pre j pos, pos.toNat = pre.length → (pre ++ zeros j).length < 2 ^ 64 →
    m.zeroWidth ≤ j → ∃ pos' y, decodeMember p s least x (pre ++ zeros j) pos = (.ok pos', y) ∧
      pos'.toNat = pre.length + m.zeroWidth
  reports : ∀ x pre j pos, pos.toNat = pre.length → j < 2 ^ 15 → ¬ (m.codec.length = .implicit ∧ m.zeroWidth ≤ j) →
    ReportsShort [m] (decodeMember p s least x (pre ++ zeros j) pos).1

/-- Members are read from zero digits one after the other, until there are too few for one of them. -/
theorem decode_zeros {members : List (Member H)} {sets : List (AccessorSet H)}
    (hs : List.Forall₂ (ReadsZeros p least) members sets) (x : H) {pre : Bytes} {j : Nat} {pos : UInt64}
    (hpos : pos.toNat = pre.length) (hbuf : (pre ++ zeros j).length < 2 ^ 64) (hj : j < 2 ^ 15) :
    (Member.FitIn members j → ∃ pos', (decode p least sets x (pre ++ zeros j) pos).1 = .ok pos') ∧
      (¬ Member.FitIn members j → ReportsShort members (decode p least sets x (pre ++ zeros j) pos).1) := by
  -- the digits that were read join what stands in front of the others
  induction hs generalizing x pre j pos with
  | nil => exact ⟨fun _ => ⟨pos, rfl⟩, fun hno => absurd (Member.fitIn_nil j) hno⟩
  | @cons m s rest sets hm _ ih =>
    rw [Member.fitIn_cons]
    by_cases hfirst : m.codec.length = .implicit ∧ m.zeroWidth ≤ j
    · obtain ⟨pos', y, hmember, hpos'⟩ := hm.accepts hfirst.1 x pre j pos hpos hbuf hfirst.2
      have hstep : decode p least (s :: sets) x (pre ++ zeros j) pos = decode p least sets y (pre ++ zeros j) pos' := by
        rw [decode, hmember]
      have hsplit := append_zeros pre hfirst.2
      rw [hstep, hsplit]
      rw [hsplit] at hbuf
      have hbehind : pos'.toNat = (pre ++ zeros m.zeroWidth).length := by
        rw [hpos', List.length_append, length_zeros]
      obtain ⟨hok, herror⟩ := ih y hbehind hbuf (by omega)
      refine ⟨fun hfit => hok hfit.2, fun hno => ?_⟩
      exact (herror fun hrest => hno ⟨hfirst, hrest⟩).mono (List.subset_cons_self m rest)
    · refine ⟨fun hfit => absurd hfit.1 hfirst, fun _ => ?_⟩
      exact (hm.reports x pre j pos hpos hj hfirst).decode rest sets

/-! ### Whole messages -/

/-- An accessor set that reads a member wherever a cut may have left something of the message. -/
structure ReadsCut (p : LengthPrefix) (enc : MemberEncoding H) (least : H) (m : Member H) (s : AccessorSet H) :
    Prop where
  reads : Reads m s enc
  number : m.IsVarint → ReadsNumber m s
  zeros : ReadsZeros p least m s

/-- Reading a number of which some is left goes on with the members after it and the zero digits behind what is read. -/
theorem decode_number_take {m : Member H} {s : AccessorSet H} (hm : m.IsVarint) (hs : ReadsNumber m s)
    (hleast : m.number least < 128) (v x : H) {pre : Bytes} {pos : UInt64} (hpos : pos.toNat = pre.length) {left : Nat}
    (hleft : 0 < left) (hcut : left < Varint.size (m.number v))
    (hbuf : (pre ++ (Varint.encode (m.number v)).take left).length < 2 ^ 64) {after : List (Member H)}
    {more : List (AccessorSet H)} (hmore : List.Forall₂ (ReadsZeros p least) after more) :
    let result := (decode p least (s :: more) x (pre ++ (Varint.encode (m.number v)).take left) pos).1
    let room := left - Varint.size (m.number v % 128 ^ left)
    (Member.FitIn after room → ∃ pos', result = .ok pos') ∧
      (¬ Member.FitIn after room → ReportsShort after result) := by
  obtain ⟨name, -, hreader⟩ := hm.reader
  have hwidth : 8 * Builtin.fixedWidth m.type ≤ 64 := by
    have := Builtin.fixedWidth_le_of_varintReader hreader
    omega
  have hlt : m.number v < 2 ^ (8 * Builtin.fixedWidth m.type) := by
    unfold Member.number
    split
    · exact Builtin.magnitude_lt m.type _
    · exact Nat.two_pow_pos _
  have hten : Varint.size (m.number v) ≤ 10 := by
    have hlt64 := Nat.lt_of_lt_of_le hlt (Nat.pow_le_pow_right (by decide) hwidth)
    exact Builtin.size_le (by decide) (Nat.lt_of_lt_of_le hlt64 (by decide))
  have hlength : ((Varint.encode (m.number v)).take left).length = left := by
    rw [List.length_take, Varint.length_encode]
    omega
  -- what is left of the number reads as a smaller one, which leaves some of it over
  have hvalue := Varint.decode_take_encode hlt hwidth hcut
  have hsmaller : Varint.size (m.number v % 128 ^ left) ≤ left :=
    Builtin.size_le hleft (Nat.mod_lt _ (Nat.pow_pos (by decide)))
  obtain ⟨pos', y, hmember, hpos'⟩ := hs.decodeMember hleast x hpos hbuf hvalue (by rwa [hlength])
  have hover : pre ++ (Varint.encode (m.number v)).take left =
      pre ++ ((Varint.encode (m.number v)).take left).take (Varint.size (m.number v % 128 ^ left)) ++
        zeros (left - Varint.size (m.number v % 128 ^ left)) := by
    rw [zeros, ← Varint.drop_take_encode hcut, List.append_assoc, List.take_append_drop]
  have hstep : decode p least (s :: more) x (pre ++ (Varint.encode (m.number v)).take left) pos =
      decode p least more y (pre ++ (Varint.encode (m.number v)).take left) pos' := by
    rw [decode, hmember]
  rw [hover] at hbuf
  rw [hstep, hover]
  refine decode_zeros hmore y ?_ hbuf (by omega)
  rw [hpos', List.length_append, List.length_take, hlength, Nat.min_eq_left hsmaller]

theorem decode_cut {members : List (Member H)} {sets : List (AccessorSet H)} {order : ByteOrder} {v : H}
    (hs : List.Forall₂ (ReadsCut p (Builtin.encoding order) least) members sets)
    (hfits : ∀ m ∈ members, m.Fits p (Builtin.encoding order) v)
    (hsteady : ∀ m ∈ members, m.Steady (Builtin.encoding order) least v)
    (hwidth : ∀ m ∈ members, ¬ m.IsVarint → m.KeepsWidth (Builtin.encoding order))
    (hleast : ∀ m ∈ members, m.IsVarint → m.number least < 128) (x : H) {cut : Nat}
    (hcut : cut < (message p (Builtin.encoding order) members v).length)
    (hbuf : (message p (Builtin.encoding order) members v).length < 2 ^ 64) :
    ∃ before m after, members = before ++ m :: after ∧
      let start := (message p (Builtin.encoding order) before v).length
      let result := (decode p least sets x ((message p (Builtin.encoding order) members v).take cut) 0).1
      start ≤ cut ∧ cut < start + (m.frame p (Builtin.encoding order) v).length ∧
        (m.Overlooked after v (cut - start) → ∃ pos', result = .ok pos') ∧
        (¬ m.Overlooked after v (cut - start) → ReportsShort (m :: after) result) := by
  have hlength : (([] : Bytes) ++ (message p (Builtin.encoding order) members v).take cut).length < 2 ^ 64 := by
    rw [List.nil_append, List.length_take]
    omega
  have hpos : (0 : UInt64).toNat = ([] : Bytes).length := rfl
  obtain ⟨before, m, after, s, more, pos', rfl, hm, hmore, hstart, hend, hpos', hdecode⟩ :=
    decode_to_cut (fun _ _ hm => hm.reads) hs hfits hsteady x hpos hcut hlength
  have hmem : m ∈ before ++ m :: after := by simp
  refine ⟨before, m, after, rfl, hstart, hend, ?_⟩
  rw [List.nil_append] at hdecode hpos'
  rw [List.nil_append] at hdecode
  rw [hdecode]
  by_cases hvarint : m.IsVarint
  · have hnumber := hm.number hvarint
    have hone := hleast m hmem hvarint
    have hframe : m.frame p (Builtin.encoding order) v = Varint.encode (m.number v) := by
      rw [Member.frame, LengthPrefix.frame, hvarint.length, hvarint.body_eq (hfits m hmem).1]
      rfl
    rw [hframe] at hend ⊢
    rw [Varint.length_encode] at hend
    rcases Nat.eq_zero_or_pos (cut - (message p (Builtin.encoding order) before v).length) with hzero | hpositive
    · -- nothing of the number is left, not even the byte that the instance to probe with takes
      refine ⟨fun hover => absurd hover.2.1 (by omega), fun _ => ?_⟩
      rw [hzero, List.take_zero, List.append_nil]
      refine (hnumber.decodeMember_of_end hm.reads.member hone _ ?_).decode after more
      rw [available, hpos', Nat.sub_self]
    · have hroom : (message p (Builtin.encoding order) before v ++
          (Varint.encode (m.number v)).take (cut - (message p (Builtin.encoding order) before v).length)).length <
          2 ^ 64 := by
        rw [List.length_append, List.length_take]
        omega
      obtain ⟨hok, herror⟩ := decode_number_take hvarint hnumber hone v (copyAll before v x) hpos' hpositive
        (by omega) hroom (hmore.imp fun _ _ hafter => hafter.zeros)
      refine ⟨fun hover => hok hover.2.2, fun hno => ?_⟩
      exact (herror fun hfit => hno ⟨hvarint, hpositive, hfit⟩).mono (List.subset_cons_self m after)
  · have hkeeps := hwidth m hmem hvarint
    have hinside : cut - (message p (Builtin.encoding order) before v).length <
        (m.frame p (Builtin.encoding order) v).length := by omega
    refine ⟨fun hover => absurd hover.1 hvarint, fun _ => ReportsShort.decode ?_ after more⟩
    rw [decodeMember_take hm.reads (hfits m hmem) hkeeps least _ hpos' hinside]
    exact reportsShort_shortfall hkeeps hinside

end Layout

/-! ### Built-in codecs -/

namespace Member

variable {p : LengthPrefix} {least : H} {m : Member H} {rc : RegistryConfig} {host : String} {s : AccessorSet H}

theorem IsVarint.readsNumber (hm : m.IsVarint) (hs : m.compile (Registry.builtin rc) host = .ok s)
    (hread : m.isReadable) (hwrite : m.isWritable)
    (hback : ∀ get ∈ m.getter, ∀ set ∈ m.setter, ∀ x a, get (set x a) = a) : Layout.ReadsNumber m s := by
  have hb := binds_of_compile hs
  have hreads : Layout.Reads m s (Builtin.encoding rc.byteOrder) := OfFamily.reads (.inr (.inl hm)) hs hread hwrite
  obtain ⟨get, hget⟩ := Option.isSome_iff_exists.1 hread
  obtain ⟨set, hset⟩ := Option.isSome_iff_exists.1 hwrite
  obtain ⟨read, hresolve, hreader⟩ := hb.assignScalar set hset hm.length
  refine ⟨hb.length.trans hm.length, fun x => ⟨_, Layout.memberSize_of_reads hreads x, ?_⟩, _, hreader, ?_⟩
  · exact hm.probe_eq hread rc.byteOrder x
  · intro x buf pos hpos
    obtain ⟨a, ha, hvalue⟩ := (hm.reads_of_resolve hresolve).2 buf pos hpos
    refine ⟨set x a, Option.map_eq_some_iff.2 ⟨a, ha, rfl⟩, ?_⟩
    simp only [number, hget, hback get hget set hset]
    exact hvalue

theorem IsVarint.readsZeros (hm : m.IsVarint) (hs : Layout.ReadsNumber m s) (hname : s.member = m.name)
    (hleast : m.number least < 128) : Layout.ReadsZeros p least m s where
  accepts _ x pre j pos hpos hbuf hle := by
    rw [zeroWidth, if_pos hm.write] at hle ⊢
    have hzero : Varint.decode (Layout.zeros j) % 2 ^ (8 * Builtin.fixedWidth m.type) = 0 := by
      rw [Layout.zeros, Varint.decode_replicate, Nat.zero_mod]
    have hone : Varint.size 0 = 1 := by rw [Varint.size, if_pos (by decide)]
    have hroom : Varint.size 0 ≤ (Layout.zeros j).length := by rwa [hone, Layout.length_zeros]
    obtain ⟨pos', y, hmember, hpos'⟩ := hs.decodeMember hleast x hpos hbuf hzero hroom
    rw [hone] at hpos'
    exact ⟨pos', y, hmember, hpos'⟩
  reports x pre j pos hpos _ hno := by
    rw [zeroWidth, if_pos hm.write] at hno
    have hnone : j = 0 := by
      by_contra hj
      exact hno ⟨hm.length, by omega⟩
    apply hs.decodeMember_of_end hname hleast
    rw [Layout.available_zeros hpos, hnone]

theorem IsFixed.memberSize_eq (hm : m.IsFixed) (hs : m.compile (Registry.builtin rc) host = .ok s)
    (hread : m.isReadable) (hwrite : m.isWritable) (x : H) :
    Layout.memberSize s x = .ok (UInt64.ofNat (Builtin.fixedWidth m.type)) := by
  have hreads : Layout.Reads m s (Builtin.encoding rc.byteOrder) := OfFamily.reads (.inl hm) hs hread hwrite
  have hkeeps : m.KeepsWidth (Builtin.encoding rc.byteOrder) := hm.keepsWidth hs hread hwrite
  rw [Layout.memberSize_of_reads hreads x, hkeeps hm.length x]

theorem IsFixed.zeroWidth_eq (hm : m.IsFixed) : m.zeroWidth = Builtin.fixedWidth m.type := by
  have hne : m.codec.write ≠ "GetVarBytes" := by
    rw [hm.write]
    decide
  rw [zeroWidth, if_neg hne]

theorem IsFixed.readsZeros (hm : m.IsFixed) (hs : m.compile (Registry.builtin rc) host = .ok s) (hread : m.isReadable)
    (hwrite : m.isWritable) : Layout.ReadsZeros p least m s := by
  have hb := binds_of_compile hs
  have hsize := hm.memberSize_eq hs hread hwrite
  have hword := Builtin.toNat_ofNat_fixedWidth m.type
  obtain ⟨set, hset⟩ := Option.isSome_iff_exists.1 hwrite
  obtain ⟨read, hresolve, hreader⟩ := hb.assignScalar set hset hm.length
  have hwithin := (fixedReader_of_resolve hm.reader hresolve).2.2
  refine ⟨fun _ x pre j pos hpos hbuf hle => ?_, fun x pre j pos hpos _ hno => ?_⟩
  · rw [hm.zeroWidth_eq] at hle ⊢
    have hinside : pos.toNat + Builtin.fixedWidth m.type ≤ (pre ++ Layout.zeros j).length := by
      rw [hpos, List.length_append, Layout.length_zeros]
      omega
    obtain ⟨a, ha⟩ := Option.isSome_iff_exists.1 ((hwithin (pre ++ Layout.zeros j) pos).2 hinside)
    have hroom : (UInt64.ofNat (Builtin.fixedWidth m.type)).toNat ≤ Layout.available (pre ++ Layout.zeros j) pos := by
      rwa [hword, Layout.available_zeros hpos]
    refine ⟨pos + UInt64.ofNat (Builtin.fixedWidth m.type), set x a, ?_, ?_⟩
    · rw [Layout.decodeMember, hb.length, hm.length]
      exact Layout.decodeImplicit_of_le (hsize least) hroom hreader (Option.map_eq_some_iff.2 ⟨a, ha, rfl⟩)
        (hsize (set x a)) hroom
    · rw [Bytes.toNat_add_ofNat hinside hbuf, hpos]
  · rw [hm.zeroWidth_eq] at hno
    have hshort : Layout.available (pre ++ Layout.zeros j) pos < (UInt64.ofNat (Builtin.fixedWidth m.type)).toNat := by
      rw [hword, Layout.available_zeros hpos]
      by_contra hle
      exact hno ⟨hm.length, by omega⟩
    refine ⟨m, .head _, _, _, hshort, ?_⟩
    rw [Layout.decodeMember, hb.length, hm.length, ← hb.member]
    simp only [Layout.decodeImplicit_of_lt x (hsize least) hshort]

theorem IsPrefixed.readsZeros (hm : m.IsPrefixed) (hs : m.compile (Registry.builtin rc) host = .ok s) :
    Layout.ReadsZeros p least m s := by
  have hb := binds_of_compile hs
  refine ⟨fun hmode => ?_, fun x pre j pos hpos hj _ => ?_⟩
  · rw [hm.length] at hmode
    cases hmode
  have havailable := Layout.available_zeros hpos j
  rw [Layout.decodeMember, hb.length, hm.length]
  dsimp only
  by_cases hshort : j < p.width
  · have hnone : (pre ++ Layout.zeros j).slice? pos.toNat p.width = none := by
      rw [← Option.not_isSome_iff_eq_none, Bytes.isSome_slice?, hpos, List.length_append, Layout.length_zeros]
      omega
    refine ⟨m, .head _, _, _, hshort, ?_⟩
    simp only [Layout.decodePrefixed, hnone, havailable, hb.member]
    rfl
  · have hsplit := Layout.append_zeros pre (Nat.le_of_not_lt hshort)
    have hhead : (pre ++ Layout.zeros j).slice? pos.toNat p.width = some (Layout.zeros p.width) := by
      have hslice := Bytes.slice?_append pre (Layout.zeros p.width) (Layout.zeros (j - p.width))
      rw [Layout.length_zeros] at hslice
      rw [hpos, hsplit, hslice]
    have hlong := Layout.le_ofLittle_zeros p
    have hless : j - p.width < Numeral.ofLittle (Layout.zeros p.width) := by omega
    refine ⟨m, .head _, _, _, hless, ?_⟩
    simp only [Layout.decodePrefixed, hhead, havailable, hb.member]
    rw [if_pos hless]
    rfl

end Member

namespace Serializer

/-- Which cuts of a message go unnoticed. Take a registered host type over the built-in codecs whose members are each of
one family, and whose numbers of variable length are read back as assigned and start below 128. A message of it that was
cut inside of a number of variable length is read without complaint if the zero digits that are left behind what is read
of the number are enough for all members after it. Any other cut is reported, of the member that it is in or one after
it. No other member was compiled under the key of a declared one before. -/
theorem deserializeInto_cut {F : HostFamily} (locate : Locator F) (rc : RegistryConfig) (config : MessageConfig)
    (sent received : List (Call F)) (hsent : ∀ call ∈ sent, call.Genuine locate)
    (hreceived : ∀ call ∈ received, call.Genuine locate) (h : F.Host)
    (haccess : ∀ m ∈ locate h, m.isReadable ∧ m.isWritable) (hfamily : ∀ m ∈ locate h, m.OfFamily)
    (hback : ∀ m ∈ locate h, m.IsVarint → ∀ get ∈ m.getter, ∀ set ∈ m.setter, ∀ x a, get (set x a) = a)
    (hstart : ∀ m ∈ locate h, m.IsVarint → m.number (F.default h) < 128) (v : F.Instance h) (b : Bytes)
    (hb : ((inUse locate (Registry.builtin rc) config sent).serialize h (locate h) v).1 = .ok b)
    (target : F.Instance h) (cut : Nat) (hcut : cut < b.length) :
    ∃ before m after, locate h = before ++ m :: after ∧
      let start := (Layout.message config.lengthPrefix (Builtin.encoding rc.byteOrder) before v).length
      let result := ((inUse locate (Registry.builtin rc) config received).deserializeInto h (locate h) target
        (b.take cut) 0).1.1
      start ≤ cut ∧ cut < start + (m.frame config.lengthPrefix (Builtin.encoding rc.byteOrder) v).length ∧
        (m.Overlooked after v (cut - start) → ∃ n, result = .ok n) ∧
        (¬ m.Overlooked after v (cut - start) → Layout.ReportsShort (m :: after) result) := by
  obtain ⟨hnodup, hcompile, hmessage, hlength, hfits, hwidth⟩ := serialize_ofFamily hsent haccess hfamily hb
  have hsteady : ∀ m ∈ locate h, m.Steady (Builtin.encoding rc.byteOrder) (F.default h) v := by
    intro m hm
    by_cases hvarint : m.IsVarint
    · obtain ⟨get, hget⟩ := Option.isSome_iff_exists.1 (haccess m hm).1
      obtain ⟨set, hset⟩ := Option.isSome_iff_exists.1 (haccess m hm).2
      refine hvarint.steady hget hset (hback m hm hvarint get hget set hset) ?_ v
      simpa only [Member.number, hget] using hstart m hm hvarint
    · exact (hwidth m hm hvarint).steady _ v
  obtain ⟨t, ht, hcompiled⟩ := exists_table_compiled config hreceived haccess hnodup hcompile
  have hreads : List.Forall₂ (Layout.ReadsCut config.lengthPrefix (Builtin.encoding rc.byteOrder) (F.default h))
      (locate h) (t.value.sets.map (·.value)) := by
    refine hcompiled.imp fun m hm s hs => ?_
    obtain ⟨hread, hwrite⟩ := haccess m hm
    have hnumber : m.IsVarint → Layout.ReadsNumber m s := fun hvarint =>
      hvarint.readsNumber hs hread hwrite (hback m hm hvarint)
    refine ⟨(hfamily m hm).reads hs hread hwrite, hnumber, ?_⟩
    rcases hfamily m hm with hfixed | hvarint | hprefixed
    · exact hfixed.readsZeros hs hread hwrite
    · exact hvarint.readsZeros (hnumber hvarint) (Member.binds_of_compile hs).member (hstart m hm hvarint)
    · exact hprefixed.readsZeros hs
  rw [hmessage] at hcut hlength ⊢
  obtain ⟨before, m, after, hsplit, hin, hend, hover, hno⟩ := Layout.decode_cut hreads hfits hsteady hwidth hstart target
    hcut hlength
  have hresult := deserializeInto_fst ht target (b.take cut) 0
  rw [config_inUse, hmessage] at hresult
  refine ⟨before, m, after, hsplit, hin, hend, fun h => ?_, fun h => ?_⟩
  · obtain ⟨pos', hdecode⟩ := hover h
    exact ⟨pos' - 0, by rw [hresult, hdecode]; rfl⟩
  · obtain ⟨m', hm', needed, avail, hlt, hreport⟩ := hno h
    exact ⟨m', hm', needed, avail, hlt, by rw [hresult, hreport]; rfl⟩

end Serializer

namespace Visit

/-- The members of a visit without its path. -/
def counts : List (Member Visit) := members.take 2

/-- A visit whose number of hits begins with two zero digits. -/
def crowd : Visit := { hits := 16384 }

theorem overlooked_crowd {before after : List (Member Visit)} {m : Member Visit} (h : counts = before ++ m :: after)
    (hle : (Layout.message .u16 (Builtin.encoding .big) before crowd).length ≤ 2) :
    m.Overlooked after crowd (2 - (Layout.message .u16 (Builtin.encoding .big) before crowd).length) := by
  cases before with
  | nil =>
    cases h
    exact ⟨⟨rfl, rfl, rfl, _, rfl, rfl⟩, by decide, by decide +kernel⟩
  | cons m' before =>
    obtain ⟨rfl, -⟩ := List.cons.inj h
    have hthree : ∀ m ∈ members.take 1, (m.frame .u16 (Builtin.encoding .big) crowd).length = 3 := by decide +kernel
    rw [Layout.message_cons, List.length_append, hthree _ (.head _)] at hle
    omega

/-- The first two bytes of the message of a crowd: no hits are read from one of them, and that it was shown from the
other. -/
theorem deserializeInto_cut_crowd :
    let s := Serializer.inUse (F := family) (fun _ => counts) (Registry.builtin ⟨.big, true⟩) ⟨.u16, 100⟩ []
    (s.serialize () counts crowd).1 = .ok [128, 128, 1, 0] ∧
      ∃ n, (s.deserializeInto () counts sample [128, 128] 0).1.1 = .ok n := by
  have hb : ((Serializer.inUse (F := family) (fun _ => counts) (Registry.builtin ⟨.big, true⟩) ⟨.u16, 100⟩
      []).serialize () counts crowd).1 = .ok [128, 128, 1, 0] := by decide +kernel
  have hmembers : ∀ m ∈ counts, m ∈ members := fun m hm => List.mem_of_mem_take hm
  have haccess : ∀ m ∈ counts, m.isReadable ∧ m.isWritable := by decide
  have hstart : ∀ m ∈ counts, m.IsVarint → m.number (family.default ()) < 128 := by
    simp only [counts, members, List.take_succ_cons, List.take_zero, List.forall_mem_cons, List.not_mem_nil,
      false_imp_iff, implies_true, and_true]
    exact ⟨fun _ => by decide, fun _ => by decide⟩
  obtain ⟨before, m, after, hsplit, hle, hlt, hover, -⟩ := Serializer.deserializeInto_cut (F := family)
    (fun _ => counts) ⟨.big, true⟩ ⟨.u16, 100⟩ [] [] (by simp) (by simp) () haccess
    (fun m hm => ofFamily_members m (hmembers m hm)) (fun m hm _ => independent_members.get_set m (hmembers m hm)) hstart
    crowd _ hb sample 2 (by decide)
  exact ⟨hb, hover (overlooked_crowd hsplit hle)⟩

/-- The first byte of a number of hits that takes two is read as another number. -/
theorem deserialize_cut_hits :
    let s := Serializer.inUse (F := family) (fun _ => members.take 1) (Registry.builtin ⟨.big, true⟩) ⟨.u16, 100⟩ []
    (s.serialize () (members.take 1) { hits := 300 }).1 = .ok [172, 2] ∧
      (s.deserialize () (members.take 1) [172]).1.toOption.map (fun x : Visit => x.hits) = some 44 := by
  intro s
  exact ⟨by decide +kernel, by decide +kernel⟩

end Visit

end Memberwise
