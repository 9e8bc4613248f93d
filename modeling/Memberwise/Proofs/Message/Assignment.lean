import Mathlib
import Memberwise.Proofs.Codec.Window
import Memberwise.Proofs.Message.Decode
import Memberwise.Proofs.Message.RoundTrip

/-!
# What reading assigns

Reading goes from member to member: each is looked for where the one before it ended (`Member.FoundAt`), and what was
found there is assigned (`Layout.Assigned`). If reading stops at a member, those before it were assigned and the instance
was not touched since (`Layout.decode_stopped`).

A member of a family that is reported as truncated was not assigned. The second check, after the member has been
assigned, never fails for it: what was read measures no more than what was there (`Member.OfFamily.measure_le`), also for
a number that was written with more bytes than it takes.

If the members are independent, the instance holds afterwards what was found (`Layout.Assigned.holds`).
-/

namespace Memberwise

variable {H : Type} {r : Registry} {p : LengthPrefix} {buf : Bytes} {x y : H} {pos stop : UInt64}

namespace Member

/-- The value that the reader of a member finds at a position, and the position behind it. A member of implicit length
is as long as its value measures, a prefixed one as long as it says in front. -/
inductive FoundAt (m : Member H) (r : Registry) (p : LengthPrefix) (buf : Bytes) (pos : UInt64) :
    m.type.Carrier → UInt64 → Prop
  | implicit {read : Bound (Bytes → UInt64 → Option m.type.Carrier)} {z : Bound (m.type.Carrier → UInt64)}
      {v : m.type.Carrier} (mode : m.codec.length = .implicit)
      (reader : r.resolve m.type .readScalar m.codec.readScalar = .ok read)
      (measure : r.resolve m.type .sizeOf (some m.codec.sizeOf) = .ok z) (value : read.call buf pos = some v) :
      FoundAt m r p buf pos v (pos + z.call v)
  | prefixed {read : Bound (Bytes → UInt64 → UInt64 → Option m.type.Carrier)} {head : Bytes} {v : m.type.Carrier}
      (mode : m.codec.length = .prefixed)
      (reader : r.resolve m.type .readBounded m.codec.readBounded = .ok read)
      (length : buf.slice? pos.toNat p.width = some head)
      (value : read.call buf (pos + UInt64.ofNat p.width) (UInt64.ofNat (Numeral.ofLittle head)) = some v) :
      FoundAt m r p buf pos v (pos + UInt64.ofNat p.width + UInt64.ofNat (Numeral.ofLittle head))

/-- The getter returns what the setter stored. -/
def Returns (m : Member H) : Prop := ∀ get ∈ m.getter, ∀ set ∈ m.setter, ∀ x a, get (set x a) = a

end Member

namespace Layout

/-- Members assigned one after the other as they are found in the input: the instance and the position before, and the
instance and the position after. -/
inductive Assigned (r : Registry) (p : LengthPrefix) (buf : Bytes) :
    List (Member H) → H → UInt64 → H → UInt64 → Prop
  | nil (x : H) (pos : UInt64) : Assigned r p buf [] x pos x pos
  | cons {m : Member H} {rest : List (Member H)} {set : H → m.type.Carrier → H} {v : m.type.Carrier} {x y : H}
      {pos mid stop : UInt64} (setter : m.setter = some set) (found : m.FoundAt r p buf pos v mid)
      (tail : Assigned r p buf rest (set x v) mid y stop) : Assigned r p buf (m :: rest) x pos y stop

/-- An instance has the members as they are found in the input, one after the other between two positions. -/
inductive Holds (r : Registry) (p : LengthPrefix) (buf : Bytes) (y : H) : List (Member H) → UInt64 → UInt64 → Prop
  | nil (pos : UInt64) : Holds r p buf y [] pos pos
  | cons {m : Member H} {rest : List (Member H)} {get : H → m.type.Carrier} {pos mid stop : UInt64}
      (getter : m.getter = some get) (found : m.FoundAt r p buf pos (get y) mid)
      (tail : Holds r p buf y rest mid stop) : Holds r p buf y (m :: rest) pos stop

/-! ### Reading as assigning -/

theorem decodeMember_assigns {m : Member H} {s : AccessorSet H} {least : H} (hb : m.Binds r s) (hread : m.isReadable)
    (hwrite : m.isWritable) (hreturns : m.Returns) (h : decodeMember p s least x buf pos = (.ok stop, y)) :
    ∃ set v, m.setter = some set ∧ m.FoundAt r p buf pos v stop ∧ y = set x v := by
  obtain ⟨get, hget⟩ := Option.isSome_iff_exists.1 hread
  obtain ⟨set, hset⟩ := Option.isSome_iff_exists.1 hwrite
  refine ⟨set, ?_⟩
  unfold decodeMember at h
  rw [hb.length] at h
  cases hmode : m.codec.length with
  | implicit =>
    rw [hmode] at h
    obtain ⟨-, consumed, -, -, ⟨assign, hassign, hy⟩, hconsumed, -, rfl⟩ := decodeImplicit_eq_ok h
    obtain ⟨read, hresolve, hreader⟩ := hb.assignScalar set hset hmode
    obtain ⟨-, z, -, hz, -, hsizeOf⟩ := hb.read get hget
    cases hreader.symm.trans hassign
    obtain ⟨v, hv, rfl⟩ := Option.map_eq_some_iff.1 hy
    -- the position moves on by what the instance measures now, which is what the value read measures
    have hsize : memberSize s (set x v) = .ok (z.call v) := by
      rw [memberSize, hsizeOf]
      exact congrArg (Except.ok <| z.call ·) (hreturns get hget set hset x v)
    cases hsize.symm.trans hconsumed
    exact ⟨v, hset, .implicit hmode hresolve hz hv, rfl⟩
  | prefixed =>
    rw [hmode] at h
    obtain ⟨head, hhead, -, ⟨assign, hassign, hy⟩, rfl⟩ := decodePrefixed_eq_ok h
    obtain ⟨read, hresolve, hreader⟩ := hb.assignBounded set hset hmode
    cases hreader.symm.trans hassign
    obtain ⟨v, hv, rfl⟩ := Option.map_eq_some_iff.1 hy
    exact ⟨v, hset, .prefixed hmode hresolve hhead hv, rfl⟩

variable {host : String} {least : H} {members : List (Member H)} {sets : List (AccessorSet H)}

/-- A whole message that is read assigns all members. -/
theorem decode_assigns (hs : Compiled r host members sets)
    (hmembers : ∀ m ∈ members, m.isReadable ∧ m.isWritable ∧ m.Returns)
    (h : decode p least sets x buf pos = (.ok stop, y)) : Assigned r p buf members x pos y stop := by
  induction hs generalizing x pos with
  | nil =>
    cases h
    exact .nil _ _
  | @cons m s rest sets hm _ ih =>
    obtain ⟨⟨hread, hwrite, hreturns⟩, hrest⟩ := List.forall_mem_cons.1 hmembers
    unfold decode at h
    split at h
    · cases h
    next mid z hmember =>
    obtain ⟨set, v, hset, hfound, rfl⟩ := decodeMember_assigns (Member.binds_of_compile hm) hread hwrite hreturns hmember
    exact .cons hset hfound (ih hrest h)

/-- Reading that stops assigns the members before one, and stops when it is this one's turn. -/
theorem decode_stopped {e : Stop} (hs : Compiled r host members sets)
    (hmembers : ∀ m ∈ members, m.isReadable ∧ m.isWritable ∧ m.Returns)
    (h : decode p least sets x buf pos = (.error e, y)) :
    ∃ before m after s z mid, members = before ++ m :: after ∧ m.compile r host = .ok s ∧
      Assigned r p buf before x pos z mid ∧ decodeMember p s least z buf mid = (.error e, y) := by
  induction hs generalizing x pos with
  | nil => cases h
  | @cons m s rest sets hm _ ih =>
    obtain ⟨⟨hread, hwrite, hreturns⟩, hrest⟩ := List.forall_mem_cons.1 hmembers
    unfold decode at h
    split at h
    · next heq =>
      cases h
      exact ⟨[], m, rest, s, x, pos, rfl, hm, .nil x pos, heq⟩
    next mid z hmember =>
    obtain ⟨set, v, hset, hfound, rfl⟩ := decodeMember_assigns (Member.binds_of_compile hm) hread hwrite hreturns hmember
    obtain ⟨before, m', after, s', z', mid', rfl, hm', hassigned, hstop⟩ := ih hrest h
    exact ⟨m :: before, m', after, s', z', mid', rfl, hm', .cons hset hfound hassigned, hstop⟩

end Layout

/-! ### Independent members -/

theorem Independent.mono {members some : List (Member H)} (h : Independent members) (hsome : ∀ m ∈ some, m ∈ members) :
    Independent some where
  get_set m hm := h.get_set m (hsome m hm)
  get_set_other m hm m' hm' := h.get_set_other m (hsome m hm) m' (hsome m' hm')

namespace Layout.Assigned

variable {members : List (Member H)} {m : Member H} {get : H → m.type.Carrier}

/-- Assigning other members leaves a member as it is. -/
theorem get_other {others : List (Member H)} (h : Assigned r p buf others x pos y stop)
    (hindependent : Independent members) (hm : m ∈ members) (hget : m.getter = some get)
    (hothers : ∀ m' ∈ others, m' ∈ members ∧ m.name ≠ m'.name) : get y = get x := by
  induction h with
  | nil => rfl
  | @cons m' rest set v x y pos mid stop hset hfound _ ih =>
    obtain ⟨⟨hm', hname⟩, hrest⟩ := List.forall_mem_cons.1 hothers
    rw [ih hrest]
    exact hindependent.get_set_other m hm m' hm' hname get hget set hset x v

/-- Independent members are held as they were found. -/
theorem holds (h : Assigned r p buf members x pos y stop) (hindependent : Independent members)
    (hnodup : (members.map (·.name)).Nodup) (hread : ∀ m ∈ members, m.isReadable) :
    Holds r p buf y members pos stop := by
  induction h with
  | nil => exact .nil _
  | @cons m rest set v x y pos mid stop hset hfound hrest ih =>
    rw [List.map_cons, List.nodup_cons] at hnodup
    obtain ⟨hreadable, hread⟩ := List.forall_mem_cons.1 hread
    obtain ⟨get, hget⟩ := Option.isSome_iff_exists.1 hreadable
    have hothers : ∀ m' ∈ rest, m' ∈ m :: rest ∧ m.name ≠ m'.name := by
      intro m' hm'
      refine ⟨.tail _ hm', fun hname => hnodup.1 ?_⟩
      rw [hname]
      exact List.mem_map_of_mem hm'
    have hkept : get y = get (set x v) := hrest.get_other hindependent (.head _) hget hothers
    rw [hindependent.get_set m (.head _) get hget set hset] at hkept
    exact .cons hget (hkept ▸ hfound) (ih hindependent.tail hnodup.2 hread)

end Layout.Assigned

/-! ### Where reading stops -/

namespace Member

/-- What is there of a member at a position is too little to read it: less than the instance to probe with takes, or
than the length in front of the member, or than this length says. -/
def ShortAt (m : Member H) (p : LengthPrefix) (enc : MemberEncoding H) (least : H) (buf : Bytes) (pos : UInt64)
    (needed available : Nat) : Prop :=
  available < needed ∧
    match m.codec.length with
    | .implicit => needed = m.probe enc least ∧ available = Layout.available buf pos
    | .prefixed =>
      needed = p.width ∧ available = Layout.available buf pos ∨
        ∃ head, buf.slice? pos.toNat p.width = some head ∧ needed = Numeral.ofLittle head ∧
          available = Layout.available buf pos - p.width

variable {m : Member H} {rc : RegistryConfig} {host : String} {s : AccessorSet H} {least : H}

/-- What was read of a member measures no more than there was, if there was as much as some value of it measures. -/
theorem OfFamily.measure_le (hm : m.OfFamily) (hmode : m.codec.length = .implicit) {w : Bound (Writer m.type.Carrier)}
    {z : Bound (m.type.Carrier → UInt64)} {read : Bound (Bytes → UInt64 → Option m.type.Carrier)}
    (hw : (Registry.builtin rc).resolve m.type .write (some m.codec.write) = .ok w)
    (hz : (Registry.builtin rc).resolve m.type .sizeOf (some m.codec.sizeOf) = .ok z)
    (hread : (Registry.builtin rc).resolve m.type .readScalar m.codec.readScalar = .ok read) {v₀ v : m.type.Carrier}
    (hroom : (z.call v₀).toNat ≤ Layout.available buf pos) (hv : read.call buf pos = some v) :
    (z.call v).toNat ≤ Layout.available buf pos := by
  have hmeasures := (hm.matched.lawful w z hw hz).measures
  rcases hm with hfixed | hvarint | hprefixed
  · obtain ⟨hname, -⟩ := fixedReader_of_resolve hfixed.reader hread
    rw [encoding_of_plain _ hfixed.write] at hmeasures
    rw [Builtin.toNat_of_measures_plain hname hmeasures] at hroom ⊢
    exact hroom
  · rw [encoding_of_digits _ hvarint.write] at hmeasures
    have hpos := Builtin.length_digits_pos m.type v₀
    rw [Builtin.toNat_of_measures_digits hmeasures, Layout.available] at hroom ⊢
    exact (hvarint.reads_of_resolve hread).2.length_digits_le hv (by omega)
  · rw [hprefixed.length] at hmode
    cases hmode

/-- A member of a family that is reported as truncated was not assigned. -/
theorem OfFamily.decodeMember_truncated (hm : m.OfFamily) (hs : m.compile (Registry.builtin rc) host = .ok s)
    (hread : m.isReadable) (hwrite : m.isWritable) (hreturns : m.Returns) {name : String} {needed available : Nat}
    (h : Layout.decodeMember p s least x buf pos = (.error (.error (.truncated name needed available)), y)) :
    y = x ∧ name = m.name ∧ m.ShortAt p (Builtin.encoding rc.byteOrder) least buf pos needed available := by
  have hb := binds_of_compile hs
  have hreads := hm.reads hs hread hwrite
  obtain ⟨get, hget⟩ := Option.isSome_iff_exists.1 hread
  obtain ⟨set, hset⟩ := Option.isSome_iff_exists.1 hwrite
  unfold Layout.decodeMember at h
  rw [hb.length] at h
  unfold ShortAt
  cases hmode : m.codec.length with
  | implicit =>
    obtain ⟨read, hresolve, hreader⟩ := hb.assignScalar set hset hmode
    obtain ⟨w, z, hw, hz, -, hsizeOf⟩ := hb.read get hget
    have hsize : ∀ x', Layout.memberSize s x' = .ok (z.call (get x')) := by
      intro x'
      rw [Layout.memberSize, hsizeOf]
      rfl
    have hprobe : (z.call (get least)).toNat = m.probe (Builtin.encoding rc.byteOrder) least := by
      have hleast := Layout.memberSize_of_reads hreads least
      rw [hsize, Except.ok.injEq] at hleast
      rw [hleast, probe]
    simp only [hmode, Layout.decodeImplicit, hsize, hreader] at h
    split at h
    · next hshort =>
      cases h
      exact ⟨rfl, hb.member, hshort, hprobe, rfl⟩
    next hroom =>
    split at h
    · cases h
    next x' hassign =>
    obtain ⟨v, hv, rfl⟩ := Option.map_eq_some_iff.1 hassign
    split at h
    · next hlate =>
      -- the member was assigned already, but then it measures no more than what was there
      have hle := hm.measure_le hmode hw hz hresolve (Nat.le_of_not_lt hroom) hv
      rw [hreturns get hget set hset] at hlate
      exact absurd hlate (Nat.not_lt_of_le hle)
    · cases h
  | prefixed =>
    simp only [hmode, Layout.decodePrefixed] at h
    split at h
    · next hhead =>
      cases h
      have hout : ¬ pos.toNat + p.width ≤ buf.length := fun hin => by
        rw [Bytes.slice?, if_pos hin] at hhead
        cases hhead
      have hwidth : 0 < p.width := by cases p <;> decide
      refine ⟨rfl, hb.member, ?_, .inl ⟨rfl, rfl⟩⟩
      rw [Layout.available]
      omega
    next head hhead =>
    split at h
    · next hshort =>
      cases h
      exact ⟨rfl, hb.member, hshort, .inr ⟨head, hhead, rfl, rfl⟩⟩
    split at h
    · cases h
    split at h
    · cases h
    · cases h

end Member

namespace Serializer

/-- Where reading stops because the input is too short, it stops between two members. Take a host type over the built-in
codecs whose members can be read and assigned, are each of one family, and are independent of each other. If reading into
an instance reports a member as truncated, the members before it are those found in the input, and this member and all
after it are as they were. The member was refused before it was read. This is for a serializer that has compiled no other
member under the key of a declared one before. -/
theorem deserializeInto_stopped {F : HostFamily} (locate : Locator F) (rc : RegistryConfig) (config : MessageConfig)
    (calls : List (Call F)) (hcalls : ∀ call ∈ calls, call.Genuine locate) (h : F.Host)
    (haccess : ∀ m ∈ locate h, m.isReadable ∧ m.isWritable) (hfamily : ∀ m ∈ locate h, m.OfFamily)
    (hindependent : Independent (locate h)) (target y : F.Instance h) (buf : Bytes) (offset : UInt64) (name : String)
    (needed available : Nat)
    (hstop : ((inUse locate (Registry.builtin rc) config calls).deserializeInto h (locate h) target buf offset).1 =
      (.error (.error (.truncated name needed available)), y)) :
    ∃ before m after pos, locate h = before ++ m :: after ∧ m.name = name ∧
      Layout.Holds (Registry.builtin rc) config.lengthPrefix buf y before offset pos ∧
      (∀ m' ∈ m :: after, ∀ get ∈ m'.getter, get y = get target) ∧
      m.ShortAt config.lengthPrefix (Builtin.encoding rc.byteOrder) (F.default h) buf pos needed available := by
  have hmembers : ∀ m ∈ locate h, m.isReadable ∧ m.isWritable ∧ m.Returns := fun m hm =>
    ⟨(haccess m hm).1, (haccess m hm).2, hindependent.get_set m hm⟩
  cases ht : ((inUse locate (Registry.builtin rc) config calls).table h (locate h)).1 with
  | error e =>
    rw [deserializeInto, withTable_fst, ht] at hstop
    cases hstop
  | ok t =>
    obtain ⟨hnodup, hcompiled⟩ := compiled_of_table hcalls ht
    rw [deserializeInto_of_table ht, config_inUse, deserializeIntoWith] at hstop
    split at hstop
    · next hdecode =>
      cases hstop
      obtain ⟨before, m, after, s, z, pos, hsplit, hs, hassigned, hmember⟩ :=
        Layout.decode_stopped hcompiled hmembers hdecode
      have hm : m ∈ locate h := by simp [hsplit]
      obtain ⟨hread, hwrite, hreturns⟩ := hmembers m hm
      obtain ⟨rfl, hname, hshort⟩ := (hfamily m hm).decodeMember_truncated hs hread hwrite hreturns hmember
      have hbefore : ∀ m' ∈ before, m' ∈ locate h := fun m' hm' => by simp [hsplit, hm']
      rw [hsplit, List.map_append, List.nodup_append] at hnodup
      refine ⟨before, m, after, pos, hsplit, hname.symm, ?_, ?_, hshort⟩
      · exact hassigned.holds (hindependent.mono hbefore) hnodup.1 fun m' hm' => (hmembers m' (hbefore m' hm')).1
      · intro m' hm' get hget
        apply hassigned.get_other hindependent (by simp [hsplit, List.mem_cons.1 hm']) hget
        intro m'' hm''
        exact ⟨hbefore m'' hm'', (hnodup.2.2 _ (List.mem_map_of_mem hm'') _ (List.mem_map_of_mem hm')).symm⟩
    · cases hstop

end Serializer

/-- A visit whose number of hits is written with a byte too many, and whose path is cut off. The number is read, as one
byte, so the rest of it is taken for the next member; the path stays as it was. -/
theorem Visit.deserializeInto_stopped_path :
    (serializer.deserializeInto () members { hits := 7, shown := true, path := "/" } [129, 0, 3, 0, 47] 0).1 =
        (.error (.error (.truncated "path" 3 1)), ({ hits := 1, shown := false, path := "/" } : Visit)) ∧
      ∃ before m after pos, members = before ++ m :: after ∧ m.name = "path" ∧
        Layout.Holds (Registry.builtin ⟨.big, true⟩) .u16 [129, 0, 3, 0, 47]
          ({ hits := 1, shown := false, path := "/" } : Visit) before 0 pos ∧
        (∀ m' ∈ m :: after, ∀ get ∈ m'.getter, get ({ hits := 1, shown := false, path := "/" } : Visit) =
          get { hits := 7, shown := true, path := "/" }) ∧
        m.ShortAt .u16 (Builtin.encoding .big) {} [129, 0, 3, 0, 47] pos 3 1 := by
  have hstop : (serializer.deserializeInto () members { hits := 7, shown := true, path := "/" } [129, 0, 3, 0, 47] 0).1 =
      (.error (.error (.truncated "path" 3 1)), ({ hits := 1, shown := false, path := "/" } : Visit)) := by cbv
  have hcalls : ∀ call ∈ [Call.serialize (F := family) () sample], call.Genuine (fun _ => members) :=
    List.forall_mem_singleton.2 trivial
  have haccess : ∀ m ∈ members, m.isReadable ∧ m.isWritable := by decide
  exact ⟨hstop, Serializer.deserializeInto_stopped (F := family) (fun _ => members) ⟨.big, true⟩ ⟨.u16, 100⟩ _ hcalls ()
    haccess ofFamily_members independent_members _ _ _ 0 _ _ _ hstop⟩

end Memberwise
