import Mathlib
import Memberwise.Proofs.Codec.Window
import Memberwise.Proofs.Message.Decode
import Memberwise.Proofs.Message.Measure

/-!
# What reading depends on

A message is read by the bytes that it takes: where these bytes stand in another input, they are read with the same
result, whatever stands around them. The checks that a member is read under compare with all of the rest of the input,
but if they passed, then the bytes that were read were enough for them.

This needs every member to take as many bytes as its reader looks at (`Layout.Local`). A member that is measured or read
at variable length does not: its reader looks at the rest of the input, and its size is that of the number found.
-/

namespace Memberwise

namespace Layout

variable {H : Type} {p : LengthPrefix} {s : AccessorSet H} {sets : List (AccessorSet H)} {least x y : H}
  {buf buf' : Bytes} {pos pos' stop : UInt64}

/-- An accessor set that assigns by the bytes that the member takes. -/
structure Local (s : AccessorSet H) : Prop where
  implicit : s.length = .implicit → ∀ z ∈ s.sizeOf, ∀ read ∈ s.readScalar, ∃ (width : Nat) (assign : H → Bytes → H),
    (∀ x, (z.call x).toNat = width) ∧
      ∀ x buf pos, read.call x buf pos = (buf.slice? pos.toNat width).map (assign x)
  prefixed : s.length = .prefixed → ∀ read ∈ s.readBounded, ∃ assign : H → Bytes → H,
    ∀ x buf pos length, read.call x buf pos length = (buf.slice? pos.toNat length.toNat).map (assign x)

/-! ### One member -/

theorem memberSize_eq_some {size : UInt64} (h : memberSize s x = .ok size) : ∃ z, s.sizeOf = some z ∧ size = z.call x := by
  unfold memberSize at h
  split at h
  · next z hz =>
    cases h
    exact ⟨z, hz, rfl⟩
  · cases h

theorem decodeImplicit_local (hs : Local s) (hmode : s.length = .implicit)
    (h : decodeImplicit s least x buf pos = (.ok stop, y)) :
    ∃ n, pos.toNat + n ≤ buf.length ∧ stop = pos + UInt64.ofNat n ∧
      ∀ buf' pos', buf'.slice? pos'.toNat n = buf.slice? pos.toNat n →
        decodeImplicit s least x buf' pos' = (.ok (pos' + UInt64.ofNat n), y) := by
  obtain ⟨needed, consumed, hneeded, -, ⟨read, hread, hy⟩, hconsumed, -, rfl⟩ := decodeImplicit_eq_ok h
  obtain ⟨z, hz, rfl⟩ := memberSize_eq_some hneeded
  have hsize : ∀ v, memberSize s v = .ok (z.call v) := fun v => by rw [memberSize, hz]
  cases (hsize y).symm.trans hconsumed
  obtain ⟨width, assign, hwidth, hassign⟩ := hs.implicit hmode z hz read hread
  rw [hassign] at hy
  obtain ⟨bs, hslice, rfl⟩ := Option.map_eq_some_iff.1 hy
  have hword : ∀ v, z.call v = UInt64.ofNat width := fun v => by rw [← hwidth v, UInt64.ofNat_toNat]
  refine ⟨width, (Bytes.slice?_eq_some_iff.1 hslice).1, by rw [hword], fun buf' pos' hsame => ?_⟩
  have hin := (Bytes.slice?_eq_some_iff.1 (hsame.trans hslice)).1
  -- both checks ask for the width, before the member is read and after
  have hroom : ∀ v, (z.call v).toNat ≤ available buf' pos' := by
    intro v
    rw [hwidth, available]
    omega
  have hassigned : read.call x buf' pos' = some (assign x bs) := by
    rw [hassign, hsame, hslice]
    rfl
  rw [← hword (assign x bs)]
  exact decodeImplicit_of_le (hsize least) (hroom least) hread hassigned (hsize _) (hroom _)

theorem decodePrefixed_local (hs : Local s) (hmode : s.length = .prefixed) (hbuf : buf.length < 2 ^ 64)
    (h : decodePrefixed p s x buf pos = (.ok stop, y)) :
    ∃ n, pos.toNat + n ≤ buf.length ∧ stop = pos + UInt64.ofNat n ∧
      ∀ buf' pos', buf'.length < 2 ^ 64 → buf'.slice? pos'.toNat n = buf.slice? pos.toNat n →
        decodePrefixed p s x buf' pos' = (.ok (pos' + UInt64.ofNat n), y) := by
  obtain ⟨head, hhead, hroom, ⟨read, hread, hy⟩, rfl⟩ := decodePrefixed_eq_ok h
  have hreader : s.readBounded = some read := hread
  obtain ⟨assign, hassign⟩ := hs.prefixed hmode read hread
  have hin := (Bytes.slice?_eq_some_iff.1 hhead).1
  rw [available] at hroom
  have hstart : (pos + UInt64.ofNat p.width).toNat = pos.toNat + p.width := Bytes.toNat_add_ofNat hin hbuf
  have hcount : (UInt64.ofNat (Numeral.ofLittle head)).toNat = Numeral.ofLittle head := by
    exact UInt64.toNat_ofNat_of_lt' (by rw [UInt64.size]; omega)
  have hwhole : pos.toNat + (p.width + Numeral.ofLittle head) ≤ buf.length := by omega
  rw [hassign, hstart, hcount] at hy
  obtain ⟨bs, hslice, rfl⟩ := Option.map_eq_some_iff.1 hy
  refine ⟨p.width + Numeral.ofLittle head, hwhole, ?_, fun buf' pos' hbuf' hsame => ?_⟩
  · rw [UInt64.ofNat_add, UInt64.add_assoc]
  -- the two inputs agree in the length, and then in what it counts
  obtain ⟨data, hdata⟩ := Option.isSome_iff_exists.1 (Bytes.isSome_slice?.2 hwhole)
  have hin' := (Bytes.slice?_eq_some_iff.1 (hsame.trans hdata)).1
  obtain ⟨hfirst, hsecond⟩ := Bytes.slice?_add hdata
  obtain ⟨hfirst', hsecond'⟩ := Bytes.slice?_add (hsame.trans hdata)
  have hhead' : buf'.slice? pos'.toNat p.width = some head := by rw [hfirst', ← hfirst, hhead]
  have hstart' : (pos' + UInt64.ofNat p.width).toNat = pos'.toNat + p.width :=
    Bytes.toNat_add_ofNat (by omega) hbuf'
  have hassigned : read.call x buf' (pos' + UInt64.ofNat p.width) (UInt64.ofNat (Numeral.ofLittle head)) =
      some (assign x bs) := by
    rw [hassign, hstart', hcount, hsecond', ← hsecond, hslice]
    rfl
  simp only [decodePrefixed, hhead', hreader, hassigned]
  rw [if_neg (by rw [available]; omega), UInt64.ofNat_add, UInt64.add_assoc]

theorem decodeMember_local (hs : Local s) (hbuf : buf.length < 2 ^ 64)
    (h : decodeMember p s least x buf pos = (.ok stop, y)) :
    ∃ n, pos.toNat + n ≤ buf.length ∧ stop = pos + UInt64.ofNat n ∧
      ∀ buf' pos', buf'.length < 2 ^ 64 → buf'.slice? pos'.toNat n = buf.slice? pos.toNat n →
        decodeMember p s least x buf' pos' = (.ok (pos' + UInt64.ofNat n), y) := by
  unfold decodeMember at h ⊢
  cases hmode : s.length with
  | implicit =>
    rw [hmode] at h
    obtain ⟨n, hin, hstop, hlocal⟩ := decodeImplicit_local hs hmode h
    exact ⟨n, hin, hstop, fun buf' pos' _ => hlocal buf' pos'⟩
  | prefixed =>
    rw [hmode] at h
    exact decodePrefixed_local hs hmode hbuf h

/-! ### Whole messages -/

/-- What is read of a message depends on the bytes that it takes. -/
theorem decode_local (hs : ∀ s ∈ sets, Local s) (hbuf : buf.length < 2 ^ 64)
    (h : decode p least sets x buf pos = (.ok stop, y)) :
    ∃ n, stop.toNat = pos.toNat + n ∧
      ∀ buf' pos' data, buf'.length < 2 ^ 64 → buf.slice? pos.toNat n = some data →
        buf'.slice? pos'.toNat n = some data →
          decode p least sets x buf' pos' = (.ok (pos' + UInt64.ofNat n), y) := by
  -- the bytes of a message are those of its first member and those of the rest, in the one input as in the other
  induction sets generalizing x pos with
  | nil =>
    cases h
    exact ⟨0, rfl, fun buf' pos' _ _ _ _ => congrArg (Except.ok ·, _) (UInt64.add_zero pos').symm⟩
  | cons s rest ih =>
    obtain ⟨hlocal, hrest⟩ := List.forall_mem_cons.1 hs
    unfold decode at h
    split at h
    · cases h
    next mid z hmember =>
    obtain ⟨first, hin, hmid, hfirst⟩ := decodeMember_local hlocal hbuf hmember
    obtain ⟨second, hstop, hsecond⟩ := ih hrest h
    rw [hmid, Bytes.toNat_add_ofNat hin hbuf] at hstop hsecond
    refine ⟨first + second, by omega, fun buf' pos' data hbuf' hdata hdata' => ?_⟩
    have hin' := (Bytes.slice?_eq_some_iff.1 hdata').1
    obtain ⟨hdata₁, hdata₂⟩ := Bytes.slice?_add hdata
    obtain ⟨hdata₁', hdata₂'⟩ := Bytes.slice?_add hdata'
    have hmid' : (pos' + UInt64.ofNat first).toNat = pos'.toNat + first := Bytes.toNat_add_ofNat (by omega) hbuf'
    have hagain := hfirst buf' pos' hbuf' (hdata₁'.trans hdata₁.symm)
    unfold decode
    rw [hagain]
    dsimp only
    rw [hsecond buf' _ _ hbuf' hdata₂ (by rwa [hmid']), UInt64.ofNat_add, UInt64.add_assoc]

/-! ### Built-in codecs -/

section Compiled

variable {m : Member H} {rc : RegistryConfig} {host : String}

/-- A member that is not measured at variable length measures the width of its type, if this has one. -/
theorem toNat_measure_of_binds (hb : m.Binds (Registry.builtin rc) s) (hcount : m.codec.sizeOf ≠ "GetVarByteCount")
    {reader : String} (hreader : Builtin.fixedReader m.type = some reader) {z : Bound (H → UInt64)}
    (hz : s.sizeOf = some z) (x : H) : (z.call x).toNat = Builtin.fixedWidth m.type := by
  cases hget : m.getter with
  | none =>
    rw [(hb.unread hget).2] at hz
    cases hz
  | some get =>
    obtain ⟨-, z', -, hz', -, hsizeOf⟩ := hb.read get hget
    cases hsizeOf.symm.trans hz
    have hname : z'.name = m.codec.sizeOf := (Registry.mem_of_resolve hz').2.1 _ rfl
    rcases Builtin.promise_of_resolve hz' with ⟨-, hmeasures⟩ | ⟨hvar, -⟩
    · exact Builtin.toNat_of_measures_plain hreader hmeasures (get x)
    · exact absurd (hname.symm.trans hvar) hcount

/-- A member that is neither measured nor read at variable length is read by the bytes that it takes. -/
theorem local_of_compile (hs : m.compile (Registry.builtin rc) host = .ok s) (hm : ¬ m.Varies) : Local s := by
  have hb := Member.binds_of_compile hs
  obtain ⟨hcount, hreader⟩ := not_or.1 hm
  cases hset : m.setter with
  | none =>
    obtain ⟨hscalar, hbounded⟩ := hb.unassigned hset
    exact ⟨fun _ _ _ read hread => by simp [hscalar] at hread, fun _ read hread => by simp [hbounded] at hread⟩
  | some set =>
    refine ⟨fun hmode z hz read hread => ?_, fun hmode read hread => ?_⟩
    · obtain ⟨r, hresolve, hscalar⟩ := hb.assignScalar set hset (hb.length ▸ hmode)
      cases hscalar.symm.trans hread
      obtain ⟨hname, hparses⟩ := Member.parses_of_resolve (fun name hname heq => hreader ⟨name, hname, heq⟩) hresolve
      refine ⟨Builtin.fixedWidth m.type, fun x bs => set x (Builtin.parse rc.byteOrder m.type bs),
        toNat_measure_of_binds hb hcount hname hz, fun x buf pos => ?_⟩
      change (r.call buf pos).map (set x) = _
      rw [hparses, Option.map_map]
      rfl
    · obtain ⟨r, hresolve, hbounded⟩ := hb.assignBounded set hset (hb.length ▸ hmode)
      cases hbounded.symm.trans hread
      refine ⟨fun x bs => set x (Builtin.parse rc.byteOrder m.type bs), fun x buf pos length => ?_⟩
      change (r.call buf pos length).map (set x) = _
      rw [Builtin.sees_of_resolve hresolve, Option.map_map]
      rfl

end Compiled

end Layout

namespace Serializer

variable {F : HostFamily} {locate : Locator F} {h : F.Host}

theorem local_of_table {rc : RegistryConfig} {config : MessageConfig} {calls : List (Call F)}
    {t : Shared (Table (F.Instance h))} (hvaries : ∀ m ∈ locate h, ¬ m.Varies)
    (ht : ((inUse locate (Registry.builtin rc) config calls).table h (locate h)).1 = .ok t) :
    ∀ s ∈ t.value.sets.map (·.value), Layout.Local s := by
  intro s hs
  obtain ⟨shared, hshared, rfl⟩ := List.mem_map.1 hs
  obtain ⟨m, hm, m', -, hkey, hcompile⟩ := (mirrors_inUse ht).exists_of_mem hshared
  have htype : m'.type = m.type := congrArg Key.type hkey
  have hcodec : m'.codec = m.codec := congrArg Key.codec hkey
  have hvaries' : ¬ m'.Varies := by
    rw [Member.Varies, htype, hcodec]
    exact hvaries m hm
  exact Layout.local_of_compile hcompile hvaries'

/-- Reading is local. Take a host type over the built-in codecs with no member that is measured or read at variable
length. If a message is read from an input, and its bytes stand in another input as well, then they are read from there
with the same result, whatever the accessors of the members do. What stands before and behind them has no influence, nor
has the length of the input. The serializer may have been called for anything before, such as for the first reading. -/
theorem deserializeInto_local (locate : Locator F) (rc : RegistryConfig) (config : MessageConfig) (calls : List (Call F))
    (h : F.Host) (hvaries : ∀ m ∈ locate h, ¬ m.Varies) (target y : F.Instance h) (buf buf' : Bytes)
    (hbuf : buf.length < 2 ^ 64) (hbuf' : buf'.length < 2 ^ 64) (offset offset' n : UInt64)
    (hread : ((inUse locate (Registry.builtin rc) config calls).deserializeInto h (locate h) target buf offset).1 =
      (.ok n, y)) (data : Bytes) (hdata : buf.slice? offset.toNat n.toNat = some data)
    (hdata' : buf'.slice? offset'.toNat n.toNat = some data) :
    ∀ s ∈ [inUse locate (Registry.builtin rc) config calls,
        ((inUse locate (Registry.builtin rc) config calls).deserializeInto h (locate h) target buf offset).2],
      (s.deserializeInto h (locate h) target buf' offset').1 = (.ok n, y) := by
  cases ht : ((inUse locate (Registry.builtin rc) config calls).table h (locate h)).1 with
  | error e =>
    rw [deserializeInto, withTable_fst, ht] at hread
    cases hread
  | ok t =>
    have hsame : ∀ s ∈ [inUse locate (Registry.builtin rc) config calls,
        ((inUse locate (Registry.builtin rc) config calls).deserializeInto h (locate h) target buf offset).2],
        (s.table h (locate h)).1 = .ok t ∧ s.config = config := by
      refine List.forall_mem_cons.2 ⟨⟨ht, config_inUse _ config calls⟩, List.forall_mem_singleton.2 ⟨?_, ?_⟩⟩
      · rw [deserializeInto, withTable_snd, table_table, ht]
      · exact (config_after _ (.deserializeInto h target buf offset)).trans (config_inUse _ config calls)
    rw [deserializeInto_of_table ht, config_inUse, deserializeIntoWith] at hread
    split at hread
    · cases hread
    next stop y' hdecode =>
    cases hread
    obtain ⟨k, hstop, hlocal⟩ := Layout.decode_local (local_of_table hvaries ht) hbuf hdecode
    have hcount : (stop - offset).toNat = k := by
      rw [UInt64.toNat_sub_of_le _ _ (UInt64.le_iff_toNat_le.2 (by omega))]
      omega
    rw [hcount] at hdata hdata'
    have hagain := hlocal buf' offset' data hbuf' hdata hdata'
    intro s hs
    obtain ⟨ht', hconfig⟩ := hsame s hs
    rw [deserializeInto_of_table ht', hconfig, deserializeIntoWith, hagain]
    dsimp only
    rw [UInt64.add_comm, UInt64.add_sub_cancel, ← hcount, UInt64.ofNat_toNat]

theorem not_varies_record : ∀ m ∈ Record.members, ¬ m.Varies := by
  simp only [Record.members, List.forall_mem_cons, List.not_mem_nil, false_imp_iff, implies_true, and_true]
  refine ⟨?_, ?_, ?_, ?_, ?_⟩
  all_goals
    rintro (hcount | ⟨_, ⟨⟩, -⟩)
    exact absurd hcount (by decide)

/-- The sample record between other bytes, and at the start of an input. -/
theorem deserializeInto_local_record :
    let s := inUse (F := Sample.family "samples") Sample.members (Registry.builtin ⟨.big, false⟩) ⟨.u16, 4096⟩ []
    let buf := [1, 2] ++ recordBytes ++ [3]
    (s.deserializeInto .record Record.members Record.start buf 2).1 = (.ok 33, Record.sample) ∧
      ∀ s' ∈ [s, (s.deserializeInto .record Record.members Record.start buf 2).2],
        (s'.deserializeInto .record Record.members Record.start recordBytes 0).1 = (.ok 33, Record.sample) := by
  intro s buf
  have hread : (s.deserializeInto .record Record.members Record.start buf 2).1 = (.ok 33, Record.sample) := by cbv
  exact ⟨hread, deserializeInto_local (F := Sample.family "samples") Sample.members ⟨.big, false⟩ ⟨.u16, 4096⟩ [] .record
    not_varies_record Record.start Record.sample buf recordBytes (by decide) (by decide) 2 0 33 hread recordBytes
    (by decide) (by decide)⟩

end Serializer

end Memberwise
