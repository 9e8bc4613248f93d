import Mathlib.Data.BitVec
import Memberwise.Proofs.Codec.Family
import Memberwise.Proofs.Message.History

/-!
# Reading arbitrary input

Whatever the input holds and wherever reading starts, the cursor only moves forward and does not pass the end of the
input (`Layout.decode_bounds`); this is so over any registry. An input has less than `2 ^ 64` bytes here, as positions
are 64-bit words.

Over the built-in codecs reading does not fault either: if an accessor set is robust (`Layout.Robust`), what is checked
before each of its readers is called is enough for the call, so reading ends well or reports that the input is too short
(`Layout.decode_okOrTruncated`). The set of a member is robust if the member is probed well (`Member.Probed`): the check
goes by what a default instance takes, and if this is measured at variable length, a reader of fixed width may need more.
A member that is not probed well does fault on some input (`Layout.decodeMember_faults`).
-/

namespace Memberwise

/-- The operation succeeded, or was stopped where the input ended inside a member. -/
def Outcome.OkOrTruncated {α : Type} : Outcome α → Prop
  | .ok _ => True
  | .error (.error (.truncated ..)) => True
  | _ => False

/-- If the member is measured at variable length and read at fixed width, then it measures at least this width in the
given instance. -/
def Member.Probed {H : Type} (m : Member H) (least : H) : Prop :=
  m.codec.length = .implicit → m.codec.sizeOf = "GetVarByteCount" →
    (∀ name ∈ m.codec.readScalar, Builtin.fixedReader m.type = some name) →
      ∀ get ∈ m.getter, Builtin.fixedWidth m.type ≤ Varint.size (Builtin.magnitude m.type (get least))

namespace Layout

variable {H : Type} {p : LengthPrefix} {s : AccessorSet H} {sets : List (AccessorSet H)} {least x y : H} {buf : Bytes}
  {pos pos' : UInt64}

/-! ### The cursor -/

/-- A member of implicit length that was read: there was room for what the instance to probe with takes, and for what
the instance takes afterwards. -/
theorem decodeImplicit_eq_ok (h : decodeImplicit s least x buf pos = (.ok pos', y)) :
    ∃ needed consumed, memberSize s least = .ok needed ∧ needed.toNat ≤ available buf pos ∧
      (∃ read ∈ s.readScalar, read.call x buf pos = some y) ∧
      memberSize s y = .ok consumed ∧ consumed.toNat ≤ available buf pos ∧ pos' = pos + consumed := by
  simp only [decodeImplicit] at h
  split at h
  · cases h
  next needed hneeded =>
  split at h
  · cases h
  next hprobe =>
  split at h
  · cases h
  next read hread =>
  split at h
  · cases h
  next z hz =>
  split at h
  · cases h
  next consumed hconsumed =>
  split at h
  · cases h
  next hroom =>
    cases h
    exact ⟨needed, consumed, hneeded, Nat.le_of_not_lt hprobe, ⟨read, hread, hz⟩, hconsumed, Nat.le_of_not_lt hroom,
      rfl⟩

/-- A prefixed member that was read: its length was there, and as many bytes as it says. -/
theorem decodePrefixed_eq_ok (h : decodePrefixed p s x buf pos = (.ok pos', y)) :
    ∃ head, buf.slice? pos.toNat p.width = some head ∧ Numeral.ofLittle head ≤ available buf pos - p.width ∧
      (∃ read ∈ s.readBounded,
        read.call x buf (pos + UInt64.ofNat p.width) (UInt64.ofNat (Numeral.ofLittle head)) = some y) ∧
      pos' = pos + UInt64.ofNat p.width + UInt64.ofNat (Numeral.ofLittle head) := by
  simp only [decodePrefixed] at h
  split at h
  · cases h
  next head hhead =>
  split at h
  · cases h
  next hroom =>
  split at h
  · cases h
  next read hread =>
  split at h
  · cases h
  next z hz =>
    cases h
    exact ⟨head, hhead, Nat.le_of_not_lt hroom, ⟨read, hread, hz⟩, rfl⟩

theorem decodeImplicit_bounds (hbuf : buf.length < 2 ^ 64) (h : decodeImplicit s least x buf pos = (.ok pos', y)) :
    pos.toNat ≤ pos'.toNat ∧ pos'.toNat ≤ max pos.toNat buf.length := by
  obtain ⟨needed, consumed, -, -, -, -, hroom, rfl⟩ := decodeImplicit_eq_ok h
  rw [available] at hroom
  by_cases hin : pos.toNat ≤ buf.length
  · rw [Bytes.toNat_add_of_le (by omega) hbuf]
    omega
  · -- beyond the end of the input nothing is available, so nothing was consumed
    have hzero : consumed = 0 := by
      apply UInt64.toNat_inj.1
      rw [UInt64.toNat_zero]
      omega
    rw [hzero, UInt64.add_zero]
    omega

theorem decodePrefixed_bounds (hbuf : buf.length < 2 ^ 64) (h : decodePrefixed p s x buf pos = (.ok pos', y)) :
    pos.toNat ≤ pos'.toNat ∧ pos'.toNat ≤ max pos.toNat buf.length := by
  obtain ⟨head, hhead, hroom, -, rfl⟩ := decodePrefixed_eq_ok h
  have hin := (Bytes.slice?_eq_some_iff.1 hhead).1
  have hstart : (pos + UInt64.ofNat p.width).toNat = pos.toNat + p.width := Bytes.toNat_add_ofNat hin hbuf
  rw [available] at hroom
  have hend : (pos + UInt64.ofNat p.width).toNat + Numeral.ofLittle head ≤ buf.length := by
    rw [hstart]
    omega
  rw [Bytes.toNat_add_ofNat hend hbuf, hstart]
  omega

/-- Reading a member does not move the cursor back, nor beyond the end of the input. -/
theorem decodeMember_bounds (hbuf : buf.length < 2 ^ 64) (h : decodeMember p s least x buf pos = (.ok pos', y)) :
    pos.toNat ≤ pos'.toNat ∧ pos'.toNat ≤ max pos.toNat buf.length := by
  unfold decodeMember at h
  split at h
  · exact decodeImplicit_bounds hbuf h
  · exact decodePrefixed_bounds hbuf h

/-- Reading a message does not move the cursor back, nor beyond the end of the input. -/
theorem decode_bounds (hbuf : buf.length < 2 ^ 64) (h : decode p least sets x buf pos = (.ok pos', y)) :
    pos.toNat ≤ pos'.toNat ∧ pos'.toNat ≤ max pos.toNat buf.length := by
  induction sets generalizing x pos with
  | nil =>
    cases h
    omega
  | cons s rest ih =>
    unfold decode at h
    split at h
    · cases h
    next mid z hmember =>
    have hfirst := decodeMember_bounds hbuf hmember
    have hrest := ih h
    omega

/-! ### Faults -/

/-- An accessor set that does not fault where the input is long enough: for the given instance if the length is
implicit, for the length in front if there is one. -/
structure Robust (s : AccessorSet H) (least : H) : Prop where
  implicit : s.length = .implicit → ∃ z read, s.sizeOf = some z ∧ s.readScalar = some read ∧
    ∀ x buf pos, (z.call least).toNat ≤ available buf pos → (read.call x buf pos).isSome
  prefixed : s.length = .prefixed → ∃ read, s.readBounded = some read ∧
    ∀ x buf pos length, pos.toNat + length.toNat ≤ buf.length → (read.call x buf pos length).isSome

theorem decodeImplicit_okOrTruncated (hs : Robust s least) (hmode : s.length = .implicit) :
    (decodeImplicit s least x buf pos).1.OkOrTruncated := by
  obtain ⟨z, read, hsize, hread, hsome⟩ := hs.implicit hmode
  have hmeasured : ∀ v, memberSize s v = .ok (z.call v) := fun v => by rw [memberSize, hsize]
  simp only [decodeImplicit, hmeasured, hread]
  split
  · trivial
  next hroom =>
  obtain ⟨y, hy⟩ := Option.isSome_iff_exists.1 (hsome x buf pos (by omega))
  rw [hy]
  dsimp only
  split <;> trivial

theorem decodePrefixed_okOrTruncated (hs : Robust s least) (hmode : s.length = .prefixed)
    (hbuf : buf.length < 2 ^ 64) : (decodePrefixed p s x buf pos).1.OkOrTruncated := by
  obtain ⟨read, hread, hsome⟩ := hs.prefixed hmode
  simp only [decodePrefixed, hread]
  split
  · trivial
  next head hhead =>
  split
  · trivial
  next hroom =>
  have hin := (Bytes.slice?_eq_some_iff.1 hhead).1
  rw [available] at hroom
  have hinside : (pos + UInt64.ofNat p.width).toNat + (UInt64.ofNat (Numeral.ofLittle head)).toNat ≤ buf.length := by
    rw [Bytes.toNat_add_ofNat hin hbuf, UInt64.toNat_ofNat', Nat.mod_eq_of_lt (by omega)]
    omega
  obtain ⟨y, hy⟩ := Option.isSome_iff_exists.1 (hsome x buf _ _ hinside)
  rw [hy]
  trivial

theorem decodeMember_okOrTruncated (hs : Robust s least) (hbuf : buf.length < 2 ^ 64) :
    (decodeMember p s least x buf pos).1.OkOrTruncated := by
  unfold decodeMember
  split
  · next hmode => exact decodeImplicit_okOrTruncated hs hmode
  · next hmode => exact decodePrefixed_okOrTruncated hs hmode hbuf

/-- Robust accessor sets read any input, or say where it ends. -/
theorem decode_okOrTruncated (hs : ∀ s ∈ sets, Robust s least) (hbuf : buf.length < 2 ^ 64) :
    (decode p least sets x buf pos).1.OkOrTruncated := by
  induction sets generalizing x pos with
  | nil => trivial
  | cons s rest ih =>
    have hmember : (decodeMember p s least x buf pos).1.OkOrTruncated :=
      decodeMember_okOrTruncated (hs s (.head _)) hbuf
    unfold decode
    split
    · next heq => rwa [heq] at hmember
    · exact ih fun s' hs' => hs s' (.tail _ hs')

/-- What a default instance measures is enough for the reader: its whole width, or one byte at variable length. -/
theorem isSome_of_probed {rc : RegistryConfig} {m : Member H} {get : H → m.type.Carrier}
    {z : Bound (m.type.Carrier → UInt64)} {read : Bound (Bytes → UInt64 → Option m.type.Carrier)}
    (hprobed : m.Probed least) (hmode : m.codec.length = .implicit) (hget : m.getter = some get)
    (hz : (Registry.builtin rc).resolve m.type .sizeOf (some m.codec.sizeOf) = .ok z)
    (hread : (Registry.builtin rc).resolve m.type .readScalar m.codec.readScalar = .ok read)
    (hroom : (z.call (get least)).toNat ≤ available buf pos) : (read.call buf pos).isSome := by
  have hzname : z.name = m.codec.sizeOf := (Registry.mem_of_resolve hz).2.1 _ rfl
  rw [available] at hroom
  rcases Builtin.promise_of_resolve hread with ⟨hname, -, hwithin⟩ | ⟨hname, -, hwithin, -⟩
  · apply (hwithin buf pos).2
    have hpos := Builtin.fixedWidth_pos hname
    rcases Builtin.promise_of_resolve hz with ⟨-, hmeasures⟩ | ⟨hcount, hmeasures⟩
    · rw [Builtin.toNat_of_measures_plain hname hmeasures] at hroom
      omega
    · -- the one pairing in which the probe and the reader go by different encodings
      have henough := hprobed hmode (hzname.symm.trans hcount)
        (fun n hn => (Registry.mem_of_resolve hread).2.1 n hn ▸ hname) get hget
      rw [Builtin.toNat_of_measures_digits hmeasures, Builtin.digits, Varint.length_encode] at hroom
      omega
  · apply (hwithin buf pos).2
    obtain ⟨fixed, hfixed⟩ := Builtin.isSome_fixedReader hname
    have hpos := Builtin.fixedWidth_pos hfixed
    rcases Builtin.promise_of_resolve hz with ⟨-, hmeasures⟩ | ⟨-, hmeasures⟩
    · rw [Builtin.toNat_of_measures_plain hfixed hmeasures] at hroom
      omega
    · have hdigit := Builtin.length_digits_pos m.type (get least)
      rw [Builtin.toNat_of_measures_digits hmeasures] at hroom
      omega

theorem robust_of_compile {rc : RegistryConfig} {host : String} {m : Member H}
    (hs : m.compile (Registry.builtin rc) host = .ok s) (hread : m.isReadable) (hwrite : m.isWritable)
    (hprobed : m.Probed least) : Robust s least := by
  have hb := Member.binds_of_compile hs
  obtain ⟨get, hget⟩ := Option.isSome_iff_exists.1 hread
  obtain ⟨set, hset⟩ := Option.isSome_iff_exists.1 hwrite
  refine ⟨fun hmode => ?_, fun hmode => ?_⟩
  · obtain ⟨w, z, -, hz, -, hsize⟩ := hb.read get hget
    obtain ⟨read, hscalar, hreader⟩ := hb.assignScalar set hset (hb.length ▸ hmode)
    refine ⟨_, _, hsize, hreader, fun x buf pos hroom => ?_⟩
    have hsome := isSome_of_probed hprobed (hb.length ▸ hmode) hget hz hscalar hroom
    exact Option.isSome_map.trans hsome
  · obtain ⟨read, hbounded, hreader⟩ := hb.assignBounded set hset (hb.length ▸ hmode)
    refine ⟨_, hreader, fun x buf pos length hin => ?_⟩
    have hsome := (Builtin.promise_of_resolve hbounded).2.2 buf pos length hin
    exact Option.isSome_map.trans hsome

/-- Probing well is needed: reading a member that is not probed well faults on some input, which ends where a default
instance would. -/
theorem decodeMember_faults {rc : RegistryConfig} {host : String} {m : Member H}
    (hs : m.compile (Registry.builtin rc) host = .ok s) (hread : m.isReadable) (hwrite : m.isWritable)
    (hprobed : ¬ m.Probed least) (p : LengthPrefix) (x : H) {pre : Bytes} (hpos : pos.toNat = pre.length) :
    ∃ rest, (decodeMember p s least x (pre ++ rest) pos).1 = .error .fault := by
  have hb := Member.binds_of_compile hs
  obtain ⟨get, hget⟩ := Option.isSome_iff_exists.1 hread
  obtain ⟨set, hset⟩ := Option.isSome_iff_exists.1 hwrite
  unfold Member.Probed at hprobed
  push Not at hprobed
  obtain ⟨hmode, hcount, hname, get', hget', hshort⟩ := hprobed
  cases hget.symm.trans hget'
  obtain ⟨w, z, -, hz, -, hsize⟩ := hb.read get hget
  obtain ⟨read, hscalar, hreader⟩ := hb.assignScalar set hset hmode
  obtain ⟨-, -, hwithin⟩ := Member.fixedReader_of_resolve hname hscalar
  have hprobe : (z.call (get least)).toNat = Varint.size (Builtin.magnitude m.type (get least)) := by
    rcases Builtin.promise_of_resolve hz with ⟨hplain, -⟩ | ⟨-, hmeasures⟩
    · have hzname : z.name = m.codec.sizeOf := (Registry.mem_of_resolve hz).2.1 _ rfl
      exact absurd (hplain.symm.trans (hzname.trans hcount)) (by decide)
    · rw [Builtin.toNat_of_measures_digits hmeasures, Builtin.digits, Varint.length_encode]
  have hneeded : memberSize s least = .ok (z.call (get least)) := by
    rw [memberSize, hsize]
    rfl
  refine ⟨List.replicate (z.call (get least)).toNat 0, ?_⟩
  have hroom : available (pre ++ List.replicate (z.call (get least)).toNat 0) pos = (z.call (get least)).toNat := by
    rw [available, hpos, List.length_append, List.length_replicate, Nat.add_sub_cancel_left]
  have hnone : read.call (pre ++ List.replicate (z.call (get least)).toNat 0) pos = none := by
    rw [← Option.not_isSome_iff_eq_none, hwithin, hpos, List.length_append, List.length_replicate]
    omega
  have hassign : (read.map (Member.assignScalar set)).call x (pre ++ List.replicate (z.call (get least)).toNat 0) pos =
      none := Option.map_eq_none_iff.2 hnone
  rw [decodeMember, hb.length, hmode]
  simp only [decodeImplicit, hneeded, hroom, hreader, hassign]
  rw [if_neg (Nat.lt_irrefl _)]
  rfl

end Layout

namespace Serializer

variable {F : HostFamily} {locate : Locator F} {s : Serializer F} {h : F.Host}

theorem deserializeInto_eq_ok {members : List (Member (F.Instance h))} {x : F.Instance h} {buf : Bytes}
    {offset n : UInt64} (hok : (s.deserializeInto h members x buf offset).1.1 = .ok n) :
    ∃ sets pos y, Layout.decode s.config.lengthPrefix (F.default h) sets x buf offset = (.ok pos, y) ∧
      n = pos - offset := by
  rw [deserializeInto, withTable_fst] at hok
  split at hok
  · cases hok
  unfold deserializeIntoWith at hok
  split at hok
  · cases hok
  next pos y hdecode =>
    cases hok
    exact ⟨_, pos, y, hdecode, rfl⟩

/-- What a registered host type reads from ends inside the input, over any registry. -/
theorem deserializeInto_le {members : List (Member (F.Instance h))} {x : F.Instance h} {buf : Bytes}
    {offset n : UInt64} (hbuf : buf.length < 2 ^ 64)
    (hok : (s.deserializeInto h members x buf offset).1.1 = .ok n) :
    offset.toNat + n.toNat ≤ max offset.toNat buf.length := by
  obtain ⟨sets, pos, y, hdecode, rfl⟩ := deserializeInto_eq_ok hok
  obtain ⟨hforward, hinside⟩ := Layout.decode_bounds hbuf hdecode
  rw [UInt64.toNat_sub_of_le _ _ (UInt64.le_iff_toNat_le.2 hforward)]
  omega

/-- A member that is probed well, or cannot be taken for a declared one that it is not. -/
def Harmless (locate : Locator F) : Origin F := fun h m => m.Genuine (locate h) ∨ m.Probed (F.default h)

/-- Every set in the table of a host type whose members are probed well is robust. -/
theorem robust_of_mirrors {rc : RegistryConfig} {sets : List (Shared (AccessorSet (F.Instance h)))}
    (haccess : ∀ m ∈ locate h, m.isReadable ∧ m.isWritable) (hprobed : ∀ m ∈ locate h, m.Probed (F.default h))
    (hsets : Mirrors (Registry.builtin rc) (F.name h) (Harmless locate h) (locate h) sets) :
    ∀ set ∈ sets.map (·.value), Layout.Robust set (F.default h) := by
  intro set hset
  obtain ⟨shared, hshared, rfl⟩ := List.mem_map.1 hset
  obtain ⟨m, hm, m', hharmless, hkey, hcompile⟩ := hsets.exists_of_mem hshared
  have hreadable : m'.isReadable = m.isReadable := congrArg Key.readable hkey
  have hwritable : m'.isWritable = m.isWritable := congrArg Key.writable hkey
  have hprobed' : m'.Probed (F.default h) := by
    rcases hharmless with (hm' | hother) | hprobed'
    · exact hprobed m' hm'
    · exact absurd hkey.symm (hother m hm)
    · exact hprobed'
  exact Layout.robust_of_compile hcompile (hreadable ▸ (haccess m hm).1) (hwritable ▸ (haccess m hm).2) hprobed'

/-- Reading from any input is safe. Over the built-in codecs a registered host type, whose members can all be read and
assigned and are probed well, is read from any input at any offset, or the input is reported as too short; nothing else
happens. Over any registry, what is read ends inside the input. -/
theorem deserializeInto_safe (F : HostFamily) :
    (∀ (locate : Locator F) (rc : RegistryConfig) (config : MessageConfig) (calls : List (Call F)) (h : F.Host),
      (∀ call ∈ calls, call.Within (Harmless locate)) → (∀ m ∈ locate h, m.isReadable ∧ m.isWritable) →
      (∀ m ∈ locate h, m.Probed (F.default h)) →
      ((inUse locate (Registry.builtin rc) config calls).register h (locate h)).1 = .ok () →
      ∀ (x : F.Instance h) (buf : Bytes) (offset : UInt64), buf.length < 2 ^ 64 →
        ((inUse locate (Registry.builtin rc) config calls).deserializeInto h (locate h) x buf offset).1.1.OkOrTruncated) ∧
    ∀ (s : Serializer F) (h : F.Host) (members : List (Member (F.Instance h))) (x : F.Instance h) (buf : Bytes)
      (offset n : UInt64), buf.length < 2 ^ 64 → (s.deserializeInto h members x buf offset).1.1 = .ok n →
        offset.toNat + n.toNat ≤ max offset.toNat buf.length := by
  constructor
  · intro locate rc config calls h hcalls haccess hprobed hregistered x buf offset hbuf
    rw [register, withTable_fst] at hregistered
    split at hregistered
    · cases hregistered
    next t ht =>
    have hsound := sound_inUse (Registry.builtin rc) config (fun _ _ hm => .inl (.inl hm)) hcalls
    have hmirrors := mirrors_of_table hsound (fun _ hm => .inl (.inl hm)) ht
    rw [registry_inUse] at hmirrors
    have hdecode : (Layout.decode config.lengthPrefix (F.default h) (t.value.sets.map (·.value)) x buf
        offset).1.OkOrTruncated :=
      Layout.decode_okOrTruncated (robust_of_mirrors haccess hprobed hmirrors) hbuf
    rw [deserializeInto_of_table ht, config_inUse]
    unfold deserializeIntoWith
    split
    · next heq => rwa [heq] at hdecode
    · trivial
  · intro s h members x buf offset n hbuf hok
    exact deserializeInto_le hbuf hok

/-- A host type with one number that is written and measured at variable length, but read at fixed width. -/
def tally (start : BitVec 64) : HostFamily where
  Host := Unit
  decEq := inferInstance
  name _ := "Tally"
  Instance _ := BitVec 64
  default _ := start

/-- The number of a tally. -/
def tallyCount : Member (BitVec 64) where
  name := "count"
  type := .scalar .u64
  kind := .field
  getter := some fun x => x
  setter := some fun _ v => v
  codec := { write := "GetVarBytes", sizeOf := "GetVarByteCount", readScalar := some "ToUInt64" }

/-- A tally that starts low is registered, but one byte of input is enough for its probe and not for its reader. -/
theorem deserializeInto_tally_faults :
    ((inUse (F := tally 0) (fun _ => [tallyCount]) (Registry.builtin ⟨.little, true⟩) {} []).register ()
        [tallyCount]).1 = .ok () ∧
      (∀ m ∈ [tallyCount], m.isReadable ∧ m.isWritable) ∧
      ((inUse (F := tally 0) (fun _ => [tallyCount]) (Registry.builtin ⟨.little, true⟩) {} []).deserializeInto ()
        [tallyCount] (0 : BitVec 64) [0] 0).1.1 = .error .fault := by
  refine ⟨rfl, by decide, by decide +kernel⟩

theorem probed_tallyCount : tallyCount.Probed (2 ^ 63 : BitVec 64) := by
  rintro - - - _ ⟨⟩
  decide +kernel

/-- A tally that starts high is read from one byte of input without a fault, and where reading it succeeds, from one
byte of twelve. -/
theorem deserializeInto_tally_safe :
    let s := inUse (F := tally (2 ^ 63)) (fun _ => [tallyCount]) (Registry.builtin ⟨.little, true⟩) {} []
    (s.deserializeInto () [tallyCount] (0 : BitVec 64) [0] 0).1.1.OkOrTruncated ∧
      (s.deserializeInto () [tallyCount] (0 : BitVec 64) (List.replicate 12 0) 1).1.1 = .ok 1 ∧
        (1 : UInt64).toNat + (1 : UInt64).toNat ≤ max (1 : UInt64).toNat (List.replicate 12 (0 : UInt8)).length := by
  have hread : ((inUse (F := tally (2 ^ 63)) (fun _ => [tallyCount]) (Registry.builtin ⟨.little, true⟩) {}
      []).deserializeInto () [tallyCount] (0 : BitVec 64) (List.replicate 12 0) 1).1.1 = .ok 1 := by decide +kernel
  have hsafe := deserializeInto_safe (tally (2 ^ 63))
  refine ⟨?_, hread, hsafe.2 _ () _ _ _ 1 1 (by decide) hread⟩
  apply hsafe.1 (fun _ => [tallyCount]) ⟨.little, true⟩ {} [] () (by simp) _ _ rfl _ _ _ (by decide)
  · decide
  · exact List.forall_mem_singleton.2 probed_tallyCount

end Serializer

end Memberwise
