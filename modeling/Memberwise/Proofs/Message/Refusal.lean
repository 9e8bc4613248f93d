import Mathlib.Data.UInt
import Memberwise.Proofs.Message.Report

/-!
# What is refused

Before an instance is written, a prefixed member may turn out too long for its length, the message too large for the
settings, or the buffer too small, and the first of these in this order is the error. What members measure decides it:
see `Layout.extent`, `Serializer.allowance` and `Serializer.place`.

Nothing else goes wrong if the writers are reliable, that is, if they report what was measured wherever there is room
for it (`AccessorSet.Reliable`): writing then ends behind the message (`Layout.encode_of_reliable`). The writers of
lawful codecs are reliable (`Layout.reliable_of_writes`).
-/

namespace Memberwise

/-- Where there is room for as many bytes as a member measures in an instance, its writer reports that many. -/
def AccessorSet.Reliable {H : Type} (s : AccessorSet H) (x : H) : Prop :=
  ∀ w ∈ s.write, ∀ buf offset, buf.length < 2 ^ 63 → offset.toNat + (s.measured x).toNat ≤ buf.length →
    (w.call.run x buf offset).count = some (s.measured x)

namespace Layout

variable {H : Type} {p : LengthPrefix} {s : AccessorSet H} {sets : List (AccessorSet H)} {x : H} {buf : Bytes}
  {pos : UInt64}

/-- The number of bytes of a message, unless a prefixed member is too long for its length. -/
def extent (p : LengthPrefix) (sets : List (AccessorSet H)) (x : H) : Outcome Nat :=
  match sets.findSome? (overflow? p x) with
  | some e => Outcome.fail e
  | none => .ok (exactSize p sets x)

theorem obstacle?_of_sized (h : s.sizeOf.isSome) : obstacle? p x s = overflow? p x s := by
  obtain ⟨z, hz⟩ := Option.isSome_iff_exists.1 h
  rw [obstacle?, hz]

theorem findSome?_obstacle? (h : ∀ s ∈ sets, s.sizeOf.isSome) :
    sets.findSome? (obstacle? p x) = sets.findSome? (overflow? p x) := by
  induction sets with
  | nil => rfl
  | cons s rest ih =>
    obtain ⟨hs, hrest⟩ := List.forall_mem_cons.1 h
    rw [List.findSome?_cons, List.findSome?_cons, obstacle?_of_sized hs, ih hrest]

theorem measure_eq_extent (h : ∀ s ∈ sets, s.sizeOf.isSome) (hcounted : exactSize p sets x < 2 ^ 64) :
    measure p sets x = (extent p sets x).map UInt64.ofNat := by
  rw [measure_eq, if_pos (Nat.lt_of_le_of_lt (exactSize_measurable_le p sets x) hcounted), extent, findSome?_obstacle? h]
  cases sets.findSome? (overflow? p x) <;> rfl

theorem extent_eq_ok {n : Nat} (h : extent p sets x = .ok n) :
    (∀ s ∈ sets, overflow? p x s = none) ∧ n = exactSize p sets x := by
  unfold extent at h
  split at h
  · cases h
  · next hnone =>
    cases h
    exact ⟨List.findSome?_eq_none_iff.1 hnone, rfl⟩

/-- A reliable writer that has room for its member writes until behind it. -/
theorem encodeMember_of_reliable (hobstacle : obstacle? p x s = none) (hpaired : s.Paired) (hreliable : s.Reliable x)
    (hbuf : buf.length < 2 ^ 63) (hroom : pos.toNat + exactMember p x s ≤ buf.length) :
    ∃ out, encodeMember p s x buf pos = (.ok (pos + headWidth p s + s.measured x), out) := by
  obtain ⟨hsome, hsize⟩ := memberSize_of_obstacle? hobstacle
  obtain ⟨w, hwrite⟩ := Option.isSome_iff_exists.1 (hpaired hsome)
  have hfits : pos.toNat + exactMember p x s < 2 ^ 64 := by omega
  have hend := advance_member p s x pos
  rw [if_pos hfits] at hend
  obtain ⟨start, hstart, hend⟩ := bind_eq_ok_iff.1 hend
  have hbehind : start.toNat + (s.measured x).toNat ≤ buf.length := by
    rw [(advance_eq_ok hstart).2, toNat_headWidth, Nat.add_assoc]
    exact hroom
  rcases writeHead_ok_or_fault (overflow?_of_obstacle? hobstacle) buf pos with ⟨mid, hhead⟩ | ⟨-, hfull⟩
  · have hlength : mid.length = buf.length := length_writeHead hhead
    have hcount := hreliable w hwrite mid start (by omega) (by omega)
    cases hrun : w.call.run x mid start with
    | mk out count =>
    rw [hrun] at hcount
    cases hcount
    have hmember := encodeMember_of_run hsize hwrite hhead hstart hrun
    rw [Report.mismatch?, if_pos rfl, hend] at hmember
    exact ⟨out, hmember⟩
  · rw [exactMember] at hroom
    omega

theorem encode_of_reliable (hsets : ∀ s ∈ sets, obstacle? p x s = none ∧ s.Paired ∧ s.Reliable x)
    (hbuf : buf.length < 2 ^ 63) (hroom : pos.toNat + exactSize p sets x ≤ buf.length) :
    ∃ out, encode p x sets buf pos = (.ok (pos + UInt64.ofNat (exactSize p sets x)), out) := by
  -- each member leaves room for the rest of the message
  induction sets generalizing buf pos with
  | nil => exact ⟨buf, congrArg (Except.ok ·, buf) (UInt64.add_zero pos).symm⟩
  | cons s rest ih =>
    obtain ⟨⟨hobstacle, hpaired, hreliable⟩, hrest⟩ := List.forall_mem_cons.1 hsets
    rw [exactSize_cons] at hroom
    have hfit : pos.toNat + exactMember p x s ≤ buf.length := by omega
    obtain ⟨out, hmember⟩ := encodeMember_of_reliable hobstacle hpaired hreliable hbuf hfit
    have hend : (pos + headWidth p s + s.measured x).toNat = _ := toNat_add_member (by omega)
    have hkept := length_encodeMember p s x buf pos
    rw [hmember] at hkept
    obtain ⟨last, hlast⟩ := ih hrest (hkept ▸ hbuf) (by rw [hend, hkept]; omega)
    exact ⟨last, by rw [encode_cons_of_ok hmember, hlast, add_exactSize]⟩

theorem measured_of_writes {m : Member H} {enc : m.type.Carrier → Bytes} (hs : Writes m s enc)
    (hsized : s.sizeOf.isSome) (x : H) : s.measured x = UInt64.ofNat (m.body enc x).length := by
  obtain ⟨z, hz⟩ := Option.isSome_iff_exists.1 hsized
  rw [AccessorSet.measured, hz]
  exact (hs.sizeOf z hz).1 x

/-- A writer that stores as many bytes as the member measures is reliable. -/
theorem reliable_of_stores {body : H → Bytes} (hs : ∀ w ∈ s.write, Stores w.call body)
    (hmeasured : s.measured x = UInt64.ofNat (body x).length) (hbody : (body x).length < 2 ^ 64) : s.Reliable x := by
  intro w hw buf offset _ hroom
  rw [hmeasured, UInt64.toNat_ofNat_of_lt' hbody] at hroom
  rw [(hs w hw).run_of_le x buf offset hroom, hmeasured]

theorem reliable_of_writes {enc : MemberEncoding H} {members : List (Member H)}
    (hs : List.Forall₂ (fun m s => Writes m s (enc m)) members sets) (hsized : ∀ s ∈ sets, s.sizeOf.isSome)
    (hcounted : ∀ m ∈ members, (m.body (enc m) x).length < 2 ^ 64) : ∀ s ∈ sets, s.Reliable x := by
  induction hs with
  | nil => simp
  | @cons m s rest sets hm _ ih =>
    obtain ⟨hsome, hsized⟩ := List.forall_mem_cons.1 hsized
    obtain ⟨hbody, hcounted⟩ := List.forall_mem_cons.1 hcounted
    have hmeasured : s.measured x = UInt64.ofNat (m.body (enc m) x).length := measured_of_writes hm hsome x
    exact List.forall_mem_cons.2 ⟨reliable_of_stores hm.write hmeasured hbody, ih hsized hcounted⟩

theorem Writes.balanced {m : Member H} {enc : m.type.Carrier → Bytes} (hs : Writes m s enc) (hsized : s.sizeOf.isSome)
    (hpaired : s.Paired) (x : H) : Balanced m s enc x :=
  ⟨hs.puts, hpaired hsized, hsized, measured_of_writes hs hsized x⟩

/-- What is known of balanced sets: each can measure and write its member reliably, if the message is not too long to be
counted. -/
theorem sets_of_balanced {enc : MemberEncoding H} {members : List (Member H)}
    (hs : List.Forall₂ (fun m s => Balanced m s (enc m) x) members sets)
    (hcounted : ∀ m ∈ members, (m.body (enc m) x).length < 2 ^ 64) :
    ∀ s ∈ sets, s.sizeOf.isSome ∧ s.Paired ∧ s.Reliable x := by
  induction hs with
  | nil => simp
  | @cons m s rest sets hm _ ih =>
    obtain ⟨hbody, hcounted⟩ := List.forall_mem_cons.1 hcounted
    have hreliable : s.Reliable x := reliable_of_stores hm.write hm.measured hbody
    exact List.forall_mem_cons.2 ⟨⟨hm.sized, fun _ => hm.written, hreliable⟩, ih hcounted⟩

theorem overflow?_of_balanced {enc : MemberEncoding H} {members : List (Member H)}
    (hs : List.Forall₂ (fun m s => Balanced m s (enc m) x) members sets)
    (hfits : ∀ m ∈ members, m.codec.length = .prefixed → (m.body (enc m) x).length ≤ p.maxLength) :
    ∀ s ∈ sets, overflow? p x s = none := by
  induction hs with
  | nil => simp
  | @cons m s rest sets hm _ ih =>
    obtain ⟨hfit, hfits⟩ := List.forall_mem_cons.1 hfits
    refine List.forall_mem_cons.2 ⟨?_, ih hfits⟩
    have hshort : ¬ (s.length = .prefixed ∧ p.maxLength < (s.measured x).toNat) := by
      rintro ⟨hmode, hlong⟩
      have hle := hfit (hm.length ▸ hmode)
      have hmod := Nat.mod_le (m.body (enc m) x).length (2 ^ 64)
      rw [hm.measured, UInt64.toNat_ofNat'] at hlong
      omega
    rw [overflow?, if_neg hshort]

end Layout

namespace Serializer

section Decision

variable {H : Type} {config : MessageConfig} {sets : List (AccessorSet H)} {x : H}

/-- The number of bytes of a message, if the settings allow for it. -/
def allowance (config : MessageConfig) (sets : List (AccessorSet H)) (x : H) : Outcome Nat := do
  let n ← Layout.extent config.lengthPrefix sets x
  if config.maxSize.toNat < n then Outcome.fail (.messageTooLarge n config.maxSize.toNat) else return n

/-- The number of bytes of a message in a buffer of its own. -/
def reserve (config : MessageConfig) (sets : List (AccessorSet H)) (x : H) : Outcome Nat :=
  match allowance config sets x with
  | .error e => .error e
  | .ok n => if n < 2 ^ 63 then .ok n else Outcome.fault

/-- The number of bytes of a message in a given buffer, of which so many are available. -/
def place (config : MessageConfig) (sets : List (AccessorSet H)) (x : H) (available : Nat) : Outcome Nat :=
  match allowance config sets x with
  | .error e => .error e
  | .ok n => if available < n then Outcome.fail (.bufferTooSmall n available) else .ok n

theorem allowance_eq_ok {n : Nat} (h : allowance config sets x = .ok n) :
    (∀ s ∈ sets, Layout.overflow? config.lengthPrefix x s = none) ∧
      n = Layout.exactSize config.lengthPrefix sets x := by
  obtain ⟨n', hextent, h⟩ := bind_eq_ok_iff.1 h
  split at h
  · cases h
  · cases h
    exact Layout.extent_eq_ok hextent

theorem measureChecked_eq_allowance (hsized : ∀ s ∈ sets, s.sizeOf.isSome)
    (hcounted : Layout.exactSize config.lengthPrefix sets x < 2 ^ 64) :
    measureChecked config sets x = (allowance config sets x).map UInt64.ofNat := by
  -- the comparison with the greatest size is of words on the left and of numbers on the right
  rw [measureChecked, allowance, Layout.measure_eq_extent hsized hcounted]
  cases hextent : Layout.extent config.lengthPrefix sets x with
  | error e => rfl
  | ok n =>
    have hlt : n < 2 ^ 64 := (Layout.extent_eq_ok hextent).2 ▸ hcounted
    have hn : (UInt64.ofNat n).toNat = n := UInt64.toNat_ofNat_of_lt' hlt
    have hiff : config.maxSize < UInt64.ofNat n ↔ config.maxSize.toNat < n := by rw [UInt64.lt_iff_toNat_lt, hn]
    by_cases hmax : config.maxSize.toNat < n
    · simp [bind, Except.bind, Except.map, hiff, hmax, hn, Outcome.fail]
    · simp [bind, Except.bind, Except.map, hiff, hmax, pure, Except.pure]

/-- An allowed message can be measured, and its size is exact. -/
theorem measured_of_allowance {n : Nat} (hsized : ∀ s ∈ sets, s.sizeOf.isSome)
    (hcounted : Layout.exactSize config.lengthPrefix sets x < 2 ^ 64) (h : allowance config sets x = .ok n) :
    measureChecked config sets x = .ok (UInt64.ofNat n) ∧ (UInt64.ofNat n).toNat = n ∧
      n = Layout.exactSize config.lengthPrefix sets x ∧ ∀ s ∈ sets, Layout.obstacle? config.lengthPrefix x s = none := by
  obtain ⟨hnone, hn⟩ := allowance_eq_ok h
  have hchecked := measureChecked_eq_allowance hsized hcounted
  rw [h] at hchecked
  refine ⟨hchecked, UInt64.toNat_ofNat_of_lt' (hn ▸ hcounted), hn, fun s hs => ?_⟩
  rw [Layout.obstacle?_of_sized (hsized s hs), hnone s hs]

theorem serializeWith_of_ge {total : UInt64} (hchecked : measureChecked config sets x = .ok total)
    (hroom : 2 ^ 63 ≤ total.toNat) : serializeWith config x sets = Outcome.fault := by
  rw [serializeWith, hchecked]
  dsimp only
  rw [if_pos (by omega)]

theorem serializeIntoWith_of_lt {total offset : UInt64} {buf : Bytes}
    (hchecked : measureChecked config sets x = .ok total) (hroom : Layout.available buf offset < total.toNat) :
    serializeIntoWith config x buf offset sets =
      (Outcome.fail (.bufferTooSmall total.toNat (Layout.available buf offset)), buf) := by
  rw [serializeIntoWith, hchecked]
  dsimp only
  rw [if_pos hroom]

theorem serializeWith_of_reliable (hsets : ∀ s ∈ sets, s.sizeOf.isSome ∧ s.Paired ∧ s.Reliable x)
    (hcounted : Layout.exactSize config.lengthPrefix sets x < 2 ^ 64) :
    (serializeWith config x sets).map List.length = reserve config sets x := by
  have hsized : ∀ s ∈ sets, s.sizeOf.isSome := fun s hs => (hsets s hs).1
  unfold reserve
  cases hallowance : allowance config sets x with
  | error e =>
    have hchecked := measureChecked_eq_allowance hsized hcounted
    rw [hallowance] at hchecked
    simp [serializeWith, hchecked, Except.map]
  | ok n =>
    obtain ⟨hchecked, htotal, hn, hobstacle⟩ := measured_of_allowance hsized hcounted hallowance
    dsimp only
    by_cases hroom : n < 2 ^ 63
    · have hown : (List.replicate n (0 : UInt8)).length < 2 ^ 63 := by rwa [List.length_replicate]
      have hfit : (0 : UInt64).toNat + Layout.exactSize config.lengthPrefix sets x ≤
          (List.replicate n (0 : UInt8)).length := by simp [hn]
      obtain ⟨out, hencode⟩ := Layout.encode_of_reliable (fun s hs => ⟨hobstacle s hs, (hsets s hs).2⟩) hown hfit
      have hlength := Layout.length_encode config.lengthPrefix x sets (List.replicate n 0) 0
      rw [hencode, List.length_replicate] at hlength
      rw [serializeWith_eq hchecked (by rwa [htotal]), htotal, hencode, if_pos hroom]
      exact congrArg Except.ok hlength
    · rw [serializeWith_of_ge hchecked (by rw [htotal]; omega), if_neg hroom]
      rfl

theorem serializeIntoWith_of_reliable {buf : Bytes} {offset : UInt64}
    (hsets : ∀ s ∈ sets, s.sizeOf.isSome ∧ s.Paired ∧ s.Reliable x)
    (hcounted : Layout.exactSize config.lengthPrefix sets x < 2 ^ 64) (hbuf : buf.length < 2 ^ 63)
    (hoffset : offset.toNat ≤ buf.length ∨ 0 < Layout.exactSize config.lengthPrefix sets x) :
    (serializeIntoWith config x buf offset sets).1 =
      (place config sets x (Layout.available buf offset)).map UInt64.ofNat := by
  have hsized : ∀ s ∈ sets, s.sizeOf.isSome := fun s hs => (hsets s hs).1
  unfold place
  cases hallowance : allowance config sets x with
  | error e =>
    have hchecked := measureChecked_eq_allowance hsized hcounted
    rw [hallowance] at hchecked
    simp [serializeIntoWith, hchecked, Except.map]
  | ok n =>
    obtain ⟨hchecked, htotal, hn, hobstacle⟩ := measured_of_allowance hsized hcounted hallowance
    dsimp only
    by_cases hroom : Layout.available buf offset < n
    · rw [serializeIntoWith_of_lt hchecked (by rwa [htotal]), htotal, if_pos hroom]
      rfl
    · have hfit : offset.toNat + n ≤ buf.length := by
        rw [Layout.available] at hroom
        omega
      obtain ⟨out, hencode⟩ :=
        Layout.encode_of_reliable (fun s hs => ⟨hobstacle s hs, (hsets s hs).2⟩) hbuf (hn ▸ hfit)
      rw [serializeIntoWith_eq hchecked (by rw [htotal]; omega), hencode, if_neg hroom, ← hn]
      change Except.ok (offset + UInt64.ofNat n - offset) = Except.ok (UInt64.ofNat n)
      rw [UInt64.add_comm, UInt64.add_sub_cancel]

/-- An instance whose members measure what they take, with lengths that fit, is serialized if the settings allow for its
message and a buffer of this size can be had. -/
theorem serializeWith_of_balanced {enc : MemberEncoding H} {members : List (Member H)}
    (hs : List.Forall₂ (fun m s => Layout.Balanced m s (enc m) x) members sets)
    (hfits : ∀ m ∈ members, m.codec.length = .prefixed → (m.body (enc m) x).length ≤ config.lengthPrefix.maxLength)
    (hmax : (Layout.message config.lengthPrefix enc members x).length ≤ config.maxSize.toNat) :
    serializeWith config x sets =
      if (Layout.message config.lengthPrefix enc members x).length < 2 ^ 63 then
        .ok (Layout.message config.lengthPrefix enc members x)
      else Outcome.fault := by
  have hcounted : (Layout.message config.lengthPrefix enc members x).length < 2 ^ 64 :=
    Nat.lt_of_le_of_lt hmax config.maxSize.toNat_lt
  have hexact := Layout.exactSize_of_balanced hs hcounted
  have hbodies : ∀ m ∈ members, (m.body (enc m) x).length < 2 ^ 64 := fun m hm =>
    Nat.lt_of_le_of_lt (Layout.length_body_le hm) hcounted
  have hallowance : allowance config sets x = .ok (Layout.message config.lengthPrefix enc members x).length := by
    have hnone := List.findSome?_eq_none_iff.2 (Layout.overflow?_of_balanced hs hfits)
    rw [allowance, Layout.extent, hnone, hexact]
    change (if _ then _ else _) = _
    rw [if_neg (Nat.not_lt_of_le hmax)]
    rfl
  have hlength := serializeWith_of_reliable (Layout.sets_of_balanced hs hbodies) (hexact ▸ hcounted)
  rw [reserve, hallowance] at hlength
  dsimp only at hlength
  split
  · next hroom =>
    rw [if_pos hroom] at hlength
    obtain ⟨b, hb, -⟩ := map_eq_ok_iff.1 hlength
    rw [hb, (serializeWith_placed (hs.imp fun _ _ hm => hm.toPuts) hb).1]
  · next hroom =>
    rw [if_neg hroom] at hlength
    cases hwith : serializeWith config x sets with
    | ok b =>
      rw [hwith] at hlength
      cases hlength
    | error e =>
      rw [hwith] at hlength
      cases hlength
      rfl

end Decision

variable {F : HostFamily} {locate : Locator F} {r : Registry} {config : MessageConfig} {calls : List (Call F)}
  {h : F.Host} {t : Shared (Table (F.Instance h))}

theorem sized_of_table (ht : ((inUse locate r config calls).table h (locate h)).1 = .ok t)
    (haccess : ∀ m ∈ locate h, m.isReadable) : ∀ s ∈ t.value.sets.map (·.value), s.sizeOf.isSome := by
  intro s hs
  obtain ⟨shared, hshared, rfl⟩ := List.mem_map.1 hs
  obtain ⟨m, hm, m', -, hkey, hcompile⟩ := (mirrors_inUse ht).exists_of_mem hshared
  have hreadable : m'.isReadable = m.isReadable := congrArg Key.readable hkey
  rw [haccess m hm] at hreadable
  exact (Member.binds_of_compile hcompile).sized hreadable

/-- Which error serializing reports, if the writers are reliable and the size of the message can be counted in a word.
The error is what `Layout.extent`, `allowance` or `place` says, and otherwise there is none. Only a buffer of its own
can not be had for a message of `2 ^ 63` bytes or more, even if the settings allow it. -/
theorem serialize_decided (locate : Locator F) (r : Registry) (config : MessageConfig) (calls : List (Call F))
    (h : F.Host) (t : Shared (Table (F.Instance h)))
    (ht : ((inUse locate r config calls).table h (locate h)).1 = .ok t)
    (haccess : ∀ m ∈ locate h, m.isReadable) (x : F.Instance h)
    (hreliable : ∀ set ∈ t.value.sets.map (·.value), set.Reliable x)
    (hcounted : Layout.exactSize config.lengthPrefix (t.value.sets.map (·.value)) x < 2 ^ 64) :
    let s := inUse locate r config calls
    let sets := t.value.sets.map (·.value)
    sets.map (fun set => (set.member, set.length)) = (locate h).map (fun m => (m.name, m.codec.length)) ∧
      (s.sizeOf h (locate h) x).1 = (Layout.extent config.lengthPrefix sets x).map UInt64.ofNat ∧
      (s.serialize h (locate h) x).1.map List.length = reserve config sets x ∧
      ∀ buf offset, buf.length < 2 ^ 63 →
        offset.toNat ≤ buf.length ∨ 0 < Layout.exactSize config.lengthPrefix sets x →
          (s.serializeInto h (locate h) x buf offset).1.1 =
            (place config sets x (Layout.available buf offset)).map UInt64.ofNat := by
  intro s sets
  have hconfig : s.config = config := config_inUse r config calls
  have hsized : ∀ set ∈ sets, set.sizeOf.isSome := sized_of_table ht haccess
  have hsets : ∀ set ∈ sets, set.sizeOf.isSome ∧ set.Paired ∧ set.Reliable x := fun set hset =>
    ⟨hsized set hset, paired_of_table ht set hset, hreliable set hset⟩
  refine ⟨declared_of_table ht, ?_, ?_, fun buf offset hbuf hoffset => ?_⟩
  · rw [sizeOf_of_table ht, hconfig]
    exact Layout.measure_eq_extent hsized hcounted
  · rw [serialize_of_table ht, hconfig]
    exact serializeWith_of_reliable hsets hcounted
  · rw [serializeInto_of_table ht, hconfig]
    exact serializeIntoWith_of_reliable hsets hcounted hbuf hoffset

end Serializer

namespace Visit

/-- A visit of eight bytes is written where there is room for eight, and refused where there is room for seven. -/
theorem serialize_decided_sample :
    (serializer.serialize () members sample).1.map List.length = .ok 8 ∧
      (serializer.serializeInto () members sample (List.replicate 9 0) 1).1.1 = .ok 8 ∧
      (serializer.serializeInto () members sample (List.replicate 9 0) 2).1.1 =
        Outcome.fail (.bufferTooSmall 8 7) := by
  have hdecided : (serializer.table () members).1.map (fun t =>
      let sets := t.value.sets.map (·.value)
      (Layout.exactSize .u16 sets sample, Serializer.reserve ⟨.u16, 100⟩ sets sample,
        Serializer.place ⟨.u16, 100⟩ sets sample 8, Serializer.place ⟨.u16, 100⟩ sets sample 7)) =
      .ok (8, .ok 8, .ok 8, Outcome.fail (.bufferTooSmall 8 7)) := by decide +kernel
  obtain ⟨t, ht, hdecided⟩ := map_eq_ok_iff.1 hdecided
  obtain ⟨hexact, hdecided⟩ := Prod.mk.inj hdecided
  obtain ⟨hreserve, hdecided⟩ := Prod.mk.inj hdecided
  obtain ⟨height, hseven⟩ := Prod.mk.inj hdecided
  have haccess : ∀ m ∈ members, m.isReadable := by decide
  have hreliable := Layout.reliable_of_writes (writes_of_table ht) (Serializer.sized_of_table ht haccess)
    (x := sample) (by decide +kernel)
  have hcounted : Layout.exactSize .u16 (t.value.sets.map (·.value)) sample < 2 ^ 64 := by
    rw [hexact]
    decide
  obtain ⟨-, -, hserialize, hinto⟩ := Serializer.serialize_decided (F := family) (fun _ => members) _ _ _ () t ht
    haccess sample hreliable hcounted
  refine ⟨hserialize.trans hreserve, ?_, ?_⟩
  · rw [serializer, hinto _ 1 (by decide) (.inl (by decide))]
    exact congrArg (Except.map UInt64.ofNat) height
  · rw [serializer, hinto _ 2 (by decide) (.inl (by decide))]
    exact congrArg (Except.map UInt64.ofNat) hseven

end Visit

namespace Strip

theorem calls_of_compile {measured reported : UInt64} {stored : Bytes} {set : AccessorSet Strip}
    (h : foldMember.compile (registry measured reported stored) "Strip" = .ok set) :
    (∀ x, set.measured x = measured) ∧ ∀ w ∈ set.write,
      w.call = Writer.comap (·.fold) (Writer.ofBytes (fun _ => stored) fun _ => reported) := by
  obtain ⟨w, z, hw, hz, hwrite, hsizeOf⟩ := (Member.binds_of_compile h).read _ rfl
  have hfold : (registry measured reported stored).resolve .bool .write (some "Fold") =
      .ok ⟨"Fold", Custom.constant .bool reported stored false .write⟩ := rfl
  have hsize : (registry measured reported stored).resolve .bool .sizeOf (some "Fold") =
      .ok ⟨"Fold", Custom.constant .bool measured [] false .sizeOf⟩ := rfl
  cases hfold.symm.trans hw
  cases hsize.symm.trans hz
  refine ⟨fun x => ?_, ?_⟩
  · rw [AccessorSet.measured, hsizeOf]
    rfl
  · rw [hwrite]
    rintro _ ⟨⟩
    rfl

/-- A fold that stores nothing but measures and reports `2 ^ 63` bytes is reliable, and as large as the settings
allow. No buffer can be had for it. -/
theorem serialize_immense :
    let s := Serializer.inUse (F := family) (fun _ => [foldMember]) (registry (2 ^ 63) (2 ^ 63) []) ⟨.u32, 2 ^ 63⟩ []
    (s.register () [foldMember]).1 = .ok () ∧
      ∃ t, (s.table () [foldMember]).1 = .ok t ∧
        (∀ set ∈ t.value.sets.map (·.value), ∀ w ∈ set.write, ∀ x buf offset, offset.toNat ≤ buf.length →
          w.call.run x buf offset = ⟨buf, some (set.measured x)⟩) ∧
        Serializer.allowance ⟨.u32, 2 ^ 63⟩ (t.value.sets.map (·.value)) {} = .ok (2 ^ 63) ∧
        (s.serialize () [foldMember] {}).1 = Outcome.fault := by
  intro s
  have hallowance : (s.table () [foldMember]).1.map (fun t =>
      Serializer.allowance ⟨.u32, 2 ^ 63⟩ (t.value.sets.map (·.value)) {}) = .ok (.ok (2 ^ 63)) := by decide +kernel
  obtain ⟨t, ht, hallowance⟩ := map_eq_ok_iff.1 hallowance
  refine ⟨by decide +kernel, t, ht, fun set hset w hw x buf offset hle => ?_, hallowance, by decide +kernel⟩
  obtain ⟨-, hcompiled⟩ := Serializer.compiled_of_table (List.forall_mem_nil _) ht
  obtain ⟨set', rest, hcompile, hrest, hsets⟩ := List.forall₂_cons_left_iff.1 hcompiled
  cases hrest
  rw [hsets, List.mem_singleton] at hset
  subst hset
  obtain ⟨hmeasured, hcall⟩ := calls_of_compile hcompile
  have hempty : buf.overwrite? offset.toNat [] = some buf :=
    Bytes.overwrite?_eq_some_iff.2 ⟨hle, Bytes.overwrite_nil buf offset.toNat⟩
  have hrun : w.call.run x buf offset = ⟨buf, some (2 ^ 63)⟩ := by
    simp [hcall w hw, Writer.comap, Writer.ofBytes, hempty]
  rw [hrun]
  exact congrArg (fun n => Written.mk buf (some n)) (hmeasured x).symm

end Strip

end Memberwise
