import Mathlib.Tactic.Choose
import Memberwise.Proofs.Message.Refusal

/-!
# Writing in place

An instance is written into a buffer of its own, or at an offset of a given one. If the codecs are lawful, this makes no
difference: what was written into one buffer can be written into any other that has room for it
(`Layout.encode_elsewhere`), so the bytes in a given buffer are those of a buffer of its own, and the rest of the
buffer is as it was (`Serializer.serializeInto_agrees`).

An accessor set need not stem from the member declared, only from one with the same key. That is enough to know its
codec (`Serializer.writes_of_lawful`).

For the codecs at large, all that is known is that a refused instance leaves the buffer alone, as long as the refusal
is not for what a writer reported.
-/

namespace Memberwise

/-- The operations that a member names keep to the encoding. -/
def Member.KeepsTo {H : Type} (m : Member H) (r : Registry) (e : m.type.Carrier → Bytes) : Prop :=
  ∀ w z, r.resolve m.type .write (some m.codec.write) = .ok w →
    r.resolve m.type .sizeOf (some m.codec.sizeOf) = .ok z → Lawful w.call z.call e

theorem LawfulMember.of_key {H : Type} {r : Registry} {enc : MemberEncoding H} {m m' : Member H}
    (h : LawfulMember r enc m) (hkey : m'.key = m.key) : ∃ e, m'.KeepsTo r e := by
  -- the encoding is of the values of `m`, so it is carried over along the equality of the types
  have htype : m'.type = m.type := congrArg Key.type hkey
  have hcodec : m'.codec = m.codec := congrArg Key.codec hkey
  rw [LawfulMember, ← hcodec] at h
  unfold Member.KeepsTo
  generalize enc m = e at h
  revert e
  rw [← htype]
  exact fun e h => ⟨e, h⟩

theorem exists_encoding {H : Type} {r : Registry} {enc : MemberEncoding H} {members sources : List (Member H)}
    (h : ∀ m ∈ members, LawfulMember r enc m) (hkeys : ∀ m' ∈ sources, ∃ m ∈ members, m'.key = m.key) :
    ∃ enc' : MemberEncoding H, ∀ m ∈ sources, LawfulMember r enc' m := by
  have hmember : ∀ m' : Member H, ∃ e, m' ∈ sources → m'.KeepsTo r e := by
    intro m'
    by_cases hm' : m' ∈ sources
    · obtain ⟨m, hm, hkey⟩ := hkeys m' hm'
      obtain ⟨e, he⟩ := (h m hm).of_key hkey
      exact ⟨e, fun _ => he⟩
    · exact ⟨fun _ => [], fun hsource => absurd hsource hm'⟩
  choose enc' henc' using hmember
  exact ⟨enc', henc'⟩

theorem Mirrors.exists_sources {H : Type} {r : Registry} {host : String} {origin : Member H → Prop}
    {members : List (Member H)} {sets : List (Shared (AccessorSet H))} (h : Mirrors r host origin members sets) :
    ∃ sources, Compiled r host sources (sets.map (·.value)) ∧ ∀ m' ∈ sources, ∃ m ∈ members, m'.key = m.key := by
  have hall := h.compiledFor
  clear h
  induction hall with
  | nil => exact ⟨[], .nil, by simp⟩
  | @cons m s rest sets hm _ ih =>
    obtain ⟨m', -, hkey, hcompile⟩ := hm
    obtain ⟨sources, hcompiled, hkeys⟩ := ih
    refine ⟨m' :: sources, .cons hcompile hcompiled, List.forall_mem_cons.2 ⟨⟨m, .head _, hkey⟩, fun m'' hm'' => ?_⟩⟩
    obtain ⟨m, hm, hkey⟩ := hkeys m'' hm''
    exact ⟨m, .tail _ hm, hkey⟩

namespace Layout

variable {H : Type} {p : LengthPrefix} {enc : MemberEncoding H} {members : List (Member H)}
  {sets : List (AccessorSet H)} {x : H}

theorem exactSize_of_encode {buf out : Bytes} {pos pos' : UInt64}
    (hs : List.Forall₂ (fun m s => Writes m s (enc m)) members sets) (hpos : pos.toNat ≤ buf.length)
    (hbuf : buf.length < 2 ^ 64) (h : encode p x sets buf pos = (.ok pos', out)) :
    exactSize p sets x = (message p enc members x).length := by
  have hend := (encode_eq_ok (puts_of_writes hs) hpos hbuf h).1.position
  rw [toNat_encode h] at hend
  exact Nat.add_left_cancel hend

/-- What was written into one buffer can be written into another one that has room for it. -/
theorem encode_elsewhere {buf out buf' : Bytes} {pos pos' start : UInt64}
    (hs : List.Forall₂ (fun m s => Writes m s (enc m)) members sets)
    (hsets : ∀ s ∈ sets, obstacle? p x s = none ∧ s.Paired) (hpos : pos.toNat ≤ buf.length) (hbuf : buf.length < 2 ^ 64)
    (h : encode p x sets buf pos = (.ok pos', out)) (hbuf' : buf'.length < 2 ^ 63)
    (hroom : start.toNat + (message p enc members x).length ≤ buf'.length) :
    encode p x sets buf' start =
      (.ok (start + UInt64.ofNat (message p enc members x).length),
        buf'.overwrite start.toNat (message p enc members x)) := by
  have hexact := exactSize_of_encode hs hpos hbuf h
  have hsized : ∀ s ∈ sets, s.sizeOf.isSome := fun s hs => (memberSize_of_obstacle? (hsets s hs).1).1
  have hcounted : ∀ m ∈ members, (m.body (enc m) x).length < 2 ^ 64 := by
    intro m hm
    have hle : (m.body (enc m) x).length ≤ (message p enc members x).length := length_body_le hm
    omega
  -- the bodies were once in a buffer, so their lengths do not wrap, and the writers are reliable elsewhere too
  have hreliable := reliable_of_writes hs hsized hcounted
  obtain ⟨last, hlast⟩ := encode_of_reliable
    (fun s hs => ⟨(hsets s hs).1, (hsets s hs).2, hreliable s hs⟩) hbuf' (hexact ▸ hroom)
  have hplaced :=
    (encode_eq_ok (puts_of_writes hs) (Nat.le_trans (Nat.le_add_right _ _) hroom) (by omega) hlast).1
  rw [hlast, hplaced.buffer, hexact]

end Layout

namespace Serializer

section Buffers

variable {H : Type} {config : MessageConfig} {enc : MemberEncoding H} {members : List (Member H)}
  {sets : List (AccessorSet H)} {x : H} {buf out : Bytes} {offset n : UInt64}

/-- What was written into a given buffer is the message, which can be had in a buffer of its own. -/
theorem serializeWith_of_into (hs : List.Forall₂ (fun m s => Layout.Writes m s (enc m)) members sets)
    (hpaired : ∀ s ∈ sets, s.Paired) (hbuf : buf.length < 2 ^ 63) (hoffset : offset.toNat ≤ buf.length)
    (h : serializeIntoWith config x buf offset sets = (.ok n, out)) :
    ∃ b, serializeWith config x sets = .ok b ∧ b.length = n.toNat ∧ offset.toNat + b.length ≤ buf.length ∧
      out = buf.overwrite offset.toNat b := by
  obtain ⟨hchecked, -, pos, hencode⟩ := serializeIntoWith_inv h
  have hsets := unobstructed_of_checked hpaired hchecked
  obtain ⟨-, htotal⟩ := Layout.measure_eq_ok_iff.1 (measureChecked_eq_ok hchecked)
  obtain ⟨hfits, hbuffer, -⟩ := (Layout.encode_eq_ok (Layout.puts_of_writes hs) hoffset (by omega) hencode).1
  have hcounted : (Layout.message config.lengthPrefix enc members x).length < 2 ^ 64 := by omega
  have hlength : n.toNat = (Layout.message config.lengthPrefix enc members x).length := by
    rw [htotal, Layout.exactSize_of_encode hs hoffset (by omega) hencode]
  have hown : (List.replicate n.toNat (0 : UInt8)).length = n.toNat := List.length_replicate
  have hfresh : (0 : UInt64).toNat + (Layout.message config.lengthPrefix enc members x).length ≤
      (List.replicate n.toNat (0 : UInt8)).length := by
    rw [hown, UInt64.toNat_zero]
    omega
  have hagain := Layout.encode_elsewhere hs hsets hoffset (by omega) hencode (by omega) hfresh
  refine ⟨_, ?_, hlength.symm, hfits, hbuffer⟩
  rw [serializeWith_eq hchecked (by omega), hagain]
  exact congrArg Except.ok (Bytes.overwrite_all (by rw [hown, hlength]))

/-- What was written into a buffer of its own can be written into a given one with room for it. -/
theorem serializeIntoWith_of_serialize (hs : List.Forall₂ (fun m s => Layout.Writes m s (enc m)) members sets)
    (hpaired : ∀ s ∈ sets, s.Paired) (hbuf : buf.length < 2 ^ 63) {b : Bytes} (h : serializeWith config x sets = .ok b)
    (hroom : offset.toNat + b.length ≤ buf.length) :
    (serializeIntoWith config x buf offset sets).1 = .ok (UInt64.ofNat b.length) := by
  obtain ⟨total, pos, hchecked, htotal, hencode, hlength⟩ := serializeWith_inv h
  have hsets := unobstructed_of_checked hpaired hchecked
  obtain ⟨rfl, -, -⟩ := serializeWith_eq_ok hs h
  have hown : (List.replicate total.toNat (0 : UInt8)).length < 2 ^ 64 := by
    rw [List.length_replicate]
    omega
  have hagain := Layout.encode_elsewhere hs hsets (Nat.zero_le _) hown hencode hbuf hroom
  have hfits : total.toNat ≤ Layout.available buf offset := by
    rw [Layout.available]
    omega
  rw [serializeIntoWith_eq hchecked hfits, hagain]
  change Except.ok (offset + _ - offset) = _
  rw [UInt64.add_comm, UInt64.add_sub_cancel]

/-- A refusal other than for what a writer reported comes before anything is written. -/
theorem serializeIntoWith_unchanged {e : MessageError} (hpaired : ∀ s ∈ sets, s.Paired)
    (h : (serializeIntoWith config x buf offset sets).1 = Outcome.fail e)
    (he : ∀ member measured written, e ≠ .sizeMismatch member measured written) :
    (serializeIntoWith config x buf offset sets).2 = buf := by
  cases hchecked : measureChecked config sets x with
  | error e' => rw [serializeIntoWith, hchecked]
  | ok total =>
    by_cases hroom : Layout.available buf offset < total.toNat
    · rw [serializeIntoWith_of_lt hchecked hroom]
    · have hsets := unobstructed_of_checked hpaired hchecked
      rw [serializeIntoWith_eq hchecked (Nat.le_of_not_lt hroom)] at h
      have hencode : (Layout.encode config.lengthPrefix x sets buf offset).1 = Outcome.fail e := by
        cases hfirst : (Layout.encode config.lengthPrefix x sets buf offset).1 with
        | error stop =>
          rw [hfirst] at h
          cases h
          rfl
        | ok pos =>
          rw [hfirst] at h
          cases h
      obtain ⟨member, measured, written, rfl⟩ :=
        Report.eq_sizeMismatch (Layout.mismatch_of_encode hsets hencode)
      exact absurd rfl (he member measured written)

end Buffers

variable {F : HostFamily} {locate : Locator F} {r : Registry} {config : MessageConfig} {calls : List (Call F)}
  {h : F.Host} {t : Shared (Table (F.Instance h))}

theorem writes_of_lawful {enc : MemberEncoding (F.Instance h)}
    (ht : ((inUse locate r config calls).table h (locate h)).1 = .ok t)
    (hlawful : ∀ m ∈ locate h, LawfulMember r enc m) :
    ∃ sources, ∃ enc' : MemberEncoding (F.Instance h),
      List.Forall₂ (fun m s => Layout.Writes m s (enc' m)) sources (t.value.sets.map (·.value)) := by
  obtain ⟨sources, hcompiled, hkeys⟩ := (mirrors_inUse ht).exists_sources
  obtain ⟨enc', henc'⟩ := exists_encoding hlawful hkeys
  exact ⟨sources, enc', hcompiled.imp fun m hm s hs => Layout.writes_of_binds (Member.binds_of_compile hs) (henc' m hm)⟩

theorem serializeInto_eq_ok {s : Serializer F} {members : List (Member (F.Instance h))} {x : F.Instance h} {buf : Bytes}
    {offset n : UInt64} (hn : (s.serializeInto h members x buf offset).1.1 = .ok n) :
    ∃ t, (s.table h members).1 = .ok t := by
  rw [serializeInto, withTable_fst] at hn
  split at hn
  · cases hn
  · next t ht => exact ⟨t, ht⟩

/-- Writing in place and writing into a buffer of its own agree. If the codecs are lawful, an instance that can be
written at an offset of a buffer can be serialized, and its bytes stand there and change nothing else; and a serialized
instance can be written wherever there is room for it. Whatever the codecs do, a refusal leaves the buffer alone, unless
it is for what a writer reported. -/
theorem serializeInto_agrees (locate : Locator F) (r : Registry) (config : MessageConfig) (calls : List (Call F))
    (h : F.Host) :
    let s := inUse locate r config calls
    (∀ enc : MemberEncoding (F.Instance h), (∀ m ∈ locate h, LawfulMember r enc m) →
      ∀ (x : F.Instance h) (buf : Bytes) (offset : UInt64), buf.length < 2 ^ 63 → offset.toNat ≤ buf.length →
        (∀ n, (s.serializeInto h (locate h) x buf offset).1.1 = .ok n →
          ∃ b, (s.serialize h (locate h) x).1 = .ok b ∧ b.length = n.toNat ∧ offset.toNat + b.length ≤ buf.length ∧
            (s.serializeInto h (locate h) x buf offset).1.2 =
              buf.take offset.toNat ++ b ++ buf.drop (offset.toNat + b.length)) ∧
        ∀ b, (s.serialize h (locate h) x).1 = .ok b → offset.toNat + b.length ≤ buf.length →
          (s.serializeInto h (locate h) x buf offset).1.1 = .ok (UInt64.ofNat b.length)) ∧
      ∀ (x : F.Instance h) (buf : Bytes) (offset : UInt64) (e : MessageError),
        (s.serializeInto h (locate h) x buf offset).1.1 = Outcome.fail e →
          (∀ member measured written, e ≠ .sizeMismatch member measured written) →
            (s.serializeInto h (locate h) x buf offset).1.2 = buf := by
  intro s
  refine ⟨fun enc hlawful x buf offset hbuf hoffset => ⟨fun n hn => ?_, fun b hb hroom => ?_⟩,
    fun x buf offset e he hne => ?_⟩
  · obtain ⟨t, ht⟩ := serializeInto_eq_ok hn
    obtain ⟨sources, enc', hwrites⟩ := writes_of_lawful ht hlawful
    rw [serializeInto_of_table ht] at hn ⊢
    rw [serialize_of_table ht]
    exact serializeWith_of_into hwrites (paired_of_table ht) hbuf hoffset (Prod.ext hn rfl)
  · obtain ⟨t, ht, hwith⟩ := serialize_eq_ok hb
    obtain ⟨sources, enc', hwrites⟩ := writes_of_lawful ht hlawful
    rw [serializeInto_of_table ht]
    exact serializeIntoWith_of_serialize hwrites (paired_of_table ht) hbuf hwith hroom
  · cases ht : (s.table h (locate h)).1 with
    | error e' => rw [serializeInto, withTable_fst, ht]
    | ok t =>
      rw [serializeInto_of_table ht] at he ⊢
      exact serializeIntoWith_unchanged (paired_of_table ht) he hne

end Serializer

namespace Visit

/-- A visit is written one byte into a buffer of twelve. With room for all but one of its bytes, the buffer is left
alone. -/
theorem serializeInto_agrees_sample :
    (serializer.serializeInto () members sample (List.replicate 12 7) 1).1 = (.ok 8, [7] ++ bytes ++ [7, 7, 7]) ∧
      (serializer.serializeInto () members sample (List.replicate 12 7) 5).1 =
        (Outcome.fail (.bufferTooSmall 8 7), List.replicate 12 7) := by
  have hb : (serializer.serialize () members sample).1 = .ok bytes := by decide +kernel
  obtain ⟨hlawful, hrefused⟩ := Serializer.serializeInto_agrees (F := family) (fun _ => members)
    (Registry.builtin ⟨.big, true⟩) ⟨.u16, 100⟩ [.serialize () sample] ()
  obtain ⟨hstored, hwritten⟩ := hlawful (Builtin.encoding .big) lawful_members sample (List.replicate 12 7) 1 (by decide)
    (by decide)
  have hok := hwritten bytes hb (by decide)
  have htoo : (serializer.serializeInto () members sample (List.replicate 12 7) 5).1.1 =
      Outcome.fail (.bufferTooSmall 8 7) := by decide +kernel
  obtain ⟨b, hb', -, -, hout⟩ := hstored _ hok
  cases hb.symm.trans hb'
  exact ⟨Prod.ext hok hout, Prod.ext htoo (hrefused sample _ 5 _ htoo (by simp))⟩

end Visit

end Memberwise
