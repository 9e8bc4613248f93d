import Memberwise.Proofs.Accessor.Lockstep
import Memberwise.Proofs.Message.Refusal

/-!
# What the settings change in a message

Serializers over registries that are alike have tables for the same host types after the same calls
(`Serializer.inStep_inUse`). If moreover their accessor sets measure an instance the same and report the same number of
bytes (`AccessorSet.Agrees`), serializing it ends the same (`Serializer.endsLike_serializeWith`).

Both hold of the built-in registries of the two byte orders. So the byte order can only change the bytes of messages, not
whether there is one, nor its length (`Serializer.serialize_under_settings`, also for the width of the lengths in them).
-/

namespace Memberwise

/-- Accessor sets that measure an instance the same, and whose writers report the same in buffers of one length. -/
structure AccessorSet.Agrees {H : Type} (s s' : AccessorSet H) (x : H) : Prop where
  member : s.member = s'.member
  length : s.length = s'.length
  size : Layout.memberSize s x = Layout.memberSize s' x
  count : ∀ buf buf' offset, buf.length = buf'.length →
    s.write.map (fun w => (w.call.run x buf offset).count) = s'.write.map fun w => (w.call.run x buf' offset).count

namespace Layout

variable {H : Type} {p : LengthPrefix} {s s' : AccessorSet H} {sets sets' : List (AccessorSet H)} {x : H}
  {buf buf' : Bytes}

/-! ### Accessor sets that agree -/

theorem headWidth_congr (h : s.Agrees s' x) : headWidth p s = headWidth p s' := by rw [headWidth, headWidth, h.length]

theorem checkPrefix_congr (h : s.Agrees s' x) (size : UInt64) : checkPrefix p s size = checkPrefix p s' size := by
  rw [checkPrefix, checkPrefix, h.member]

theorem measureMember_congr (h : s.Agrees s' x) : measureMember p s x = measureMember p s' x := by
  unfold measureMember
  simp only [h.size, h.length, checkPrefix_congr h]

theorem measureFrom_congr (hs : List.Forall₂ (fun s s' => s.Agrees s' x) sets sets') (total : UInt64) :
    measureFrom p x total sets = measureFrom p x total sets' := by
  induction hs generalizing total with
  | nil => rfl
  | @cons s s' rest rest' hm _ ih =>
    unfold measureFrom
    simp only [measureMember_congr hm, headWidth_congr hm, ih]

theorem endsLike_writeHead (h : s.Agrees s' x) (hbuf : buf.length = buf'.length) (size pos : UInt64) :
    EndsLike (writeHead p s size buf pos) (writeHead p s' size buf' pos) := by
  unfold writeHead
  rw [h.length, checkPrefix_congr h]
  cases s'.length with
  | implicit => exact .ok _ _
  | prefixed =>
    dsimp only
    split
    · exact .error _
    · unfold Bytes.overwrite?
      rw [hbuf]
      split
      · exact .ok _ _
      · exact .error _

/-- How writing a member ends follows from what its writer reports. -/
theorem writeBody_fst (s : AccessorSet H) (x : H) (size : UInt64) (buf : Bytes) (pos : UInt64) :
    (writeBody s x size buf pos).1 =
      match s.write.map fun w => (w.call.run x buf pos).count with
      | none => Outcome.fail (.missingAccessor s.member .write)
      | some none => Outcome.fault
      | some (some written) =>
        if written = size then advance pos written
        else Outcome.fail (.sizeMismatch s.member size.toNat written.toNat) := by
  unfold writeBody
  cases s.write with
  | none => rfl
  | some w =>
    dsimp only [Option.map_some]
    cases w.call.run x buf pos with
    | mk out count =>
      cases count with
      | none => rfl
      | some written =>
        dsimp only
        split <;> rfl

theorem writeBody_congr (h : s.Agrees s' x) (hbuf : buf.length = buf'.length) (size pos : UInt64) :
    (writeBody s x size buf pos).1 = (writeBody s' x size buf' pos).1 := by
  rw [writeBody_fst, writeBody_fst, h.count buf buf' pos hbuf, h.member]

theorem encodeMember_congr (h : s.Agrees s' x) (hbuf : buf.length = buf'.length) (pos : UInt64) :
    (encodeMember p s x buf pos).1 = (encodeMember p s' x buf' pos).1 := by
  unfold encodeMember
  rw [h.size]
  split
  · rfl
  next size _ =>
  have hhead := endsLike_writeHead (p := p) h hbuf size pos
  cases hout : writeHead p s size buf pos with
  | error e => rw [hhead.of_error hout]
  | ok out =>
    obtain ⟨out', hout'⟩ := hhead.of_ok hout
    have hlength : out.length = out'.length := by rw [length_writeHead hout, length_writeHead hout', hbuf]
    rw [hout']
    dsimp only
    rw [headWidth_congr h]
    split
    · rfl
    next start _ => exact writeBody_congr h hlength size start

theorem encode_congr (hs : List.Forall₂ (fun s s' => s.Agrees s' x) sets sets') (hbuf : buf.length = buf'.length)
    (pos : UInt64) : (encode p x sets buf pos).1 = (encode p x sets' buf' pos).1 := by
  induction hs generalizing buf buf' pos with
  | nil => rfl
  | @cons s s' rest rest' hm _ ih =>
    have hmember := encodeMember_congr (p := p) hm hbuf pos
    have hlength := length_encodeMember p s x buf pos
    have hlength' := length_encodeMember p s' x buf' pos
    cases hfirst : encodeMember p s x buf pos with
    | mk result out =>
      cases hfirst' : encodeMember p s' x buf' pos with
      | mk result' out' =>
        rw [hfirst, hfirst'] at hmember
        rw [hfirst] at hlength
        rw [hfirst'] at hlength'
        cases hmember
        unfold encode
        rw [hfirst, hfirst']
        cases result with
        | error e => rfl
        | ok pos' => exact ih (by rw [hlength, hlength', hbuf]) pos'

end Layout

theorem Serializer.endsLike_serializeWith {H : Type} {config : MessageConfig} {sets sets' : List (AccessorSet H)}
    {x : H} (hs : List.Forall₂ (fun s s' => s.Agrees s' x) sets sets') :
    EndsLike (serializeWith config x sets) (serializeWith config x sets') := by
  unfold serializeWith measureChecked Layout.measure
  rw [Layout.measureFrom_congr hs]
  split
  · exact .error _
  split
  · exact .error _
  next total _ _ =>
  have hresult := Layout.encode_congr (p := config.lengthPrefix) hs
    (rfl : (List.replicate total.toNat (0 : UInt8)).length = _) 0
  cases hencode : Layout.encode config.lengthPrefix x sets (List.replicate total.toNat 0) 0 with
  | mk result out =>
    cases hencode' : Layout.encode config.lengthPrefix x sets' (List.replicate total.toNat 0) 0 with
    | mk result' out' =>
      rw [hencode, hencode'] at hresult
      cases hresult
      cases result with
      | error e => exact .error e
      | ok pos => exact .ok out out'

/-! ### Built-in codecs in both byte orders -/

namespace Member

variable {H : Type} {m : Member H} {order order' : ByteOrder} {varint : Bool} {s s' : AccessorSet H}

theorem Binds.puts {rc : RegistryConfig} (hb : m.Binds (Registry.builtin rc) s) :
    Layout.Puts m s (Builtin.encoding rc.byteOrder m) := by
  refine ⟨hb.length, ?_, ?_⟩
  · cases hget : m.getter with
    | none => simp [(hb.unread hget).1]
    | some get =>
      obtain ⟨w, z, hw, -, hwrite, -⟩ := hb.read get hget
      rw [hwrite, m.body_eq_comp hget]
      rintro _ ⟨⟩
      exact (stores_of_resolve hw).comap get
  · cases hget : m.getter with
    | none => simp [(hb.unread hget).2]
    | some get => exact fun _ => by rw [isReadable, hget]; rfl

theorem length_body (order order' : ByteOrder) (m : Member H) (x : H) :
    (m.body (Builtin.encoding order m) x).length = (m.body (Builtin.encoding order' m) x).length := by
  unfold body
  cases m.getter with
  | none => rfl
  | some get => exact length_encoding order order' m (get x)

theorem agrees_of_binds (hb : m.Binds (Registry.builtin ⟨order, varint⟩) s)
    (hb' : m.Binds (Registry.builtin ⟨order', varint⟩) s') (x : H) : s.Agrees s' x := by
  refine ⟨hb.member.trans hb'.member.symm, hb.length.trans hb'.length.symm, ?_, fun buf buf' offset hbuf => ?_⟩
  · cases hget : m.getter with
    | none => rw [Layout.memberSize, Layout.memberSize, (hb.unread hget).2, (hb'.unread hget).2, hb.member, hb'.member]
    | some get =>
      obtain ⟨w, z, -, hz, -, hsizeOf⟩ := hb.read get hget
      obtain ⟨w', z', -, hz', -, hsizeOf'⟩ := hb'.read get hget
      rw [Layout.memberSize, Layout.memberSize, hsizeOf, hsizeOf']
      exact congrArg (fun measure => Except.ok (measure (get x))) (Builtin.measure_eq_of_resolve hz hz')
  · have hlength := length_body order order' m x
    cases hget : m.getter with
    | none =>
      rw [(hb.unread hget).1, (hb'.unread hget).1]
      rfl
    | some get =>
      obtain ⟨w, -, -, -, hwrite, -⟩ := hb.read get hget
      obtain ⟨w', -, -, -, hwrite', -⟩ := hb'.read get hget
      have hcount := (hb.puts.write _ hwrite).count_eq x buf offset
      rw [hlength, hbuf, ← (hb'.puts.write _ hwrite').count_eq x buf' offset] at hcount
      rw [hwrite, hwrite', Option.map_some, Option.map_some, hcount]

end Member

theorem agrees_of_compiled {H : Type} {order order' : ByteOrder} {varint : Bool} {host : String}
    {members : List (Member H)} {sets sets' : List (AccessorSet H)}
    (hs : Compiled (Registry.builtin ⟨order, varint⟩) host members sets)
    (hs' : Compiled (Registry.builtin ⟨order', varint⟩) host members sets') (x : H) :
    List.Forall₂ (fun s s' => s.Agrees s' x) sets sets' := by
  induction hs generalizing sets' with
  | nil =>
    cases hs'
    exact .nil
  | cons hm _ ih =>
    cases hs' with
    | cons hm' hrest =>
      exact .cons (Member.agrees_of_binds (Member.binds_of_compile hm) (Member.binds_of_compile hm') x) (ih hrest)

/-! ### Serializers in lockstep -/

namespace Serializer

variable {F : HostFamily} {locate : Locator F} {s s' : Serializer F}

theorem inStep_table (hs : s.cache.InStep s'.cache) (h : F.Host) (members : List (Member (F.Instance h))) :
    EndsLike (s.table h members).1 (s'.table h members).1 ∧
      (s.table h members).2.cache.InStep (s'.table h members).2.cache := by
  unfold table
  rw [hs.hasTable h]
  split
  · exact ⟨.error _, hs⟩
  · exact ⟨hs.reply (.table h members), hs.after (.table h members)⟩

theorem inStep_after (hs : s.cache.InStep s'.cache) (call : Call F) :
    (after locate s call).cache.InStep (after locate s' call).cache := by
  have htable : ∀ h, (s.table h (locate h)).2.cache.InStep (s'.table h (locate h)).2.cache := fun h =>
    (inStep_table hs h (locate h)).2
  cases call with
  | getOrCompile h m => exact hs.after (.getOrCompile h m)
  | cachedTable h => exact hs.after (.table h (locate h))
  | deserialize h buf =>
    have hsame : ∀ s : Serializer F, after locate s (.deserialize h buf) = (s.table h (locate h)).2 :=
      fun s => deserialize_snd s h (locate h) buf
    rw [hsame, hsame]
    exact htable h
  | register h | sizeOf h | serialize h | serializeInto h | deserializeInto h =>
    change (withTable ..).2.cache.InStep (withTable ..).2.cache
    rw [withTable_snd, withTable_snd]
    exact htable h

/-- The same calls leave serializers over registries that are alike in step, whatever their settings. -/
theorem inStep_inUse {r r' : Registry} (hr : r.Alike r') (config config' : MessageConfig) (calls : List (Call F)) :
    (inUse locate r config calls).cache.InStep (inUse locate r' config' calls).cache :=
  List.foldl_rel (r := fun s s' : Serializer F => s.cache.InStep s'.cache) (Cache.InStep.empty hr)
    fun call _ _ _ hs => inStep_after hs call

theorem endsLike_table (locate : Locator F) {r r' : Registry} (hr : r.Alike r') (config config' : MessageConfig)
    (calls : List (Call F)) (h : F.Host) :
    EndsLike ((inUse locate r config calls).table h (locate h)).1
      ((inUse locate r' config' calls).table h (locate h)).1 :=
  (inStep_table (inStep_inUse hr config config' calls) h (locate h)).1

/-! ### Messages -/

/-- What is known once an instance was serialized with built-in codecs, whatever these are. -/
theorem message_of_serialize {rc : RegistryConfig} {config : MessageConfig} {calls : List (Call F)}
    (hcalls : ∀ call ∈ calls, call.Genuine locate) {h : F.Host} {x : F.Instance h} {b : Bytes}
    (hb : ((inUse locate (Registry.builtin rc) config calls).serialize h (locate h) x).1 = .ok b) :
    ∃ t, ((inUse locate (Registry.builtin rc) config calls).table h (locate h)).1 = .ok t ∧
      Compiled (Registry.builtin rc) (F.name h) (locate h) (t.value.sets.map (·.value)) ∧
      b = Layout.message config.lengthPrefix (Builtin.encoding rc.byteOrder) (locate h) x ∧
      (∀ m ∈ locate h, m.Fits config.lengthPrefix (Builtin.encoding rc.byteOrder) x) ∧
      List.Forall₂ (fun m s => Layout.Balanced m s (Builtin.encoding rc.byteOrder m) x) (locate h)
        (t.value.sets.map (·.value)) := by
  obtain ⟨t, ht, hwith⟩ := serialize_eq_ok hb
  rw [config_inUse] at hwith
  have hcompiled := (compiled_of_table hcalls ht).2
  have hputs := hcompiled.imp fun m _ s hs => (Member.binds_of_compile hs).puts
  exact ⟨t, ht, hcompiled, serializeWith_placed hputs hwith⟩

end Serializer

/-- A length that fits two bytes takes two zero bytes more if there are four. -/
theorem LengthPrefix.encode_u32 {n : Nat} (h : n ≤ u16.maxLength) : u32.encode n = u16.encode n ++ [0, 0] := by
  have hhigh : n / 256 / 256 = 0 := by
    rw [Nat.div_div_eq_div_mul]
    exact Nat.div_eq_of_lt (Nat.lt_succ_of_le h)
  simp [encode, width, Numeral.little, hhigh]

namespace Member

variable {H : Type} {m : Member H} {x : H}

theorem body_big (m : Member H) (x : H) :
    m.body (Builtin.encoding .big m) x =
      if m.IsWide then (m.body (Builtin.encoding .little m) x).reverse else m.body (Builtin.encoding .little m) x := by
  unfold body
  cases m.getter with
  | none => exact (ite_self _).symm
  | some get => exact m.encoding_big (get x)

theorem frame_u32 {enc : MemberEncoding H} (h : m.Fits .u16 enc x) :
    m.frame .u32 enc x = LengthPrefix.u16.head m.codec.length (m.body (enc m) x).length ++
      (if m.codec.length = .prefixed then [0, 0] else []) ++ m.body (enc m) x := by
  unfold frame LengthPrefix.frame
  cases hmode : m.codec.length with
  | implicit => rfl
  | prefixed => rw [LengthPrefix.head, LengthPrefix.head, LengthPrefix.encode_u32 (h.2 hmode), if_pos rfl]

theorem IsWide.implicit_of_compile {rc : RegistryConfig} {host : String} {s : AccessorSet H} (hm : m.IsWide)
    (hwritable : m.isWritable) (hs : m.compile (Registry.builtin rc) host = .ok s) : m.codec.length = .implicit := by
  cases hmode : m.codec.length with
  | implicit => rfl
  | prefixed =>
    obtain ⟨set, hset⟩ := Option.isSome_iff_exists.1 hwritable
    obtain ⟨read, hread, -⟩ := (binds_of_compile hs).assignBounded set hset hmode
    have hname := (Builtin.promise_of_resolve hread).1
    rw [hm.boundedReader] at hname
    cases hname

end Member

theorem Layout.length_message {H : Type} (p : LengthPrefix) (order order' : ByteOrder) (members : List (Member H))
    (x : H) :
    (message p (Builtin.encoding order) members x).length = (message p (Builtin.encoding order') members x).length := by
  induction members with
  | nil => rfl
  | cons m rest ih =>
    rw [message_cons, message_cons, List.length_append, List.length_append, ih, Member.frame, Member.frame,
      p.length_frame, p.length_frame, Member.length_body order order' m x]

namespace Serializer

variable {F : HostFamily} {locate : Locator F} {calls : List (Call F)} {h : F.Host} {x : F.Instance h}

theorem register_congr {r r' : Registry} (hr : r.Alike r') (config config' : MessageConfig) :
    ((inUse locate r config calls).register h (locate h)).1 =
      ((inUse locate r' config' calls).register h (locate h)).1 := by
  have htable := endsLike_table locate hr config config' calls h
  rw [register, register, withTable_fst, withTable_fst]
  cases ht : ((inUse locate r config calls).table h (locate h)).1 with
  | error e => rw [htable.of_error ht]
  | ok t =>
    obtain ⟨t', ht'⟩ := htable.of_ok ht
    rw [ht']

/-- With built-in codecs, whether an instance can be serialized does not depend on the byte order. -/
theorem endsLike_serialize (hcalls : ∀ call ∈ calls, call.Genuine locate) (order order' : ByteOrder) (varint : Bool)
    (config : MessageConfig) :
    EndsLike ((inUse locate (Registry.builtin ⟨order, varint⟩) config calls).serialize h (locate h) x).1
      ((inUse locate (Registry.builtin ⟨order', varint⟩) config calls).serialize h (locate h) x).1 := by
  have htable := endsLike_table locate (Builtin.alike order order' varint) config config calls h
  cases ht : ((inUse locate (Registry.builtin ⟨order, varint⟩) config calls).table h (locate h)).1 with
  | error e =>
    rw [serialize, serialize, withTable_fst, withTable_fst, ht, htable.of_error ht]
    exact .error _
  | ok t =>
    obtain ⟨t', ht'⟩ := htable.of_ok ht
    rw [serialize_of_table ht, serialize_of_table ht', config_inUse, config_inUse]
    exact endsLike_serializeWith
      (agrees_of_compiled (compiled_of_table hcalls ht).2 (compiled_of_table hcalls ht').2 x)

/-- An instance that was serialized with lengths of two bytes is serialized with lengths of four bytes if its message is
then allowed. -/
theorem serialize_u32 {rc : RegistryConfig} {maxSize : UInt64} (hcalls : ∀ call ∈ calls, call.Genuine locate)
    {b : Bytes} (hb : ((inUse locate (Registry.builtin rc) ⟨.u16, maxSize⟩ calls).serialize h (locate h) x).1 = .ok b)
    (hmax : (Layout.message .u32 (Builtin.encoding rc.byteOrder) (locate h) x).length ≤ maxSize.toNat) :
    ((inUse locate (Registry.builtin rc) ⟨.u32, maxSize⟩ calls).serialize h (locate h) x).1 =
      if (Layout.message .u32 (Builtin.encoding rc.byteOrder) (locate h) x).length < 2 ^ 63 then
        .ok (Layout.message .u32 (Builtin.encoding rc.byteOrder) (locate h) x)
      else Outcome.fault := by
  obtain ⟨t, ht, hcompiled, -, hfits, hbalanced⟩ := message_of_serialize hcalls hb
  have htable := endsLike_table locate (.refl (Registry.builtin rc)) ⟨.u16, maxSize⟩ ⟨.u32, maxSize⟩ calls h
  obtain ⟨t', ht'⟩ := htable.of_ok ht
  -- both tables hold what the members compile to, which does not depend on the width of lengths
  have hsame : t.value.sets.map (·.value) = t'.value.sets.map (·.value) :=
    hcompiled.unique (compiled_of_table hcalls ht').2
  have hwider : LengthPrefix.u16.maxLength ≤ LengthPrefix.u32.maxLength := by decide
  rw [serialize_of_table ht', config_inUse, ← hsame]
  exact serializeWith_of_balanced hbalanced (fun m hm hmode => Nat.le_trans ((hfits m hm).2 hmode) hwider) hmax

/-- What the settings change in a message. Take any host type over the built-in codecs, any instance, and serializers
that have been called the same, and so that no other member was compiled under the key of a declared one.

Between the two byte orders, registering and serializing succeed and fail alike, with the same errors. Messages have the
same length, and the same bytes except that the numbers of more than one byte that are written at their full width come
in reverse; if they can be assigned, these have no length in front.

Between lengths of two and of four bytes, if there is a message with the former and the message with the latter is not
too large, then this is the same with two zero bytes inserted behind each length. -/
theorem serialize_under_settings (locate : Locator F) (varint : Bool) (maxSize : UInt64) (calls : List (Call F))
    (hcalls : ∀ call ∈ calls, call.Genuine locate) (h : F.Host) (x : F.Instance h) :
    (∀ p : LengthPrefix,
      let little := inUse locate (Registry.builtin ⟨.little, varint⟩) ⟨p, maxSize⟩ calls
      let big := inUse locate (Registry.builtin ⟨.big, varint⟩) ⟨p, maxSize⟩ calls
      let body := fun m : Member (F.Instance h) => m.body (Builtin.encoding .little m) x
      (little.register h (locate h)).1 = (big.register h (locate h)).1 ∧
        EndsLike (little.serialize h (locate h) x).1 (big.serialize h (locate h) x).1 ∧
        ∀ a b, (little.serialize h (locate h) x).1 = .ok a → (big.serialize h (locate h) x).1 = .ok b →
          a.length = b.length ∧
            a = ((locate h).flatMap fun m => p.head m.codec.length (body m).length ++ body m) ∧
            b = ((locate h).flatMap fun m =>
              p.head m.codec.length (body m).length ++ if m.IsWide then (body m).reverse else body m) ∧
            ∀ m ∈ locate h, m.IsWide → m.isWritable → m.codec.length = .implicit) ∧
    ∀ order : ByteOrder,
      let narrow := inUse locate (Registry.builtin ⟨order, varint⟩) ⟨.u16, maxSize⟩ calls
      let wide := inUse locate (Registry.builtin ⟨order, varint⟩) ⟨.u32, maxSize⟩ calls
      let body := fun m : Member (F.Instance h) => m.body (Builtin.encoding order m) x
      let widened := (locate h).flatMap fun m => LengthPrefix.u16.head m.codec.length (body m).length ++
        (if m.codec.length = .prefixed then [0, 0] else []) ++ body m
      ∀ a, (narrow.serialize h (locate h) x).1 = .ok a →
        a = ((locate h).flatMap fun m => LengthPrefix.u16.head m.codec.length (body m).length ++ body m) ∧
          (widened.length ≤ maxSize.toNat →
            (wide.serialize h (locate h) x).1 = if widened.length < 2 ^ 63 then .ok widened else Outcome.fault) := by
  constructor
  · intro p little big body
    refine ⟨register_congr (Builtin.alike .little .big varint) _ _, endsLike_serialize hcalls .little .big varint _,
      fun a b ha hb => ?_⟩
    obtain ⟨t, -, hcompiled, hmessage, -⟩ := message_of_serialize hcalls ha
    obtain ⟨-, -, -, hmessage', -⟩ := message_of_serialize hcalls hb
    refine ⟨?_, hmessage, ?_, fun m hm hwide hwritable => ?_⟩
    · rw [hmessage, hmessage']
      exact Layout.length_message p .little .big (locate h) x
    · rw [hmessage']
      refine List.flatMap_congr fun m _ => ?_
      rw [Member.frame, LengthPrefix.frame, Member.length_body .big .little m x, m.body_big]
    · obtain ⟨s, hs⟩ := hcompiled.exists_of_mem m hm
      exact hwide.implicit_of_compile hwritable hs
  · intro order narrow wide body widened a ha
    obtain ⟨-, -, -, hmessage, hfits, -⟩ := message_of_serialize hcalls ha
    have hwidened : Layout.message .u32 (Builtin.encoding order) (locate h) x = widened :=
      List.flatMap_congr fun m hm => Member.frame_u32 (hfits m hm)
    refine ⟨hmessage, fun hmax => ?_⟩
    rw [← hwidened] at hmax ⊢
    exact serialize_u32 hcalls ha hmax

/-- The sample record with its numbers lowest byte first, with them highest byte first, and with longer lengths. -/
theorem serialize_under_settings_record :
    let used := fun (order : ByteOrder) (p : LengthPrefix) =>
      inUse (F := Sample.family "samples") Sample.members (Registry.builtin ⟨order, false⟩) ⟨p, 4096⟩
        [.register .record]
    ((used .little .u16).register .record Record.members).1 = ((used .big .u16).register .record Record.members).1 ∧
      ((used .little .u16).serialize .record Record.members Record.sample).1 =
        .ok ([214, 255, 255, 255, 255, 255, 255, 255] ++ [8, 0] ++ Text.utf8 "wirebind" ++ [4, 0] ++
          [222, 173, 190, 239] ++ [0, 104, 229, 207, 139, 1, 0, 0] ++ [5]) ∧
      ((used .big .u16).serialize .record Record.members Record.sample).1 = .ok recordBytes ∧
      ((used .big .u32).serialize .record Record.members Record.sample).1 =
        .ok ([255, 255, 255, 255, 255, 255, 255, 214] ++ [8, 0, 0, 0] ++ Text.utf8 "wirebind" ++ [4, 0, 0, 0] ++
          [222, 173, 190, 239] ++ [0, 0, 1, 139, 207, 229, 104, 0] ++ [5]) := by
  intro used
  obtain ⟨horders, hwidths⟩ := serialize_under_settings (F := Sample.family "samples") Sample.members false 4096
    [.register .record] (by simp [Call.Within]) .record Record.sample
  obtain ⟨hregister, hends, hmessages⟩ := horders .u16
  have hbig : ((used .big .u16).serialize .record Record.members Record.sample).1 = .ok recordBytes := by
    decide +kernel
  obtain ⟨a, ha⟩ := hends.symm.of_ok hbig
  obtain ⟨-, hlittle, -⟩ := hmessages a recordBytes ha hbig
  have hwide := (hwidths .big recordBytes hbig).2 (by decide)
  rw [if_pos (by decide +kernel)] at hwide
  refine ⟨hregister, ha.trans ?_, hbig, hwide⟩
  rw [hlittle]
  rfl

end Serializer

end Memberwise
