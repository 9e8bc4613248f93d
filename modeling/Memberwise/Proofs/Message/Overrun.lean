import Memberwise.Proofs.Message.Refusal

/-!
# Writing past the end

Before an instance is written into a given buffer, its size is compared with the room behind the offset. This is meant
to keep every writer inside the buffer, and it does if the offset lies in the buffer or there is something to write.
Otherwise the comparison succeeds although the message does not fit: beyond the end of the buffer there is room for
nothing, which is all that a message without bytes needs, but its place is outside.

If writers report what was measured and fault only outside of their own range (`AccessorSet.Guarded`), writing in place
faults in no other case, as long as the size of the message does not leave 64 bits. It does fault in this case if the
writers cannot do without their range (`AccessorSet.Confined`), as is so for those of lawful codecs
(`Layout.confined_of_writes`), unless there is no member at all (`Serializer.serializeInto_overruns`).
-/

namespace Memberwise

namespace AccessorSet

variable {H : Type}

/-- The writer reports what the member measures in an instance, or faults because its own range leaves the buffer. -/
def Guarded (s : AccessorSet H) (x : H) : Prop :=
  ∀ w ∈ s.write, ∀ buf offset, buf.length < 2 ^ 63 →
    (w.call.run x buf offset).count = some (s.measured x) ∨
      (w.call.run x buf offset).count = none ∧ buf.length < offset.toNat + (s.measured x).toNat

/-- The writer faults wherever its own range leaves the buffer, and otherwise reports what the member measures. -/
def Confined (s : AccessorSet H) (x : H) : Prop :=
  ∀ w ∈ s.write, ∀ buf offset, buf.length < 2 ^ 63 →
    (w.call.run x buf offset).count =
      if offset.toNat + (s.measured x).toNat ≤ buf.length then some (s.measured x) else none

variable {s : AccessorSet H} {x : H}

theorem Confined.guarded (h : s.Confined x) : s.Guarded x := by
  intro w hw buf offset hbuf
  rw [h w hw buf offset hbuf]
  split
  · exact .inl rfl
  · next hout => exact .inr ⟨rfl, Nat.lt_of_not_le hout⟩

theorem Guarded.reliable (h : s.Guarded x) : s.Reliable x := by
  intro w hw buf offset hbuf hroom
  rcases h w hw buf offset hbuf with hcount | ⟨-, hout⟩
  · exact hcount
  · exact absurd hroom (Nat.not_le_of_lt hout)

end AccessorSet

namespace Layout

variable {H : Type} {p : LengthPrefix} {s : AccessorSet H} {sets : List (AccessorSet H)} {x : H} {buf out : Bytes}
  {pos pos' : UInt64}

theorem confined_of_stores {body : H → Bytes} (hs : ∀ w ∈ s.write, Stores w.call body)
    (hmeasured : s.measured x = UInt64.ofNat (body x).length) (hbody : (body x).length < 2 ^ 64) : s.Confined x := by
  intro w hw buf offset _
  rw [(hs w hw).count_eq, hmeasured, UInt64.toNat_ofNat_of_lt' hbody]

theorem confined_of_writes {enc : MemberEncoding H} {members : List (Member H)}
    (hs : List.Forall₂ (fun m s => Writes m s (enc m)) members sets) (hsized : ∀ s ∈ sets, s.sizeOf.isSome)
    (hcounted : ∀ m ∈ members, (m.body (enc m) x).length < 2 ^ 64) : ∀ s ∈ sets, s.Confined x := by
  induction hs with
  | nil => simp
  | @cons m s rest sets hm _ ih =>
    obtain ⟨hsome, hsized⟩ := List.forall_mem_cons.1 hsized
    obtain ⟨hbody, hcounted⟩ := List.forall_mem_cons.1 hcounted
    have hconfined : s.Confined x := confined_of_stores hm.write (measured_of_writes hm hsome x) hbody
    exact List.forall_mem_cons.2 ⟨hconfined, ih hsized hcounted⟩

/-- Guarded writers report nothing but what was measured. -/
theorem match_of_mem_reports (hsets : ∀ s ∈ sets, s.Guarded x) (hbuf : buf.length < 2 ^ 63) {r : Report}
    (hr : r ∈ reports p x sets buf pos) : r.mismatch? = none := by
  induction sets generalizing buf pos with
  | nil => cases hr
  | cons s rest ih =>
    obtain ⟨hs, hrest⟩ := List.forall_mem_cons.1 hsets
    unfold reports at hr
    split at hr
    · next w mid start hwrite hhead hstart =>
      have hmid : mid.length < 2 ^ 63 := (length_writeHead hhead).symm ▸ hbuf
      have hlength := w.call.length_run x mid start
      split at hr
      · next out n hrun =>
        rw [hrun] at hlength
        rcases hs w hwrite mid start hmid with hcount | ⟨hcount, -⟩
        · rw [hrun] at hcount
          cases hcount
          rcases List.mem_cons.1 hr with rfl | hr
          · exact if_pos rfl
          · split at hr
            · exact ih hrest (hlength.symm ▸ hmid) hr
            · cases hr
        · rw [hrun] at hcount
          cases hcount
      · cases hr
    · cases hr

/-- Once all members were measured, guarded writers fault or all go well. -/
theorem encode_ne_fail (hsets : ∀ s ∈ sets, obstacle? p x s = none ∧ s.Paired) (hguarded : ∀ s ∈ sets, s.Guarded x)
    (hbuf : buf.length < 2 ^ 63) (e : MessageError) : (encode p x sets buf pos).1 ≠ Outcome.fail e := by
  intro h
  obtain ⟨r, hr, hmismatch⟩ := List.exists_of_findSome?_eq_some (mismatch_of_encode hsets h)
  rw [match_of_mem_reports hguarded hbuf hr] at hmismatch
  cases hmismatch

/-- Guarded writers fault only if the message leaves the buffer. -/
theorem lt_of_encode_fault (hsets : ∀ s ∈ sets, obstacle? p x s = none ∧ s.Paired)
    (hguarded : ∀ s ∈ sets, s.Guarded x) (hbuf : buf.length < 2 ^ 63)
    (h : (encode p x sets buf pos).1 = Outcome.fault) : buf.length < pos.toNat + exactSize p sets x := by
  by_contra hle
  obtain ⟨out, hencode⟩ := encode_of_reliable
    (fun s hs => ⟨(hsets s hs).1, (hsets s hs).2, (hguarded s hs).reliable⟩) hbuf (Nat.le_of_not_lt hle)
  rw [hencode] at h
  cases h

theorem room_of_encodeMember (hconfined : s.Confined x) (hbuf : buf.length < 2 ^ 63)
    (h : encodeMember p s x buf pos = (.ok pos', out)) : pos.toNat + exactMember p x s ≤ buf.length := by
  obtain ⟨mid, start, hhead, hstart, ⟨w, hw, hrun⟩, -⟩ := encodeMember_inv h
  have hmid : mid.length = buf.length := length_writeHead hhead
  have hcount := hconfined w hw mid start (hmid.symm ▸ hbuf)
  rw [hrun] at hcount
  split at hcount
  · next hroom =>
    rw [(advance_eq_ok hstart).2, toNat_headWidth] at hroom
    rw [exactMember]
    omega
  · cases hcount

/-- What confined writers wrote is inside the buffer. -/
theorem room_of_encode (hconfined : ∀ s ∈ sets, s.Confined x) (hbuf : buf.length < 2 ^ 63)
    (h : encode p x sets buf pos = (.ok pos', out)) : sets = [] ∨ pos.toNat + exactSize p sets x ≤ buf.length := by
  -- a member moves the position on by its exact size, so the rest is written where it belongs
  induction sets generalizing buf pos with
  | nil => exact .inl rfl
  | cons s rest ih =>
    obtain ⟨hs, hrest⟩ := List.forall_mem_cons.1 hconfined
    have hlength := length_encodeMember p s x buf pos
    unfold encode at h
    split at h
    · cases h
    next mid out' hmember =>
    rw [hmember] at hlength
    change out'.length = buf.length at hlength
    have hroom := room_of_encodeMember hs hbuf hmember
    have hmid := toNat_encodeMember hmember
    rw [exactSize_cons]
    rcases ih hrest (hlength.symm ▸ hbuf) h with rfl | hrest
    · exact .inr hroom
    · exact .inr (by omega)

/-- Confined writers fault exactly if the message leaves the buffer, unless there is nobody to write it. -/
theorem encode_fault_iff (hsets : ∀ s ∈ sets, obstacle? p x s = none ∧ s.Paired)
    (hconfined : ∀ s ∈ sets, s.Confined x) (hbuf : buf.length < 2 ^ 63) :
    (encode p x sets buf pos).1 = Outcome.fault ↔ sets ≠ [] ∧ buf.length < pos.toNat + exactSize p sets x := by
  have hguarded : ∀ s ∈ sets, s.Guarded x := fun s hs => (hconfined s hs).guarded
  constructor
  · intro h
    refine ⟨?_, lt_of_encode_fault hsets hguarded hbuf h⟩
    rintro rfl
    cases h
  · rintro ⟨hne, hlt⟩
    cases hencode : (encode p x sets buf pos).1 with
    | ok pos' =>
      rcases room_of_encode hconfined hbuf (Prod.ext hencode rfl) with hnil | hroom
      · exact absurd hnil hne
      · omega
    | error stop =>
      cases stop with
      | error e => exact absurd hencode (encode_ne_fail hsets hguarded hbuf e)
      | fault => rfl

end Layout

namespace Serializer

section Place

variable {H : Type} {config : MessageConfig} {sets : List (AccessorSet H)} {x : H} {buf : Bytes} {offset total : UInt64}

theorem measureChecked_eq_fault_iff :
    measureChecked config sets x = Outcome.fault ↔ Layout.measure config.lengthPrefix sets x = Outcome.fault := by
  unfold measureChecked
  cases Layout.measure config.lengthPrefix sets x with
  | error stop => exact Iff.rfl
  | ok total =>
    change (if _ then _ else _) = _ ↔ _
    split <;> simp [Outcome.fail, Outcome.fault, pure, Except.pure]

/-- A message without bytes is always allowed. -/
theorem measureChecked_eq_zero_iff :
    measureChecked config sets x = .ok 0 ↔ Layout.measure config.lengthPrefix sets x = .ok 0 := by
  refine ⟨measureChecked_eq_ok, fun h => ?_⟩
  have hle : ¬ config.maxSize < 0 := UInt64.not_lt.2 UInt64.zero_le
  rw [measureChecked, h]
  simp [bind, Except.bind, pure, Except.pure, hle]

/-- Writing in place faults while measuring, or else while writing. -/
theorem serializeIntoWith_fault_iff :
    (serializeIntoWith config x buf offset sets).1 = Outcome.fault ↔
      Layout.measure config.lengthPrefix sets x = Outcome.fault ∨
        ∃ total, measureChecked config sets x = .ok total ∧ total.toNat ≤ Layout.available buf offset ∧
          (Layout.encode config.lengthPrefix x sets buf offset).1 = Outcome.fault := by
  rw [← measureChecked_eq_fault_iff]
  cases hchecked : measureChecked config sets x with
  | error stop => simp [serializeIntoWith, hchecked, Outcome.fault]
  | ok total =>
    by_cases hroom : Layout.available buf offset < total.toNat
    · simp [serializeIntoWith_of_lt hchecked hroom, Nat.not_le_of_lt hroom, Outcome.fail, Outcome.fault]
    · rw [serializeIntoWith_eq hchecked (Nat.le_of_not_lt hroom)]
      cases hencode : (Layout.encode config.lengthPrefix x sets buf offset).1 with
      | ok pos => simp [Except.map, Outcome.fault]
      | error stop => simp [Except.map, Outcome.fault, Nat.le_of_not_lt hroom]

/-- A message that is let through leaves the buffer only if it has no bytes and its place is outside. -/
theorem lt_iff_of_checked (hchecked : measureChecked config sets x = .ok total)
    (hroom : total.toNat ≤ Layout.available buf offset) :
    buf.length < offset.toNat + Layout.exactSize config.lengthPrefix sets x ↔
      total = 0 ∧ buf.length < offset.toNat := by
  rw [← (Layout.measure_eq_ok_iff.1 (measureChecked_eq_ok hchecked)).2, ← UInt64.toNat_inj, UInt64.toNat_zero]
  rw [Layout.available] at hroom
  omega

/-- With guarded writers, an instance is written or an error is reported wherever there is something to write or the offset
lies in the buffer. -/
theorem serializeIntoWith_answers (hpaired : ∀ set ∈ sets, set.Paired) (hguarded : ∀ set ∈ sets, set.Guarded x)
    (hbuf : buf.length < 2 ^ 63)
    (hinside : ¬ (Layout.exactSize config.lengthPrefix sets x = 0 ∧ buf.length < offset.toNat))
    (hcounted : Layout.exactSize config.lengthPrefix sets x < 2 ^ 64) :
    (∃ n, (serializeIntoWith config x buf offset sets).1 = .ok n) ∨
      ∃ e, (serializeIntoWith config x buf offset sets).1 = Outcome.fail e := by
  cases hstop : (serializeIntoWith config x buf offset sets).1 with
  | ok n => exact .inl ⟨n, rfl⟩
  | error stop =>
    cases stop with
    | error e => exact .inr ⟨e, rfl⟩
    | fault =>
      rcases serializeIntoWith_fault_iff.1 hstop with hfault | ⟨total, hchecked, hroom, hfault⟩
      · have hle := Layout.exactSize_measurable_le config.lengthPrefix sets x
        have hlong := Layout.measure_eq_fault_iff.1 hfault
        omega
      · have hlt := Layout.lt_of_encode_fault (unobstructed_of_checked hpaired hchecked) hguarded hbuf hfault
        obtain ⟨rfl, hbeyond⟩ := (lt_iff_of_checked hchecked hroom).1 hlt
        have hzero := (Layout.measure_eq_ok_iff.1 (measureChecked_eq_ok hchecked)).2
        exact absurd ⟨hzero.symm, hbeyond⟩ hinside

/-- With confined writers, writing in place faults exactly if measuring does, or if some member is to write nothing beyond
the end of the buffer. -/
theorem serializeIntoWith_fault_iff_of_confined (hpaired : ∀ set ∈ sets, set.Paired)
    (hconfined : ∀ set ∈ sets, set.Confined x) (hbuf : buf.length < 2 ^ 63) :
    (serializeIntoWith config x buf offset sets).1 = Outcome.fault ↔
      Layout.measure config.lengthPrefix sets x = Outcome.fault ∨
        sets ≠ [] ∧ Layout.measure config.lengthPrefix sets x = .ok 0 ∧ buf.length < offset.toNat := by
  rw [serializeIntoWith_fault_iff, ← measureChecked_eq_zero_iff]
  refine or_congr_right ⟨?_, ?_⟩
  · rintro ⟨total, hchecked, hroom, hfault⟩
    obtain ⟨hne, hlt⟩ :=
      (Layout.encode_fault_iff (unobstructed_of_checked hpaired hchecked) hconfined hbuf).1 hfault
    obtain ⟨rfl, hbeyond⟩ := (lt_iff_of_checked hchecked hroom).1 hlt
    exact ⟨hne, hchecked, hbeyond⟩
  · rintro ⟨hne, hchecked, hbeyond⟩
    have hlt := (lt_iff_of_checked hchecked (Nat.zero_le _)).2 ⟨rfl, hbeyond⟩
    exact ⟨0, hchecked, Nat.zero_le _,
      (Layout.encode_fault_iff (unobstructed_of_checked hpaired hchecked) hconfined hbuf).2 ⟨hne, hlt⟩⟩

end Place

/-- When writing in place reaches past the end. If the writers report what was measured and fault only where their own
range leaves the buffer, an instance is written or an error is reported, except where the message has no bytes and the
offset is beyond the end of the buffer, or where the message has `2 ^ 64` bytes or more.

Measuring alone faults exactly if the members before the first that cannot be measured have `2 ^ 64` bytes or more. If
the writers fault wherever their range leaves the buffer, writing in place faults exactly if measuring does, or if there
is some member, all of them measure nothing, and the offset is beyond the end. -/
theorem serializeInto_overruns {F : HostFamily} (locate : Locator F) (r : Registry) (config : MessageConfig)
    (calls : List (Call F)) (h : F.Host) (t : Shared (Table (F.Instance h)))
    (ht : ((inUse locate r config calls).table h (locate h)).1 = .ok t) (x : F.Instance h)
    (hguarded : ∀ set ∈ t.value.sets.map (·.value), set.Guarded x) (buf : Bytes) (offset : UInt64)
    (hbuf : buf.length < 2 ^ 63) :
    let s := inUse locate r config calls
    let p := config.lengthPrefix
    let sets := t.value.sets.map (·.value)
    let exact := Layout.exactSize p sets x
    let measured := (s.sizeOf h (locate h) x).1
    let result := (s.serializeInto h (locate h) x buf offset).1.1
    (¬ (exact = 0 ∧ buf.length < offset.toNat) → exact < 2 ^ 64 →
        (∃ n, result = .ok n) ∨ ∃ e, result = Outcome.fail e) ∧
      (measured = Outcome.fault ↔ 2 ^ 64 ≤ Layout.exactSize p (Layout.measurable p sets x) x) ∧
      ((∀ set ∈ sets, set.Confined x) →
        (result = Outcome.fault ↔
          measured = Outcome.fault ∨ locate h ≠ [] ∧ measured = .ok 0 ∧ buf.length < offset.toNat)) := by
  intro s p sets exact measured result
  have hconfig : s.config = config := config_inUse r config calls
  have hresult : result = (serializeIntoWith config x buf offset sets).1 := by rw [← hconfig, ← serializeInto_of_table ht]
  have hmeasured : measured = Layout.measure p sets x := by
    change (s.sizeOf h (locate h) x).1 = _
    rw [sizeOf_of_table ht, hconfig]
  have hpaired : ∀ set ∈ sets, set.Paired := paired_of_table ht
  have hmembers : sets ≠ [] ↔ locate h ≠ [] := by
    have hnames : sets.map (·.member) = (locate h).map (·.name) := names_of_table ht
    rw [ne_eq, ne_eq, ← List.map_eq_nil_iff (f := (·.member)), hnames, List.map_eq_nil_iff]
  refine ⟨fun hinside hcounted => ?_, by rw [hmeasured, Layout.measure_eq_fault_iff], fun hconfined => ?_⟩
  · rw [hresult]
    exact serializeIntoWith_answers hpaired hguarded hbuf hinside hcounted
  · rw [hresult, hmeasured, ← hmembers]
    exact serializeIntoWith_fault_iff_of_confined hpaired hconfined hbuf

end Serializer

namespace Visit

/-- A visit takes eight bytes. Beyond the end of a buffer it is refused, since there is no room for so many. -/
theorem serializeInto_overruns_sample :
    ∃ t, (serializer.table () members).1 = .ok t ∧ (∀ set ∈ t.value.sets.map (·.value), set.Guarded sample) ∧
      Layout.exactSize .u16 (t.value.sets.map (·.value)) sample = 8 ∧
      ((∃ n, (serializer.serializeInto () members sample [7] 2).1.1 = .ok n) ∨
        ∃ e, (serializer.serializeInto () members sample [7] 2).1.1 = Outcome.fail e) ∧
      (serializer.serializeInto () members sample [7] 2).1.1 ≠ Outcome.fault := by
  have hsize : (serializer.table () members).1.map (fun t =>
      Layout.exactSize .u16 (t.value.sets.map (·.value)) sample) = .ok 8 := by decide +kernel
  obtain ⟨t, ht, hexact⟩ := map_eq_ok_iff.1 hsize
  have haccess : ∀ m ∈ members, m.isReadable := by decide
  have hconfined := Layout.confined_of_writes (writes_of_table ht) (Serializer.sized_of_table ht haccess)
    (x := sample) (by decide +kernel)
  have hguarded : ∀ set ∈ t.value.sets.map (·.value), set.Guarded sample := fun set hset =>
    (hconfined set hset).guarded
  obtain ⟨hinside, hmeasured, hfault⟩ := Serializer.serializeInto_overruns (F := family) (fun _ => members) _ _ _ () t ht sample
    hguarded [7] 2 (by decide)
  refine ⟨t, ht, hguarded, hexact, hinside ?_ ?_, fun hstop => ?_⟩
  · rintro ⟨hempty, -⟩
    cases hexact.symm.trans hempty
  · exact lt_of_eq_of_lt hexact (by decide)
  · have hle := Layout.exactSize_measurable_le .u16 (t.value.sets.map (·.value)) sample
    rcases (hfault hconfined).1 hstop with hlong | ⟨-, hempty, -⟩
    · exact absurd (hmeasured.1 hlong) (Nat.not_le_of_lt (Nat.lt_of_le_of_lt hle (lt_of_eq_of_lt hexact (by decide))))
    · have hsizeOf : (serializer.sizeOf () members sample).1 = .ok 8 := by decide +kernel
      cases hsizeOf.symm.trans hempty

/-- The built-in codecs and a reader of texts that need not be told their length. -/
def bareRegistry : Registry :=
  (Registry.builtin {}).push ⟨.string, .readScalar, "Rest", Custom.constant .string 0 [] "" .readScalar⟩

/-- The path of a visit, without its length in front. -/
def barePath : Member Visit := .field "path" .string (fun x : Visit => x.path) fun x v => { x with path := v }

theorem confined_of_compile {set : AccessorSet Visit} (h : barePath.compile bareRegistry "Visit" = .ok set) (x : Visit)
    (hcounted : (Text.utf8 x.path).length < 2 ^ 64) : set.Confined x := by
  obtain ⟨w, z, hw, hz, hwrite, hsizeOf⟩ := (Member.binds_of_compile h).read _ rfl
  have hwriter : bareRegistry.resolve .string .write (some Builtin.writeName) =
      .ok ⟨Builtin.writeName, Writer.ofBytes Text.utf8⟩ := rfl
  have hmeasure : bareRegistry.resolve .string .sizeOf (some Builtin.sizeName) =
      .ok ⟨Builtin.sizeName, fun v : String => UInt64.ofNat v.utf8ByteSize⟩ := rfl
  cases hwriter.symm.trans hw
  cases hmeasure.symm.trans hz
  have hmeasured : set.measured x = UInt64.ofNat (Text.utf8 x.path).length := by
    rw [AccessorSet.measured, hsizeOf]
    exact Builtin.measures_text x.path
  have hstores : ∀ w ∈ set.write, Stores w.call (Text.utf8 ∘ fun x : Visit => x.path) := by
    rw [hwrite]
    rintro _ ⟨⟩
    exact (Stores.ofBytes Text.utf8).comap fun x : Visit => x.path
  exact Layout.confined_of_stores hstores hmeasured hcounted

/-- A path without its length may have no bytes. The writer of texts is confined, but a visit without a path is let
through where there is no place for it, and writing it faults. -/
theorem serializeInto_bare :
    let s := Serializer.inUse (F := family) (fun _ => [barePath]) bareRegistry {} []
    (s.register () [barePath]).1 = .ok () ∧
      (∃ t, (s.table () [barePath]).1 = .ok t ∧ ∀ set ∈ t.value.sets.map (·.value), ∀ x : Visit,
        (Text.utf8 x.path).length < 2 ^ 64 → set.Confined x) ∧
      (s.serializeInto () [barePath] {} [7] 2).1.1 = Outcome.fault := by
  intro s
  have hregistered : (s.register () [barePath]).1 = .ok () := by decide +kernel
  have hfault : (s.serializeInto () [barePath] {} [7] 2).1.1 = Outcome.fault := by decide +kernel
  have hsize : (s.table () [barePath]).1.map (fun t => t.value.size) = .ok 1 := by decide +kernel
  obtain ⟨t, ht, -⟩ := map_eq_ok_iff.1 hsize
  refine ⟨hregistered, ⟨t, ht, fun set hset x hcounted => ?_⟩, hfault⟩
  obtain ⟨-, hcompiled⟩ := Serializer.compiled_of_table (List.forall_mem_nil _) ht
  obtain ⟨set', rest, hcompile, hrest, hsets⟩ := List.forall₂_cons_left_iff.1 hcompiled
  cases hrest
  rw [hsets, List.mem_singleton] at hset
  subst hset
  exact confined_of_compile hcompile x hcounted

end Visit

end Memberwise
