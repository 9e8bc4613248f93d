import Memberwise.Proofs.Message.Measure

/-!
# What writers report

A member is measured twice, for the size of the message and again when its turn comes, and its writer then reports how
many bytes it wrote. `Layout.reports` lists these reports as they come about if every writer is believed: the next one
starts where the one before it says that it ended. The list ends early if a writer faults, or if the next one would start
where no position reaches.

Writing compares each report with the measure. So how it ends can be read off the list (`Layout.encode_fst`): the first
report that differs from its measure is the error, and if none does, the message has the size that was measured. No
other error comes up once writing has begun, since a member that can be measured can also be written
(`AccessorSet.Paired`), and its length was checked before (`Serializer.mismatch_caught`).
-/

namespace Memberwise

/-- What the writer of a member reports, beside what the member measures. -/
structure Report where
  member : String
  measured : UInt64
  written : UInt64
  deriving DecidableEq, Repr

def Report.mismatch? (r : Report) : Option MessageError :=
  if r.written = r.measured then none else some (.sizeMismatch r.member r.measured.toNat r.written.toNat)

theorem Report.written_of_match {r : Report} (h : r.mismatch? = none) : r.written = r.measured := by
  by_contra hne
  rw [mismatch?, if_neg hne] at h
  cases h

/-- A member that can be measured can be written. -/
def AccessorSet.Paired {H : Type} (s : AccessorSet H) : Prop := s.sizeOf.isSome → s.write.isSome

/-- What the writer of a member is to report in an instance. -/
def AccessorSet.expected {H : Type} (x : H) (s : AccessorSet H) : Report := ⟨s.member, s.measured x, s.measured x⟩

theorem Member.Binds.paired {H : Type} {m : Member H} {r : Registry} {s : AccessorSet H} (h : m.Binds r s) :
    s.Paired := by
  intro hsize
  cases hget : m.getter with
  | none =>
    rw [(h.unread hget).2] at hsize
    cases hsize
  | some get =>
    obtain ⟨w, z, -, -, hwrite, -⟩ := h.read get hget
    rw [hwrite]
    rfl

theorem Member.Binds.sized {H : Type} {m : Member H} {r : Registry} {s : AccessorSet H} (h : m.Binds r s)
    (hread : m.isReadable) : s.sizeOf.isSome := by
  obtain ⟨get, hget⟩ := Option.isSome_iff_exists.1 hread
  obtain ⟨w, z, -, -, -, hsizeOf⟩ := h.read get hget
  rw [hsizeOf]
  rfl

namespace Layout

variable {H : Type} {p : LengthPrefix} {s : AccessorSet H} {sets : List (AccessorSet H)} {x : H} {buf out : Bytes}
  {pos pos' start size total : UInt64}

/-- What the writers of members report in their order, for as long as none of them faults and there is room for the
lengths in front: each writes where the one before it claims to have ended. -/
def reports (p : LengthPrefix) (x : H) : List (AccessorSet H) → Bytes → UInt64 → List Report
  | [], _, _ => []
  | s :: rest, buf, pos =>
    match s.write, writeHead p s (s.measured x) buf pos, advance pos (headWidth p s) with
    | some write, .ok mid, .ok start =>
      match write.call.run x mid start with
      | ⟨out, some n⟩ =>
        ⟨s.member, s.measured x, n⟩ ::
          match advance start n with
          | .ok pos => reports p x rest out pos
          | .error _ => []
      | ⟨_, none⟩ => []
    | _, _, _ => []

/-- How the writing of members from a position on is to end by their reports: with the first that differs from its
measure, or else well, unless there are too few or the message ends where no position reaches. -/
def ending (p : LengthPrefix) (x : H) (sets : List (AccessorSet H)) (pos : UInt64) (log : List Report) :
    Outcome UInt64 :=
  match log.findSome? Report.mismatch? with
  | some e => Outcome.fail e
  | none =>
    if log.length = sets.length ∧ pos.toNat + exactSize p sets x < 2 ^ 64 then
      .ok (pos + UInt64.ofNat (exactSize p sets x))
    else Outcome.fault

theorem reports_cons {w : Bound (Writer H)} {mid : Bytes} {n : UInt64} (hwrite : s.write = some w)
    (hhead : writeHead p s (s.measured x) buf pos = .ok mid) (hstart : advance pos (headWidth p s) = .ok start)
    (hrun : w.call.run x mid start = ⟨out, some n⟩) (rest : List (AccessorSet H)) :
    reports p x (s :: rest) buf pos =
      ⟨s.member, s.measured x, n⟩ ::
        match advance start n with
        | .ok pos' => reports p x rest out pos'
        | .error _ => [] := by
  simp only [reports, hwrite, hhead, hstart, hrun]

theorem reports_of_encode (h : encode p x sets buf pos = (.ok pos', out)) :
    reports p x sets buf pos = sets.map (·.expected x) := by
  induction sets generalizing buf pos with
  | nil => rfl
  | cons s rest ih =>
    unfold encode at h
    split at h
    · cases h
    next pos₁ buf₁ hmember =>
    obtain ⟨mid, start, hhead, hstart, ⟨w, hw, hrun⟩, hend⟩ := encodeMember_inv hmember
    rw [reports_cons hw hhead hstart hrun, hend]
    exact congrArg _ (ih h)

theorem overflow?_of_obstacle? (h : obstacle? p x s = none) : overflow? p x s = none := by
  unfold obstacle? at h
  split at h
  · cases h
  · exact h

theorem memberSize_of_sized (h : s.sizeOf.isSome) (x : H) : memberSize s x = .ok (s.measured x) := by
  obtain ⟨z, hz⟩ := Option.isSome_iff_exists.1 h
  rw [memberSize, AccessorSet.measured, hz]

theorem memberSize_of_obstacle? (h : obstacle? p x s = none) :
    s.sizeOf.isSome ∧ memberSize s x = .ok (s.measured x) := by
  have hsized : s.sizeOf.isSome := by
    unfold obstacle? at h
    split at h
    · cases h
    · next z hz => exact Option.isSome_of_mem hz
  exact ⟨hsized, memberSize_of_sized hsized x⟩

theorem writeHead_ok_or_fault (h : overflow? p x s = none) (buf : Bytes) (pos : UInt64) :
    (∃ mid, writeHead p s (s.measured x) buf pos = .ok mid) ∨
      writeHead p s (s.measured x) buf pos = .error .fault ∧ buf.length < pos.toNat + p.headLength s.length := by
  unfold writeHead
  split
  · exact .inl ⟨buf, rfl⟩
  next hmode =>
  have hmax : ¬ p.maxLength < (s.measured x).toNat := by
    intro hlt
    rw [overflow?, if_pos ⟨hmode, hlt⟩] at h
    cases h
  rw [checkPrefix, if_neg hmax, hmode, LengthPrefix.headLength]
  cases hout : buf.overwrite? pos.toNat (p.encode (s.measured x).toNat) with
  | none =>
    have hfull := Bytes.overwrite?_eq_none_iff.1 hout
    rw [p.length_encode] at hfull
    exact .inr ⟨rfl, by omega⟩
  | some mid => exact .inl ⟨mid, rfl⟩

/-- A member that can be measured, and whose writer does not fault, is written as far as its writer says if this is as
measured. -/
theorem encodeMember_of_run {w : Bound (Writer H)} {mid : Bytes} {n : UInt64}
    (hsize : memberSize s x = .ok (s.measured x)) (hwrite : s.write = some w)
    (hhead : writeHead p s (s.measured x) buf pos = .ok mid) (hstart : advance pos (headWidth p s) = .ok start)
    (hrun : w.call.run x mid start = ⟨out, some n⟩) :
    encodeMember p s x buf pos =
      (match Report.mismatch? ⟨s.member, s.measured x, n⟩ with
        | some e => Outcome.fail e
        | none => advance start n, out) := by
  rw [encodeMember, hsize]
  dsimp only
  rw [hhead]
  dsimp only
  rw [hstart]
  dsimp only
  rw [writeBody, hwrite]
  dsimp only
  rw [hrun]
  by_cases hn : n = s.measured x
  · simp [Report.mismatch?, hn]
  · simp [Report.mismatch?, hn]

theorem encode_cons_of_error {e : Stop} (h : encodeMember p s x buf pos = (.error e, out))
    (rest : List (AccessorSet H)) : encode p x (s :: rest) buf pos = (.error e, out) := by
  rw [encode, h]

theorem encode_cons_of_ok (h : encodeMember p s x buf pos = (.ok pos', out)) (rest : List (AccessorSet H)) :
    encode p x (s :: rest) buf pos = encode p x rest out pos' := by
  rw [encode, h]

theorem ending_cons_of_mismatch {r : Report} {e : MessageError} (h : r.mismatch? = some e) (log : List Report) :
    ending p x sets pos (r :: log) = Outcome.fail e := by
  rw [ending, List.findSome?_cons, h]

theorem ending_of_short {log : List Report} (hmatch : ∀ r ∈ log, r.mismatch? = none)
    (hshort : log.length < sets.length) : ending p x sets pos log = Outcome.fault := by
  have hnone : log.findSome? Report.mismatch? = none := List.findSome?_eq_none_iff.2 hmatch
  rw [ending, hnone]
  exact if_neg fun h => Nat.ne_of_lt hshort h.1

/-- After a report that is as measured, the rest ends as from the position behind the member. -/
theorem ending_cons_of_match {r : Report} (h : r.mismatch? = none)
    (hmember : pos.toNat + exactMember p x s < 2 ^ 64) (rest : List (AccessorSet H)) (log : List Report) :
    ending p x (s :: rest) pos (r :: log) = ending p x rest (pos + headWidth p s + s.measured x) log := by
  rw [ending, ending, List.findSome?_cons, h, add_exactSize, toNat_add_member hmember, exactSize_cons, Nat.add_assoc]
  simp only [List.length_cons, Nat.add_right_cancel_iff]

/-- A message ends where no position reaches if one of its members does. -/
theorem ending_of_le (h : 2 ^ 64 ≤ pos.toNat + exactMember p x s) {rest : List (AccessorSet H)} {log : List Report}
    (hmatch : ∀ r ∈ log, r.mismatch? = none) : ending p x (s :: rest) pos log = Outcome.fault := by
  have hnone : log.findSome? Report.mismatch? = none := List.findSome?_eq_none_iff.2 hmatch
  rw [ending, hnone, exactSize_cons]
  exact if_neg fun hfits => by omega

/-- Writing a member that can be measured and written either faults, and there is no report of it, or goes on as its
writer reports. -/
theorem encodeMember_cases (hobstacle : obstacle? p x s = none) (hpaired : s.Paired) (buf : Bytes) (pos : UInt64) :
    (∃ out, encodeMember p s x buf pos = (Outcome.fault, out) ∧ ∀ rest, reports p x (s :: rest) buf pos = []) ∨
      ∃ start n out, advance pos (headWidth p s) = .ok start ∧
        encodeMember p s x buf pos =
          (match Report.mismatch? ⟨s.member, s.measured x, n⟩ with
            | some e => Outcome.fail e
            | none => advance start n, out) ∧
        ∀ rest, reports p x (s :: rest) buf pos =
          ⟨s.member, s.measured x, n⟩ ::
            match advance start n with
            | .ok pos' => reports p x rest out pos'
            | .error _ => [] := by
  obtain ⟨hsome, hsize⟩ := memberSize_of_obstacle? hobstacle
  obtain ⟨w, hwrite⟩ := Option.isSome_iff_exists.1 (hpaired hsome)
  rcases writeHead_ok_or_fault (overflow?_of_obstacle? hobstacle) buf pos with ⟨mid, hhead⟩ | ⟨hhead, -⟩
  · cases hstart : advance pos (headWidth p s) with
    | error e =>
      obtain rfl := advance_eq_error hstart
      exact .inl ⟨mid, by simp [encodeMember, hsize, hhead, hstart, Outcome.fault],
        fun rest => by simp [reports, hwrite, hhead, hstart]⟩
    | ok start =>
      cases hrun : w.call.run x mid start with
      | mk out count =>
      cases count with
      | none =>
        exact .inl ⟨out, by simp [encodeMember, hsize, hhead, hstart, writeBody, hwrite, hrun],
          fun rest => by simp [reports, hwrite, hhead, hstart, hrun]⟩
      | some n =>
        exact .inr ⟨start, n, out, rfl, encodeMember_of_run hsize hwrite hhead hstart hrun,
          reports_cons hwrite hhead hstart hrun⟩
  · exact .inl ⟨buf, by simp [encodeMember, hsize, hhead, Outcome.fault],
      fun rest => by simp [reports, hwrite, hhead]⟩

/-- Once its members were measured, how writing them ends can be read off the reports. -/
theorem encode_fst (hsets : ∀ s ∈ sets, obstacle? p x s = none ∧ s.Paired) (buf : Bytes) (pos : UInt64) :
    (encode p x sets buf pos).1 = ending p x sets pos (reports p x sets buf pos) := by
  -- after a report that is as measured, writing goes on from where the report says
  induction sets generalizing buf pos with
  | nil =>
    change Except.ok pos = if _ then Except.ok (pos + 0) else Outcome.fault
    rw [if_pos ⟨rfl, pos.toNat_lt⟩, UInt64.add_zero]
  | cons s rest ih =>
    obtain ⟨⟨hobstacle, hpaired⟩, hrest⟩ := List.forall_mem_cons.1 hsets
    rcases encodeMember_cases hobstacle hpaired buf pos with
      ⟨out, hmember, hlog⟩ | ⟨start, n, out, hstart, hmember, hlog⟩
    · rw [encode_cons_of_error hmember, hlog, ending_of_short (by simp) (by simp)]
      rfl
    rw [hlog]
    cases hmismatch : Report.mismatch? ⟨s.member, s.measured x, n⟩ with
    | some e =>
      rw [hmismatch] at hmember
      rw [encode_cons_of_error hmember, ending_cons_of_mismatch hmismatch]
      rfl
    | none =>
      obtain rfl : n = s.measured x := Report.written_of_match hmismatch
      have hend : advance start (s.measured x) = _ := (congrArg (· >>= _) hstart).symm.trans (advance_member p s x pos)
      rw [hmismatch] at hmember
      rw [hend] at hmember ⊢
      by_cases hfits : pos.toNat + exactMember p x s < 2 ^ 64
      · rw [if_pos hfits] at hmember ⊢
        rw [encode_cons_of_ok hmember, ih hrest, ending_cons_of_match hmismatch hfits]
      · rw [if_neg hfits] at hmember ⊢
        rw [encode_cons_of_error hmember]
        exact (ending_of_le (Nat.le_of_not_lt hfits) (List.forall_mem_singleton.2 hmismatch)).symm

/-- Once all members were measured, writing fails only for a report that differs from its measure. -/
theorem mismatch_of_encode (hsets : ∀ s ∈ sets, obstacle? p x s = none ∧ s.Paired) {e : MessageError}
    (h : (encode p x sets buf pos).1 = Outcome.fail e) :
    (reports p x sets buf pos).findSome? Report.mismatch? = some e := by
  rw [encode_fst hsets, ending] at h
  split at h
  · next e' he' =>
    cases h
    exact he'
  · split at h <;> cases h

theorem encode_of_mismatch (hsets : ∀ s ∈ sets, obstacle? p x s = none ∧ s.Paired) {e : MessageError}
    (h : (reports p x sets buf pos).findSome? Report.mismatch? = some e) :
    (encode p x sets buf pos).1 = Outcome.fail e := by
  rw [encode_fst hsets, ending, h]

end Layout

theorem Report.eq_sizeMismatch {log : List Report} {e : MessageError} (h : log.findSome? Report.mismatch? = some e) :
    ∃ member measured written, e = .sizeMismatch member measured written := by
  obtain ⟨r, -, hr⟩ := List.exists_of_findSome?_eq_some h
  unfold Report.mismatch? at hr
  split at hr
  · cases hr
  · cases hr
    exact ⟨_, _, _, rfl⟩

namespace Serializer

section Reports

variable {H : Type} {config : MessageConfig} {sets : List (AccessorSet H)} {x : H} {buf out : Bytes}
  {total offset n : UInt64} {e : MessageError}

theorem reports_of_serializeWith {b : Bytes} (h : serializeWith config x sets = .ok b) :
    Layout.reports config.lengthPrefix x sets (List.replicate b.length 0) 0 = sets.map (·.expected x) ∧
      ∃ n, Layout.measure config.lengthPrefix sets x = .ok n ∧ n.toNat = b.length := by
  obtain ⟨total, pos, hchecked, -, hencode, hlength⟩ := serializeWith_inv h
  rw [hlength]
  exact ⟨Layout.reports_of_encode hencode, total, measureChecked_eq_ok hchecked, rfl⟩

theorem reports_of_serializeIntoWith (h : serializeIntoWith config x buf offset sets = (.ok n, out)) :
    Layout.reports config.lengthPrefix x sets buf offset = sets.map (·.expected x) ∧
      Layout.measure config.lengthPrefix sets x = .ok n := by
  obtain ⟨hchecked, -, pos, hencode⟩ := serializeIntoWith_inv h
  exact ⟨Layout.reports_of_encode hencode, measureChecked_eq_ok hchecked⟩

theorem unobstructed_of_checked (hpaired : ∀ s ∈ sets, s.Paired) (hchecked : measureChecked config sets x = .ok total) :
    ∀ s ∈ sets, Layout.obstacle? config.lengthPrefix x s = none ∧ s.Paired := by
  obtain ⟨hobstacle, -⟩ := Layout.measure_eq_ok_iff.1 (measureChecked_eq_ok hchecked)
  exact fun s hs => ⟨hobstacle s hs, hpaired s hs⟩

theorem serializeWith_of_mismatch (hpaired : ∀ s ∈ sets, s.Paired) (hchecked : measureChecked config sets x = .ok total)
    (hroom : total.toNat < 2 ^ 63)
    (he : (Layout.reports config.lengthPrefix x sets (List.replicate total.toNat 0) 0).findSome? Report.mismatch? =
      some e) : serializeWith config x sets = Outcome.fail e := by
  rw [serializeWith_eq hchecked hroom, Layout.encode_of_mismatch (unobstructed_of_checked hpaired hchecked) he]
  rfl

theorem serializeIntoWith_of_mismatch (hpaired : ∀ s ∈ sets, s.Paired)
    (hchecked : measureChecked config sets x = .ok total) (hroom : total.toNat ≤ Layout.available buf offset)
    (he : (Layout.reports config.lengthPrefix x sets buf offset).findSome? Report.mismatch? = some e) :
    (serializeIntoWith config x buf offset sets).1 = Outcome.fail e := by
  rw [serializeIntoWith_eq hchecked hroom, Layout.encode_of_mismatch (unobstructed_of_checked hpaired hchecked) he]
  rfl

theorem advance_of_checked {pos pos' : UInt64} (hchecked : measureChecked config sets x = .ok total)
    (h : (Layout.encode config.lengthPrefix x sets buf pos).1 = .ok pos') : pos' - pos = total :=
  Layout.sub_of_encode (measureChecked_eq_ok hchecked) (Prod.ext h rfl)

end Reports

variable {F : HostFamily} {locate : Locator F} {r : Registry} {config : MessageConfig} {calls : List (Call F)}
  {h : F.Host} {t : Shared (Table (F.Instance h))}

theorem paired_of_table (ht : ((inUse locate r config calls).table h (locate h)).1 = .ok t) :
    ∀ s ∈ t.value.sets.map (·.value), s.Paired := by
  intro s hs
  obtain ⟨shared, hshared, rfl⟩ := List.mem_map.1 hs
  obtain ⟨-, -, m, -, -, hcompile⟩ := (mirrors_inUse ht).exists_of_mem hshared
  exact (Member.binds_of_compile hcompile).paired

/-- A codec that reports another size than it measures does not go unnoticed. Over any registry, and whatever was
called for before, where an instance was serialized every writer has reported what was measured, and the result is as
long as the instance measures. Where it was measured and may be written, the first report that differs from its measure
is the error. Once writing has begun there are no other errors, and if it ends well, then after as many bytes as were
measured. -/
theorem mismatch_caught (locate : Locator F) (r : Registry) (config : MessageConfig) (calls : List (Call F))
    (h : F.Host) (t : Shared (Table (F.Instance h)))
    (ht : ((inUse locate r config calls).table h (locate h)).1 = .ok t) (x : F.Instance h) :
    let s := inUse locate r config calls
    let p := config.lengthPrefix
    let sets := t.value.sets.map (·.value)
    sets.map (·.member) = (locate h).map (·.name) ∧
      (∀ b, (s.serialize h (locate h) x).1 = .ok b →
        Layout.reports p x sets (List.replicate b.length 0) 0 = sets.map (·.expected x) ∧
          ∃ n, (s.sizeOf h (locate h) x).1 = .ok n ∧ n.toNat = b.length) ∧
      (∀ buf offset n, (s.serializeInto h (locate h) x buf offset).1.1 = .ok n →
        Layout.reports p x sets buf offset = sets.map (·.expected x) ∧ (s.sizeOf h (locate h) x).1 = .ok n) ∧
      ∀ total, measureChecked config sets x = .ok total →
        (∀ e, total.toNat < 2 ^ 63 →
          (Layout.reports p x sets (List.replicate total.toNat 0) 0).findSome? Report.mismatch? = some e →
            (s.serialize h (locate h) x).1 = Outcome.fail e) ∧
        (∀ buf offset e, total.toNat ≤ Layout.available buf offset →
          (Layout.reports p x sets buf offset).findSome? Report.mismatch? = some e →
            (s.serializeInto h (locate h) x buf offset).1.1 = Outcome.fail e) ∧
        ∀ buf pos,
          (∀ e, (Layout.encode p x sets buf pos).1 = Outcome.fail e →
            ∃ member measured written, e = .sizeMismatch member measured written) ∧
          ∀ pos', (Layout.encode p x sets buf pos).1 = .ok pos' → pos' - pos = total := by
  intro s p sets
  have hconfig : s.config = config := config_inUse r config calls
  have hpaired : ∀ set ∈ sets, set.Paired := paired_of_table ht
  have hsizeOf : (s.sizeOf h (locate h) x).1 = Layout.measure p sets x := by rw [sizeOf_of_table ht, hconfig]
  have hserialize : (s.serialize h (locate h) x).1 = serializeWith config x sets := by
    rw [serialize_of_table ht, hconfig]
  have hserializeInto : ∀ buf offset, (s.serializeInto h (locate h) x buf offset).1 =
      serializeIntoWith config x buf offset sets := by
    intro buf offset
    rw [serializeInto_of_table ht, hconfig]
  refine ⟨names_of_table ht, fun b hb => ?_, fun buf offset n hn => ?_, fun total hchecked =>
    ⟨fun e hroom he => ?_, fun buf offset e hroom he => ?_, fun buf pos => ⟨fun e he => ?_, fun pos' => ?_⟩⟩⟩
  · rw [hsizeOf]
    exact reports_of_serializeWith (hserialize ▸ hb)
  · rw [hserializeInto] at hn
    rw [hsizeOf]
    exact reports_of_serializeIntoWith (Prod.ext hn rfl)
  · rw [hserialize]
    exact serializeWith_of_mismatch hpaired hchecked hroom he
  · rw [hserializeInto]
    exact serializeIntoWith_of_mismatch hpaired hchecked hroom he
  · exact Report.eq_sizeMismatch (Layout.mismatch_of_encode (unobstructed_of_checked hpaired hchecked) he)
  · exact advance_of_checked hchecked

end Serializer

namespace Strip

/-- A fold that measures three bytes but writes two is caught, though the strip is written up to there. -/
theorem mismatch_caught_fold :
    let s := Serializer.inUse (F := family) (fun _ => members) (registry 3 2 [170, 170]) {} []
    (s.serialize () members { front := 1, back := 2 }).1 = Outcome.fail (.sizeMismatch "fold" 3 2) ∧
      (s.serializeInto () members { front := 1, back := 2 } (List.replicate 20 255) 1).1 =
        (Outcome.fail (.sizeMismatch "fold" 3 2),
          [255, 1, 0, 0, 0, 0, 0, 0, 0, 170, 170, 255, 255, 255, 255, 255, 255, 255, 255, 255]) := by
  intro s
  have hlog : (s.table () members).1.map (fun t =>
      let sets := t.value.sets.map (·.value)
      (Serializer.measureChecked {} sets { front := 1, back := 2 },
        Layout.reports .u32 { front := 1, back := 2 } sets (List.replicate 19 0) 0,
        Layout.reports .u32 { front := 1, back := 2 } sets (List.replicate 20 255) 1)) =
      .ok (.ok 19, [⟨"front", 8, 8⟩, ⟨"fold", 3, 2⟩, ⟨"back", 8, 8⟩],
        [⟨"front", 8, 8⟩, ⟨"fold", 3, 2⟩, ⟨"back", 8, 8⟩]) := by decide +kernel
  obtain ⟨t, ht, hlog⟩ := map_eq_ok_iff.1 hlog
  obtain ⟨hchecked, hlog⟩ := Prod.mk.inj hlog
  obtain ⟨hown, hgiven⟩ := Prod.mk.inj hlog
  obtain ⟨-, -, -, hcaught⟩ := Serializer.mismatch_caught (F := family) (fun _ => members) _ {} [] () t ht
    { front := 1, back := 2 }
  obtain ⟨hserialize, hserializeInto, -⟩ := hcaught 19 hchecked
  have hmismatch : [Report.mk "front" 8 8, ⟨"fold", 3, 2⟩, ⟨"back", 8, 8⟩].findSome? Report.mismatch? =
      some (.sizeMismatch "fold" 3 2) := by decide
  refine ⟨hserialize _ (by decide) (hown ▸ hmismatch), Prod.ext ?_ (by decide +kernel)⟩
  exact hserializeInto _ 1 _ (by decide) (hgiven ▸ hmismatch)

end Strip

end Memberwise
