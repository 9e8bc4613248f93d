import Mathlib.Data.List.TakeWhile
import Memberwise.Codec.Custom
import Memberwise.Proofs.Message.RoundTrip

/-!
# How large a message is

The size of a message, exactly, is what its members measure and the widths of the lengths in front of them, added up
(`Layout.exactSize`). A serializer adds up 64-bit words, but never past 64 bits: where the members up to the first that
cannot be measured are of `2 ^ 64` bytes or more together, measuring faults (`Layout.measure_eq`). So what it finds is
the exact size (`Layout.measure_eq_ok_iff`), and writing moves the position on by as much (`Layout.toNat_encode`).

What was written therefore keeps to the greatest size allowed, whatever sizes the members report
(`Serializer.size_within_limit`).
-/

namespace Memberwise

/-- The number of bytes in front of a member. -/
def LengthPrefix.headLength (p : LengthPrefix) : LengthMode → Nat
  | .implicit => 0
  | .prefixed => p.width

theorem LengthPrefix.length_frame (p : LengthPrefix) (mode : LengthMode) (body : Bytes) :
    (p.frame mode body).length = p.headLength mode + body.length := by
  rw [frame, List.length_append, Nat.add_right_cancel_iff]
  cases mode with
  | implicit => rfl
  | prefixed => exact p.length_encode body.length

namespace AccessorSet

variable {H : Type}

/-- What a member measures in an instance, zero if it cannot be measured. -/
def measured (s : AccessorSet H) (x : H) : UInt64 :=
  match s.sizeOf with
  | some measure => measure.call x
  | none => 0

end AccessorSet

namespace Layout

variable {H : Type} {p : LengthPrefix} {s : AccessorSet H} {sets : List (AccessorSet H)} {x : H} {buf mid out : Bytes}
  {pos pos' start total size : UInt64}

/-- The number of bytes that a member takes in a message. -/
def exactMember (p : LengthPrefix) (x : H) (s : AccessorSet H) : Nat :=
  p.headLength s.length + (s.measured x).toNat

/-- The number of bytes of a message. -/
def exactSize (p : LengthPrefix) (sets : List (AccessorSet H)) (x : H) : Nat := (sets.map (exactMember p x)).sum

/-- The refusal of a prefixed member that is too long for its length. -/
def overflow? (p : LengthPrefix) (x : H) (s : AccessorSet H) : Option MessageError :=
  if s.length = .prefixed ∧ p.maxLength < (s.measured x).toNat then
    some (.lengthOverflow s.member (s.measured x).toNat p.maxLength)
  else none

/-- What keeps a member from being measured. -/
def obstacle? (p : LengthPrefix) (x : H) (s : AccessorSet H) : Option MessageError :=
  match s.sizeOf with
  | none => some (.missingAccessor s.member .sizeOf)
  | some _ => overflow? p x s

/-! ### Adding up -/

theorem exactSize_nil (p : LengthPrefix) (x : H) : exactSize p [] x = 0 := rfl

theorem exactSize_cons (p : LengthPrefix) (s : AccessorSet H) (sets : List (AccessorSet H)) (x : H) :
    exactSize p (s :: sets) x = exactMember p x s + exactSize p sets x := rfl

theorem headWidth_eq (p : LengthPrefix) (s : AccessorSet H) : headWidth p s = UInt64.ofNat (p.headLength s.length) := by
  unfold headWidth LengthPrefix.headLength
  cases s.length <;> rfl

theorem add_exactSize (p : LengthPrefix) (pos : UInt64) (s : AccessorSet H) (rest : List (AccessorSet H)) (x : H) :
    pos + headWidth p s + s.measured x + UInt64.ofNat (exactSize p rest x) =
      pos + UInt64.ofNat (exactSize p (s :: rest) x) := by
  rw [exactSize_cons, exactMember, UInt64.ofNat_add, UInt64.ofNat_add, UInt64.ofNat_toNat, headWidth_eq,
    UInt64.add_assoc, UInt64.add_assoc, UInt64.add_assoc]

theorem toNat_headWidth (p : LengthPrefix) (s : AccessorSet H) : (headWidth p s).toNat = p.headLength s.length := by
  rw [headWidth_eq]
  cases s.length <;> cases p <;> rfl

/-- The members up to the first that cannot be measured. -/
def measurable (p : LengthPrefix) (sets : List (AccessorSet H)) (x : H) : List (AccessorSet H) :=
  sets.takeWhile fun s => (obstacle? p x s).isNone

theorem measurable_of_unobstructed (h : ∀ s ∈ sets, obstacle? p x s = none) : measurable p sets x = sets :=
  List.takeWhile_eq_self_iff.2 fun s hs => by rw [h s hs]; rfl

theorem exactSize_measurable_le (p : LengthPrefix) (sets : List (AccessorSet H)) (x : H) :
    exactSize p (measurable p sets x) x ≤ exactSize p sets x := by
  have hsplit : exactSize p sets x = exactSize p (measurable p sets x) x +
      exactSize p (sets.dropWhile fun s => (obstacle? p x s).isNone) x := by
    rw [exactSize, exactSize, exactSize, measurable, ← List.sum_append, ← List.map_append,
      List.takeWhile_append_dropWhile]
  omega

theorem measureMember_eq (p : LengthPrefix) (s : AccessorSet H) (x : H) :
    measureMember p s x =
      match obstacle? p x s with
      | some e => .error e
      | none => .ok (s.measured x) := by
  unfold measureMember memberSize obstacle? overflow? AccessorSet.measured
  cases s.sizeOf with
  | none => rfl
  | some z =>
    cases hmode : s.length with
    | implicit => simp [bind, Except.bind, pure, Except.pure]
    | prefixed =>
      by_cases hmax : p.maxLength < (z.call x).toNat
      · simp [bind, Except.bind, checkPrefix, hmax]
      · simp [bind, Except.bind, pure, Except.pure, checkPrefix, hmax]

/-- Moved on by what stands in front of a member and then by the member, a total or a position is exact. -/
theorem advance_member (p : LengthPrefix) (s : AccessorSet H) (x : H) (pos : UInt64) :
    (advance pos (headWidth p s) >>= fun start => advance start (s.measured x)) =
      if pos.toNat + exactMember p x s < 2 ^ 64 then .ok (pos + headWidth p s + s.measured x) else Outcome.fault := by
  rw [exactMember, ← toNat_headWidth]
  by_cases hstart : pos.toNat + (headWidth p s).toNat < 2 ^ 64
  · have hnat := (advance_eq_ok (advance_of_lt hstart)).2
    rw [advance_of_lt hstart]
    change advance (pos + headWidth p s) (s.measured x) = _
    by_cases hend : (pos + headWidth p s).toNat + (s.measured x).toNat < 2 ^ 64
    · rw [advance_of_lt hend, if_pos (by omega)]
    · rw [advance_of_le (Nat.le_of_not_lt hend), if_neg (by omega)]
  · rw [advance_of_le (Nat.le_of_not_lt hstart), if_neg (by omega)]
    rfl

theorem toNat_add_member (h : pos.toNat + exactMember p x s < 2 ^ 64) :
    (pos + headWidth p s + s.measured x).toNat = pos.toNat + exactMember p x s := by
  rw [exactMember, ← toNat_headWidth] at h ⊢
  rw [UInt64.toNat_add, UInt64.toNat_add]
  omega

theorem measureFrom_cons_of_none (h : obstacle? p x s = none) (total : UInt64) (rest : List (AccessorSet H)) :
    measureFrom p x total (s :: rest) =
      if total.toNat + exactMember p x s < 2 ^ 64 then measureFrom p x (total + headWidth p s + s.measured x) rest
      else Outcome.fault := by
  have hmember := advance_member p s x total
  rw [measureFrom, measureMember_eq, h]
  change (advance total (headWidth p s) >>= fun start => advance start (s.measured x) >>= fun total' =>
    measureFrom p x total' rest) = _
  rw [← bind_assoc, hmember]
  split <;> rfl

/-- Members add up to their exact size, unless some member cannot be measured or those before it add up to too much. -/
theorem measureFrom_eq (p : LengthPrefix) (x : H) (total : UInt64) (sets : List (AccessorSet H)) :
    measureFrom p x total sets =
      if total.toNat + exactSize p (measurable p sets x) x < 2 ^ 64 then
        match sets.findSome? (obstacle? p x) with
        | some e => Outcome.fail e
        | none => .ok (total + UInt64.ofNat (exactSize p sets x))
      else Outcome.fault := by
  induction sets generalizing total with
  | nil =>
    change Except.ok total = if total.toNat + 0 < 2 ^ 64 then Except.ok (total + 0) else Outcome.fault
    rw [Nat.add_zero, if_pos total.toNat_lt, UInt64.add_zero]
  | cons s rest ih =>
    rw [List.findSome?_cons]
    cases hobstacle : obstacle? p x s with
    | some e =>
      have hnone : measurable p (s :: rest) x = [] := by simp [measurable, hobstacle]
      rw [measureFrom, measureMember_eq, hobstacle, hnone, exactSize_nil, Nat.add_zero, if_pos total.toNat_lt]
    | none =>
      have hmore : measurable p (s :: rest) x = s :: measurable p rest x := by simp [measurable, hobstacle]
      rw [measureFrom_cons_of_none hobstacle, hmore, exactSize_cons, ih, add_exactSize]
      by_cases hmember : total.toNat + exactMember p x s < 2 ^ 64
      · rw [if_pos hmember, toNat_add_member hmember, Nat.add_assoc]
      · rw [if_neg hmember, if_neg (by omega)]

/-- A message measures its exact size, unless some member cannot be measured. It faults if the members before that one
are too large together. -/
theorem measure_eq (p : LengthPrefix) (sets : List (AccessorSet H)) (x : H) :
    measure p sets x =
      if exactSize p (measurable p sets x) x < 2 ^ 64 then
        match sets.findSome? (obstacle? p x) with
        | some e => Outcome.fail e
        | none => .ok (UInt64.ofNat (exactSize p sets x))
      else Outcome.fault := by
  rw [measure, measureFrom_eq, UInt64.toNat_zero, Nat.zero_add, UInt64.zero_add]

theorem measure_eq_ok_iff :
    measure p sets x = .ok total ↔ (∀ s ∈ sets, obstacle? p x s = none) ∧ total.toNat = exactSize p sets x := by
  rw [measure_eq, ← List.findSome?_eq_none_iff]
  cases hobstacle : sets.findSome? (obstacle? p x) with
  | some e => split <;> simp [Outcome.fail, Outcome.fault]
  | none =>
    rw [measurable_of_unobstructed (List.findSome?_eq_none_iff.1 hobstacle)]
    constructor
    · intro h
      split at h
      · next hlt =>
        cases h
        exact ⟨rfl, UInt64.toNat_ofNat_of_lt' hlt⟩
      · cases h
    · rintro ⟨-, htotal⟩
      rw [← htotal, if_pos total.toNat_lt, UInt64.ofNat_toNat]

theorem measure_eq_fault_iff :
    measure p sets x = Outcome.fault ↔ 2 ^ 64 ≤ exactSize p (measurable p sets x) x := by
  rw [measure_eq]
  split
  · next hlt =>
    refine ⟨fun h => ?_, fun hle => absurd hlt (Nat.not_lt_of_le hle)⟩
    split at h <;> cases h
  · next hle => exact ⟨fun _ => Nat.le_of_not_lt hle, fun _ => rfl⟩

/-! ### The position -/

theorem measured_of_memberSize (h : memberSize s x = .ok size) : s.measured x = size := by
  unfold memberSize at h
  unfold AccessorSet.measured
  cases hz : s.sizeOf with
  | some z =>
    rw [hz] at h
    cases h
    rfl
  | none =>
    rw [hz] at h
    cases h

/-- Writing a member well: what stands in front of it is written first, then its writer reports what the member measures,
and the position moves on by exactly so many bytes. -/
theorem encodeMember_inv (h : encodeMember p s x buf pos = (.ok pos', out)) :
    ∃ mid start, writeHead p s (s.measured x) buf pos = .ok mid ∧ advance pos (headWidth p s) = .ok start ∧
      (∃ w ∈ s.write, w.call.run x mid start = ⟨out, some (s.measured x)⟩) ∧
      advance start (s.measured x) = .ok pos' := by
  unfold encodeMember at h
  split at h
  · cases h
  next size hsize =>
  split at h
  · cases h
  next mid hhead =>
  split at h
  · cases h
  next start hstart =>
  have hmeasured := measured_of_memberSize hsize
  unfold writeBody at h
  split at h
  · cases h
  next w hw =>
  split at h
  · cases h
  next out' written hrun =>
  split at h
  · next hsame =>
    obtain ⟨hend, rfl⟩ := Prod.mk.inj h
    rw [hsame] at hrun hend
    rw [hmeasured]
    exact ⟨mid, start, hhead, hstart, ⟨w, hw, hrun⟩, hend⟩
  · cases h

theorem toNat_encodeMember (h : encodeMember p s x buf pos = (.ok pos', out)) :
    pos'.toNat = pos.toNat + exactMember p x s := by
  obtain ⟨mid, start, -, hstart, -, hend⟩ := encodeMember_inv h
  rw [(advance_eq_ok hend).2, (advance_eq_ok hstart).2, toNat_headWidth, exactMember, Nat.add_assoc]

theorem writeHead_inv (h : writeHead p s size buf pos = .ok mid) :
    s.length = .implicit ∧ mid = buf ∨
      s.length = .prefixed ∧ pos.toNat + p.width ≤ buf.length ∧ mid = buf.overwrite pos.toNat (p.encode size.toNat) := by
  unfold writeHead at h
  split at h
  · next hmode =>
    cases h
    exact .inl ⟨hmode, rfl⟩
  next hmode =>
  split at h
  · cases h
  cases hout : buf.overwrite? pos.toNat (p.encode size.toNat) with
  | none =>
    rw [hout] at h
    cases h
  | some out =>
    rw [hout] at h
    cases h
    obtain ⟨hfits, hmid⟩ := Bytes.overwrite?_eq_some_iff.1 hout
    rw [p.length_encode] at hfits
    exact .inr ⟨hmode, hfits, hmid.symm⟩

theorem length_writeHead (h : writeHead p s size buf pos = .ok mid) : mid.length = buf.length := by
  rcases writeHead_inv h with ⟨-, rfl⟩ | ⟨-, hfits, rfl⟩
  · rfl
  · exact Bytes.length_overwrite (by rwa [p.length_encode])

theorem length_encodeMember (p : LengthPrefix) (s : AccessorSet H) (x : H) (buf : Bytes) (pos : UInt64) :
    (encodeMember p s x buf pos).2.length = buf.length := by
  unfold encodeMember
  split
  · rfl
  split
  · rfl
  next size _ _ mid hhead =>
  rw [← length_writeHead hhead]
  split
  · rfl
  next start _ =>
  unfold writeBody
  split
  · rfl
  next w _ =>
  have hrun := w.call.length_run x mid start
  split
  · next heq => rwa [heq] at hrun
  · next heq =>
    rw [heq] at hrun
    split <;> exact hrun

/-- Writing leaves as many bytes as there were, also where it stops. -/
theorem length_encode (p : LengthPrefix) (x : H) (sets : List (AccessorSet H)) (buf : Bytes) (pos : UInt64) :
    (encode p x sets buf pos).2.length = buf.length := by
  induction sets generalizing buf pos with
  | nil => rfl
  | cons s rest ih =>
    have hmember := length_encodeMember p s x buf pos
    unfold encode
    split
    · next heq => rwa [heq] at hmember
    · next heq =>
      rw [heq] at hmember
      rw [ih, hmember]

/-- Writing moves the position on by the exact size, whatever the writers report. -/
theorem toNat_encode (h : encode p x sets buf pos = (.ok pos', out)) :
    pos'.toNat = pos.toNat + exactSize p sets x := by
  induction sets generalizing buf pos with
  | nil =>
    cases h
    rfl
  | cons s rest ih =>
    unfold encode at h
    split at h
    · cases h
    next pos₁ buf₁ hmember => rw [ih h, toNat_encodeMember hmember, exactSize_cons, Nat.add_assoc]

/-- What was measured is how far writing moves the position on. -/
theorem sub_of_encode (hmeasure : measure p sets x = .ok total) (h : encode p x sets buf pos = (.ok pos', out)) :
    pos' - pos = total := by
  have hend := toNat_encode h
  rw [← (measure_eq_ok_iff.1 hmeasure).2] at hend
  have hle : pos ≤ pos' := UInt64.le_iff_toNat_le.2 (by omega)
  apply UInt64.toNat_inj.1
  rw [UInt64.toNat_sub_of_le _ _ hle]
  omega

/-! ### Measured as written -/

/-- An accessor set that measures and writes a member, and in the given instance measures what it writes. -/
structure Balanced (m : Member H) (s : AccessorSet H) (enc : m.type.Carrier → Bytes) (x : H) : Prop
    extends Puts m s enc where
  written : s.write.isSome
  sized : s.sizeOf.isSome
  measured : s.measured x = UInt64.ofNat (m.body enc x).length

theorem balanced_of_encodeMember {m : Member H} {enc : m.type.Carrier → Bytes} (hs : Puts m s enc)
    (h : encodeMember p s x buf pos = (.ok pos', out)) : Balanced m s enc x := by
  have hsized : s.sizeOf.isSome := by
    unfold encodeMember at h
    split at h
    · cases h
    · next hsize => exact isSome_of_memberSize hsize
  obtain ⟨mid, start, -, -, ⟨w, hw, hrun⟩, -⟩ := encodeMember_inv h
  obtain ⟨-, -, hmeasured⟩ := (hs.write w hw).of_run_eq_some hrun
  exact ⟨hs, Option.isSome_of_mem hw, hsized, hmeasured⟩

/-- In an instance that was written every member measures what it takes. -/
theorem balanced_of_encode {enc : MemberEncoding H} {members : List (Member H)}
    (hs : List.Forall₂ (fun m s => Puts m s (enc m)) members sets)
    (h : encode p x sets buf pos = (.ok pos', out)) :
    List.Forall₂ (fun m s => Balanced m s (enc m) x) members sets := by
  induction hs generalizing buf pos with
  | nil => exact .nil
  | @cons m s rest sets hm _ ih =>
    unfold encode at h
    split at h
    · cases h
    next mid out' hmember => exact .cons (balanced_of_encodeMember hm hmember) (ih h)

theorem exactSize_of_balanced {enc : MemberEncoding H} {members : List (Member H)}
    (hs : List.Forall₂ (fun m s => Balanced m s (enc m) x) members sets)
    (hcounted : (message p enc members x).length < 2 ^ 64) :
    exactSize p sets x = (message p enc members x).length := by
  induction hs with
  | nil => rfl
  | @cons m s rest sets hm _ ih =>
    rw [message_cons, List.length_append] at hcounted ⊢
    have hframe : exactMember p x s = (m.frame p enc x).length := by
      have hbody : (m.body (enc m) x).length < 2 ^ 64 := by
        rw [Member.frame, p.length_frame] at hcounted
        omega
      rw [exactMember, hm.measured, UInt64.toNat_ofNat_of_lt' hbody, hm.length, Member.frame, p.length_frame]
    rw [exactSize_cons, ih (by omega), hframe]

end Layout

namespace Serializer

variable {F : HostFamily} {s : Serializer F} {h : F.Host} {members : List (Member (F.Instance h))}
  {t : Shared (Table (F.Instance h))}

/-! ### Operations on a table -/

theorem sizeOf_of_table (ht : (s.table h members).1 = .ok t) (x : F.Instance h) :
    (s.sizeOf h members x).1 = Layout.measure s.config.lengthPrefix (t.value.sets.map (·.value)) x := by
  rw [sizeOf, withTable_fst, ht]

theorem serialize_of_table (ht : (s.table h members).1 = .ok t) (x : F.Instance h) :
    (s.serialize h members x).1 = serializeWith s.config x (t.value.sets.map (·.value)) := by
  rw [serialize, withTable_fst, ht]

theorem serializeInto_of_table (ht : (s.table h members).1 = .ok t) (x : F.Instance h) (buf : Bytes)
    (offset : UInt64) :
    (s.serializeInto h members x buf offset).1 =
      serializeIntoWith s.config x buf offset (t.value.sets.map (·.value)) := by
  rw [serializeInto, withTable_fst, ht]

/-- Whatever a serializer was called for, each accessor set of a table was compiled from some member with the key of
the one declared. -/
theorem mirrors_inUse {locate : Locator F} {r : Registry} {config : MessageConfig} {calls : List (Call F)}
    {t : Shared (Table (F.Instance h))} (ht : ((inUse locate r config calls).table h (locate h)).1 = .ok t) :
    Mirrors r (F.name h) (fun _ => True) (locate h) t.value.sets := by
  have hcalls : ∀ call ∈ calls, call.Within fun _ _ => True := by
    intro call _
    cases call <;> trivial
  have hsound : (inUse locate r config calls).cache.Sound locate fun _ _ => True :=
    sound_inUse r config (by simp) hcalls
  have hmirrors := mirrors_of_table hsound (by simp) ht
  rwa [registry_inUse] at hmirrors

theorem declared_of_table {locate : Locator F} {r : Registry} {config : MessageConfig} {calls : List (Call F)}
    {t : Shared (Table (F.Instance h))} (ht : ((inUse locate r config calls).table h (locate h)).1 = .ok t) :
    (t.value.sets.map (·.value)).map (fun s => (s.member, s.length)) =
      (locate h).map fun m => (m.name, m.codec.length) := by
  rw [List.map_map, eq_comm, ← List.forall₂_eq_eq_eq, List.forall₂_map_left_iff, List.forall₂_map_right_iff]
  refine (mirrors_inUse ht).compiledFor.imp fun m s hfor => ?_
  obtain ⟨m', -, hkey, hcompile⟩ := hfor
  have hb := Member.binds_of_compile hcompile
  have hname : m'.name = m.name := congrArg Key.member hkey
  have hcodec : m'.codec = m.codec := congrArg Key.codec hkey
  rw [Function.comp_apply, hb.member, hb.length, hname, hcodec]

theorem names_of_table {locate : Locator F} {r : Registry} {config : MessageConfig} {calls : List (Call F)}
    {t : Shared (Table (F.Instance h))} (ht : ((inUse locate r config calls).table h (locate h)).1 = .ok t) :
    (t.value.sets.map (·.value)).map (·.member) = (locate h).map (·.name) := by
  simpa only [List.map_map, Function.comp_def] using congrArg (List.map Prod.fst) (declared_of_table ht)

/-! ### The limit -/

section Limit

variable {H : Type} {config : MessageConfig} {sets : List (AccessorSet H)} {x : H}

theorem measureChecked_le {total : UInt64} (h : measureChecked config sets x = .ok total) :
    total.toNat ≤ config.maxSize.toNat := by
  obtain ⟨total', -, h⟩ := bind_eq_ok_iff.1 h
  split at h
  · cases h
  · next hmax =>
    cases h
    exact UInt64.le_iff_toNat_le.1 (UInt64.not_lt.1 hmax)

theorem serializeWith_inv {b : Bytes} (h : serializeWith config x sets = .ok b) :
    ∃ total pos, measureChecked config sets x = .ok total ∧ total.toNat < 2 ^ 63 ∧
      Layout.encode config.lengthPrefix x sets (List.replicate total.toNat 0) 0 = (.ok pos, b) ∧
      b.length = total.toNat := by
  unfold serializeWith at h
  split at h
  · cases h
  next total hchecked =>
  split at h
  · cases h
  next hroom =>
  have hlength := Layout.length_encode config.lengthPrefix x sets (List.replicate total.toNat 0) 0
  rw [List.length_replicate] at hlength
  split at h
  · cases h
  next pos out hencode =>
    cases h
    rw [hencode] at hlength
    exact ⟨total, pos, hchecked, Nat.lt_of_not_le hroom, hencode, hlength⟩

/-- An instance written into a buffer was measured, is allowed, and had room. The result is what was measured. -/
theorem serializeIntoWith_inv {buf out : Bytes} {offset n : UInt64}
    (h : serializeIntoWith config x buf offset sets = (.ok n, out)) :
    measureChecked config sets x = .ok n ∧ n.toNat ≤ Layout.available buf offset ∧
      ∃ pos, Layout.encode config.lengthPrefix x sets buf offset = (.ok pos, out) := by
  unfold serializeIntoWith at h
  split at h
  · cases h
  next total hchecked =>
  dsimp only at h
  split at h
  · cases h
  next hroom =>
  split at h
  · cases h
  next pos out' hencode =>
    have hsize : pos - offset = total := Layout.sub_of_encode (measureChecked_eq_ok hchecked) hencode
    cases h
    rw [hsize]
    exact ⟨hchecked, Nat.le_of_not_lt hroom, pos, hencode⟩

/-- A serialized instance is its message if its writers keep to the encoding, whatever its members measured. -/
theorem serializeWith_placed {enc : MemberEncoding H} {members : List (Member H)} {b : Bytes}
    (hs : List.Forall₂ (fun m s => Layout.Puts m s (enc m)) members sets) (h : serializeWith config x sets = .ok b) :
    b = Layout.message config.lengthPrefix enc members x ∧ (∀ m ∈ members, m.Fits config.lengthPrefix enc x) ∧
      List.Forall₂ (fun m s => Layout.Balanced m s (enc m) x) members sets := by
  obtain ⟨total, pos, hchecked, hroom, hencode, hlength⟩ := serializeWith_inv h
  have hown : (List.replicate total.toNat (0 : UInt8)).length = total.toNat := List.length_replicate
  obtain ⟨hplaced, hfits⟩ := Layout.encode_eq_ok hs (by simp) (by omega) hencode
  refine ⟨?_, hfits, Layout.balanced_of_encode hs hencode⟩
  -- the position moves on by what was measured in all, and by the length of the message
  have hposition : pos = total := by
    rw [← Layout.sub_of_encode (measureChecked_eq_ok hchecked) hencode, UInt64.sub_zero]
  have hfull := hplaced.position
  rw [hposition, UInt64.toNat_zero, Nat.zero_add] at hfull
  rw [hplaced.buffer]
  exact Bytes.overwrite_all (by rw [hown, hfull])

theorem serializeWith_eq {total : UInt64} (hchecked : measureChecked config sets x = .ok total)
    (hroom : total.toNat < 2 ^ 63) :
    serializeWith config x sets =
      (Layout.encode config.lengthPrefix x sets (List.replicate total.toNat 0) 0).1.map fun _ =>
        (Layout.encode config.lengthPrefix x sets (List.replicate total.toNat 0) 0).2 := by
  rw [serializeWith, hchecked]
  dsimp only
  rw [if_neg (by omega)]
  split
  · next heq =>
    rw [heq]
    rfl
  · next heq =>
    rw [heq]
    rfl

theorem serializeIntoWith_eq {total offset : UInt64} {buf : Bytes} (hchecked : measureChecked config sets x = .ok total)
    (hroom : total.toNat ≤ Layout.available buf offset) :
    serializeIntoWith config x buf offset sets =
      ((Layout.encode config.lengthPrefix x sets buf offset).1.map (· - offset),
        (Layout.encode config.lengthPrefix x sets buf offset).2) := by
  rw [serializeIntoWith, hchecked]
  dsimp only
  rw [if_neg (Nat.not_lt_of_le hroom)]
  split
  · next heq =>
    rw [heq]
    rfl
  · next heq =>
    rw [heq]
    rfl

end Limit

/-- The limit cannot be bypassed, whatever sizes the codecs report. Where an instance can be measured, the result is the
exact sum of what its members measure and of the widths of the lengths in front of them. Where it is serialized, this sum
is allowed, and it is the number of bytes reported. -/
theorem size_within_limit (s : Serializer F) (h : F.Host) (members : List (Member (F.Instance h)))
    (t : Shared (Table (F.Instance h))) (ht : (s.table h members).1 = .ok t) (x : F.Instance h) :
    let sets := t.value.sets.map (·.value)
    let exact := Layout.exactSize s.config.lengthPrefix sets x
    (∀ n, (s.sizeOf h members x).1 = .ok n → n.toNat = exact) ∧
      (∀ b, (s.serialize h members x).1 = .ok b → b.length = exact ∧ exact ≤ s.config.maxSize.toNat) ∧
      ∀ buf offset n, (s.serializeInto h members x buf offset).1.1 = .ok n →
        n.toNat = exact ∧ exact ≤ s.config.maxSize.toNat := by
  intro sets exact
  have hexact : ∀ total, measureChecked s.config sets x = .ok total →
      total.toNat = exact ∧ exact ≤ s.config.maxSize.toNat := by
    intro total hchecked
    have htotal : total.toNat = exact := (Layout.measure_eq_ok_iff.1 (measureChecked_eq_ok hchecked)).2
    exact ⟨htotal, htotal ▸ measureChecked_le hchecked⟩
  refine ⟨fun n hn => ?_, fun b hb => ?_, fun buf offset n hn => ?_⟩
  · rw [sizeOf_of_table ht] at hn
    exact (Layout.measure_eq_ok_iff.1 hn).2
  · rw [serialize_of_table ht] at hb
    obtain ⟨total, pos, hchecked, -, -, hlength⟩ := serializeWith_inv hb
    rw [hlength]
    exact hexact total hchecked
  · rw [serializeInto_of_table ht] at hn
    obtain ⟨hchecked, -⟩ := serializeIntoWith_inv (Prod.ext hn rfl)
    exact hexact n hchecked

end Serializer

namespace Visit

theorem lawful_members : ∀ m ∈ members, LawfulMember (Registry.builtin ⟨.big, true⟩) (Builtin.encoding .big) m :=
  fun m hm => (ofFamily_members m hm).matched.lawful

theorem writes_of_table {t : Shared (Table Visit)} (ht : (serializer.table () members).1 = .ok t) :
    List.Forall₂ (fun m s => Layout.Writes m s (Builtin.encoding .big m)) members (t.value.sets.map (·.value)) := by
  have hcalls : ∀ call ∈ [Call.serialize (F := family) () sample], call.Genuine (fun _ => members) :=
    List.forall_mem_singleton.2 trivial
  exact (Serializer.compiled_of_table hcalls ht).2.imp fun m hm s hs =>
    Layout.writes_of_binds (Member.binds_of_compile hs) (lawful_members m hm)

/-- The exact size of a visit is that of its message. -/
theorem size_within_limit_sample :
    ∃ t, (serializer.table () members).1 = .ok t ∧
      bytes.length = Layout.exactSize .u16 (t.value.sets.map (·.value)) sample ∧
      Layout.exactSize .u16 (t.value.sets.map (·.value)) sample ≤ serializer.config.maxSize.toNat := by
  have hb : (serializer.serialize () members sample).1 = .ok bytes := by decide +kernel
  obtain ⟨t, ht, -⟩ := Serializer.serialize_eq_ok hb
  obtain ⟨-, hserialized, -⟩ := Serializer.size_within_limit serializer () members t ht sample
  exact ⟨t, ht, hserialized bytes hb⟩

end Visit

/-- A strip of two numbers that is folded between them. -/
structure Strip where
  front : BitVec 64 := 0
  fold : Bool := false
  back : BitVec 64 := 0

namespace Strip

def family : HostFamily where
  Host := Unit
  decEq := inferInstance
  name _ := "Strip"
  Instance _ := Strip
  default _ := {}

/-- The fold has a codec of its own. -/
def foldMember : Member Strip :=
  ((Member.field "fold" .bool (fun x : Strip => x.fold) fun x v => { x with fold := v }).withWriter "Fold").withSizeOf
    "Fold"

def members : List (Member Strip) :=
  [.field "front" (.scalar .u64) (fun x : Strip => x.front) fun x v => { x with front := v }, foldMember,
   .field "back" (.scalar .u64) (fun x : Strip => x.back) fun x v => { x with back := v }]

/-- The built-in codecs with one of folds, which always measures, stores and reports the same. -/
def registry (measured reported : UInt64) (stored : Bytes) : Registry :=
  ((Registry.builtin {}).push ⟨.bool, .sizeOf, "Fold", Custom.constant .bool measured [] false .sizeOf⟩).push
    ⟨.bool, .write, "Fold", Custom.constant .bool reported stored false .write⟩

/-- If a fold claims all but four of `2 ^ 64` bytes, a strip is of `2 ^ 64 + 12` bytes. It is not taken for one of
twelve. -/
example :
    let s := Serializer.inUse (F := family) (fun _ => members) (registry (0 - 4) (0 - 4) []) ⟨.u32, 100⟩ []
    (s.table () members).1.map (fun t =>
        Layout.exactSize .u32 (t.value.sets.map (·.value)) { front := 1, back := 2 }) = .ok (2 ^ 64 + 12) ∧
      (s.sizeOf () members { front := 1, back := 2 }).1 = Outcome.fault ∧
      (s.serialize () members { front := 1, back := 2 }).1 = Outcome.fault := by
  intro s
  exact ⟨by decide +kernel, by decide +kernel, by decide +kernel⟩

end Strip

end Memberwise
