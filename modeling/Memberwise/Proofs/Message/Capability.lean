import Memberwise.Proofs.Accessor.BuildOnce
import Memberwise.Proofs.Message.Refusal

/-!
# Capabilities survive compilation

What a member is capable of shows in its getter and setter, in the operations that it is bound to, and in the key that its
accessor set is cached under. All of them agree (`AccessorSet.TrueTo`), whether the set was compiled for this member or for
another one of the same key. So a table admits exactly what its members admit (`Cache.BuiltFor.require_eq`).

A set that can be both read and assigned has whatever messages call for (`AccessorSet.Equipped`), and no accessor is
missed when a message of such sets is measured, written or read.
-/

namespace Memberwise

/-- The accessor set goes by the name of the member, has its capabilities, and can be measured if it can be written. -/
structure AccessorSet.TrueTo {H : Type} (s : AccessorSet H) (m : Member H) : Prop where
  member : s.member = m.name
  readable : s.isReadable = m.isReadable
  writable : s.isWritable = m.isWritable
  sized : s.has .sizeOf = s.has .write

/-- The accessor set has its writer and its measure, and the reader of its length mode. -/
structure AccessorSet.Equipped {H : Type} (s : AccessorSet H) : Prop where
  written : s.write.isSome
  sized : s.sizeOf.isSome
  assigned : s.isWritable

/-! ### Accessor sets -/

section Sets

variable {H : Type} {m : Member H} {s : AccessorSet H} {r : Registry} {host : String}

theorem Member.Binds.trueTo (h : m.Binds r s) : s.TrueTo m := by
  obtain ⟨hread, hwrite⟩ := h.capability
  have hsized : s.sizeOf.isSome ↔ s.write.isSome :=
    ⟨h.paired, fun hwritten => h.sized (hread.symm.trans (s.has_write.trans hwritten))⟩
  exact ⟨h.member, hread, hwrite, by rw [s.has_sizeOf, s.has_write, Bool.eq_iff_iff, hsized]⟩

/-- A key fixes the name and the capabilities. -/
theorem CompiledFor.trueTo {origin : Member H → Prop} (h : CompiledFor r host origin m.key s) : s.TrueTo m := by
  obtain ⟨m', -, hkey, hcompile⟩ := h
  have htrue : s.TrueTo m' := (Member.binds_of_compile hcompile).trueTo
  exact ⟨htrue.member.trans (congrArg Key.member hkey), htrue.readable.trans (congrArg Key.readable hkey),
    htrue.writable.trans (congrArg Key.writable hkey), htrue.sized⟩

theorem AccessorSet.TrueTo.require_eq (h : s.TrueTo m) (host : String) (access : Access) :
    s.require host access = m.require host access := by
  rw [AccessorSet.require, Member.require, h.member, h.readable, h.writable]

theorem AccessorSet.TrueTo.equipped (h : s.TrueTo m) (hrequire : s.require host .readWrite = .ok ()) : s.Equipped := by
  obtain ⟨hread, hwrite⟩ := Access.check_readWrite.1 hrequire
  have hwritten : s.has .write := hread
  exact ⟨s.has_write ▸ hwritten, s.has_sizeOf ▸ h.sized ▸ hwritten, hwrite⟩

end Sets

/-! ### Tables -/

namespace Cache

variable {F : HostFamily} {r : Registry} {requests : List (Request F)} {h : F.Host}
  {members : List (Member (F.Instance h))} {t : Shared (Table (F.Instance h))}

/-- What was given out for a member is true to it. -/
theorem GivenOut.trueTo {m : Member (F.Instance h)} {s : Shared (AccessorSet (F.Instance h))}
    (hs : GivenOut r requests h m.key s) : s.value.TrueTo m :=
  ((sourced_inUse r requests).find? hs.find?).trueTo

theorem BuiltFor.trueTo (ht : BuiltFor r requests h members t) :
    List.Forall₂ (fun m s => s.value.TrueTo m) members t.value.sets :=
  ht.find?.imp fun _ _ hs => ((sourced_inUse r requests).find? hs).trueTo

/-- A table admits what all of its members admit, and is refused as the first of them that is refused. -/
theorem BuiltFor.require_eq (ht : BuiltFor r requests h members t) (host : String) (access : Access) :
    t.value.require host access = members.forM (·.require host access) := by
  have htrue := ht.trueTo
  clear ht
  unfold Table.require
  generalize t.value.sets = sets at htrue ⊢
  induction htrue with
  | nil => rfl
  | cons hs _ ih => exact congrArg₂ (fun first rest => first >>= fun _ => rest) (hs.require_eq host access) ih

theorem BuiltFor.equipped (ht : BuiltFor r requests h members t)
    (hrequire : t.value.require (F.name h) .readWrite = .ok ()) : ∀ s ∈ t.value.sets, s.value.Equipped := by
  intro s hs
  have hall := forM_eq_ok_iff.1 hrequire
  obtain ⟨m, -, htrue⟩ := exists_of_forall₂ ht.trueTo hs
  exact htrue.equipped (hall s hs)

end Cache

/-! ### Messages -/

namespace Layout

variable {H : Type} {s : AccessorSet H} {sets : List (AccessorSet H)} (p : LengthPrefix) (member : String)
  (kind : OperationKind)

theorem measure_ne_missing (hsets : ∀ s ∈ sets, s.Equipped) (x : H) :
    measure p sets x ≠ Outcome.fail (.missingAccessor member kind) := by
  rw [measure_eq, findSome?_obstacle? fun s hs => (hsets s hs).sized]
  split
  · cases hoverflow : sets.findSome? (overflow? p x) with
    | none => simp [Outcome.fail]
    | some e =>
      rintro ⟨⟩
      obtain ⟨s, -, hs⟩ := List.exists_of_findSome?_eq_some hoverflow
      unfold overflow? at hs
      split at hs <;> cases hs
  · simp [Outcome.fail, Outcome.fault]

theorem decodeMember_ne_missing (hs : s.Equipped) (least x : H) (buf : Bytes) (pos : UInt64) :
    (decodeMember p s least x buf pos).1 ≠ Outcome.fail (.missingAccessor member kind) := by
  have hassigned := hs.assigned
  unfold decodeMember
  unfold AccessorSet.isWritable at hassigned
  -- either way the reader called for is there, and what else can happen is a cut or a fault
  cases hmode : s.length with
  | implicit =>
    rw [hmode] at hassigned
    obtain ⟨read, hread⟩ := Option.isSome_iff_exists.1 (s.has_readScalar ▸ hassigned)
    simp only [decodeImplicit, memberSize_of_sized hs.sized, hread]
    split
    · simp [Outcome.fail]
    split
    · simp [Outcome.fail, Outcome.fault]
    split <;> simp [Outcome.fail]
  | prefixed =>
    rw [hmode] at hassigned
    obtain ⟨read, hread⟩ := Option.isSome_iff_exists.1 (s.has_readBounded ▸ hassigned)
    simp only [decodePrefixed, hread]
    split
    · simp [Outcome.fail]
    split
    · simp [Outcome.fail]
    split <;> simp [Outcome.fail, Outcome.fault]

theorem decode_ne_missing (hsets : ∀ s ∈ sets, s.Equipped) (least x : H) (buf : Bytes) (pos : UInt64) :
    (decode p least sets x buf pos).1 ≠ Outcome.fail (.missingAccessor member kind) := by
  induction sets generalizing x pos with
  | nil => simp [decode, Outcome.fail]
  | cons s rest ih =>
    obtain ⟨hs, hrest⟩ := List.forall_mem_cons.1 hsets
    rw [decode]
    split
    · next heq => simpa [heq] using decodeMember_ne_missing p member kind hs least x buf pos
    · exact ih hrest _ _

end Layout

namespace Serializer

section Operations

variable {H : Type} {config : MessageConfig} {sets : List (AccessorSet H)} (member : String) (kind : OperationKind)

theorem measureChecked_ne_missing (hsets : ∀ s ∈ sets, s.Equipped) (x : H) :
    measureChecked config sets x ≠ Outcome.fail (.missingAccessor member kind) := by
  unfold measureChecked
  cases hmeasure : Layout.measure config.lengthPrefix sets x with
  | error e =>
    rintro ⟨⟩
    exact Layout.measure_ne_missing config.lengthPrefix member kind hsets x hmeasure
  | ok total =>
    change (if _ then _ else _) ≠ _
    split <;> simp [Outcome.fail, pure, Except.pure]

theorem encode_ne_missing (hsets : ∀ s ∈ sets, s.Equipped) {x : H} {total : UInt64}
    (hchecked : measureChecked config sets x = .ok total) (buf : Bytes) (pos : UInt64) :
    (Layout.encode config.lengthPrefix x sets buf pos).1 ≠ Outcome.fail (.missingAccessor member kind) := by
  intro he
  -- after measuring, only a report that is not as measured stops the writing
  have hpaired : ∀ s ∈ sets, s.Paired := fun s hs _ => (hsets s hs).written
  obtain ⟨member, measured, written, heq⟩ :=
    Report.eq_sizeMismatch (Layout.mismatch_of_encode (unobstructed_of_checked hpaired hchecked) he)
  cases heq

theorem serializeWith_ne_missing (hsets : ∀ s ∈ sets, s.Equipped) (x : H) :
    serializeWith config x sets ≠ Outcome.fail (.missingAccessor member kind) := by
  unfold serializeWith
  split
  · next e hchecked =>
    rintro ⟨⟩
    exact measureChecked_ne_missing member kind hsets x hchecked
  next total hchecked =>
  split
  · simp [Outcome.fail, Outcome.fault]
  split
  · next heq =>
    simpa [heq, Outcome.fail] using encode_ne_missing member kind hsets hchecked (List.replicate total.toNat 0) 0
  · simp [Outcome.fail]

theorem serializeIntoWith_ne_missing (hsets : ∀ s ∈ sets, s.Equipped) (x : H) (buf : Bytes) (offset : UInt64) :
    (serializeIntoWith config x buf offset sets).1 ≠ Outcome.fail (.missingAccessor member kind) := by
  unfold serializeIntoWith
  split
  · next e hchecked =>
    rintro ⟨⟩
    exact measureChecked_ne_missing member kind hsets x hchecked
  next total hchecked =>
  dsimp only
  split
  · simp [Outcome.fail]
  split
  · next heq => simpa [heq] using encode_ne_missing member kind hsets hchecked buf offset
  · simp [Outcome.fail]

theorem deserializeIntoWith_ne_missing (hsets : ∀ s ∈ sets, s.Equipped) (least x : H) (buf : Bytes)
    (offset : UInt64) :
    (deserializeIntoWith config least x buf offset sets).1 ≠ Outcome.fail (.missingAccessor member kind) := by
  unfold deserializeIntoWith
  split
  · next heq =>
    simpa [heq] using Layout.decode_ne_missing config.lengthPrefix member kind hsets least x buf offset
  · simp [Outcome.fail]

end Operations

variable {F : HostFamily} {r : Registry} {requests : List (Request F)} {s : Serializer F} {h : F.Host}
  {members : List (Member (F.Instance h))}

/-- An operation on a host type runs on equipped sets, if it is not refused for want of a table. -/
def Ready (s : Serializer F) (h : F.Host) (members : List (Member (F.Instance h))) : Prop :=
  ∀ t, (s.table h members).1 = .ok t → ∀ set ∈ t.value.sets.map (·.value), set.Equipped

theorem ready_of_require (hs : s.cache = Cache.inUse r requests)
    (hrequire : ∀ t, s.cache.table? h = some t → t.value.require (F.name h) .readWrite = .ok ())
    (members : List (Member (F.Instance h))) : s.Ready h members := by
  intro t ht
  have hshared : ∀ set ∈ t.value.sets, set.value.Equipped := by
    rcases table_eq s h members with ⟨e, heq⟩ | ⟨hchecked, heq⟩
    · rw [heq] at ht
      cases ht
    rw [heq] at ht
    cases hpublished : s.cache.table? h with
    | some t' =>
      rw [Cache.table_of_table? hpublished] at ht
      cases ht
      obtain ⟨members', hbuilt⟩ := Cache.exists_builtFor (hs ▸ hpublished)
      exact hbuilt.equipped (hrequire t hpublished)
    | none =>
      -- the table is built now, and the members were looked at before
      have hall : ∀ m ∈ members, m.isReadable ∧ m.isWritable :=
        hchecked.resolve_left (Bool.eq_false_iff.1 (Cache.hasTable_eq_false.2 hpublished))
      rw [hs] at hpublished ht
      have hbuilt : Cache.BuiltFor r (requests ++ [.table h members]) h members t :=
        ⟨requests, List.prefix_rfl, hpublished, ht⟩
      refine hbuilt.equipped ?_
      rw [hbuilt.require_eq]
      exact forM_require_readWrite.2 hall
  intro set hset
  obtain ⟨shared, hmem, rfl⟩ := List.mem_map.1 hset
  exact hshared shared hmem

section Ready

variable (hready : s.Ready h members) (x : F.Instance h) (buf : Bytes) (offset : UInt64) (member : String)
  (kind : OperationKind)

include hready

theorem sizeOf_ne_missing : (s.sizeOf h members x).1 ≠ Outcome.fail (.missingAccessor member kind) := by
  rw [sizeOf, withTable_fst]
  cases htable : (s.table h members).1 with
  | error e => simp [Outcome.fail]
  | ok t => exact Layout.measure_ne_missing s.config.lengthPrefix member kind (hready t htable) x

theorem serialize_ne_missing : (s.serialize h members x).1 ≠ Outcome.fail (.missingAccessor member kind) := by
  rw [serialize, withTable_fst]
  cases htable : (s.table h members).1 with
  | error e => simp [Outcome.fail]
  | ok t => exact serializeWith_ne_missing member kind (hready t htable) x

theorem serializeInto_ne_missing :
    (s.serializeInto h members x buf offset).1.1 ≠ Outcome.fail (.missingAccessor member kind) := by
  rw [serializeInto, withTable_fst]
  cases htable : (s.table h members).1 with
  | error e => simp [Outcome.fail]
  | ok t => exact serializeIntoWith_ne_missing member kind (hready t htable) x buf offset

theorem deserializeInto_ne_missing :
    (s.deserializeInto h members x buf offset).1.1 ≠ Outcome.fail (.missingAccessor member kind) := by
  rw [deserializeInto, withTable_fst]
  cases htable : (s.table h members).1 with
  | error e => simp [Outcome.fail]
  | ok t => exact deserializeIntoWith_ne_missing member kind (hready t htable) (F.default h) x buf offset

theorem deserialize_ne_missing : (s.deserialize h members buf).1 ≠ Outcome.fail (.missingAccessor member kind) := by
  have hinto := deserializeInto_ne_missing hready (F.default h) buf 0 member kind
  cases hresult : (s.deserializeInto h members (F.default h) buf 0).1 with
  | mk result y =>
  rw [hresult] at hinto
  rw [deserialize_fst hresult]
  cases result with
  | error e => simpa [Except.map, Outcome.fail] using hinto
  | ok n => simp [Except.map, Outcome.fail]

end Ready

/-- Capabilities survive compilation.

Over any registry, an accessor set has the capabilities of its member, and can be measured exactly if it can be written;
this holds of what the member compiles to, and of what a cache gives out for it after any requests. A published table was
built for some members, and is required to be readable or assignable with the result of the first of these members that
fails, if any. Where the table of a host type admits both, or there is none yet, no operation on its messages ever misses
an accessor, whatever the host type declares by then, and for every instance, buffer and offset. -/
theorem capabilities_survive (r : Registry) (requests : List (Request F)) (config : MessageConfig) (h : F.Host) :
    let s : Serializer F := ⟨Cache.inUse r requests, config⟩
    (∀ (m : Member (F.Instance h)) host type set,
      m.compile r host = .ok set ∨ m.compileAs r host type = .ok set → set.TrueTo m) ∧
      (∀ (m : Member (F.Instance h)) set, Cache.GivenOut r requests h m.key set → set.value.TrueTo m) ∧
      (∀ t, s.cache.table? h = some t → ∃ members, Cache.BuiltFor r requests h members t) ∧
      (∀ members t, Cache.BuiltFor r requests h members t → ∀ access,
        (t.value.require (F.name h) access =
          match members.find? fun m => !(m.require (F.name h) access).isOk with
          | some m => m.require (F.name h) access
          | none => .ok ()) ∧
        (t.value.require (F.name h) access = .ok () ↔ ∀ m ∈ members, m.require (F.name h) access = .ok ())) ∧
      ((∀ t, s.cache.table? h = some t → t.value.require (F.name h) .readWrite = .ok ()) →
        ∀ members x buf offset member kind,
          (s.sizeOf h members x).1 ≠ Outcome.fail (.missingAccessor member kind) ∧
          (s.serialize h members x).1 ≠ Outcome.fail (.missingAccessor member kind) ∧
          (s.serializeInto h members x buf offset).1.1 ≠ Outcome.fail (.missingAccessor member kind) ∧
          (s.deserializeInto h members x buf offset).1.1 ≠ Outcome.fail (.missingAccessor member kind) ∧
          (s.deserialize h members buf).1 ≠ Outcome.fail (.missingAccessor member kind)) := by
  intro s
  refine ⟨fun m host type set hset => ?_, fun m set hset => hset.trueTo, fun t => Cache.exists_builtFor,
    fun members t ht access => ?_, fun hrequire members x buf offset member kind => ?_⟩
  · have hcompile : m.compile r host = .ok set := by
      rcases hset with hset | hset
      · exact hset
      · unfold Member.compileAs at hset
        split at hset
        · exact hset
        · cases hset
    exact (Member.binds_of_compile hcompile).trueTo
  · rw [ht.require_eq]
    refine ⟨?_, forM_eq_ok_iff⟩
    rw [forM_eq_find?]
    cases members.find? fun m => !(m.require (F.name h) access).isOk <;> rfl
  · have hready : s.Ready h members := ready_of_require rfl hrequire members
    exact ⟨sizeOf_ne_missing hready x member kind, serialize_ne_missing hready x member kind,
      serializeInto_ne_missing hready x buf offset member kind,
      deserializeInto_ne_missing hready x buf offset member kind, deserialize_ne_missing hready buf member kind⟩

end Serializer

namespace Visit

/-- With a table that was asked for and admits both, no accessor is missed when a visit is read. -/
theorem capabilities_survive_members :
    let s : Serializer family := ⟨Cache.inUse (Registry.builtin ⟨.big, true⟩) [.table () members], ⟨.u16, 100⟩⟩
    (s.cache.table? ()).map (·.value.require "Visit" .readWrite) = some (.ok ()) ∧
      ∀ buf member kind, (s.deserialize () members buf).1 ≠ Outcome.fail (.missingAccessor member kind) := by
  intro s
  have htable : (s.cache.table? ()).map (·.value.require "Visit" .readWrite) = some (.ok ()) := by decide +kernel
  obtain ⟨-, -, -, -, hfound⟩ :=
    Serializer.capabilities_survive (F := family) (Registry.builtin ⟨.big, true⟩) [.table () members] ⟨.u16, 100⟩ ()
  have hrequire : ∀ t, s.cache.table? () = some t → t.value.require "Visit" .readWrite = .ok () := by
    intro t ht
    rw [ht] at htable
    exact Option.some.inj htable
  exact ⟨htable, fun buf member kind => (hfound hrequire members sample buf 0 member kind).2.2.2.2⟩

/-- Where the table admits no assigning, the reader is missed. -/
example :
    let shown : List (Member Visit) := [.readOnlyField "shown" .bool fun x : Visit => x.shown]
    let s : Serializer family := ⟨Cache.inUse (Registry.builtin ⟨.big, true⟩) [.table () shown], ⟨.u16, 100⟩⟩
    (s.cache.table? ()).map (·.value.require "Visit" .readWrite) = some (.error (.notWritable "Visit" "shown")) ∧
      (s.deserializeInto () shown sample [1] 0).1.1 = Outcome.fail (.missingAccessor "shown" .readScalar) := by
  intro shown s
  exact ⟨by decide +kernel, by decide +kernel⟩

end Visit

end Memberwise
