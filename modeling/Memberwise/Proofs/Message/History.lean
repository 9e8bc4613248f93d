import Memberwise.Message.Serializer
import Memberwise.Proofs.Accessor.Published

/-!
# Serializers in use

A serializer starts with nothing compiled and is then called, any number of times and in any order, for any host
types (`Serializer.inUse`). Its registry and settings stay what they were, and its cache stays sound
(`Serializer.sound_inUse`).

So whatever was called before, the table that an operation runs on mirrors the declared members
(`Serializer.mirrors_of_table`), and there is one if these can be read and assigned, differ in name and compile
(`Serializer.exists_table`).
-/

namespace Memberwise

variable {F : HostFamily}

/-- A call of a serializer or of its cache, with its arguments. -/
inductive Call (F : HostFamily)
  | register (h : F.Host)
  | sizeOf (h : F.Host) (x : F.Instance h)
  | serialize (h : F.Host) (x : F.Instance h)
  | serializeInto (h : F.Host) (x : F.Instance h) (buf : Bytes) (offset : UInt64)
  | deserialize (h : F.Host) (buf : Bytes)
  | deserializeInto (h : F.Host) (x : F.Instance h) (buf : Bytes) (offset : UInt64)
  | cachedTable (h : F.Host)
  | getOrCompile (h : F.Host) (m : Member (F.Instance h))

/-- A single member that the call asks the cache to compile is of the given origin. -/
def Call.Within (origin : Origin F) : Call F → Prop
  | .getOrCompile h m => origin h m
  | _ => True

/-- The call does not ask the cache to compile a single member under the key of a declared one that it is not. Whatever is
called besides, the table of a host type then holds what the declared members compile to. -/
abbrev Call.Genuine (locate : Locator F) : Call F → Prop := Call.Within fun h => Member.Genuine (locate h)

namespace Serializer

variable {locate : Locator F} {origin : Origin F} {s : Serializer F} {h : F.Host}

/-- The serializer after a call. -/
def after (locate : Locator F) (s : Serializer F) : Call F → Serializer F
  | .register h => (s.register h (locate h)).2
  | .sizeOf h x => (s.sizeOf h (locate h) x).2
  | .serialize h x => (s.serialize h (locate h) x).2
  | .serializeInto h x buf offset => (s.serializeInto h (locate h) x buf offset).2
  | .deserialize h buf => (s.deserialize h (locate h) buf).2
  | .deserializeInto h x buf offset => (s.deserializeInto h (locate h) x buf offset).2
  | .cachedTable h => { s with cache := (s.cache.table h (locate h)).2 }
  | .getOrCompile h m => { s with cache := (s.cache.getOrCompile h m).2 }

/-- A serializer over a registry that has been called so far as listed. -/
def inUse (locate : Locator F) (r : Registry) (config : MessageConfig) (calls : List (Call F)) : Serializer F :=
  calls.foldl (after locate) (ofRegistry r config)

/-! ### One call -/

/-- Members can all be used for both exactly if they can all be read and assigned. -/
theorem forM_require_readWrite {H : Type} {host : String} {members : List (Member H)} :
    members.forM (·.require host .readWrite) = .ok () ↔ ∀ m ∈ members, m.isReadable ∧ m.isWritable := by
  simp only [forM_eq_ok_iff, Member.require, Access.check_readWrite]

/-- The cache is only asked for the table if it has one or all members can be read and assigned. -/
theorem table_eq (s : Serializer F) (h : F.Host) (members : List (Member (F.Instance h))) :
    (∃ e, s.table h members = (.error (.binding e), s)) ∨
      (s.cache.hasTable h ∨ ∀ m ∈ members, m.isReadable ∧ m.isWritable) ∧
        s.table h members = ((s.cache.table h members).1, { s with cache := (s.cache.table h members).2 }) := by
  unfold table
  split
  · next e _ => exact .inl ⟨e, rfl⟩
  next hcheck =>
  refine .inr ⟨?_, rfl⟩
  split at hcheck
  · next hhas => exact .inl hhas
  · exact .inr (forM_require_readWrite.1 hcheck)

theorem withTable_snd {α : Type} (s : Serializer F) (h : F.Host) (members : List (Member (F.Instance h)))
    (refuse : MessageError → α) (run : List (AccessorSet (F.Instance h)) → α) :
    (s.withTable h members refuse run).2 = (s.table h members).2 := by
  unfold withTable
  split
  · next heq => rw [heq]
  · next heq => rw [heq]

theorem deserialize_snd (s : Serializer F) (h : F.Host) (members : List (Member (F.Instance h))) (buf : Bytes) :
    (s.deserialize h members buf).2 = (s.table h members).2 := by
  rw [← withTable_snd s h members (fun e => (Outcome.fail e, F.default h))
    (deserializeIntoWith s.config (F.default h) (F.default h) buf 0)]
  unfold deserialize deserializeInto
  split
  · next heq => rw [heq]
  · next heq => rw [heq]

/-- A call leaves the serializer as it was, or with the cache that building a table or compiling a member leaves
behind. Only asking the cache itself builds a table without a look at what the members are capable of. -/
theorem after_cases (locate : Locator F) (s : Serializer F) (call : Call F) :
    after locate s call = s ∨
      (∃ h, (call = .cachedTable h ∨ s.cache.hasTable h ∨ ∀ m ∈ locate h, m.isReadable ∧ m.isWritable) ∧
        after locate s call = { s with cache := (s.cache.table h (locate h)).2 }) ∨
      ∃ h m, call = .getOrCompile h m ∧ after locate s call = { s with cache := (s.cache.getOrCompile h m).2 } := by
  have htable : ∀ h, (s.table h (locate h)).2 = s ∨
      ∃ h', (s.cache.hasTable h' ∨ ∀ m ∈ locate h', m.isReadable ∧ m.isWritable) ∧
        (s.table h (locate h)).2 = { s with cache := (s.cache.table h' (locate h')).2 } := by
    intro h
    rcases table_eq s h (locate h) with ⟨e, heq⟩ | ⟨hchecked, heq⟩
    · exact .inl (by rw [heq])
    · exact .inr ⟨h, hchecked, by rw [heq]⟩
  cases call with
  | getOrCompile h m => exact .inr (.inr ⟨h, m, rfl, rfl⟩)
  | cachedTable h => exact .inr (.inl ⟨h, .inl rfl, rfl⟩)
  | deserialize h buf =>
    have heq : after locate s (.deserialize h buf) = (s.table h (locate h)).2 := deserialize_snd ..
    rcases htable h with hs | ⟨h', hchecked, hs⟩
    · exact .inl (heq.trans hs)
    · exact .inr (.inl ⟨h', .inr hchecked, heq.trans hs⟩)
  | register h | sizeOf h | serialize h | serializeInto h | deserializeInto h =>
    rcases htable h with hs | ⟨h', hchecked, hs⟩
    · exact .inl ((withTable_snd ..).trans hs)
    · exact .inr (.inl ⟨h', .inr hchecked, (withTable_snd ..).trans hs⟩)

theorem config_after (s : Serializer F) (call : Call F) : (after locate s call).config = s.config := by
  rcases after_cases locate s call with heq | ⟨h, -, heq⟩ | ⟨h, m, -, heq⟩ <;> rw [heq]

theorem registry_after (s : Serializer F) (call : Call F) :
    (after locate s call).cache.registry = s.cache.registry := by
  rcases after_cases locate s call with heq | ⟨h, -, heq⟩ | ⟨h, m, -, heq⟩
  · rw [heq]
  · rw [heq, Cache.registry_table]
  · rw [heq, Cache.registry_getOrCompile]

theorem sound_after (horigin : ∀ h, ∀ m ∈ locate h, origin h m) (hs : s.cache.Sound locate origin) {call : Call F}
    (hcall : call.Within origin) : (after locate s call).cache.Sound locate origin := by
  rcases after_cases locate s call with heq | ⟨h, -, heq⟩ | ⟨h, m, rfl, heq⟩
  · rwa [heq]
  · rw [heq]
    exact hs.table (horigin h)
  · rw [heq]
    exact hs.getOrCompile hcall

/-! ### Any number of calls -/

/-- What holds of a fresh serializer and is kept by every call holds of one in use. -/
theorem inUse_induction {P : Serializer F → Prop} {r : Registry} {config : MessageConfig} {calls : List (Call F)}
    (hfresh : P (ofRegistry r config)) (hstep : ∀ s, P s → ∀ call ∈ calls, P (after locate s call)) :
    P (inUse locate r config calls) := by
  unfold inUse
  exact List.foldlRecOn calls (after locate) hfresh hstep

theorem config_inUse (r : Registry) (config : MessageConfig) (calls : List (Call F)) :
    (inUse locate r config calls).config = config := by
  apply inUse_induction (P := fun s => s.config = config) rfl
  intro s hs call _
  rw [config_after, hs]

theorem registry_inUse (r : Registry) (config : MessageConfig) (calls : List (Call F)) :
    (inUse locate r config calls).cache.registry = r := by
  apply inUse_induction (P := fun s => s.cache.registry = r) rfl
  intro s hs call _
  rw [registry_after, hs]

theorem sound_inUse (r : Registry) (config : MessageConfig) {calls : List (Call F)}
    (horigin : ∀ h, ∀ m ∈ locate h, origin h m) (hcalls : ∀ call ∈ calls, call.Within origin) :
    (inUse locate r config calls).cache.Sound locate origin := by
  apply inUse_induction (P := fun s => s.cache.Sound locate origin)
  · exact ⟨⟨fun e he => absurd he (by simp [ofRegistry])⟩, fun p hp => absurd hp (by simp [ofRegistry])⟩
  · intro s hs call hcall
    exact sound_after horigin hs (hcalls call hcall)

/-! ### What an operation runs on -/

/-- An operation on the accessor sets of a host type is refused if there is no table, and runs on those of the table
if there is one. -/
theorem withTable_fst {α : Type} (s : Serializer F) (h : F.Host) (members : List (Member (F.Instance h)))
    (refuse : MessageError → α) (run : List (AccessorSet (F.Instance h)) → α) :
    (s.withTable h members refuse run).1 =
      match (s.table h members).1 with
      | .error e => refuse (.compile e)
      | .ok t => run (t.value.sets.map (·.value)) := by
  unfold withTable
  split
  · next heq => rw [heq]
  · next heq => rw [heq]

theorem deserializeInto_of_table {members : List (Member (F.Instance h))} {t : Shared (Table (F.Instance h))}
    (ht : (s.table h members).1 = .ok t) (x : F.Instance h) (buf : Bytes) (offset : UInt64) :
    (s.deserializeInto h members x buf offset).1 =
      deserializeIntoWith s.config (F.default h) x buf offset (t.value.sets.map (·.value)) := by
  rw [deserializeInto, withTable_fst, ht]

theorem deserializeInto_fst {members : List (Member (F.Instance h))} {t : Shared (Table (F.Instance h))}
    (ht : (s.table h members).1 = .ok t) (x : F.Instance h) (buf : Bytes) (offset : UInt64) :
    (s.deserializeInto h members x buf offset).1.1 =
      (Layout.decode s.config.lengthPrefix (F.default h) (t.value.sets.map (·.value)) x buf offset).1.map
        (· - offset) := by
  rw [deserializeInto_of_table ht, deserializeIntoWith]
  split
  · next heq =>
    rw [heq]
    rfl
  · next heq =>
    rw [heq]
    rfl

theorem deserialize_fst {members : List (Member (F.Instance h))} {buf : Bytes} {result : Outcome UInt64}
    {y : F.Instance h} (hresult : (s.deserializeInto h members (F.default h) buf 0).1 = (result, y)) :
    (s.deserialize h members buf).1 = result.map fun _ => y := by
  unfold deserialize
  split
  · next heq =>
    rw [heq] at hresult
    cases hresult
    rfl
  · next heq =>
    rw [heq] at hresult
    cases hresult
    rfl

theorem mirrors_of_table (hs : s.cache.Sound locate origin) (horigin : ∀ m ∈ locate h, origin h m)
    {t : Shared (Table (F.Instance h))} (ht : (s.table h (locate h)).1 = .ok t) :
    Mirrors s.cache.registry (F.name h) (origin h) (locate h) t.value.sets := by
  rcases table_eq s h (locate h) with ⟨e, heq⟩ | ⟨-, heq⟩
  · rw [heq] at ht
    cases ht
  · rw [heq] at ht
    exact hs.mirrors horigin ht

/-- If no call has passed off a member for a declared one, the table holds what the declared members compile to. -/
theorem compiled_of_table {r : Registry} {config : MessageConfig} {calls : List (Call F)}
    (hcalls : ∀ call ∈ calls, call.Genuine locate) {t : Shared (Table (F.Instance h))}
    (ht : ((inUse locate r config calls).table h (locate h)).1 = .ok t) :
    ((locate h).map (·.name)).Nodup ∧ Compiled r (F.name h) (locate h) (t.value.sets.map (·.value)) := by
  have hsound := sound_inUse r config (fun _ _ hm => .inl hm) hcalls
  have hmirrors := mirrors_of_table hsound (fun _ hm => .inl hm) ht
  rw [registry_inUse] at hmirrors
  exact ⟨hmirrors.nodup, hmirrors.compiled⟩

/-- The table that was there for one operation is there for the next one. -/
theorem table_table (s : Serializer F) (h : F.Host) (members : List (Member (F.Instance h))) :
    ((s.table h members).2.table h members).1 = (s.table h members).1 := by
  rcases table_eq s h members with ⟨e, heq⟩ | ⟨-, heq⟩
  · rw [heq, heq]
  rcases s.cache.table_failed_or_published h members with ⟨e, hcache⟩ | ⟨t, hok, hpublished⟩
  · have hsame : (s.table h members).2 = s := by rw [heq, hcache]
    rw [hsame]
  · have hhas : (s.cache.table h members).2.hasTable h := Cache.isSome_table?.1 (Option.isSome_of_mem hpublished)
    have hagain : ((s.cache.table h members).2.table h members).1 = .ok t := by rw [Cache.table, hpublished]
    rw [heq, hok, table, if_pos hhas, ← hagain]

/-- There is a table if all members can be read and assigned, differ in name and compile. -/
theorem exists_table (haccess : ∀ m ∈ locate h, m.isReadable ∧ m.isWritable)
    (hnodup : ((locate h).map (·.name)).Nodup)
    (hcompile : ∀ m ∈ locate h, ∃ set, m.compile s.cache.registry (F.name h) = .ok set) :
    ∃ t, (s.table h (locate h)).1 = .ok t := by
  obtain ⟨t, ht⟩ := Cache.exists_table hnodup hcompile
  refine ⟨t, ?_⟩
  unfold table
  rw [forM_require_readWrite.2 haccess, ite_self, ← ht]

end Serializer

end Memberwise
