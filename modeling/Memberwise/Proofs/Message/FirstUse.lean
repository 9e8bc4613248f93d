import Memberwise.Proofs.Message.Admission
import Memberwise.Proofs.Message.RoundTrip

/-!
# First use of a host type

An operation on messages that finds no table has it built, as registering the host type would have. So it makes no
difference whether a host type is registered ahead of its first use (`Serializer.first_use`): what registration is refused
for, the operation is refused for, without a trace in the serializer, the buffer or the instance; and otherwise the
operation ends as it does after registration, and leaves behind what registration alone leaves behind, however it ends.

All operations go through `Serializer.withTable` (`Use.run_eq`), and this is where the two cases are told apart.
-/

namespace Memberwise

/-- An operation on the messages of a host type, with its arguments. -/
inductive Use (F : HostFamily) (h : F.Host)
  | sizeOf (x : F.Instance h)
  | serialize (x : F.Instance h)
  | serializeInto (x : F.Instance h) (buf : Bytes) (offset : UInt64)
  | deserializeInto (x : F.Instance h) (buf : Bytes) (offset : UInt64)
  | deserialize (buf : Bytes)

namespace Use

variable {F : HostFamily} {h : F.Host}

/-- What an operation answers: its result, and with it the buffer or the instance that it was given, as it leaves it. -/
def Answer : Use F h → Type
  | .sizeOf _ => Outcome UInt64
  | .serialize _ => Outcome Bytes
  | .serializeInto .. => Outcome UInt64 × Bytes
  | .deserializeInto .. => Outcome UInt64 × F.Instance h
  | .deserialize _ => Outcome (F.Instance h)

/-- Runs an operation for a host type that declares the given members. -/
def run (s : Serializer F) (members : List (Member (F.Instance h))) : (u : Use F h) → u.Answer × Serializer F
  | .sizeOf x => s.sizeOf h members x
  | .serialize x => s.serialize h members x
  | .serializeInto x buf offset => s.serializeInto h members x buf offset
  | .deserializeInto x buf offset => s.deserializeInto h members x buf offset
  | .deserialize buf => s.deserialize h members buf

/-- The answer of an operation that is refused: the buffer or the instance is as it was given. -/
def refusal (e : MessageError) : (u : Use F h) → u.Answer
  | .sizeOf _ => Outcome.fail e
  | .serialize _ => Outcome.fail e
  | .serializeInto _ buf _ => (Outcome.fail e, buf)
  | .deserializeInto x _ _ => (Outcome.fail e, x)
  | .deserialize _ => Outcome.fail e

/-- The answer of an operation over the accessor sets of a table. -/
def answer (config : MessageConfig) (sets : List (AccessorSet (F.Instance h))) : (u : Use F h) → u.Answer
  | .sizeOf x => Layout.measure config.lengthPrefix sets x
  | .serialize x => Serializer.serializeWith config x sets
  | .serializeInto x buf offset => Serializer.serializeIntoWith config x buf offset sets
  | .deserializeInto x buf offset => Serializer.deserializeIntoWith config (F.default h) x buf offset sets
  | .deserialize buf =>
    let (result, x) := Serializer.deserializeIntoWith config (F.default h) (F.default h) buf 0 sets
    result.map fun _ => x

theorem run_eq (s : Serializer F) (members : List (Member (F.Instance h))) (u : Use F h) :
    u.run s members = s.withTable h members u.refusal (u.answer s.config) := by
  cases u with
  | sizeOf x | serialize x | serializeInto x buf offset | deserializeInto x buf offset => rfl
  | deserialize buf =>
    change s.deserialize h members buf = _
    unfold Serializer.deserialize Serializer.deserializeInto Serializer.withTable
    rcases s.table h members with ⟨e | t, s'⟩
    · rfl
    · simp only [answer]
      generalize Serializer.deserializeIntoWith s.config (F.default h) (F.default h) buf 0
        (t.value.sets.map (·.value)) = read
      rcases read with ⟨e | n, x⟩ <;> rfl

end Use

namespace Serializer

variable {F : HostFamily} {s : Serializer F} {h : F.Host} {members : List (Member (F.Instance h))}

/-- A table that is published is taken as it is, whatever is declared by now. -/
theorem table_of_table? {t : Shared (Table (F.Instance h))} (ht : s.cache.table? h = some t)
    (members : List (Member (F.Instance h))) : s.table h members = (.ok t, s) := by
  have hhas : s.cache.hasTable h := Cache.isSome_table?.1 (Option.isSome_of_mem ht)
  rw [table, if_pos hhas]
  simp only [Cache.table_of_table? ht]

theorem table_again {t : Shared (Table (F.Instance h))} (ht : (s.table h members).1 = .ok t)
    (later : List (Member (F.Instance h))) :
    (s.table h members).2.table h later = (.ok t, (s.table h members).2) := by
  refine table_of_table? ?_ later
  rcases table_eq s h members with ⟨e, heq⟩ | ⟨-, heq⟩
  · rw [heq] at ht
    cases ht
  · rw [heq] at ht ⊢
    exact Cache.table?_of_table ht

section WithTable

variable {α : Type} (refuse : MessageError → α) (run : List (AccessorSet (F.Instance h)) → α)

theorem withTable_of_refused {e : MessageError} (he : (s.register h members).1 = .error e) :
    s.withTable h members refuse run = (refuse e, s) := by
  have hkept : (s.withTable h members refuse run).2 = s := by
    have hregister : (s.register h members).2 = s := register_of_error he
    rw [register, withTable_snd] at hregister
    rw [withTable_snd, hregister]
  refine Prod.ext ?_ hkept
  rw [register, withTable_fst] at he
  rw [withTable_fst]
  cases htable : (s.table h members).1 with
  | error e' =>
    rw [htable] at he
    cases he
    rfl
  | ok t =>
    rw [htable] at he
    cases he

theorem withTable_of_registered (hok : (s.register h members).1 = .ok ()) (later : List (Member (F.Instance h))) :
    s.withTable h members refuse run = (s.register h members).2.withTable h later refuse run ∧
      (s.withTable h members refuse run).2 = (s.register h members).2 := by
  have hstate : (s.register h members).2 = (s.table h members).2 := by rw [register, withTable_snd]
  rw [register, withTable_fst] at hok
  rw [hstate, withTable_snd]
  refine ⟨?_, rfl⟩
  cases htable : (s.table h members).1 with
  | error e =>
    rw [htable] at hok
    cases hok
  | ok t =>
    have hagain := table_again htable later
    refine Prod.ext ?_ ?_
    · rw [withTable_fst, withTable_fst, htable, hagain]
    · rw [withTable_snd, withTable_snd, hagain]

end WithTable

theorem config_register : (s.register h members).2.config = s.config := by
  rw [register, withTable_snd]
  rcases table_eq s h members with ⟨e, heq⟩ | ⟨-, heq⟩ <;> rw [heq]

theorem isRegistered_of_register (hok : (s.register h members).1 = .ok ()) :
    (s.register h members).2.isRegistered h := by
  obtain ⟨t, ht, hcache⟩ := register_of_ok hok
  have hpublished : (s.register h members).2.cache.table? h = some t := by rw [hcache, Cache.table?_of_table ht]
  exact Cache.isSome_table?.1 (Option.isSome_of_mem hpublished)

/-- First use equals registering first, in every state of a serializer and for every operation on messages.

If registering the host type is refused, the operation is refused with the same error, and the serializer, the buffer and
the instance are as they were. Otherwise the operation answers as it does once the host type is registered, whatever
members are declared by then; and whatever it answers, an error or a fault too, it leaves the serializer as registration
leaves it, with the host type registered. -/
theorem first_use (s : Serializer F) (h : F.Host) (members : List (Member (F.Instance h))) (u : Use F h) :
    let registered := (s.register h members).2
    match (s.register h members).1 with
    | .error e => u.run s members = (u.refusal e, s) ∧ registered = s ∧ s.isRegistered h = false
    | .ok () =>
      (∀ later, u.run s members = u.run registered later) ∧ (u.run s members).2 = registered ∧
        registered.isRegistered h = true := by
  intro registered
  have hrun := u.run_eq s members
  cases hresult : (s.register h members).1 with
  | error e =>
    refine ⟨hrun.trans (withTable_of_refused _ _ hresult), register_of_error hresult, ?_⟩
    -- had there been a table, registration would have been content with it
    by_contra hhas
    rw [Bool.not_eq_false] at hhas
    have hok : (s.register h members).1 = .ok () := by
      obtain ⟨t, ht⟩ := Option.isSome_iff_exists.1 (Cache.isSome_table?.2 hhas)
      rw [register, withTable_fst, table_of_table? ht]
    rw [hok] at hresult
    cases hresult
  | ok _ =>
    refine ⟨fun later => ?_, ?_, isRegistered_of_register hresult⟩
    · rw [hrun, u.run_eq registered later, config_register]
      exact (withTable_of_registered _ _ hresult later).1
    · rw [hrun]
      exact (withTable_of_registered _ _ hresult members).2

end Serializer

/-- The first use of visits fails for want of room, and leaves them registered. -/
example :
    let s : Serializer Visit.family := Serializer.ofRegistry (Registry.builtin ⟨.big, true⟩) ⟨.u16, 100⟩
    let outcome := s.serializeInto () Visit.members Visit.sample [7, 7] 1
    s.isRegistered () = false ∧ outcome.1 = (Outcome.fail (.bufferTooSmall 8 1), [7, 7]) ∧
      outcome.2.isRegistered () = true := by
  intro s outcome
  exact ⟨by decide +kernel, by decide +kernel, by decide +kernel⟩

end Memberwise
