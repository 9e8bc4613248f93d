import Memberwise.Proofs.Accessor.Objection
import Memberwise.Proofs.Message.History

/-!
# Which host types are admitted

Registering a host type that has no table yet looks at the capabilities of all its members, and then builds them one by
one. So of all that may be wrong with the members, a missing capability comes first, and after that what the first member
is refused for; what is cached already makes no difference (`Serializer.register_admits`).

A refused host type leaves no trace, not even of the members that were compiled before the one refused.
-/

namespace Memberwise

/-- What keeps a member from being both read and assigned. -/
def Member.denial? {H : Type} (host : String) (m : Member H) : Option BindingError :=
  if m.isReadable = false then some (.notReadable host m.name)
  else if m.isWritable = false then some (.notWritable host m.name)
  else none

private theorem require_readWrite {H : Type} (m : Member H) (host : String) :
    m.require host .readWrite = verdict (m.denial? host) := by
  unfold Member.require Member.denial? Access.check
  cases m.isReadable <;> cases m.isWritable <;> rfl

private theorem forM_require_eq {H : Type} (members : List (Member H)) (host : String) :
    members.forM (·.require host .readWrite) = verdict (members.findSome? (·.denial? host)) := by
  induction members with
  | nil => rfl
  | cons m rest ih =>
    change (m.require host .readWrite >>= fun _ => rest.forM (·.require host .readWrite)) = _
    rw [require_readWrite, ih, List.findSome?_cons]
    cases m.denial? host <;> rfl

namespace Serializer

variable {F : HostFamily} {s : Serializer F} {h : F.Host} {members : List (Member (F.Instance h))}

theorem register_of_error {e : MessageError} (he : (s.register h members).1 = .error e) :
    (s.register h members).2 = s := by
  rw [register, withTable_fst] at he
  rw [register, withTable_snd]
  rcases table_eq s h members with ⟨e', heq⟩ | ⟨-, heq⟩
  · rw [heq]
  · rw [heq] at he ⊢
    rcases s.cache.table_failed_or_published h members with ⟨e', hcache⟩ | ⟨t, ht, -⟩
    · rw [hcache]
    · rw [ht] at he
      cases he

theorem register_of_ok (hok : (s.register h members).1 = .ok ()) :
    ∃ t, (s.cache.table h members).1 = .ok t ∧ (s.register h members).2.cache = (s.cache.table h members).2 := by
  rw [register, withTable_fst] at hok
  rw [register, withTable_snd]
  rcases table_eq s h members with ⟨e, heq⟩ | ⟨-, heq⟩
  · rw [heq] at hok
    cases hok
  · rw [heq] at hok ⊢
    rcases s.cache.table_failed_or_published h members with ⟨e, hcache⟩ | ⟨t, ht, -⟩
    · rw [hcache] at hok
      cases hok
    · exact ⟨t, ht, rfl⟩

/-- A host type without a table is refused for a missing capability, or else as its table is. -/
theorem register_fst (hnone : s.cache.table? h = none) :
    (s.register h members).1 =
      match members.findSome? (·.denial? (F.name h)) with
      | some e => .error (.compile (.binding e))
      | none => ((s.cache.table h members).1.map fun _ => ()).mapError .compile := by
  have hhas : s.cache.hasTable h = false := Cache.hasTable_eq_false.2 hnone
  rw [register, withTable_fst, table, hhas, forM_require_eq]
  cases members.findSome? (·.denial? (F.name h)) with
  | some e => rfl
  | none => cases htable : (s.cache.table h members).1 <;> simp [verdict, htable, Except.map, Except.mapError]

/-- What becomes of registering a host type that has no table, whatever the cache has served before.

The first member that lacks a capability is refused for it. If there is none, the first member is refused that has the
name of an earlier one, or else does not compile. If there is none of these either, the host type is admitted. A refusal
changes nothing. On admission all members are cached, the table is published, and as many compilations are counted as
there were members not cached before. -/
theorem register_admits (r : Registry) (requests : List (Request F)) (config : MessageConfig) (h : F.Host)
    (members : List (Member (F.Instance h))) (hfree : (Cache.inUse r requests).hasTable h = false) :
    let s : Serializer F := ⟨Cache.inUse r requests, config⟩
    let result := (s.register h members).1
    let s' := (s.register h members).2
    (result =
      match members.findSome? (·.denial? (F.name h)), firstObjection? r (F.name h) members with
      | some e, _ => .error (.compile (.binding e))
      | none, some e => .error (.compile e)
      | none, none => .ok ()) ∧
      (∀ e, result = .error e → s' = s) ∧
      (result = .ok () → (∀ m ∈ members, s'.cache.contains h m) ∧ s'.cache.hasTable h ∧
        s'.cache.compilations = s.cache.compilations + members.countP fun m => !s.cache.contains h m) := by
  intro s result s'
  have hnone : s.cache.table? h = none := Cache.hasTable_eq_false.1 hfree
  refine ⟨?_, fun e => register_of_error, fun hok => ?_⟩
  · have hsourced : s.cache.Sourced (Presented requests) := Cache.sourced_inUse r requests
    have hregistry : s.cache.registry = r := Cache.registry_inUse r requests
    have hresult : (s.register h members).1 = _ := register_fst hnone
    rw [show result = (s.register h members).1 from rfl, hresult, hsourced.table_verdict hnone, hregistry]
    cases members.findSome? (·.denial? (F.name h)) with
    | some e => rfl
    | none => cases firstObjection? r (F.name h) members <;> rfl
  · obtain ⟨t, ht, hs'⟩ := register_of_ok hok
    have hpublished : (s.cache.table h members).2.table? h = some t := Cache.table?_of_table ht
    rw [hs']
    exact ⟨Cache.contains_of_table hnone ht, Cache.isSome_table?.1 (Option.isSome_of_mem hpublished),
      Cache.compilations_table hnone ht⟩

end Serializer

namespace Pair

/-- The number on the right under a name of its own. -/
def onRightNamed : Member Pair := { onRight with name := "y" }

/-- With the number on the right cached under the key of the one on the left, a pair with two members is admitted for one
more compilation. With a third member of the same name, it is refused without a trace. -/
theorem register_admits_onLeft :
    let s : Serializer family := ⟨Cache.inUse (Registry.builtin {}) [.getOrCompile () onRight], {}⟩
    s.cache.hasTable () = false ∧
      (s.register () [onLeft, onRightNamed]).1 = .ok () ∧
      (s.register () [onLeft, onRightNamed]).2.cache.compilations = 2 ∧
      (s.register () [onLeft, onRightNamed, onRight]).1 =
        .error (.compile (.binding (.duplicateMember "Pair" "x"))) ∧
      (s.register () [onLeft, onRightNamed, onRight]).2 = s := by
  intro s
  have hfree : s.cache.hasTable () = false := by decide +kernel
  obtain ⟨hadmitted, -, hbuilt⟩ :=
    Serializer.register_admits (Registry.builtin {}) _ {} () [onLeft, onRightNamed] hfree
  obtain ⟨hrefused, hkept, -⟩ :=
    Serializer.register_admits (Registry.builtin {}) _ {} () [onLeft, onRightNamed, onRight] hfree
  have hok : (s.register () [onLeft, onRightNamed]).1 = .ok () := hadmitted.trans (by decide +kernel)
  have herror : (s.register () [onLeft, onRightNamed, onRight]).1 =
      .error (.compile (.binding (.duplicateMember "Pair" "x"))) := hrefused.trans (by decide +kernel)
  exact ⟨hfree, hok, (hbuilt hok).2.2.trans (by decide +kernel), herror, hkept _ herror⟩

end Pair

end Memberwise
