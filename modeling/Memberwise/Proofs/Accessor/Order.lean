import Memberwise.Proofs.Accessor.BuildOnce
import Memberwise.Proofs.Accessor.Objection

/-!
# The order of requests

As long as every host type declares the same members each time, it does not matter in which order a cache serves its
requests (`Cache.served_in_any_order`): each of them comes to what it would come to on its own (`Request.due`), and in the
end the cache holds what the successful ones among them present (`Cache.mem_places_inUse`).

The accessor sets as such may depend on the order, since the first one compiled for a key is kept. How many there are, and
under which keys, does not.
-/

namespace Memberwise

variable {F : HostFamily}

namespace Request

/-- The members that come with the request are those that the host type declares. -/
def Declared (locate : Locator F) : Request F → Prop
  | .getOrCompile .. => True
  | .table h members => members = locate h

/-- What a request comes to on its own. -/
def due (r : Registry) : Request F → Except CompileError Unit
  | .getOrCompile h m => (m.compile r (F.name h)).map fun _ => ()
  | .table h members => verdict (firstObjection? r (F.name h) members)

end Request

namespace Cache

variable {r : Registry} {requests : List (Request F)} {locate : Locator F} {c : Cache F} {q : Request F}

/-- Whether a request succeeds, and if not with which error it fails. -/
def outcome (c : Cache F) (q : Request F) : Except CompileError Unit := (c.reply q).map fun _ => ()

theorem outcome_getOrCompile (c : Cache F) (h : F.Host) (m : Member (F.Instance h)) :
    c.outcome (.getOrCompile h m) = (c.getOrCompile h m).1.map fun _ => () := rfl

theorem outcome_table (c : Cache F) (h : F.Host) (members : List (Member (F.Instance h))) :
    c.outcome (.table h members) = (c.table h members).1.map fun _ => () := rfl

/-! ### One request -/

theorem outcome_of_unpublished {origin : Origin F} (hc : c.Sourced origin) (hregistry : c.registry = r)
    (hq : ∀ h ∈ q.hosts, c.table? h = none) : c.outcome q = q.due r := by
  subst hregistry
  cases q with
  | getOrCompile h m => rw [outcome_getOrCompile, hc.getOrCompile_verdict, Request.due]
  | table h members => rw [outcome_table, hc.table_verdict (hq h (List.mem_singleton_self h)), Request.due]

theorem mem_hosts_after {h : F.Host} : h ∈ (c.after q).hosts ↔ h ∈ c.hosts ∨ c.outcome q = .ok () ∧ h ∈ q.hosts := by
  rcases c.after_cases q with ⟨reply, hcached, hreply, hafter⟩ | ⟨e, -, hreply, hafter⟩ |
    ⟨reply, fresh, added, -, hreply, -, -, hhosts⟩
  · rw [hafter]
    exact ⟨.inl, fun hh => hh.elim id fun hnew => hosts_of_cached? hcached h hnew.2⟩
  · rw [hafter, outcome, hreply]
    simp [Except.map]
  · rw [hhosts, List.mem_append, outcome, hreply]
    simp [Except.map]

theorem mem_places_after (hq : ∀ h ∈ q.hosts, c.hasTable h → ∀ p ∈ q.places, p ∈ c.places) {p : F.Host × Key} :
    p ∈ (c.after q).places ↔ p ∈ c.places ∨ c.outcome q = .ok () ∧ p ∈ q.places := by
  rcases c.after_cases q with ⟨reply, hcached, hreply, hafter⟩ | ⟨e, -, hreply, hafter⟩ |
    ⟨reply, fresh, added, -, hreply, -, hplaces, -⟩
  · have hold : ∀ p ∈ q.places, p ∈ c.places := by
      cases q with
      | getOrCompile h m =>
        intro p hp
        rw [List.mem_singleton.1 hp]
        exact isSome_find?.1 (Option.isSome_of_mem hcached)
      | table h members =>
        exact hq h (List.mem_singleton_self h) (isSome_table?.1 (Option.isSome_of_mem hcached))
    rw [hafter]
    exact ⟨.inl, fun hp => hp.elim id fun hnew => hold p hnew.2⟩
  · rw [hafter, outcome, hreply]
    simp [Except.map]
  · rw [hplaces, outcome, hreply]
    simp [Except.map]

/-! ### Any number of requests -/

/-- A published table holds the declared members, and these can be built. -/
theorem declared_of_table? (hrequests : ∀ q ∈ requests, q.Declared locate) {h : F.Host}
    {t : Shared (Table (F.Instance h))} (ht : (inUse r requests).table? h = some t) :
    firstObjection? r (F.name h) (locate h) = none ∧
      ∀ m ∈ locate h, (h, m.key) ∈ (inUse r requests).places := by
  obtain ⟨members, hbuilt⟩ := exists_builtFor ht
  have hfound := hbuilt.find?
  obtain ⟨before, hbefore, hnone, hok⟩ := hbuilt
  have hmembers : members = locate h :=
    hrequests (.table h members) (hbefore.subset (List.mem_append_right _ (List.mem_singleton_self _)))
  subst hmembers
  constructor
  · have hverdict : ((inUse r before).table h (locate h)).1.map (fun _ => ()) = _ :=
      (sourced_inUse r before).table_verdict hnone
    rw [hok, registry_inUse] at hverdict
    cases hobjection : firstObjection? r (F.name h) (locate h) with
    | none => rfl
    | some e =>
      rw [hobjection] at hverdict
      cases hverdict
  · intro m hm
    obtain ⟨i, hi, rfl⟩ := List.mem_iff_getElem.1 hm
    have hlength : i < t.value.sets.length := hfound.length_eq ▸ hi
    exact isSome_find?.1 (Option.isSome_of_mem (hfound.get hi hlength))

theorem outcome_inUse (hrequests : ∀ q ∈ requests, q.Declared locate) (hq : q.Declared locate) :
    (inUse r requests).outcome q = q.due r := by
  by_cases hfree : ∀ h ∈ q.hosts, (inUse r requests).table? h = none
  · exact outcome_of_unpublished (sourced_inUse r requests) (registry_inUse r requests) hfree
  · cases q with
    | getOrCompile h m => exact absurd (by simp [Request.hosts]) hfree
    | table h members =>
      have hmembers : members = locate h := hq
      subst hmembers
      cases ht : (inUse r requests).table? h with
      | none => exact absurd (by simpa [Request.hosts] using ht) hfree
      | some t =>
        rw [outcome_table, table_of_table? ht, Request.due, (declared_of_table? hrequests ht).1]
        rfl

theorem outcome_eq_due (hrequests : ∀ q ∈ requests, q.Declared locate) {before : List (Request F)}
    (hbefore : before ++ [q] <+: requests) : (inUse r before).outcome q = q.due r := by
  have hdeclared : ∀ q' ∈ before ++ [q], q'.Declared locate := fun q' hq' => hrequests q' (hbefore.subset hq')
  rw [List.forall_mem_append, List.forall_mem_singleton] at hdeclared
  exact outcome_inUse hdeclared.1 hdeclared.2

theorem mem_places_inUse (hrequests : ∀ q ∈ requests, q.Declared locate) {p : F.Host × Key} :
    p ∈ (inUse r requests).places ↔ ∃ q ∈ requests, q.due r = .ok () ∧ p ∈ q.places := by
  induction requests using List.reverseRecOn with
  | nil => simp [inUse, places]
  | append_singleton requests q ih =>
    rw [List.forall_mem_append, List.forall_mem_singleton] at hrequests
    obtain ⟨hrequests, hq⟩ := hrequests
    have hpublished : ∀ h ∈ q.hosts, (inUse r requests).hasTable h → ∀ p ∈ q.places, p ∈ (inUse r requests).places := by
      intro h hh hhas p hp
      cases q with
      | getOrCompile h' m => cases hh
      | table h' members =>
        have hmembers : members = locate h' := hq
        subst hmembers
        rw [List.mem_singleton.1 hh] at hhas
        obtain ⟨t, ht⟩ := Option.isSome_iff_exists.1 (isSome_table?.2 hhas)
        obtain ⟨m, hm, rfl⟩ := List.mem_map.1 hp
        exact (declared_of_table? hrequests ht).2 m hm
    rw [inUse_concat, mem_places_after hpublished, ih hrequests, outcome_inUse hrequests hq]
    simp [or_and_right, exists_or]

theorem mem_hosts_inUse (hrequests : ∀ q ∈ requests, q.Declared locate) {h : F.Host} :
    h ∈ (inUse r requests).hosts ↔ ∃ q ∈ requests, q.due r = .ok () ∧ h ∈ q.hosts := by
  induction requests using List.reverseRecOn with
  | nil => simp [inUse, hosts]
  | append_singleton requests q ih =>
    rw [List.forall_mem_append, List.forall_mem_singleton] at hrequests
    obtain ⟨hrequests, hq⟩ := hrequests
    rw [inUse_concat, mem_hosts_after, ih hrequests, outcome_inUse hrequests hq]
    simp [or_and_right, exists_or]

/-- Requests come to the same in any order, if every host type declares the same members each time: each of them succeeds
in both orders or fails with the same error, and the caches are left with equally many accessor sets, under the same keys,
with equally many compilations counted, and with tables of the same host types. -/
theorem served_in_any_order (r : Registry) (locate : Locator F) {requests requests' : List (Request F)}
    (hrequests : ∀ q ∈ requests, q.Declared locate) (hperm : requests.Perm requests') :
    let c := inUse r requests
    let c' := inUse r requests'
    (∀ q before before', before ++ [q] <+: requests → before' ++ [q] <+: requests' →
      (inUse r before).outcome q = (inUse r before').outcome q) ∧
      c.size = c'.size ∧ c.compilations = c'.compilations ∧
      (∀ h m, c.contains h m = c'.contains h m) ∧ ∀ h, c.hasTable h = c'.hasTable h := by
  intro c c'
  have hrequests' : ∀ q ∈ requests', q.Declared locate := fun q hq => hrequests q (hperm.mem_iff.2 hq)
  have hplaces : ∀ p, p ∈ c.places ↔ p ∈ c'.places := by
    intro p
    rw [mem_places_inUse hrequests, mem_places_inUse hrequests']
    simp only [hperm.mem_iff]
  have hhosts : ∀ h, h ∈ c.hosts ↔ h ∈ c'.hosts := by
    intro h
    rw [mem_hosts_inUse hrequests, mem_hosts_inUse hrequests']
    simp only [hperm.mem_iff]
  have hc : c.Coherent := coherent_inUse r requests
  have hc' : c'.Coherent := coherent_inUse r requests'
  have hsize : c.size = c'.size := by
    have hlength := ((List.perm_ext_iff_of_nodup hc.places hc'.places).2 hplaces).length_eq
    rwa [places, places, List.length_map, List.length_map] at hlength
  refine ⟨fun q before before' hbefore hbefore' => ?_, hsize, ?_, fun h m => ?_, fun h => ?_⟩
  · rw [outcome_eq_due hrequests hbefore, outcome_eq_due hrequests' hbefore']
  · rw [← hc.counted, ← hc'.counted, hsize]
  · rw [Bool.eq_iff_iff, contains_iff, contains_iff, hplaces]
  · rw [Bool.eq_iff_iff, hasTable_iff, hasTable_iff, hhosts]

end Cache

namespace Pair

/-- A single member, a table that shares its key, and a request that fails, in one order and in the other. -/
theorem served_in_any_order_onLeft :
    let requests : List (Request family) := [.getOrCompile () onRight, .table () [onLeft], .getOrCompile () broken]
    let c := Cache.inUse (Registry.builtin {}) requests
    let c' := Cache.inUse (Registry.builtin {}) requests.reverse
    (∀ q ∈ requests, q.Declared fun _ => [onLeft]) ∧ requests.Perm requests.reverse ∧
      c.size = c'.size ∧ c'.compilations = 1 ∧ c.contains () onLeft = c'.contains () onLeft ∧
      (Cache.inUse (Registry.builtin {}) (requests.take 2)).outcome (.getOrCompile () broken) =
        (Cache.inUse (F := family) (Registry.builtin {}) []).outcome (.getOrCompile () broken) := by
  intro requests c c'
  have hrequests : ∀ q ∈ requests, q.Declared fun _ => [onLeft] := by
    simp [requests, Request.Declared]
  have hperm : requests.Perm requests.reverse := (List.reverse_perm requests).symm
  obtain ⟨houtcome, hsize, hcompilations, hcontains, -⟩ :=
    Cache.served_in_any_order (Registry.builtin {}) (fun _ => [onLeft]) hrequests hperm
  refine ⟨hrequests, hperm, hsize, hcompilations.symm.trans (by decide +kernel), hcontains () onLeft, ?_⟩
  exact houtcome _ (requests.take 2) [] List.prefix_rfl (List.prefix_append [_] _)

end Pair

end Memberwise
