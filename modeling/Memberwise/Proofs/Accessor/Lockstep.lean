import Memberwise.Proofs.Accessor.Order
import Memberwise.Proofs.Codec.Alike

/-!
# Caches in lockstep

Two caches over registries that are alike, with tables of the same host types, answer a request the same: both with
success, or both with the same error (`Cache.InStep.reply`). Afterwards they are in step again (`Cache.InStep.after`). What
the operations of the registries do is never asked, and which accessor sets are cached does not matter.
-/

namespace Memberwise

variable {r r' : Registry}

theorem objection?_congr {H : Type} (hr : r.Alike r') (host : String) (members : List (Member H)) (i : Nat) :
    objection? r host members i = objection? r' host members i := by
  unfold objection?
  cases members[i]? with
  | none => rfl
  | some m =>
    rw [Option.bind_some, Option.bind_some]
    split
    · rfl
    · have hm := m.endsLike_compile hr host
      generalize m.compile r host = x at hm
      generalize m.compile r' host = y at hm
      cases hm <;> rfl

variable {F : HostFamily}

theorem Request.due_congr (hr : r.Alike r') (q : Request F) : q.due r = q.due r' := by
  cases q with
  | getOrCompile h m => exact EndsLike.iff_map_unit.1 (m.endsLike_compile hr (F.name h))
  | table h members =>
    have hobjection : objection? r (F.name h) members = objection? r' (F.name h) members :=
      funext (objection?_congr hr (F.name h) members)
    rw [due, due, firstObjection?, firstObjection?, hobjection]

namespace Cache

/-- Over registries that are alike, the same host types have tables. -/
structure InStep (c c' : Cache F) : Prop where
  registry : c.registry.Alike c'.registry
  sourced : c.Sourced fun _ _ => True
  sourced' : c'.Sourced fun _ _ => True
  hosts : ∀ h, h ∈ c.hosts ↔ h ∈ c'.hosts

namespace InStep

variable {c c' : Cache F}

theorem empty (hr : r.Alike r') : InStep (F := F) { registry := r } { registry := r' } where
  registry := hr
  sourced := ⟨fun _ he => absurd he List.not_mem_nil⟩
  sourced' := ⟨fun _ he => absurd he List.not_mem_nil⟩
  hosts _ := Iff.rfl

theorem hasTable (hc : c.InStep c') (h : F.Host) : c.hasTable h = c'.hasTable h := by
  rw [Bool.eq_iff_iff, hasTable_iff, hasTable_iff, hc.hosts]

theorem outcome (hc : c.InStep c') (q : Request F) : c.outcome q = c'.outcome q := by
  by_cases hq : ∀ h ∈ q.hosts, h ∉ c.hosts
  · have hunpublished : ∀ h ∈ q.hosts, c.table? h = none := fun h hh => table?_eq_none.2 (hq h hh)
    have hunpublished' : ∀ h ∈ q.hosts, c'.table? h = none := fun h hh =>
      table?_eq_none.2 (mt (hc.hosts h).2 (hq h hh))
    rw [outcome_of_unpublished hc.sourced rfl hunpublished, outcome_of_unpublished hc.sourced' rfl hunpublished',
      q.due_congr hc.registry]
  · cases q with
    | getOrCompile h m => exact absurd (fun _ hh => absurd hh List.not_mem_nil) hq
    | table h members =>
      have hmem : h ∈ c.hosts := by simpa [Request.hosts] using hq
      obtain ⟨t, ht⟩ := Option.isSome_iff_exists.1 (isSome_table?.2 (hasTable_iff.2 hmem))
      obtain ⟨t', ht'⟩ := Option.isSome_iff_exists.1 (isSome_table?.2 (hasTable_iff.2 ((hc.hosts h).1 hmem)))
      rw [outcome_table, outcome_table, table_of_table? ht, table_of_table? ht']
      rfl

theorem reply (hc : c.InStep c') (q : Request F) : EndsLike (c.reply q) (c'.reply q) :=
  EndsLike.iff_map_unit.2 (hc.outcome q)

theorem after (hc : c.InStep c') (q : Request F) : (c.after q).InStep (c'.after q) where
  registry := by
    rw [registry_after, registry_after]
    exact hc.registry
  sourced := hc.sourced.after fun _ _ _ => trivial
  sourced' := hc.sourced'.after fun _ _ _ => trivial
  hosts h := by rw [mem_hosts_after, mem_hosts_after, hc.outcome, hc.hosts]

end InStep

end Cache

end Memberwise
