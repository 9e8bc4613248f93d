import Memberwise.Proofs.Accessor.Coherence

/-!
# Built once

Whatever is requested of a cache, and in whatever order, an accessor set that it gave out for a key is the one that it
gives out for this key ever after, be it for a single member or in a table; and a table that it published is the one that
every later request is answered with, whichever members the host type declares by then (`Cache.built_once`).

A host type may declare other members each time it is asked, and any request may fail. All that counts is that a cache
only grows and stays coherent.
-/

namespace Memberwise.Cache

variable {F : HostFamily} {r : Registry} {requests : List (Request F)} {h : F.Host}

/-! ### Tables and what they were built for -/

/-- The table was built for the members listed, when one of the requests came with them. -/
def BuiltFor (r : Registry) (requests : List (Request F)) (h : F.Host) (members : List (Member (F.Instance h)))
    (t : Shared (Table (F.Instance h))) : Prop :=
  ∃ before, before ++ [.table h members] <+: requests ∧ (inUse r before).table? h = none ∧
    ((inUse r before).table h members).1 = .ok t

theorem BuiltFor.concat {members : List (Member (F.Instance h))} {t : Shared (Table (F.Instance h))}
    (ht : BuiltFor r requests h members t) (q : Request F) : BuiltFor r (requests ++ [q]) h members t := by
  obtain ⟨before, hbefore, hnone, hok⟩ := ht
  exact ⟨before, hbefore.trans (List.prefix_append _ _), hnone, hok⟩

theorem BuiltFor.mem {members : List (Member (F.Instance h))} {t : Shared (Table (F.Instance h))}
    (ht : BuiltFor r requests h members t) : .table h members ∈ requests := by
  obtain ⟨before, hbefore, -⟩ := ht
  exact hbefore.subset (List.mem_append_right _ (List.mem_singleton_self _))

/-- A table is kept by all later requests. -/
theorem table?_of_answered {before : List (Request F)} {members : List (Member (F.Instance h))}
    {t : Shared (Table (F.Instance h))} (hbefore : before ++ [.table h members] <+: requests)
    (ht : ((inUse r before).table h members).1 = .ok t) : (inUse r requests).table? h = some t := by
  have hpublished : (inUse r (before ++ [.table h members])).table? h = some t := by
    rw [inUse_concat]
    exact table?_of_table ht
  exact (grows_inUse r hbefore).table? hpublished

/-- Each set of a table is found under the key of the member that it was built for. -/
theorem BuiltFor.find? {members : List (Member (F.Instance h))} {t : Shared (Table (F.Instance h))}
    (ht : BuiltFor r requests h members t) :
    List.Forall₂ (fun m s => (inUse r requests).find? h m.key = some s) members t.value.sets := by
  obtain ⟨before, hbefore, hnone, hok⟩ := ht
  have hgrows := grows_inUse r hbefore
  have hcoherent := coherent_inUse r (before ++ [.table h members])
  rw [inUse_concat, after] at hgrows hcoherent
  cases hbuild : (inUse r before).build h [] (inUse r before).nextId members with
  | error e =>
    rw [table_of_error hnone hbuild] at hok
    cases hok
  | ok b =>
    rw [table_of_build hnone hbuild] at hok hgrows hcoherent
    cases hok
    exact (mem_of_build hbuild).imp fun m s hs => hgrows.find? (find?_of_mem hcoherent.places hs)

/-- A request that finds no table of a host type leaves one only if it builds it. -/
theorem eq_table_of_table?_after {c : Cache F} {q : Request F} {t : Shared (Table (F.Instance h))}
    (hnone : c.table? h = none) (ht : (c.after q).table? h = some t) :
    ∃ members, q = .table h members ∧ (c.table h members).1 = .ok t := by
  cases q with
  | getOrCompile h' m =>
    have hhas : (c.getOrCompile h' m).2.hasTable h := isSome_table?.1 (Option.isSome_of_mem ht)
    rw [hasTable_getOrCompile, hasTable_iff] at hhas
    exact absurd hhas (table?_eq_none.1 hnone)
  | table h' members =>
    have hhas : (c.table h' members).2.hasTable h := isSome_table?.1 (Option.isSome_of_mem ht)
    rcases hasTable_of_table hhas with hbefore | rfl
    · exact absurd (hasTable_iff.1 hbefore) (table?_eq_none.1 hnone)
    rcases c.table_failed_or_published h' members with ⟨e, heq⟩ | ⟨t', hok, hpublished⟩
    · rw [after, heq, hnone] at ht
      cases ht
    · cases hpublished.symm.trans ht
      exact ⟨members, rfl, hok⟩

theorem exists_builtFor {t : Shared (Table (F.Instance h))} (ht : (inUse r requests).table? h = some t) :
    ∃ members, BuiltFor r requests h members t := by
  induction requests using List.reverseRecOn with
  | nil => simp [inUse, table?] at ht
  | append_singleton requests q ih =>
    cases hbefore : (inUse r requests).table? h with
    | some t' =>
      have hkept := (grows_inUse r (List.prefix_append requests [q])).table? hbefore
      cases hkept.symm.trans ht
      obtain ⟨members, hbuilt⟩ := ih hbefore
      exact ⟨members, hbuilt.concat q⟩
    | none =>
      rw [inUse_concat] at ht
      obtain ⟨members, rfl, hok⟩ := eq_table_of_table?_after hbefore ht
      exact ⟨members, requests, List.prefix_rfl, hbefore, hok⟩

/-! ### What is given out -/

/-- The accessor set was given out for the key in the course of the requests: when it was looked up, when a single member
was asked for, or in a table that was built. -/
inductive GivenOut (r : Registry) (requests : List (Request F)) (h : F.Host) :
    Key → Shared (AccessorSet (F.Instance h)) → Prop
  | lookUp {before : List (Request F)} {m : Member (F.Instance h)} {s : Shared (AccessorSet (F.Instance h))}
    (hbefore : before <+: requests) (hs : (inUse r before).get? h m = some s) : GivenOut r requests h m.key s
  | single {before : List (Request F)} {m : Member (F.Instance h)} {s : Shared (AccessorSet (F.Instance h))}
    (hbefore : before ++ [.getOrCompile h m] <+: requests) (hs : ((inUse r before).getOrCompile h m).1 = .ok s) :
    GivenOut r requests h m.key s
  | inTable {members : List (Member (F.Instance h))} {t : Shared (Table (F.Instance h))} {m : Member (F.Instance h)}
    {s : Shared (AccessorSet (F.Instance h))} (ht : BuiltFor r requests h members t)
    (hs : (m, s) ∈ members.zip t.value.sets) : GivenOut r requests h m.key s

/-- What was given out for a key is what is found under it. -/
theorem GivenOut.find? {key : Key} {s : Shared (AccessorSet (F.Instance h))} (hs : GivenOut r requests h key s) :
    (inUse r requests).find? h key = some s := by
  cases hs with
  | lookUp hbefore hs => exact (grows_inUse r hbefore).find? hs
  | single hbefore hs =>
    have hgrows := grows_inUse r hbefore
    rw [inUse_concat] at hgrows
    exact hgrows.find? (find?_of_getOrCompile hs)
  | inTable ht hs => exact (List.forall₂_iff_zip.1 ht.find?).2 hs

/-- What a cache keeps to, whatever was requested of it, of whichever host types and with whichever members.

No place is taken twice, no host type has two tables, no two objects have the same identity, and there are as many
accessor sets as compilations were counted. A set that was given out for a key, at any time, is the only one ever given
out for it, and every further request for a member with this key is answered with it. A table that some request was
answered with is the answer to every further one. A table was built once, for the members that came with the request, and
holds what is found under their keys. A request that fails leaves the cache as it was. -/
theorem built_once (r : Registry) (requests : List (Request F)) :
    let c := inUse r requests
    (c.places.Nodup ∧ c.hosts.Nodup ∧ c.identities.Nodup ∧ c.size = c.compilations) ∧
      (∀ h m, c.contains h m = (c.get? h m).isSome) ∧
      (∀ h key s, GivenOut r requests h key s → (∀ s', GivenOut r requests h key s' → s' = s) ∧
        ∀ m : Member (F.Instance h), m.key = key → c.get? h m = some s ∧ c.getOrCompile h m = (.ok s, c)) ∧
      (∀ h before members t, before ++ [.table h members] <+: requests →
        ((inUse r before).table h members).1 = .ok t →
          c.table? h = some t ∧ ∀ members', c.table h members' = (.ok t, c)) ∧
      (∀ h t, c.table? h = some t → ∃ members, BuiltFor r requests h members t ∧
        List.Forall₂ (fun m s => c.get? h m = some s) members t.value.sets) ∧
      ∀ q e, c.reply q = .error e → c.after q = c := by
  intro c
  have hcoherent : c.Coherent := coherent_inUse r requests
  refine ⟨⟨hcoherent.places, hcoherent.hosts, hcoherent.nodup_identities, hcoherent.counted⟩, fun h m => contains_eq m,
    ?_, ?_, ?_, fun q e => after_of_error⟩
  · intro h key s hs
    constructor
    · intro s' hs'
      exact Option.some.inj (hs'.find?.symm.trans hs.find?)
    · rintro m rfl
      exact ⟨hs.find?, getOrCompile_of_find? hs.find?⟩
  · intro h before members t hbefore ht
    have hpublished : c.table? h = some t := table?_of_answered hbefore ht
    exact ⟨hpublished, fun members' => table_of_table? hpublished⟩
  · intro h t ht
    obtain ⟨members, hbuilt⟩ := exists_builtFor ht
    exact ⟨members, hbuilt, hbuilt.find?⟩

end Memberwise.Cache

namespace Memberwise.Pair

/-- A character has no writer. -/
def broken : Member Pair := .readOnlyProperty "c" .char fun _ => 'c'

/-- The number on the right is asked for first, then a table that fails, then one of the number on the left, and in the end
the host type declares something else. There is one accessor set, and the table of it stays. -/
theorem built_once_onRight :
    let requests : List (Request family) :=
      [.getOrCompile () onRight, .table () [onLeft, broken], .table () [onLeft], .table () [broken]]
    let c := Cache.inUse (Registry.builtin {}) requests
    (∃ s, Cache.GivenOut (Registry.builtin {}) requests () onLeft.key s ∧ c.getOrCompile () onLeft = (.ok s, c)) ∧
      (∃ t, c.table () [broken] = (.ok t, c)) ∧ c.after (.getOrCompile () broken) = c ∧ c.compilations = 1 := by
  intro requests c
  obtain ⟨-, -, hsets, htables, -, hfailed⟩ := Cache.built_once (F := family) (Registry.builtin {}) requests
  have hset : ((Cache.inUse (Registry.builtin {}) []).getOrCompile (F := family) () onRight).1.map (fun _ => ()) =
      .ok () := by decide +kernel
  have htable : ((Cache.inUse (Registry.builtin {}) (requests.take 2)).table (F := family) () [onLeft]).1.map
      (fun _ => ()) = .ok () := by decide +kernel
  have herror : ∃ e, c.reply (.getOrCompile () broken) = .error e := ⟨_, rfl⟩
  obtain ⟨s, hs, -⟩ := map_eq_ok_iff.1 hset
  obtain ⟨t, ht, -⟩ := map_eq_ok_iff.1 htable
  obtain ⟨e, he⟩ := herror
  have hgiven : Cache.GivenOut (Registry.builtin {}) requests () onRight.key s :=
    .single (List.prefix_append (requests.take 1) _) hs
  refine ⟨⟨s, hgiven, ((hsets () _ s hgiven).2 onLeft rfl).2⟩, ⟨t, ?_⟩, hfailed _ e he, by decide +kernel⟩
  exact (htables () _ [onLeft] t (List.prefix_append (requests.take 3) _) ht).2 [broken]

end Memberwise.Pair
