import Memberwise.Proofs.Accessor.Coherence

/-!
# What keeps a table from being built

A table is built member by member, and members that are cached are not compiled again. All the same, whether it can be
built does not depend on the cache: a member with a cached key would compile (`Cache.Sourced.exists_compile`), so that
the build ends with the first objection to the members, if there is one (`Cache.Sourced.build_verdict`).
-/

namespace Memberwise

/-- A result that is an error if there is one. -/
def verdict {ε : Type} : Option ε → Except ε Unit
  | some e => .error e
  | none => .ok ()

section Objections

variable {H : Type}

/-- What keeps the member at a place of a list from being compiled in its turn: an earlier member has its name, or else it
does not compile. -/
def objection? (r : Registry) (host : String) (members : List (Member H)) (i : Nat) : Option CompileError :=
  members[i]?.bind fun m =>
    if m.name ∈ (members.take i).map (·.name) then some (.binding (.duplicateMember host m.name))
    else
      match m.compile r host with
      | .error e => some e
      | .ok _ => none

/-- The objection to the first member to which there is one. -/
def firstObjection? (r : Registry) (host : String) (members : List (Member H)) : Option CompileError :=
  (List.range members.length).findSome? (objection? r host members)

private theorem objection?_length (r : Registry) (host : String) (done : List (Member H)) (m : Member H)
    (rest : List (Member H)) :
    objection? r host (done ++ m :: rest) done.length =
      if m.name ∈ done.map (·.name) then some (.binding (.duplicateMember host m.name))
      else
        match m.compile r host with
        | .error e => some e
        | .ok _ => none := by
  simp [objection?]

end Objections

namespace Cache

variable {F : HostFamily} {c : Cache F} {origin : Origin F} {h : F.Host}

/-- A member compiles if a set is cached under its key. -/
theorem Sourced.exists_compile (hc : c.Sourced origin) {m : Member (F.Instance h)}
    {s : Shared (AccessorSet (F.Instance h))} (hs : c.find? h m.key = some s) :
    ∃ set, m.compile c.registry (F.name h) = .ok set := by
  obtain ⟨m', -, hkey, hcompile⟩ := hc.find? hs
  have hprofile := Member.compile_of_key_eq hkey c.registry (F.name h)
  rw [hcompile] at hprofile
  obtain ⟨set, hset, -⟩ := map_eq_ok_iff.1 hprofile.symm
  exact ⟨set, hset⟩

/-- Building on from the members done ends with the first objection to one of the rest. -/
private theorem Sourced.build_rest (hc : c.Sourced origin) (done rest : List (Member (F.Instance h)))
    (seen : List String) (next : Nat) (hseen : ∀ name, name ∈ seen ↔ name ∈ done.map (·.name)) :
    (c.build h seen next rest).map (fun _ => ()) =
      verdict ((List.range' done.length rest.length).findSome?
        (objection? c.registry (F.name h) (done ++ rest))) := by
  induction rest generalizing done seen next with
  | nil => rfl
  | cons m rest ih =>
    have hrest : ∀ next, (c.build h (m.name :: seen) next rest).map (fun _ => ()) =
        verdict ((List.range' (done.length + 1) rest.length).findSome?
          (objection? c.registry (F.name h) (done ++ m :: rest))) := by
      intro next
      have hih := ih (done ++ [m]) (m.name :: seen) next (by simp [hseen, or_comm])
      rwa [List.append_assoc, List.singleton_append, List.length_append, List.length_singleton] at hih
    rw [List.length_cons, List.range'_succ, List.findSome?_cons, objection?_length, build]
    by_cases hdup : m.name ∈ seen
    · rw [if_pos hdup, if_pos ((hseen _).1 hdup)]
      rfl
    rw [if_neg hdup, if_neg (mt (hseen _).2 hdup)]
    cases hfound : c.find? h m.key with
    | some s =>
      obtain ⟨set, hset⟩ := hc.exists_compile hfound
      simp only [hset]
      rw [← hrest next]
      cases c.build h (m.name :: seen) next rest <;> rfl
    | none =>
      cases hcompile : m.compile c.registry (F.name h) with
      | error e => rfl
      | ok set =>
        simp only
        rw [← hrest (next + 1)]
        cases c.build h (m.name :: seen) (next + 1) rest <;> rfl

/-- Whether the members can be built does not depend on which of them are cached. -/
theorem Sourced.build_verdict (hc : c.Sourced origin) (members : List (Member (F.Instance h))) (next : Nat) :
    (c.build h [] next members).map (fun _ => ()) =
      verdict (firstObjection? c.registry (F.name h) members) := by
  rw [firstObjection?, List.range_eq_range']
  exact hc.build_rest [] members [] next (by simp)

/-- A request for a table that is not there succeeds or fails as the build does. -/
theorem Sourced.table_verdict (hc : c.Sourced origin) {members : List (Member (F.Instance h))}
    (hnone : c.table? h = none) :
    (c.table h members).1.map (fun _ => ()) = verdict (firstObjection? c.registry (F.name h) members) := by
  rw [← hc.build_verdict members c.nextId]
  cases hbuild : c.build h [] c.nextId members with
  | error e =>
    rw [table_of_error hnone hbuild]
    rfl
  | ok b =>
    rw [table_of_build hnone hbuild]
    rfl

/-- A request for a single member succeeds or fails as compiling it does. -/
theorem Sourced.getOrCompile_verdict (hc : c.Sourced origin) (m : Member (F.Instance h)) :
    (c.getOrCompile h m).1.map (fun _ => ()) = (m.compile c.registry (F.name h)).map fun _ => () := by
  cases hfound : c.find? h m.key with
  | some s =>
    obtain ⟨set, hset⟩ := hc.exists_compile hfound
    rw [getOrCompile_of_find? hfound, hset]
    rfl
  | none =>
    cases hcompile : m.compile c.registry (F.name h) with
    | error e =>
      rw [getOrCompile_of_error hfound hcompile]
      rfl
    | ok set =>
      rw [getOrCompile_of_compile hfound hcompile]
      rfl

/-- The members of a table that was asked for are all cached. -/
theorem contains_of_table {members : List (Member (F.Instance h))} {t : Shared (Table (F.Instance h))}
    (hnone : c.table? h = none) (ht : (c.table h members).1 = .ok t) :
    ∀ m ∈ members, (c.table h members).2.contains h m := by
  cases hbuild : c.build h [] c.nextId members with
  | error e =>
    rw [table_of_error hnone hbuild] at ht
    cases ht
  | ok b =>
    rw [table_of_build hnone hbuild]
    intro m hm
    rw [contains_iff, mem_places_publish hbuild]
    exact .inr (List.mem_map_of_mem hm)

/-- Building a table takes as many compilations as there are members that were not cached. -/
theorem compilations_table {members : List (Member (F.Instance h))} {t : Shared (Table (F.Instance h))}
    (hnone : c.table? h = none) (ht : (c.table h members).1 = .ok t) :
    (c.table h members).2.compilations = c.compilations + members.countP fun m => !c.contains h m := by
  cases hbuild : c.build h [] c.nextId members with
  | error e =>
    rw [table_of_error hnone hbuild] at ht
    cases ht
  | ok b =>
    have hlength := congrArg List.length (places_fresh hbuild)
    rw [List.length_map, List.length_map] at hlength
    rw [table_of_build hnone hbuild, List.countP_eq_length_filter, ← hlength]
    rfl

end Cache

end Memberwise
