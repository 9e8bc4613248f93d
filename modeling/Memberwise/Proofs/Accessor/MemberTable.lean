import Memberwise.Proofs.Accessor.Rivals

/-!
# Tables and their members

A table is built for a list of members, and a set that was cached before is taken as it is, even if another member with
the same key was compiled to it. The key leaves nothing open but the functions of a set
(`AccessorSet.Resembles.of_key_eq`). So whatever was requested before, the table shows what compiling its members afresh
would show: the same members, types and length modes in the same order, bound to the same operations.

Members with the same name cannot stand in one table, so a name leads to the set of the one member that has it
(`Table.byName?_eq_some_iff`). All of this together is `Table.Reflects`, and every table built reflects the members that
it was built for (`Cache.table_reflects`).
-/

namespace Memberwise

/-- Two accessor sets that differ in nothing but their functions. -/
structure AccessorSet.Resembles {H : Type} (s s' : AccessorSet H) : Prop where
  member : s.member = s'.member
  type : s.type = s'.type
  length : s.length = s'.length
  has : ∀ k, s.has k = s'.has k
  bindings : s.bindings = s'.bindings

theorem AccessorSet.Resembles.of_profile {H : Type} {s s' : AccessorSet H} (h : s.profile = s'.profile) :
    s.Resembles s' := by
  have hbound : s.boundName = s'.boundName := congrArg Profile.bound h
  refine ⟨congrArg Profile.member h, congrArg Profile.type h, congrArg Profile.length h, fun k => ?_,
    congrArg Profile.bindings h⟩
  rw [AccessorSet.has, AccessorSet.has, hbound]

/-- Whichever member with the key of `m` it was compiled from, a set resembles what `m` compiles to. -/
theorem AccessorSet.Resembles.of_key_eq {H : Type} {r : Registry} {host : String} {m m' : Member H}
    {s : AccessorSet H} (hkey : m'.key = m.key) (hcompile : m'.compile r host = .ok s) :
    ∃ fresh, m.compile r host = .ok fresh ∧ s.Resembles fresh := by
  have hprofile := Member.compile_of_key_eq hkey r host
  rw [hcompile] at hprofile
  obtain ⟨fresh, hfresh, hsame⟩ := map_eq_ok_iff.1 hprofile.symm
  exact ⟨fresh, hfresh, .of_profile hsame.symm⟩

theorem Member.member_of_compile {H : Type} {r : Registry} {host : String} {m : Member H} {s : AccessorSet H}
    (h : m.compile r host = .ok s) : s.member = m.name := by
  rw [compile_eq] at h
  split at h
  · cases h
  · cases h
    rfl

namespace Table

variable {H : Type} {t : Table H} {n : String} {i : Nat}

/-! ### By name -/

/-- No name leads to another set than the one that has it. -/
theorem byName?_eq_some_iff (hnodup : t.members.Nodup) {s : Shared (AccessorSet H)} (hs : s ∈ t.sets) :
    t.byName? n = some s ↔ n = s.value.member := by
  have hname {s' : Shared (AccessorSet H)} (hfound : t.byName? n = some s') : s'.value.member = n := by
    simpa using List.find?_some hfound
  constructor
  · intro hfound
    exact (hname hfound).symm
  · intro hn
    cases hfound : t.byName? n with
    | none => exact absurd hn.symm (by simpa using List.find?_eq_none.1 hfound s hs)
    | some s' =>
      rw [List.inj_on_of_nodup_map hnodup (List.mem_of_find?_eq_some hfound) hs ((hname hfound).trans hn)]

theorem byName?_eq_none_iff : t.byName? n = none ↔ n ∉ t.members := by
  simp only [byName?, members, List.find?_eq_none, decide_eq_true_eq, List.mem_map, not_exists, not_and]

/-! ### By place -/

/-- The table has a set for every member of a list, in its order, which resembles what the member compiles to now. It is
found by the name of the member, and by no other name. -/
structure Reflects (r : Registry) (host : String) (members : List (Member H)) (t : Table H) : Prop where
  size : t.size = members.length
  names : t.members = members.map (·.name)
  nodup : (members.map (·.name)).Nodup
  resembles : ∀ i m, members[i]? = some m → ∃ s fresh, t.get? i = some s ∧ m.compile r host = .ok fresh ∧
    s.value.Resembles fresh
  byName : ∀ i m, members[i]? = some m → ∀ n, t.byName? n = t.get? i ↔ n = m.name
  byName_none : ∀ n, t.byName? n = none ↔ ∀ m ∈ members, m.name ≠ n

/-- A table reflects members that have different names and the keys of those that its sets were compiled from. -/
theorem Reflects.of_sources {r : Registry} {host : String} {members : List (Member H)}
    (hnodup : (members.map (·.name)).Nodup)
    (hsources : List.Forall₂ (fun m s => ∃ m' : Member H, m'.key = m.key ∧ m'.compile r host = .ok s.value) members
      t.sets) : t.Reflects r host members := by
  have hresembles : List.Forall₂ (fun m s => ∃ fresh, m.compile r host = .ok fresh ∧ s.value.Resembles fresh) members
      t.sets := hsources.imp fun m s ⟨_, hkey, hcompile⟩ => AccessorSet.Resembles.of_key_eq hkey hcompile
  have hname : List.Forall₂ (fun m s => m.name = s.value.member) members t.sets := by
    refine hresembles.imp fun m s ⟨fresh, hcompile, hs⟩ => ?_
    rw [hs.member, Member.member_of_compile hcompile]
  have hmembers : t.members = members.map (·.name) := by
    have hnames : List.Forall₂ (· = ·) (members.map (·.name)) t.members :=
      List.forall₂_map_left_iff.2 (List.forall₂_map_right_iff.2 hname)
    rw [List.forall₂_eq_eq_eq] at hnames
    exact hnames.symm
  obtain ⟨hlength, hplace⟩ := List.forall₂_iff_get.1 hresembles
  have hget {i : Nat} {m : Member H} (hm : members[i]? = some m) : ∃ s fresh, t.get? i = some s ∧
      m.compile r host = .ok fresh ∧ s.value.Resembles fresh := by
    obtain ⟨hi, rfl⟩ := List.getElem?_eq_some_iff.1 hm
    obtain ⟨fresh, hcompile, hs⟩ := hplace i hi (hlength ▸ hi)
    exact ⟨_, fresh, List.getElem?_eq_getElem _, hcompile, hs⟩
  refine ⟨hlength.symm, hmembers, hnodup, fun i m hm => hget hm, fun i m hm n => ?_, fun n => ?_⟩
  · obtain ⟨s, fresh, hs, hcompile, hfresh⟩ := hget hm
    rw [hs, byName?_eq_some_iff (hmembers ▸ hnodup) (List.mem_of_getElem? hs), hfresh.member,
      Member.member_of_compile hcompile]
  · rw [byName?_eq_none_iff, hmembers]
    simp only [List.mem_map, not_exists, not_and]

end Table

namespace Cache

variable {F : HostFamily}

theorem nodup_of_table {c : Cache F} {h : F.Host} {members : List (Member (F.Instance h))}
    {t : Shared (Table (F.Instance h))} (hfresh : c.table? h = none) (ht : (c.table h members).1 = .ok t) :
    (members.map (·.name)).Nodup := by
  rcases c.table_cases h members with ⟨e, heq⟩ | ⟨t', hsome, -⟩ | ⟨b, -, hb, -⟩
  · rw [heq] at ht
    cases ht
  · rw [hfresh] at hsome
    cases hsome
  · exact (names_of_build hb).1

/-- A table that is built for a list of members is published and reflects them, whatever was requested of the cache
before. -/
theorem table_reflects (r : Registry) (requests : List (Request F)) (h : F.Host) (members : List (Member (F.Instance h)))
    (t : Shared (Table (F.Instance h))) (hfresh : (inUse r requests).table? h = none)
    (ht : ((inUse r requests).table h members).1 = .ok t) :
    ((inUse r requests).table h members).2.table? h = some t ∧ t.value.Reflects r (F.name h) members := by
  refine ⟨table?_of_table ht, .of_sources (nodup_of_table hfresh ht) ?_⟩
  exact (exists_answeredBy_table hfresh ht).imp fun m s ⟨m', hanswered, hcompile⟩ => ⟨m', hanswered.1, hcompile⟩

end Cache

namespace Pair

/-- A pair of which the number on the right was presented as the one on the left before: the set compiled then is in the
table, next to one that is new. -/
theorem table_reflects_onRight :
    let c := Cache.inUse (F := family) (Registry.builtin {}) [.getOrCompile () onRight]
    let members := [onLeft, { onRight with name := "y" }]
    c.table? () = none ∧ ∃ t, (c.table () members).1 = .ok t ∧
      (c.get? () onRight).map (·.id) = (t.value.get? 0).map (·.id) ∧
      t.value.Reflects (Registry.builtin {}) "Pair" members := by
  intro c members
  have hfresh : c.table? () = none := by decide +kernel
  have hreused : (c.table () members).1.map (fun t => (t.value.get? 0).map (·.id)) =
      .ok ((c.get? () onRight).map (·.id)) := by decide +kernel
  obtain ⟨t, ht, hid⟩ := map_eq_ok_iff.1 hreused
  exact ⟨hfresh, t, ht, hid.symm, (Cache.table_reflects (F := family) (Registry.builtin {}) _ () members t hfresh ht).2⟩

end Pair

end Memberwise
