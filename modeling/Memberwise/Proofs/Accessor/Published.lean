import Mathlib.Data.List.Forall2
import Mathlib.Data.List.Nodup
import Memberwise.Accessor.Cache
import Memberwise.Proofs.Accessor.Binding

/-!
# What a cache has published

Every accessor set in a cache was compiled from some member with the key that it is kept under (`Cache.Sourced`), and
every table was built from the members that its host type declares (`Cache.Sound`). Compiling a member and building a
table keep this (`Cache.Sound.getOrCompile`, `Cache.Sound.table`), whichever of them come first and whether they succeed
or not.

Which members sets were compiled from is a parameter of the invariant. If none of them can be taken for a declared
member that it is not, a published table holds exactly what its members compile to (`Mirrors.compiled`), since members
of one table differ in name and so in key.
-/

namespace Memberwise

/-- The members that every host type of a family declares. -/
abbrev Locator (F : HostFamily) := (h : F.Host) → List (Member (F.Instance h))

/-- Which members of every host type of a family were ever compiled. -/
abbrev Origin (F : HostFamily) := (h : F.Host) → Member (F.Instance h) → Prop

/-- An accessor set that some member with the given key compiles to. -/
def CompiledFor {H : Type} (r : Registry) (host : String) (origin : Member H → Prop) (key : Key)
    (s : AccessorSet H) : Prop :=
  ∃ m, origin m ∧ m.key = key ∧ m.compile r host = .ok s

/-- Accessor sets for the members of a list, one each, whose names differ. -/
structure Mirrors {H : Type} (r : Registry) (host : String) (origin : Member H → Prop) (members : List (Member H))
    (sets : List (Shared (AccessorSet H))) : Prop where
  nodup : (members.map (·.name)).Nodup
  compiledFor : List.Forall₂ (fun m s => CompiledFor r host origin m.key s.value) members sets

/-- Accessor sets that the members of a list compile to, one each. -/
def Compiled {H : Type} (r : Registry) (host : String) (members : List (Member H)) (sets : List (AccessorSet H)) :
    Prop :=
  List.Forall₂ (fun m s => m.compile r host = .ok s) members sets

/-- A compiled accessor set can be used as its key says. -/
theorem CompiledFor.capability {H : Type} {r : Registry} {host : String} {origin : Member H → Prop} {key : Key}
    {s : AccessorSet H} (h : CompiledFor r host origin key s) :
    s.isReadable = key.readable ∧ s.isWritable = key.writable := by
  obtain ⟨m, -, rfl, hcompile⟩ := h
  exact (Member.binds_of_compile hcompile).capability

/-- Whatever is in the second of two lists is related to something in the first. -/
theorem exists_of_forall₂ {α β : Type*} {R : α → β → Prop} {as : List α} {bs : List β} (h : List.Forall₂ R as bs)
    {b : β} (hb : b ∈ bs) : ∃ a ∈ as, R a b := by
  induction h with
  | nil => cases hb
  | @cons a b' as bs hab _ ih =>
    rcases List.mem_cons.1 hb with rfl | hb
    · exact ⟨a, .head _, hab⟩
    · obtain ⟨a', ha', hab'⟩ := ih hb
      exact ⟨a', .tail _ ha', hab'⟩

theorem Mirrors.exists_of_mem {H : Type} {r : Registry} {host : String} {origin : Member H → Prop}
    {members : List (Member H)} {sets : List (Shared (AccessorSet H))} (h : Mirrors r host origin members sets)
    {s : Shared (AccessorSet H)} (hs : s ∈ sets) : ∃ m ∈ members, CompiledFor r host origin m.key s.value :=
  exists_of_forall₂ h.compiledFor hs

/-- A member of the list, or one that does not share its key with any: it cannot be taken for another one. -/
def Member.Genuine {H : Type} (members : List (Member H)) (m : Member H) : Prop :=
  m ∈ members ∨ ∀ m' ∈ members, m'.key ≠ m.key

/-- If only genuine members were compiled, the sets are what the members of the list compile to. -/
theorem Mirrors.compiled {H : Type} {r : Registry} {host : String} {members : List (Member H)}
    {sets : List (Shared (AccessorSet H))} (h : Mirrors r host (Member.Genuine members) members sets) :
    Compiled r host members (sets.map (·.value)) := by
  rw [Compiled, List.forall₂_map_right_iff]
  have hmem := List.forall₂_iff_zip.1 h.compiledFor
  refine List.forall₂_iff_zip.2 ⟨hmem.1, fun {m s} hzip => ?_⟩
  obtain ⟨m', hgenuine, hkey, hcompile⟩ := hmem.2 hzip
  have hm : m ∈ members := (List.of_mem_zip hzip).1
  rcases hgenuine with hm' | hother
  · have hname : m'.name = m.name := congrArg Key.member hkey
    rwa [← List.inj_on_of_nodup_map h.nodup hm' hm hname]
  · exact absurd hkey.symm (hother m hm)

theorem Compiled.imp {H : Type} {r : Registry} {host : String} {members : List (Member H)}
    {sets : List (AccessorSet H)} {R : Member H → AccessorSet H → Prop} (h : Compiled r host members sets)
    (himp : ∀ m ∈ members, ∀ s, m.compile r host = .ok s → R m s) : List.Forall₂ R members sets := by
  have hboth := List.forall₂_iff_zip.1 h
  refine List.forall₂_iff_zip.2 ⟨hboth.1, fun {m s} hzip => ?_⟩
  exact himp m (List.of_mem_zip hzip).1 s (hboth.2 hzip)

theorem Compiled.unique {H : Type} {r : Registry} {host : String} {members : List (Member H)}
    {sets sets' : List (AccessorSet H)} (h : Compiled r host members sets) (h' : Compiled r host members sets') :
    sets = sets' := by
  refine List.right_unique_forall₂' (fun m s s' hs hs' => ?_) h h'
  rw [hs, Except.ok.injEq] at hs'
  exact hs'

theorem exists_append_of_forall₂ {α β : Type*} {R : α → β → Prop} {first second : List α} {bs : List β}
    (h : List.Forall₂ R (first ++ second) bs) :
    ∃ bs₁ bs₂, List.Forall₂ R first bs₁ ∧ List.Forall₂ R second bs₂ ∧ bs = bs₁ ++ bs₂ := by
  induction first generalizing bs with
  | nil => exact ⟨[], bs, .nil, h, rfl⟩
  | cons a first ih =>
    obtain ⟨b, bs', ha, hrest, rfl⟩ := List.forall₂_cons_left_iff.1 h
    obtain ⟨bs₁, bs₂, h₁, h₂, rfl⟩ := ih hrest
    exact ⟨b :: bs₁, bs₂, .cons ha h₁, h₂, rfl⟩

theorem Compiled.exists_of_mem {H : Type} {r : Registry} {host : String} {members : List (Member H)}
    {sets : List (AccessorSet H)} (h : Compiled r host members sets) (m : Member H) (hm : m ∈ members) :
    ∃ s, m.compile r host = .ok s := by
  obtain ⟨s, -, hs⟩ := exists_of_forall₂ (List.Forall₂.flip h) hm
  exact ⟨s, hs⟩

namespace Cache

variable {F : HostFamily} {locate : Locator F} {origin : Origin F}

theorem isSome_table? {c : Cache F} {h : F.Host} : (c.table? h).isSome ↔ c.hasTable h := by
  simp only [table?, hasTable, List.isSome_findSome?, List.any_eq_true, PublishedTable.as?, decide_eq_true_eq]
  refine exists_congr fun p => and_congr_right fun _ => ?_
  split <;> simp_all

/-! ### Building -/

section Build

variable {c : Cache F} {h : F.Host} {members : List (Member (F.Instance h))} {seen : List String} {next : Nat}
  {b : Built F h}

/-- A build takes the members one by one: each has a new name, and is taken from the cache or compiled. -/
theorem build_cons_eq_ok {m : Member (F.Instance h)} {rest : List (Member (F.Instance h))}
    (hb : c.build h seen next (m :: rest) = .ok b) :
    m.name ∉ seen ∧
      ((∃ s b', c.find? h m.key = some s ∧ c.build h (m.name :: seen) next rest = .ok b' ∧
          b = ⟨s :: b'.sets, b'.fresh⟩) ∨
        ∃ set b', c.find? h m.key = none ∧ m.compile c.registry (F.name h) = .ok set ∧
          c.build h (m.name :: seen) (next + 1) rest = .ok b' ∧
          b = ⟨⟨next, set⟩ :: b'.sets, ⟨h, m.key, ⟨next, set⟩⟩ :: b'.fresh⟩) := by
  unfold build at hb
  split at hb
  · cases hb
  next hseen =>
  refine ⟨hseen, ?_⟩
  split at hb
  · next s hs =>
    obtain ⟨b', hb', hb⟩ := bind_eq_ok_iff.1 hb
    cases hb
    exact .inl ⟨s, b', hs, hb', rfl⟩
  · next hnone =>
    obtain ⟨set, hset, hb⟩ := bind_eq_ok_iff.1 hb
    obtain ⟨b', hb', hb⟩ := bind_eq_ok_iff.1 hb
    cases hb
    exact .inr ⟨set, b', hnone, hset, hb', rfl⟩

/-- The names of the members are new and differ. -/
theorem names_of_build (hb : c.build h seen next members = .ok b) :
    (members.map (·.name)).Nodup ∧ ∀ m ∈ members, m.name ∉ seen := by
  induction members generalizing seen next b with
  | nil => exact ⟨List.nodup_nil, by simp⟩
  | cons m rest ih =>
    obtain ⟨hseen, hrest⟩ := build_cons_eq_ok hb
    -- whatever the rest is built with has seen the name of `m`
    have hnames : (rest.map (·.name)).Nodup ∧ ∀ m' ∈ rest, m'.name ∉ m.name :: seen := by
      rcases hrest with ⟨s, b', -, hb', -⟩ | ⟨set, b', -, -, hb', -⟩
      · exact ih hb'
      · exact ih hb'
    obtain ⟨hnodup, hnew⟩ := hnames
    constructor
    · rw [List.map_cons, List.nodup_cons]
      refine ⟨fun hmem => ?_, hnodup⟩
      obtain ⟨m', hm', hname⟩ := List.mem_map.1 hmem
      exact hnew m' hm' (hname ▸ .head _)
    · intro m' hm'
      rcases List.mem_cons.1 hm' with rfl | hm'
      · exact hseen
      · exact fun hmem => hnew m' hm' (.tail _ hmem)

/-- For every member a build has the set cached under its key, or if there is none the one that it compiles to. -/
theorem sets_of_build (hb : c.build h seen next members = .ok b) :
    List.Forall₂ (fun m s => c.find? h m.key = some s ∨
      c.find? h m.key = none ∧ m.compile c.registry (F.name h) = .ok s.value) members b.sets := by
  induction members generalizing seen next b with
  | nil =>
    cases hb
    exact .nil
  | cons m rest ih =>
    obtain ⟨-, ⟨s, b', hs, hb', rfl⟩ | ⟨set, b', hnone, hset, hb', rfl⟩⟩ := build_cons_eq_ok hb
    · exact .cons (.inl hs) (ih hb')
    · exact .cons (.inr ⟨hnone, hset⟩) (ih hb')

/-- What is new among the sets was compiled from one of the members. -/
theorem fresh_of_build (hb : c.build h seen next members = .ok b) {e : Entry F} (he : e ∈ b.fresh) :
    ∃ m ∈ members, ∃ s, e = ⟨h, m.key, s⟩ ∧ m.compile c.registry (F.name h) = .ok s.value := by
  induction members generalizing seen next b with
  | nil =>
    cases hb
    cases he
  | cons m rest ih =>
    have hlater {b' : Built F h} {next' : Nat} (hb' : c.build h (m.name :: seen) next' rest = .ok b')
        (he : e ∈ b'.fresh) : ∃ m' ∈ m :: rest, ∃ s, e = ⟨h, m'.key, s⟩ ∧
          m'.compile c.registry (F.name h) = .ok s.value := by
      obtain ⟨m', hm', hcompiled⟩ := ih hb' he
      exact ⟨m', .tail _ hm', hcompiled⟩
    obtain ⟨-, ⟨s, b', -, hb', rfl⟩ | ⟨set, b', -, hset, hb', rfl⟩⟩ := build_cons_eq_ok hb
    · exact hlater hb' he
    · rcases List.mem_cons.1 he with rfl | he
      · exact ⟨m, .head _, ⟨next, set⟩, rfl, hset⟩
      · exact hlater hb' he

end Build

theorem exists_build {c : Cache F} {h : F.Host} {members : List (Member (F.Instance h))} (seen : List String)
    (next : Nat) (hnodup : (members.map (·.name)).Nodup) (hnew : ∀ m ∈ members, m.name ∉ seen)
    (hcompile : ∀ m ∈ members, ∃ s, m.compile c.registry (F.name h) = .ok s) :
    ∃ b, c.build h seen next members = .ok b := by
  induction members generalizing seen next with
  | nil => exact ⟨_, rfl⟩
  | cons m rest ih =>
    rw [List.map_cons, List.nodup_cons] at hnodup
    have hrest : ∀ m' ∈ rest, m'.name ∉ m.name :: seen := by
      intro m' hm' hmem
      rcases List.mem_cons.1 hmem with heq | hmem
      · exact hnodup.1 (heq ▸ List.mem_map_of_mem hm')
      · exact hnew m' (.tail _ hm') hmem
    have hok : ∀ m' ∈ rest, ∃ s, m'.compile c.registry (F.name h) = .ok s := fun m' hm' => hcompile m' (.tail _ hm')
    rw [Cache.build, if_neg (hnew m (.head _))]
    split
    · obtain ⟨b, hb⟩ := ih (m.name :: seen) next hnodup.2 hrest hok
      exact ⟨_, bind_eq_ok_iff.2 ⟨b, hb, rfl⟩⟩
    · obtain ⟨s, hs⟩ := hcompile m (.head _)
      obtain ⟨b, hb⟩ := ih (m.name :: seen) (next + 1) hnodup.2 hrest hok
      exact ⟨_, bind_eq_ok_iff.2 ⟨s, hs, bind_eq_ok_iff.2 ⟨b, hb, rfl⟩⟩⟩

/-! ### Operations on the cache -/

/-- A member is answered with the set cached under its key, or with what it compiles to, which is then published. -/
theorem getOrCompile_cases (c : Cache F) (h : F.Host) (m : Member (F.Instance h)) :
    (∃ s, c.find? h m.key = some s ∧ c.getOrCompile h m = (.ok s, c)) ∨
      (∃ e, m.compile c.registry (F.name h) = .error e ∧ c.getOrCompile h m = (.error e, c)) ∨
      ∃ s, m.compile c.registry (F.name h) = .ok s.value ∧
        c.getOrCompile h m = (.ok s, (c.insertSets [⟨h, m.key, s⟩]).count 1) := by
  unfold getOrCompile
  split
  · next s hs => exact .inl ⟨s, hs, rfl⟩
  split
  · next e he => exact .inr (.inl ⟨e, he, rfl⟩)
  · next set hset => exact .inr (.inr ⟨⟨c.nextId, set⟩, hset, rfl⟩)

/-- A host type is answered with the table published for it, or with one that is built, which is then published. -/
theorem table_cases (c : Cache F) (h : F.Host) (members : List (Member (F.Instance h))) :
    (∃ e, c.table h members = (.error e, c)) ∨
      (∃ t, c.table? h = some t ∧ c.table h members = (.ok t, c)) ∨
      ∃ b, c.table? h = none ∧ c.build h [] c.nextId members = .ok b ∧
        c.table h members = (.ok ⟨c.nextId + b.fresh.length, ⟨b.sets⟩⟩, c.publish h b) := by
  unfold table
  split
  · next t ht => exact .inr (.inl ⟨t, ht, rfl⟩)
  next hnone =>
  split
  · next e _ => exact .inl ⟨e, rfl⟩
  · next b hb => exact .inr (.inr ⟨b, hnone, hb, rfl⟩)

theorem table?_of_table {c : Cache F} {h : F.Host} {members : List (Member (F.Instance h))}
    {t : Shared (Table (F.Instance h))} (ht : (c.table h members).1 = .ok t) :
    (c.table h members).2.table? h = some t := by
  rcases c.table_cases h members with ⟨e, heq⟩ | ⟨t', hsome, heq⟩ | ⟨b, hnone, -, heq⟩
  · rw [heq] at ht
    cases ht
  · rw [heq] at ht ⊢
    cases ht
    exact hsome
  · rw [heq] at ht ⊢
    cases ht
    have hself : PublishedTable.as? ⟨h, ⟨(c.insertSets b.fresh).nextId, ⟨b.sets⟩⟩⟩ h =
        some ⟨c.nextId + b.fresh.length, ⟨b.sets⟩⟩ := by rw [PublishedTable.as?, dif_pos rfl, insertSets]
    change (c.tables ++ [_]).findSome? (PublishedTable.as? · h) = _
    rw [List.findSome?_append, show c.tables.findSome? (·.as? h) = none from hnone, List.findSome?_singleton, hself,
      Option.none_or]

/-- A table that was not built leaves nothing behind; one that was is published. -/
theorem table_failed_or_published (c : Cache F) (h : F.Host) (members : List (Member (F.Instance h))) :
    (∃ e, c.table h members = (.error e, c)) ∨
      ∃ t, (c.table h members).1 = .ok t ∧ (c.table h members).2.table? h = some t := by
  have hpublished : ∀ t, (c.table h members).1 = .ok t →
      ∃ t, (c.table h members).1 = .ok t ∧ (c.table h members).2.table? h = some t :=
    fun t ht => ⟨t, ht, table?_of_table ht⟩
  rcases c.table_cases h members with ⟨e, heq⟩ | ⟨t, -, heq⟩ | ⟨b, -, -, heq⟩
  · exact .inl ⟨e, heq⟩
  · exact .inr (hpublished _ (congrArg Prod.fst heq))
  · exact .inr (hpublished _ (congrArg Prod.fst heq))

theorem registry_getOrCompile (c : Cache F) (h : F.Host) (m : Member (F.Instance h)) :
    (c.getOrCompile h m).2.registry = c.registry := by
  rcases c.getOrCompile_cases h m with ⟨s, -, heq⟩ | ⟨e, -, heq⟩ | ⟨s, -, heq⟩
  · rw [heq]
  · rw [heq]
  · rw [heq]
    rfl

theorem registry_table (c : Cache F) (h : F.Host) (members : List (Member (F.Instance h))) :
    (c.table h members).2.registry = c.registry := by
  rcases c.table_cases h members with ⟨e, heq⟩ | ⟨t, -, heq⟩ | ⟨b, -, -, heq⟩
  · rw [heq]
  · rw [heq]
  · rw [heq]
    rfl

theorem hasTable_getOrCompile (c : Cache F) (h h' : F.Host) (m : Member (F.Instance h)) :
    (c.getOrCompile h m).2.hasTable h' = c.hasTable h' := by
  rcases c.getOrCompile_cases h m with ⟨s, -, heq⟩ | ⟨e, -, heq⟩ | ⟨s, -, heq⟩
  · rw [heq]
  · rw [heq]
  · rw [heq]
    rfl

theorem hasTable_of_table {c : Cache F} {h h' : F.Host} {members : List (Member (F.Instance h))}
    (hhas : (c.table h members).2.hasTable h') : c.hasTable h' ∨ h = h' := by
  rcases c.table_cases h members with ⟨e, heq⟩ | ⟨t, -, heq⟩ | ⟨b, -, -, heq⟩
  · rw [heq] at hhas
    exact .inl hhas
  · rw [heq] at hhas
    exact .inl hhas
  · rw [heq] at hhas
    simpa [hasTable, publish, insertTable, insertSets, count] using hhas

/-! ### Where accessor sets come from -/

/-- Every single set published was compiled for its key from a member of the given origin. -/
structure Sourced (c : Cache F) (origin : Origin F) : Prop where
  entries : ∀ e ∈ c.entries, CompiledFor c.registry (F.name e.host) (origin e.host) e.key e.set.value

theorem Sourced.find? {c : Cache F} (hc : c.Sourced origin) {h : F.Host} {key : Key}
    {s : Shared (AccessorSet (F.Instance h))} (hs : c.find? h key = some s) :
    CompiledFor c.registry (F.name h) (origin h) key s.value := by
  obtain ⟨e, he, has⟩ := List.exists_of_findSome?_eq_some hs
  unfold Entry.as? at has
  split at has
  · next heq =>
    obtain ⟨rfl, rfl⟩ := heq
    cases has
    exact hc.entries e he
  · cases has

theorem Sourced.append {c c' : Cache F} (hc : c.Sourced origin) (hregistry : c'.registry = c.registry)
    {fresh : List (Entry F)} (hentries : c'.entries = c.entries ++ fresh)
    (hfresh : ∀ e ∈ fresh, CompiledFor c.registry (F.name e.host) (origin e.host) e.key e.set.value) :
    c'.Sourced origin := by
  refine ⟨fun e he => ?_⟩
  rw [hregistry]
  rw [hentries] at he
  rcases List.mem_append.1 he with he | he
  · exact hc.entries e he
  · exact hfresh e he

theorem Sourced.getOrCompile {c : Cache F} (hc : c.Sourced origin) {h : F.Host} {m : Member (F.Instance h)}
    (hm : origin h m) : (c.getOrCompile h m).2.Sourced origin := by
  rcases c.getOrCompile_cases h m with ⟨s, -, heq⟩ | ⟨e, -, heq⟩ | ⟨s, hcompile, heq⟩
  · rwa [heq]
  · rwa [heq]
  · rw [heq]
    refine hc.append rfl rfl fun e he => ?_
    rw [List.mem_singleton] at he
    subst he
    exact ⟨m, hm, rfl, hcompile⟩

theorem Sourced.table {c : Cache F} (hc : c.Sourced origin) {h : F.Host} {members : List (Member (F.Instance h))}
    (horigin : ∀ m ∈ members, origin h m) : (c.table h members).2.Sourced origin := by
  rcases c.table_cases h members with ⟨e, heq⟩ | ⟨t, -, heq⟩ | ⟨b, -, hb, heq⟩
  · rwa [heq]
  · rwa [heq]
  · rw [heq]
    refine hc.append rfl rfl fun e he => ?_
    obtain ⟨m, hm, s, rfl, hcompile⟩ := fresh_of_build hb he
    exact ⟨m, horigin m hm, rfl, hcompile⟩

/-! ### What tables hold -/

/-- Everything published was compiled from members of the given origin: single sets for their keys, tables for the
members that their host types declare. -/
structure Sound (c : Cache F) (locate : Locator F) (origin : Origin F) : Prop extends Sourced c origin where
  tables : ∀ p ∈ c.tables,
    Mirrors c.registry (F.name p.host) (origin p.host) (locate p.host) p.table.value.sets

theorem Sound.table? {c : Cache F} (hc : c.Sound locate origin) {h : F.Host}
    {t : Shared (Table (F.Instance h))} (ht : c.table? h = some t) :
    Mirrors c.registry (F.name h) (origin h) (locate h) t.value.sets := by
  obtain ⟨p, hp, has⟩ := List.exists_of_findSome?_eq_some ht
  unfold PublishedTable.as? at has
  split at has
  · next heq =>
    subst heq
    cases has
    exact hc.tables p hp
  · cases has

/-- What is built mirrors the members that it is built for. -/
theorem Sourced.mirrors_of_build {c : Cache F} (hc : c.Sourced origin) {h : F.Host}
    {members : List (Member (F.Instance h))} (horigin : ∀ m ∈ members, origin h m) {next : Nat} {b : Built F h}
    (hb : c.build h [] next members = .ok b) : Mirrors c.registry (F.name h) (origin h) members b.sets := by
  have hboth := List.forall₂_iff_zip.1 (sets_of_build hb)
  refine ⟨(names_of_build hb).1, List.forall₂_iff_zip.2 ⟨hboth.1, fun {m s} hzip => ?_⟩⟩
  rcases hboth.2 hzip with hfound | ⟨-, hcompile⟩
  · exact hc.find? hfound
  · exact ⟨m, horigin m (List.of_mem_zip hzip).1, rfl, hcompile⟩

theorem Sound.getOrCompile {c : Cache F} (hc : c.Sound locate origin) {h : F.Host} {m : Member (F.Instance h)}
    (hm : origin h m) : (c.getOrCompile h m).2.Sound locate origin := by
  refine ⟨hc.toSourced.getOrCompile hm, ?_⟩
  rcases c.getOrCompile_cases h m with ⟨s, -, heq⟩ | ⟨e, -, heq⟩ | ⟨s, -, heq⟩ <;> rw [heq] <;> exact hc.tables

theorem Sound.table {c : Cache F} (hc : c.Sound locate origin) {h : F.Host}
    (horigin : ∀ m ∈ locate h, origin h m) : (c.table h (locate h)).2.Sound locate origin := by
  refine ⟨hc.toSourced.table horigin, ?_⟩
  rcases c.table_cases h (locate h) with ⟨e, heq⟩ | ⟨t, -, heq⟩ | ⟨b, -, hb, heq⟩
  · rw [heq]
    exact hc.tables
  · rw [heq]
    exact hc.tables
  · rw [heq]
    intro p hp
    rcases List.mem_append.1 hp with hp | hp
    · exact hc.tables p hp
    · rw [List.mem_singleton] at hp
      subst hp
      exact hc.toSourced.mirrors_of_build horigin hb

/-- A table that was asked for mirrors the members that its host type declares, whether it was published before or
not. -/
theorem Sound.mirrors {c : Cache F} (hc : c.Sound locate origin) {h : F.Host}
    {t : Shared (Table (F.Instance h))} (horigin : ∀ m ∈ locate h, origin h m)
    (ht : (c.table h (locate h)).1 = .ok t) :
    Mirrors c.registry (F.name h) (origin h) (locate h) t.value.sets := by
  have hmirrors := (hc.table horigin).table? (table?_of_table ht)
  rwa [registry_table] at hmirrors

theorem exists_table {c : Cache F} {h : F.Host} {members : List (Member (F.Instance h))}
    (hnodup : (members.map (·.name)).Nodup)
    (hcompile : ∀ m ∈ members, ∃ s, m.compile c.registry (F.name h) = .ok s) :
    ∃ t, (c.table h members).1 = .ok t := by
  unfold Cache.table
  split
  · exact ⟨_, rfl⟩
  · obtain ⟨b, hb⟩ := exists_build [] c.nextId hnodup (by simp) hcompile
    exact ⟨_, by rw [hb]⟩

end Cache

end Memberwise
