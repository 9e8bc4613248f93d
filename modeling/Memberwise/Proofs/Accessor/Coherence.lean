import Mathlib.Data.List.Induction
import Memberwise.Proofs.Accessor.Requests

/-!
# Coherent caches

A request publishes some accessor sets and at most one table, all of them under places that were free, numbered on from
the number that the cache has come to, and counted (`Cache.publishes_after`). Everything else about a cache in use
follows from this one fact:

* nothing that was published is ever replaced or lost (`Cache.Grows`);
* no place is taken twice, every object has an identity of its own, and there are as many accessor sets as compilations
  were counted (`Cache.Coherent`).

So what is published under a place is what is found there, then and ever after.
-/

namespace Memberwise

variable {F : HostFamily}

/-! ### Places -/

/-- What an accessor set is found by. -/
def Entry.place (e : Entry F) : F.Host × Key := (e.host, e.key)

theorem Entry.as?_eq_some_iff {e : Entry F} {h : F.Host} {key : Key} {s : Shared (AccessorSet (F.Instance h))} :
    e.as? h key = some s ↔ e = ⟨h, key, s⟩ := by
  obtain ⟨host, key', set⟩ := e
  constructor
  · intro has
    unfold Entry.as? at has
    split at has
    · next heq =>
      obtain ⟨rfl, rfl⟩ := heq
      cases has
      rfl
    · cases has
  · intro heq
    cases heq
    simp [Entry.as?]

namespace Request

/-- What a request is answered with. -/
def Reply : Request F → Type
  | .getOrCompile h _ => Shared (AccessorSet (F.Instance h))
  | .table h _ => Shared (Table (F.Instance h))

/-- The places of the accessor sets that are asked for. -/
def places : Request F → List (F.Host × Key)
  | .getOrCompile h m => [(h, m.key)]
  | .table h members => members.map fun m => (h, m.key)

/-- The host types whose tables are asked for. -/
def hosts : Request F → List F.Host
  | .getOrCompile .. => []
  | .table h _ => [h]

end Request

namespace Cache

variable {c c' : Cache F} {h : F.Host} {key : Key}

/-- The places that are taken, in the order of publication. -/
def places (c : Cache F) : List (F.Host × Key) := c.entries.map Entry.place

/-- The host types that have a table, in the order of publication. -/
def hosts (c : Cache F) : List F.Host := c.tables.map (·.host)

/-- The identities of all published objects. -/
def identities (c : Cache F) : List Nat := c.entries.map (·.set.id) ++ c.tables.map (·.table.id)

theorem mem_of_find? {s : Shared (AccessorSet (F.Instance h))} (hs : c.find? h key = some s) :
    (⟨h, key, s⟩ : Entry F) ∈ c.entries := by
  obtain ⟨e, he, has⟩ := List.exists_of_findSome?_eq_some hs
  rwa [Entry.as?_eq_some_iff.1 has] at he

theorem isSome_find? : (c.find? h key).isSome ↔ (h, key) ∈ c.places := by
  simp only [find?, places, List.isSome_findSome?, List.any_eq_true, List.mem_map]
  refine exists_congr fun e => and_congr_right fun _ => ?_
  rw [Entry.place, Prod.mk.injEq]
  unfold Entry.as?
  split <;> simp_all

theorem find?_eq_none : c.find? h key = none ↔ (h, key) ∉ c.places := by
  rw [← isSome_find?, Option.not_isSome_iff_eq_none]

/-- Where no place is taken twice, an accessor set is found at the place where it is published. -/
theorem find?_of_mem (hplaces : c.places.Nodup) {s : Shared (AccessorSet (F.Instance h))}
    (hs : (⟨h, key, s⟩ : Entry F) ∈ c.entries) : c.find? h key = some s := by
  have hsome : (c.find? h key).isSome := isSome_find?.2 (List.mem_map_of_mem (f := Entry.place) hs)
  obtain ⟨s', hs'⟩ := Option.isSome_iff_exists.1 hsome
  have heq := List.inj_on_of_nodup_map hplaces (mem_of_find? hs') hs rfl
  cases heq
  exact hs'

theorem contains_iff {m : Member (F.Instance h)} : c.contains h m ↔ (h, m.key) ∈ c.places := by
  simp [contains, places, Entry.place]

theorem contains_eq (m : Member (F.Instance h)) : c.contains h m = (c.get? h m).isSome := by
  rw [Bool.eq_iff_iff, contains_iff, get?, isSome_find?]

theorem hasTable_iff : c.hasTable h ↔ h ∈ c.hosts := by simp [hasTable, hosts]

theorem table?_eq_none : c.table? h = none ↔ h ∉ c.hosts := by
  rw [← hasTable_iff, ← isSome_table?, Option.not_isSome_iff_eq_none]

theorem hasTable_eq_false : c.hasTable h = false ↔ c.table? h = none := by
  rw [table?_eq_none, ← hasTable_iff, Bool.not_eq_true]

/-! ### Growth -/

/-- All that is published in one cache is published in the other, which may have more. -/
structure Grows (c c' : Cache F) : Prop where
  entries : c.entries <+: c'.entries
  tables : c.tables <+: c'.tables

theorem Grows.refl (c : Cache F) : c.Grows c := ⟨List.prefix_rfl, List.prefix_rfl⟩

theorem Grows.trans {c'' : Cache F} (hc : c.Grows c') (hc' : c'.Grows c'') : c.Grows c'' :=
  ⟨hc.entries.trans hc'.entries, hc.tables.trans hc'.tables⟩

theorem Grows.find? (hc : c.Grows c') {s : Shared (AccessorSet (F.Instance h))} (hs : c.find? h key = some s) :
    c'.find? h key = some s := by
  obtain ⟨fresh, heq⟩ := hc.entries
  unfold Cache.find? at hs ⊢
  rw [← heq, List.findSome?_append, hs, Option.some_or]

theorem Grows.table? (hc : c.Grows c') {t : Shared (Table (F.Instance h))} (ht : c.table? h = some t) :
    c'.table? h = some t := by
  obtain ⟨added, heq⟩ := hc.tables
  unfold Cache.table? at ht ⊢
  rw [← heq, List.findSome?_append, ht, Option.some_or]

theorem Grows.places (hc : c.Grows c') : c.places <+: c'.places := hc.entries.map _

theorem Grows.hosts (hc : c.Grows c') : c.hosts <+: c'.hosts := hc.tables.map _

theorem Grows.identities (hc : c.Grows c') : c.identities.Sublist c'.identities :=
  (hc.entries.map _).sublist.append (hc.tables.map _).sublist

/-! ### Building -/

/-- What is new in a build: it goes to the places of the members that were not cached, in their order. -/
theorem places_fresh {members : List (Member (F.Instance h))} {seen : List String} {next : Nat} {b : Built F h}
    (hb : c.build h seen next members = .ok b) :
    b.fresh.map Entry.place = (members.filter fun m => !c.contains h m).map fun m => (h, m.key) := by
  induction members generalizing seen next b with
  | nil =>
    cases hb
    rfl
  | cons m rest ih =>
    obtain ⟨-, ⟨s, b', hs, hb', rfl⟩ | ⟨set, b', hnone, -, hb', rfl⟩⟩ := build_cons_eq_ok hb
    · have hcontains : c.contains h m = true := by simp [contains_eq, get?, hs]
      simp [hcontains, ih hb']
    · have hcontains : c.contains h m = false := by simp [contains_eq, get?, hnone]
      simp [hcontains, ih hb', Entry.place]

theorem identities_fresh {members : List (Member (F.Instance h))} {seen : List String} {next : Nat} {b : Built F h}
    (hb : c.build h seen next members = .ok b) :
    b.fresh.map (·.set.id) = List.range' next b.fresh.length := by
  induction members generalizing seen next b with
  | nil =>
    cases hb
    rfl
  | cons m rest ih =>
    obtain ⟨-, ⟨s, b', -, hb', rfl⟩ | ⟨set, b', -, -, hb', rfl⟩⟩ := build_cons_eq_ok hb
    · simp [ih hb']
    · simp [ih hb', List.range'_succ]

/-- Every set of a build is in the cache already or among the new ones, under the key of its member. -/
theorem mem_of_build {members : List (Member (F.Instance h))} {seen : List String} {next : Nat} {b : Built F h}
    (hb : c.build h seen next members = .ok b) :
    List.Forall₂ (fun m s => (⟨h, m.key, s⟩ : Entry F) ∈ c.entries ++ b.fresh) members b.sets := by
  induction members generalizing seen next b with
  | nil =>
    cases hb
    exact .nil
  | cons m rest ih =>
    obtain ⟨-, ⟨s, b', hs, hb', rfl⟩ | ⟨set, b', -, -, hb', rfl⟩⟩ := build_cons_eq_ok hb
    · exact .cons (List.mem_append_left _ (mem_of_find? hs)) (ih hb')
    · have hnew : (⟨h, m.key, ⟨next, set⟩⟩ : Entry F) ∈ c.entries ++ ⟨h, m.key, ⟨next, set⟩⟩ :: b'.fresh := by simp
      refine .cons hnew ((ih hb').imp fun m' s' hs' => ?_)
      rcases List.mem_append.1 hs' with hold | hfresh
      · exact List.mem_append_left _ hold
      · exact List.mem_append_right _ (.tail _ hfresh)

/-! ### What a request publishes -/

theorem getOrCompile_of_find? {m : Member (F.Instance h)} {s : Shared (AccessorSet (F.Instance h))}
    (hs : c.find? h m.key = some s) : c.getOrCompile h m = (.ok s, c) := by
  rw [getOrCompile, hs]

theorem getOrCompile_of_error {m : Member (F.Instance h)} {e : CompileError} (hnone : c.find? h m.key = none)
    (he : m.compile c.registry (F.name h) = .error e) : c.getOrCompile h m = (.error e, c) := by
  rw [getOrCompile, hnone, he]

theorem getOrCompile_of_compile {m : Member (F.Instance h)} {set : AccessorSet (F.Instance h)}
    (hnone : c.find? h m.key = none) (hset : m.compile c.registry (F.name h) = .ok set) :
    c.getOrCompile h m = (.ok ⟨c.nextId, set⟩, (c.insertSets [⟨h, m.key, ⟨c.nextId, set⟩⟩]).count 1) := by
  rw [getOrCompile, hnone, hset]

theorem table_of_table? {members : List (Member (F.Instance h))} {t : Shared (Table (F.Instance h))}
    (ht : c.table? h = some t) : c.table h members = (.ok t, c) := by
  rw [table, ht]

theorem table_of_error {members : List (Member (F.Instance h))} {e : CompileError} (hnone : c.table? h = none)
    (he : c.build h [] c.nextId members = .error e) : c.table h members = (.error e, c) := by
  rw [table, hnone, he]

theorem table_of_build {members : List (Member (F.Instance h))} {b : Built F h} (hnone : c.table? h = none)
    (hb : c.build h [] c.nextId members = .ok b) :
    c.table h members = (.ok ⟨c.nextId + b.fresh.length, ⟨b.sets⟩⟩, c.publish h b) := by
  rw [table, hnone, hb]

theorem find?_of_getOrCompile {m : Member (F.Instance h)} {s : Shared (AccessorSet (F.Instance h))}
    (hs : (c.getOrCompile h m).1 = .ok s) : (c.getOrCompile h m).2.find? h m.key = some s := by
  cases hfound : c.find? h m.key with
  | some s' =>
    rw [getOrCompile_of_find? hfound] at hs ⊢
    cases hs
    exact hfound
  | none =>
    cases hcompile : m.compile c.registry (F.name h) with
    | error e =>
      rw [getOrCompile_of_error hfound hcompile] at hs
      cases hs
    | ok set =>
      rw [getOrCompile_of_compile hfound hcompile] at hs ⊢
      cases hs
      unfold find? at hfound ⊢
      simp only [count, insertSets, List.findSome?_append, hfound, Option.none_or, List.findSome?_singleton]
      exact Entry.as?_eq_some_iff.2 rfl

/-- The answer of a cache to a request. -/
def reply (c : Cache F) : (q : Request F) → Except CompileError q.Reply
  | .getOrCompile h m => (c.getOrCompile h m).1
  | .table h members => (c.table h members).1

/-- What is cached for a request. -/
def cached? (c : Cache F) : (q : Request F) → Option q.Reply
  | .getOrCompile h m => c.find? h m.key
  | .table h _ => c.table? h

theorem reply_of_cached? {reply : q.Reply} (hcached : c.cached? q = some reply) :
    c.reply q = .ok reply ∧ c.after q = c := by
  cases q with
  | getOrCompile h m =>
    have heq : c.getOrCompile h m = (.ok reply, c) := getOrCompile_of_find? hcached
    exact ⟨congrArg Prod.fst heq, congrArg Prod.snd heq⟩
  | table h members =>
    have heq : c.table h members = (.ok reply, c) := table_of_table? hcached
    exact ⟨congrArg Prod.fst heq, congrArg Prod.snd heq⟩

theorem hosts_of_cached? {q : Request F} {reply : q.Reply} (hcached : c.cached? q = some reply) :
    ∀ h ∈ q.hosts, h ∈ c.hosts := by
  cases q with
  | getOrCompile h m => exact fun _ hh => absurd hh List.not_mem_nil
  | table h members =>
    intro h' hh'
    rw [List.mem_singleton.1 hh']
    exact hasTable_iff.1 (isSome_table?.1 (Option.isSome_of_mem hcached))

/-- One cache is the other with accessor sets and tables published besides: under places that were free, with the next
identities, and with the accessor sets counted. -/
structure Publishes (c c' : Cache F) (fresh : List (Entry F)) (added : List (PublishedTable F)) : Prop where
  entries : c'.entries = c.entries ++ fresh
  tables : c'.tables = c.tables ++ added
  compilations : c'.compilations = c.compilations + fresh.length
  nextId : c'.nextId = c.nextId + (fresh.length + added.length)
  places : (fresh.map Entry.place).Nodup ∧ ∀ p ∈ fresh.map Entry.place, p ∉ c.places
  hosts : (added.map (·.host)).Nodup ∧ ∀ h ∈ added.map (·.host), h ∉ c.hosts
  identities : fresh.map (·.set.id) ++ added.map (·.table.id) = List.range' c.nextId (fresh.length + added.length)

theorem Publishes.nothing (c : Cache F) : c.Publishes c [] [] := by constructor <;> simp

theorem Publishes.grows {fresh : List (Entry F)} {added : List (PublishedTable F)}
    (hc : c.Publishes c' fresh added) : c.Grows c' :=
  ⟨⟨fresh, hc.entries.symm⟩, ⟨added, hc.tables.symm⟩⟩

theorem publishes_single {m : Member (F.Instance h)} {set : AccessorSet (F.Instance h)}
    (hnone : c.find? h m.key = none) :
    c.Publishes ((c.insertSets [⟨h, m.key, ⟨c.nextId, set⟩⟩]).count 1) [⟨h, m.key, ⟨c.nextId, set⟩⟩] [] := by
  have hfree : (h, m.key) ∉ c.places := find?_eq_none.1 hnone
  constructor <;> simp [insertSets, count, Entry.place, hfree]

theorem publishes_table {members : List (Member (F.Instance h))} {b : Built F h} (hnone : c.table? h = none)
    (hb : c.build h [] c.nextId members = .ok b) :
    c.Publishes (c.publish h b) b.fresh [⟨h, ⟨c.nextId + b.fresh.length, ⟨b.sets⟩⟩⟩] := by
  have hnames : (members.map (·.name)).Nodup := (names_of_build hb).1
  have hnodup : (b.fresh.map Entry.place).Nodup := by
    rw [places_fresh hb]
    -- members that share a place share a name
    refine List.Nodup.map_on (fun m hm m' hm' heq => ?_) ((List.Nodup.of_map _ hnames).filter _)
    have hname : m.name = m'.name := congrArg (fun p => p.2.member) heq
    exact List.inj_on_of_nodup_map hnames (List.mem_of_mem_filter hm) (List.mem_of_mem_filter hm') hname
  have hfree : ∀ p ∈ b.fresh.map Entry.place, p ∉ c.places := by
    intro p hp
    rw [places_fresh hb] at hp
    obtain ⟨m, hm, rfl⟩ := List.mem_map.1 hp
    have hcontains : ¬ c.contains h m := by simpa using (List.mem_filter.1 hm).2
    rwa [contains_iff] at hcontains
  have hhost : h ∉ c.hosts := table?_eq_none.1 hnone
  refine ⟨rfl, rfl, rfl, by simp [publish, insertSets, insertTable, count, Nat.add_assoc], ⟨hnodup, hfree⟩,
    by simpa using hhost, ?_⟩
  rw [identities_fresh hb, List.map_singleton, List.length_singleton, List.range'_1_concat]

theorem mem_places_publish {members : List (Member (F.Instance h))} {b : Built F h}
    (hb : c.build h [] c.nextId members = .ok b) {p : F.Host × Key} :
    p ∈ (c.publish h b).places ↔ p ∈ c.places ∨ p ∈ members.map fun m => (h, m.key) := by
  have hplaces : (c.publish h b).places = c.places ++ b.fresh.map Entry.place := List.map_append
  rw [hplaces, List.mem_append, places_fresh hb]
  simp only [List.mem_map, List.mem_filter]
  constructor
  · rintro (hold | ⟨m, ⟨hm, -⟩, rfl⟩)
    · exact .inl hold
    · exact .inr ⟨m, hm, rfl⟩
  · rintro (hold | ⟨m, hm, rfl⟩)
    · exact .inl hold
    · by_cases hcontains : c.contains h m
      · exact .inl (contains_iff.1 hcontains)
      · exact .inr ⟨m, ⟨hm, by simpa using hcontains⟩, rfl⟩

/-- All that a request can do. It is answered with what is cached, or fails, or publishes what it presents. -/
theorem after_cases (c : Cache F) (q : Request F) :
    (∃ reply, c.cached? q = some reply ∧ c.reply q = .ok reply ∧ c.after q = c) ∨
      (∃ e, c.cached? q = none ∧ c.reply q = .error e ∧ c.after q = c) ∨
      ∃ reply fresh added, c.cached? q = none ∧ c.reply q = .ok reply ∧ c.Publishes (c.after q) fresh added ∧
        (∀ p, p ∈ (c.after q).places ↔ p ∈ c.places ∨ p ∈ q.places) ∧ (c.after q).hosts = c.hosts ++ q.hosts := by
  cases hcached : c.cached? q with
  | some reply => exact .inl ⟨reply, rfl, reply_of_cached? hcached⟩
  | none =>
    right
    cases q with
    | getOrCompile h m =>
      cases hcompile : m.compile c.registry (F.name h) with
      | error e =>
        have heq := getOrCompile_of_error hcached hcompile
        exact .inl ⟨e, rfl, congrArg Prod.fst heq, congrArg Prod.snd heq⟩
      | ok set =>
        have heq := getOrCompile_of_compile hcached hcompile
        have hafter : c.after (.getOrCompile h m) = _ := congrArg Prod.snd heq
        refine .inr ⟨_, [⟨h, m.key, ⟨c.nextId, set⟩⟩], [], rfl, congrArg Prod.fst heq, ?_, fun p => ?_, ?_⟩
        · rw [hafter]
          exact publishes_single hcached
        · rw [hafter]
          simp [places, Entry.place, insertSets, count, Request.places]
        · rw [hafter]
          simp [hosts, insertSets, count, Request.hosts]
    | table h members =>
      cases hbuild : c.build h [] c.nextId members with
      | error e =>
        have heq := table_of_error hcached hbuild
        exact .inl ⟨e, rfl, congrArg Prod.fst heq, congrArg Prod.snd heq⟩
      | ok b =>
        have heq := table_of_build hcached hbuild
        have hafter : c.after (.table h members) = _ := congrArg Prod.snd heq
        refine .inr ⟨_, b.fresh, [⟨h, ⟨c.nextId + b.fresh.length, ⟨b.sets⟩⟩⟩], rfl, congrArg Prod.fst heq, ?_,
          fun p => ?_, ?_⟩
        · rw [hafter]
          exact publishes_table hcached hbuild
        · rw [hafter]
          exact mem_places_publish hbuild
        · rw [hafter]
          simp [hosts, publish, insertSets, insertTable, count, Request.hosts]

/-- A request that fails leaves nothing behind. -/
theorem after_of_error {q : Request F} {e : CompileError} (he : c.reply q = .error e) : c.after q = c := by
  rcases c.after_cases q with ⟨reply, -, hreply, -⟩ | ⟨e', -, -, hafter⟩ | ⟨reply, -, -, -, hreply, -⟩
  · cases hreply.symm.trans he
  · exact hafter
  · cases hreply.symm.trans he

theorem publishes_after (c : Cache F) (q : Request F) : ∃ fresh added, c.Publishes (c.after q) fresh added := by
  rcases c.after_cases q with ⟨-, -, -, hafter⟩ | ⟨-, -, -, hafter⟩ | ⟨-, fresh, added, -, -, hpublishes, -⟩
  · exact ⟨[], [], hafter.symm ▸ .nothing c⟩
  · exact ⟨[], [], hafter.symm ▸ .nothing c⟩
  · exact ⟨fresh, added, hpublishes⟩

theorem grows_after (c : Cache F) (q : Request F) : c.Grows (c.after q) := by
  obtain ⟨fresh, added, hpublishes⟩ := c.publishes_after q
  exact hpublishes.grows

/-! ### Coherence -/

/-- No place is taken twice, the published objects have all the identities that were given away and no two the same, and
every accessor set was counted. -/
structure Coherent (c : Cache F) : Prop where
  places : c.places.Nodup
  hosts : c.hosts.Nodup
  identities : c.identities.Perm (List.range c.nextId)
  counted : c.size = c.compilations

theorem Coherent.nodup_identities (hc : c.Coherent) : c.identities.Nodup :=
  hc.identities.nodup_iff.2 List.nodup_range

theorem Coherent.publishes {fresh : List (Entry F)} {added : List (PublishedTable F)} (hc : c.Coherent)
    (hpublishes : c.Publishes c' fresh added) : c'.Coherent := by
  constructor
  · rw [Cache.places, hpublishes.entries, List.map_append, List.nodup_append]
    refine ⟨hc.places, hpublishes.places.1, fun p hp p' hp' heq => ?_⟩
    subst heq
    exact hpublishes.places.2 p hp' hp
  · rw [Cache.hosts, hpublishes.tables, List.map_append, List.nodup_append]
    refine ⟨hc.hosts, hpublishes.hosts.1, fun h hh h' hh' heq => ?_⟩
    subst heq
    exact hpublishes.hosts.2 h hh' hh
  · rw [Cache.identities, hpublishes.entries, hpublishes.tables, hpublishes.nextId, List.map_append, List.map_append]
    have hmove : ((c.entries.map (·.set.id) ++ fresh.map (·.set.id)) ++
        (c.tables.map (·.table.id) ++ added.map (·.table.id))).Perm
          (c.identities ++ (fresh.map (·.set.id) ++ added.map (·.table.id))) := by
      rw [Cache.identities, List.append_assoc, List.append_assoc]
      exact (List.perm_append_comm_assoc _ _ _).append_left _
    have hrange : List.range (c.nextId + (fresh.length + added.length)) =
        List.range c.nextId ++ List.range' c.nextId (fresh.length + added.length) := by
      have happend := @List.range'_append_1 0 c.nextId (fresh.length + added.length)
      rw [Nat.zero_add] at happend
      rw [List.range_eq_range', List.range_eq_range', happend]
    rw [hrange, ← hpublishes.identities]
    exact hmove.trans (hc.identities.append_right _)
  · rw [size, hpublishes.entries, hpublishes.compilations, List.length_append, ← hc.counted, size]

theorem Coherent.after (hc : c.Coherent) (q : Request F) : (c.after q).Coherent := by
  obtain ⟨fresh, added, hpublishes⟩ := c.publishes_after q
  exact hc.publishes hpublishes

/-! ### Histories -/

theorem inUse_concat (r : Registry) (requests : List (Request F)) (q : Request F) :
    inUse r (requests ++ [q]) = (inUse r requests).after q := by
  simp [inUse]

theorem grows_inUse (r : Registry) {before requests : List (Request F)} (hbefore : before <+: requests) :
    (inUse r before).Grows (inUse r requests) := by
  obtain ⟨later, rfl⟩ := hbefore
  induction later using List.reverseRecOn with
  | nil => simpa using Grows.refl _
  | append_singleton later q ih =>
    rw [← List.append_assoc, inUse_concat]
    exact ih.trans (grows_after _ q)

theorem coherent_inUse (r : Registry) (requests : List (Request F)) : (inUse r requests).Coherent := by
  apply inUse_induction
  · constructor <;> simp [Cache.places, Cache.hosts, Cache.identities, size]
  · intro c hc q _
    exact hc.after q

end Cache

end Memberwise
