import Memberwise.Proofs.Accessor.BuildOnce

/-!
# Members that share a key

Members of a host type can share a key and yet have another getter or setter. There is one place in a cache for all of
them. It is taken by the first that is published (`Cache.Took`), at which time no other one is presented with it
(`Cache.exists_of_taken`), so a key has one such member at most (`Cache.Took.unique`).

This member answers for all that share its key, and a member whose key is not taken answers for itself
(`Member.AnsweredBy`). So the member asked for may be answered with the accessors of another one
(`Cache.answer_inUse`): what it compiles to itself is the answer if it was published first or has no rival.
-/

namespace Memberwise

/-- The member that answers for a given one: the one with the same key that took the place of the key, or the given one if
there is none. -/
def Member.AnsweredBy {H : Type} (took : Member H → Prop) (m m' : Member H) : Prop :=
  m'.key = m.key ∧ (took m' ∨ m' = m ∧ ∀ m'', took m'' → m''.key ≠ m.key)

/-- No member that took a place has the key of the given one, but another getter or setter. -/
def Member.Unrivalled {H : Type} (took : Member H → Prop) (m : Member H) : Prop :=
  ∀ m', took m' → m'.key = m.key → m' = { m with kind := m'.kind }

/-- A member without rivals answers for itself, perhaps in the name of another kind. -/
theorem Member.AnsweredBy.compile_eq {H : Type} {took : Member H → Prop} {m m' : Member H} (h : m.AnsweredBy took m')
    (hm : m.Unrivalled took) (r : Registry) (host : String) : m'.compile r host = m.compile r host := by
  obtain ⟨hkey, htook | ⟨rfl, -⟩⟩ := h
  · rw [hm m' htook hkey, m.compile_kind]
  · rfl

namespace Cache

variable {F : HostFamily} {r : Registry} {requests : List (Request F)} {h : F.Host} {key : Key}
  {m m' : Member (F.Instance h)}

/-- A request that found the place of a key free and left it taken. -/
structure TakenBy (r : Registry) (requests : List (Request F)) (h : F.Host) (key : Key) (before : List (Request F))
    (q : Request F) : Prop where
  served : before ++ [q] <+: requests
  free : (inUse r before).find? h key = none
  taken : ((inUse r (before ++ [q])).find? h key).isSome

/-- The member took the place of its key: it came with the request by which the place was taken. -/
def Took (r : Registry) (requests : List (Request F)) (h : F.Host) (m : Member (F.Instance h)) : Prop :=
  ∃ before q, TakenBy r requests h m.key before q ∧ q.Presents h m

/-! ### One request -/

/-- A request that leaves a place taken which it found free has presented one member with this key, and left what it
compiles to. -/
theorem exists_of_taken {c : Cache F} {q : Request F} {s : Shared (AccessorSet (F.Instance h))}
    (hnone : c.find? h key = none) (hs : (c.after q).find? h key = some s) :
    ∃ m, q.Presents h m ∧ m.key = key ∧ m.compile c.registry (F.name h) = .ok s.value ∧
      ∀ m', q.Presents h m' → m'.key = key → m' = m := by
  have hnew : ∀ fresh, (c.after q).entries = c.entries ++ fresh → (⟨h, key, s⟩ : Entry F) ∈ fresh := by
    intro fresh hentries
    have hmem := mem_of_find? hs
    rw [hentries] at hmem
    refine (List.mem_append.1 hmem).resolve_left fun hold => ?_
    exact find?_eq_none.1 hnone (List.mem_map_of_mem (f := Entry.place) hold)
  cases q with
  | getOrCompile h' m =>
    rcases c.getOrCompile_cases h' m with ⟨s', -, heq⟩ | ⟨e, -, heq⟩ | ⟨s', hcompile, heq⟩
    · rw [after, heq, hnone] at hs
      cases hs
    · rw [after, heq, hnone] at hs
      cases hs
    · have hentry := hnew [⟨h', m.key, s'⟩] (by rw [after, heq]; rfl)
      cases List.mem_singleton.1 hentry
      refine ⟨m, .getOrCompile h m, rfl, hcompile, fun m' hm' _ => ?_⟩
      cases hm'
      rfl
  | table h' members =>
    rcases c.table_cases h' members with ⟨e, heq⟩ | ⟨t, -, heq⟩ | ⟨b, -, hb, heq⟩
    · rw [after, heq, hnone] at hs
      cases hs
    · rw [after, heq, hnone] at hs
      cases hs
    · obtain ⟨m, hm, s', hentry, hcompile⟩ := fresh_of_build hb (hnew b.fresh (by rw [after, heq]; rfl))
      cases hentry
      refine ⟨m, .table hm, rfl, hcompile, fun m' hm' hkey => ?_⟩
      cases hm' with
      | table hm' => exact List.inj_on_of_nodup_map (names_of_build hb).1 hm' hm (congrArg Key.member hkey)

/-! ### All requests -/

/-- Once a place is taken, no later request finds it free. -/
theorem TakenBy.length_le {before before' : List (Request F)} {q q' : Request F}
    (hfirst : TakenBy r requests h key before q) (hsecond : TakenBy r requests h key before' q') :
    before'.length ≤ before.length := by
  by_contra hlt
  have hle : (before ++ [q]).length ≤ before'.length := by
    rw [List.length_append, List.length_singleton]
    omega
  have hearlier : before ++ [q] <+: before' :=
    List.prefix_of_prefix_length_le hfirst.served ((List.prefix_append _ _).trans hsecond.served) hle
  obtain ⟨s, hs⟩ := Option.isSome_iff_exists.1 hfirst.taken
  cases ((grows_inUse r hearlier).find? hs).symm.trans hsecond.free

theorem TakenBy.unique {before before' : List (Request F)} {q q' : Request F}
    (hfirst : TakenBy r requests h key before q) (hsecond : TakenBy r requests h key before' q') :
    before = before' ∧ q = q' := by
  have hlength : before.length = before'.length := Nat.le_antisymm (hsecond.length_le hfirst) (hfirst.length_le hsecond)
  have hall : (before ++ [q]).length = (before' ++ [q']).length := by simp [hlength]
  have heq := (List.prefix_of_prefix_length_le hfirst.served hsecond.served (Nat.le_of_eq hall)).eq_of_length hall
  obtain ⟨hbefore, hq⟩ := List.append_inj' heq rfl
  exact ⟨hbefore, List.head_eq_of_cons_eq hq⟩

/-- What the member compiles to that took the place of a key is found there ever after, and the request by which it did
presented no other one with this key. -/
theorem Took.find? (hm : Took r requests h m) :
    ∃ s, (inUse r requests).find? h m.key = some s ∧ m.compile r (F.name h) = .ok s.value := by
  obtain ⟨before, q, htaken, hpresents⟩ := hm
  obtain ⟨s, hs⟩ := Option.isSome_iff_exists.1 htaken.taken
  refine ⟨s, (grows_inUse r htaken.served).find? hs, ?_⟩
  rw [inUse_concat] at hs
  obtain ⟨m', -, -, hcompile, hunique⟩ := exists_of_taken htaken.free hs
  rwa [hunique m hpresents rfl, ← registry_inUse r before]

theorem Took.unique (hm : Took r requests h m) (hm' : Took r requests h m') (hkey : m'.key = m.key) : m' = m := by
  obtain ⟨before, q, htaken, hpresents⟩ := hm
  obtain ⟨before', q', htaken', hpresents'⟩ := hm'
  rw [hkey] at htaken'
  obtain ⟨rfl, rfl⟩ := htaken.unique htaken'
  obtain ⟨s, hs⟩ := Option.isSome_iff_exists.1 htaken.taken
  rw [inUse_concat] at hs
  obtain ⟨first, -, -, -, hunique⟩ := exists_of_taken htaken.free hs
  rw [hunique m hpresents rfl, hunique m' hpresents' hkey]

/-- Whatever is found under a key, some member took its place. -/
theorem exists_took {s : Shared (AccessorSet (F.Instance h))} (hs : (inUse r requests).find? h key = some s) :
    ∃ m, Took r requests h m ∧ m.key = key := by
  -- the requests are taken from the last one back, until the place is free
  induction requests using List.reverseRecOn with
  | nil => simp [inUse, Cache.find?] at hs
  | append_singleton requests q ih =>
    cases hbefore : (inUse r requests).find? h key with
    | some s' =>
      have hkept := (grows_inUse r (List.prefix_append requests [q])).find? hbefore
      cases hkept.symm.trans hs
      obtain ⟨m, ⟨before, q', htaken, hpresents⟩, hkey⟩ := ih hbefore
      exact ⟨m, ⟨before, q', ⟨htaken.served.trans (List.prefix_append _ _), htaken.free, htaken.taken⟩, hpresents⟩, hkey⟩
    | none =>
      have hafter : ((inUse r requests).after q).find? h key = some s := by rwa [← inUse_concat]
      obtain ⟨m, hpresents, rfl, -⟩ := exists_of_taken hbefore hafter
      exact ⟨m, ⟨requests, q, ⟨List.prefix_rfl, hbefore, Option.isSome_of_mem hs⟩, hpresents⟩, rfl⟩

/-! ### Answers -/

theorem answeredBy_unique {m₁ m₂ : Member (F.Instance h)} (h₁ : m.AnsweredBy (Took r requests h) m₁)
    (h₂ : m.AnsweredBy (Took r requests h) m₂) : m₂ = m₁ := by
  obtain ⟨hkey₁, htook₁ | ⟨rfl, hnone⟩⟩ := h₁
  · obtain ⟨hkey₂, htook₂ | ⟨rfl, hnone⟩⟩ := h₂
    · exact htook₁.unique htook₂ (hkey₂.trans hkey₁.symm)
    · exact absurd hkey₁ (hnone m₁ htook₁)
  · obtain ⟨hkey₂, htook₂ | ⟨rfl, -⟩⟩ := h₂
    · exact absurd hkey₂ (hnone m₂ htook₂)
    · rfl

theorem answeredBy_of_find? {s : Shared (AccessorSet (F.Instance h))}
    (hs : (inUse r requests).find? h m.key = some s) :
    ∃ m', m.AnsweredBy (Took r requests h) m' ∧ m'.compile r (F.name h) = .ok s.value := by
  obtain ⟨m', htook, hkey⟩ := exists_took hs
  obtain ⟨s', hs', hcompile⟩ := htook.find?
  rw [hkey] at hs'
  cases hs'.symm.trans hs
  exact ⟨m', ⟨hkey, .inl htook⟩, hcompile⟩

theorem answeredBy_self (hnone : (inUse r requests).find? h m.key = none) :
    m.AnsweredBy (Took r requests h) m := by
  refine ⟨rfl, .inr ⟨rfl, fun m' htook hkey => ?_⟩⟩
  obtain ⟨s, hs, -⟩ := htook.find?
  rw [hkey] at hs
  cases hs.symm.trans hnone

/-- There is always one member that answers, and a single member is answered with what this one compiles to. -/
theorem exists_answeredBy (r : Registry) (requests : List (Request F)) (m : Member (F.Instance h)) :
    ∃ m', m.AnsweredBy (Took r requests h) m' ∧
      ((inUse r requests).getOrCompile h m).1.map (·.value) = m'.compile r (F.name h) := by
  cases hfound : (inUse r requests).find? h m.key with
  | some s =>
    obtain ⟨m', hanswered, hcompile⟩ := answeredBy_of_find? hfound
    refine ⟨m', hanswered, ?_⟩
    rw [getOrCompile_of_find? hfound, hcompile]
    rfl
  | none =>
    refine ⟨m, answeredBy_self hfound, ?_⟩
    have hregistry := registry_inUse r requests
    cases hcompile : m.compile r (F.name h) with
    | error e =>
      rw [getOrCompile_of_error hfound (hregistry.symm ▸ hcompile)]
      rfl
    | ok set =>
      rw [getOrCompile_of_compile hfound (hregistry.symm ▸ hcompile)]
      rfl

theorem exists_answeredBy_table {members : List (Member (F.Instance h))} {t : Shared (Table (F.Instance h))}
    (hfresh : (inUse r requests).table? h = none) (ht : ((inUse r requests).table h members).1 = .ok t) :
    List.Forall₂ (fun m s => ∃ m', m.AnsweredBy (Took r requests h) m' ∧ m'.compile r (F.name h) = .ok s.value) members
      t.value.sets := by
  rcases (inUse r requests).table_cases h members with ⟨e, heq⟩ | ⟨t', hsome, -⟩ | ⟨b, -, hb, heq⟩
  · rw [heq] at ht
    cases ht
  · rw [hfresh] at hsome
    cases hsome
  · rw [heq] at ht
    cases ht
    refine (sets_of_build hb).imp fun m s hs => ?_
    rcases hs with hfound | ⟨hnone, hcompile⟩
    · exact answeredBy_of_find? hfound
    · rw [registry_inUse] at hcompile
      exact ⟨m, answeredBy_self hnone, hcompile⟩

/-- What a cache answers, whatever was requested of it before. There is one member that answers for the one asked for: the
first that was published under the same key, or itself if none was. The answer is what this member compiles to. That is
for the same member and bound to the same operations as what the one asked for compiles to, and it is the same if the
member that answers has the same getter and setter. Asked for a table that it has to build, the cache gives as much for
every member of the table. -/
theorem answer_inUse (r : Registry) (requests : List (Request F)) (h : F.Host) :
    let c := inUse r requests
    let took := Took r requests h
    (∀ m, let result := (c.getOrCompile h m).1.map (·.value)
      (∃! m', m.AnsweredBy took m') ∧ (∀ m', m.AnsweredBy took m' → result = m'.compile r (F.name h)) ∧
        result.map AccessorSet.profile = (m.compile r (F.name h)).map AccessorSet.profile ∧
        (m.Unrivalled took → result = m.compile r (F.name h))) ∧
    ∀ members t, c.table? h = none → (c.table h members).1 = .ok t →
      List.Forall₂ (fun m s =>
        (∃! m', m.AnsweredBy took m') ∧ (∀ m', m.AnsweredBy took m' → m'.compile r (F.name h) = .ok s.value) ∧
          (m.compile r (F.name h)).map AccessorSet.profile = .ok s.value.profile ∧
          (m.Unrivalled took → m.compile r (F.name h) = .ok s.value)) members t.value.sets := by
  intro c took
  constructor
  · intro m
    obtain ⟨m', hanswered, hresult⟩ := exists_answeredBy r requests m
    refine ⟨⟨m', hanswered, fun m'' => answeredBy_unique hanswered⟩, fun m'' hanswered' => ?_, ?_, fun hm => ?_⟩
    · rw [answeredBy_unique hanswered hanswered', hresult]
    · rw [hresult, Member.compile_of_key_eq hanswered.1]
    · rw [hresult, hanswered.compile_eq hm]
  · intro members t hfresh ht
    refine (exists_answeredBy_table hfresh ht).imp fun m s ⟨m', hanswered, hcompile⟩ => ?_
    refine ⟨⟨m', hanswered, fun m'' => answeredBy_unique hanswered⟩, fun m'' hanswered' => ?_, ?_, fun hm => ?_⟩
    · rw [answeredBy_unique hanswered hanswered', hcompile]
    · rw [← Member.compile_of_key_eq hanswered.1, hcompile]
      rfl
    · rw [← hanswered.compile_eq hm, hcompile]

end Cache

namespace Pair

/-- The number on the left is answered with its own accessors if it was published first, though the one on the right came
with a table before, which failed, and was asked for afterwards. -/
theorem answer_onLeft :
    let requests : List (Request family) :=
      [.table () [onRight, broken], .getOrCompile () onLeft, .getOrCompile () onRight]
    let c := Cache.inUse (Registry.builtin {}) requests
    (c.getOrCompile () onLeft).1.map (·.value) = onLeft.compile (Registry.builtin {}) "Pair" := by
  intro requests c
  have htook : Cache.Took (Registry.builtin {}) requests () onLeft :=
    ⟨requests.take 1, .getOrCompile () onLeft,
      ⟨List.prefix_append (requests.take 2) _, Option.isNone_iff_eq_none.1 (by decide +kernel), by decide +kernel⟩,
      Request.Presents.getOrCompile (F := family) () onLeft⟩
  exact ((Cache.answer_inUse (F := family) (Registry.builtin {}) requests ()).1 onLeft).2.1 onLeft ⟨rfl, .inl htook⟩

/-- What an accessor set writes of a pair of one and two. -/
def written (s : AccessorSet Pair) : Option Bytes := s.write.map fun w => (w.call.run ⟨1, 2⟩ [0] 0).buffer

/-- The number on the left is answered with the one on the right if that was published first under the same key, also in a
table. -/
theorem answer_onRight :
    let c := Cache.inUse (F := family) (Registry.builtin {}) [.getOrCompile () onRight]
    (onLeft.compile (Registry.builtin {}) "Pair").map written = .ok (some [1]) ∧
      (c.getOrCompile () onLeft).1.map (fun s => written s.value) = .ok (some [2]) ∧
      (c.table () [onLeft]).1.map (fun t => t.value.sets.map fun s => written s.value) = .ok [some [2]] := by
  intro c
  exact ⟨by decide +kernel, by decide +kernel, by decide +kernel⟩

end Pair

end Memberwise
