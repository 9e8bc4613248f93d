import Memberwise.Proofs.Accessor.BuildOnce
import Memberwise.Proofs.Accessor.Interleaving

/-!
# Concurrent callers agree

In whatever order the steps of concurrent callers come, the cache is one that serves some of their requests one after the
other, or, while the lock is held, one on its way from such a cache to the next (`System.Serial`). So at any time all that
is to be seen was published once, tables after their accessor sets, and every caller that got an answer got the one that
the others get (`System.callers_agree`).

The lock has an owner exactly as long as some caller is between the second look and the release, and this is the only
caller that changes the cache. All others only look things up, and what they find stays, since the cache only grows.
-/

namespace Memberwise

variable {F : HostFamily}

/-! ### Publication under way -/

namespace Cache

/-- What can be seen of a cache that goes from one state to another. Tables come last. -/
structure Between (c c' c'' : Cache F) : Prop where
  before : c.Grows c'
  after : c'.Grows c''
  tables : c'.tables = c.tables ∨ c'.entries = c''.entries

theorem Between.start {c c' : Cache F} (hc : c.Grows c') : c.Between c c' := ⟨.refl c, hc, .inl rfl⟩

theorem Midway.between {c c' : Cache F} {q : Request F} {w : Work q} (hmid : Midway c w c') :
    c.Between c' (c.after q) := by
  cases hmid with
  | compile | insert | lookUpNext | compileNext | insertSets => exact .start (c.grows_after _)
  | count hnone hset =>
    rw [Cache.after, getOrCompile_of_compile hnone hset]
    exact ⟨grows_insertSets _ _, grows_count _ _, .inl rfl⟩
  | insertTable hnone hbuild =>
    rw [Cache.after, table_of_build hnone hbuild]
    exact ⟨grows_insertSets _ _, (grows_insertTable _ _ _).trans (grows_count _ _), .inl rfl⟩
  | countSets hnone hbuild =>
    rw [Cache.after, table_of_build hnone hbuild]
    exact ⟨(grows_insertSets _ _).trans (grows_insertTable _ _ _), grows_count _ _, .inr rfl⟩

end Cache

/-- How far the owner of the lock has brought the cache from the state that it found. -/
def Stage.Underway {q : Request F} (c c' : Cache F) : Stage q → Prop
  | .recheck | .release _ => c' = c
  | .work w => Cache.Midway c w c'
  | .lookUp | .acquire | .returned _ => False

theorem Stage.Underway.holding {q : Request F} {c c' : Cache F} {stage : Stage q} (hunder : stage.Underway c c') :
    stage.Holding := by
  cases stage with
  | recheck | work | release => trivial
  | lookUp | acquire | returned => exact hunder

theorem Stage.Holding.inProgress {caller : Caller F} (hholding : caller.stage.Holding) : caller.InProgress := by
  constructor
  · intro heq
    rwa [heq] at hholding
  · intro result heq
    rwa [heq] at hholding

/-- The result of a call, once there is one. -/
def Stage.result? {q : Request F} : Stage q → Option (Except CompileError q.Reply)
  | .release result | .returned result => some result
  | .lookUp | .acquire | .recheck | .work _ => none

theorem Stage.Committed.result?_ne {q : Request F} {stage : Stage q} (hstage : stage.Committed) (e : CompileError) :
    stage.result? ≠ some (.error e) := by
  intro he
  cases stage with
  | lookUp | acquire | recheck | work => cases he
  | release result | returned result =>
    cases Option.some.inj he
    exact hstage

/-- What the caller was answered with is what the cache holds. -/
def Caller.Answered (caller : Caller F) (c : Cache F) : Prop :=
  ∀ reply, caller.stage.result? = some (.ok reply) → c.cached? caller.request = some reply

theorem Caller.Answered.grows {caller : Caller F} {c c' : Cache F} (hanswered : caller.Answered c)
    (hc : c.Grows c') : caller.Answered c' :=
  fun reply hreply => hc.cached? (hanswered reply hreply)

namespace System

variable {ι : Type} {r : Registry} {requests : ι → Request F} {served : List (Request F)} {σ : System F ι} {i : ι}
  {q : Request F}

/-- The cache has served the requests listed one after the other, and the owner of the lock is about the next one. -/
inductive Serial (r : Registry) (served : List (Request F)) (σ : System F ι) : Prop
  | free (howner : σ.owner = none) (hothers : ∀ j, ¬ (σ.callers j).stage.Holding)
    (hcache : σ.cache = Cache.inUse r served)
  | held (i : ι) (howner : σ.owner = some i) (hothers : ∀ j, j ≠ i → ¬ (σ.callers j).stage.Holding)
    (hunder : (σ.callers i).stage.Underway (Cache.inUse r served) σ.cache)

/-- A system whose callers ask for what is given, after any of their steps. -/
structure Consistent (r : Registry) (requests : ι → Request F) (served : List (Request F)) (σ : System F ι) : Prop where
  asked : ∀ i, (σ.callers i).request = requests i
  ofCaller : ∀ q ∈ served, ∃ i, requests i = q
  serial : Serial r served σ
  answered : ∀ i, (σ.callers i).Answered σ.cache

/-! ### What can be seen -/

/-- The cache is on its way from one that has served some of the requests to one that has served some more. -/
theorem Consistent.between (hσ : Consistent r requests served σ) :
    ∃ served', (∀ q ∈ served', ∃ i, requests i = q) ∧
      (Cache.inUse r served).Between σ.cache (Cache.inUse r served') := by
  have hstay : σ.cache = Cache.inUse r served → (Cache.inUse r served).Between σ.cache (Cache.inUse r served) := by
    intro hcache
    rw [hcache]
    exact .start (.refl _)
  cases hσ.serial with
  | free _ _ hcache => exact ⟨served, hσ.ofCaller, hstay hcache⟩
  | held i _ _ hunder =>
    have hasked := hσ.asked i
    rcases hcaller : σ.callers i with ⟨q, stage⟩
    rw [hcaller] at hunder hasked
    cases stage with
    | recheck | release => exact ⟨served, hσ.ofCaller, hstay hunder⟩
    | lookUp | acquire | returned => cases hunder
    | work w =>
      refine ⟨served ++ [q], ?_, ?_⟩
      · rw [List.forall_mem_append, List.forall_mem_singleton]
        exact ⟨hσ.ofCaller, i, hasked.symm⟩
      · rw [Cache.inUse_concat]
        exact hunder.between

theorem Consistent.nodup (hσ : Consistent r requests served σ) :
    σ.cache.places.Nodup ∧ σ.cache.hosts.Nodup ∧ σ.cache.identities.Nodup := by
  obtain ⟨served', -, hbetween⟩ := hσ.between
  have hcoherent := Cache.coherent_inUse r served'
  exact ⟨hcoherent.places.sublist hbetween.after.places.sublist, hcoherent.hosts.sublist hbetween.after.hosts.sublist,
    hcoherent.nodup_identities.sublist hbetween.after.identities⟩

/-- A table is seen with all that was built for it. -/
theorem Consistent.find?_of_table? (hσ : Consistent r requests served σ) {h : F.Host}
    {t : Shared (Table (F.Instance h))} (ht : σ.cache.table? h = some t) :
    ∃ i members, requests i = .table h members ∧
      List.Forall₂ (fun m s => σ.cache.find? h m.key = some s) members t.value.sets := by
  obtain ⟨served', hserved', hbetween⟩ := hσ.between
  -- either the table was there when the lock was taken, or all that comes with it is there by now
  rcases hbetween.tables with htables | hentries
  · have hbefore : (Cache.inUse r served).table? h = some t := by rwa [Cache.table?, ← htables]
    obtain ⟨members, hbuilt⟩ := Cache.exists_builtFor hbefore
    obtain ⟨i, hi⟩ := hσ.ofCaller _ hbuilt.mem
    exact ⟨i, members, hi, hbuilt.find?.imp fun m s hs => hbetween.before.find? hs⟩
  · obtain ⟨members, hbuilt⟩ := Cache.exists_builtFor (hbetween.after.table? ht)
    obtain ⟨i, hi⟩ := hserved' _ hbuilt.mem
    refine ⟨i, members, hi, hbuilt.find?.imp fun m s hs => ?_⟩
    rwa [Cache.find?, hentries]

variable [DecidableEq ι]

/-! ### What a step keeps -/

theorem Serial.held_of_holding (hσ : Serial r served σ) (hi : (σ.callers i).stage.Holding) :
    σ.owner = some i ∧ (∀ j, j ≠ i → ¬ (σ.callers j).stage.Holding) ∧
      (σ.callers i).stage.Underway (Cache.inUse r served) σ.cache := by
  cases hσ with
  | free _ hothers _ => exact absurd hi (hothers i)
  | held k howner hothers hunder =>
    by_cases hik : i = k
    · subst hik
      exact ⟨howner, hothers, hunder⟩
    · exact absurd hi (hothers i hik)

/-- Steps outside the lock change nothing but the stage of the caller. -/
theorem Serial.enter (hσ : Serial r served σ) (hi : ¬ (σ.callers i).stage.Holding) {stage : Stage q}
    (hstage : ¬ stage.Holding) : Serial r served (σ.enter i stage) := by
  have hother : ∀ j, ¬ (σ.callers j).stage.Holding → ¬ ((σ.enter i stage).callers j).stage.Holding := by
    intro j hj
    by_cases hji : j = i
    · rwa [hji, callers_enter_self]
    · rwa [callers_enter_of_ne hji]
  cases hσ with
  | free howner hothers hcache => exact .free howner (fun j => hother j (hothers j)) hcache
  | held k howner hothers hunder =>
    have hne : k ≠ i := fun heq => hi (heq ▸ hunder.holding)
    refine .held k howner (fun j hj => hother j (hothers j hj)) ?_
    rwa [callers_enter_of_ne hne]

/-- Steps under the lock leave all other callers outside. -/
theorem Serial.keep (howner : σ.owner = some i) (hothers : ∀ j, j ≠ i → ¬ (σ.callers j).stage.Holding)
    {stage : Stage q} {c : Cache F} (hunder : stage.Underway (Cache.inUse r served) c) :
    Serial r served { σ.enter i stage with cache := c } := by
  refine .held i howner (fun j hj => ?_) ?_
  · rw [callers_enter_of_ne hj]
    exact hothers j hj
  · rwa [callers_enter_self]

theorem answered_enter {stage : Stage q} {c : Cache F}
    (hreply : ∀ reply, stage.result? = some (.ok reply) → c.cached? q = some reply) :
    ((σ.enter i stage).callers i).Answered c := by
  rw [callers_enter_self]
  exact hreply

/-- A step of a caller that has not got the lock. -/
theorem Serial.advance_outside (hσ : Serial r served σ) (hanswered : (σ.callers i).Answered σ.cache)
    (hi : ¬ (σ.callers i).stage.Holding) :
    Serial r served (σ.advance i) ∧ ((σ.advance i).callers i).Answered (σ.advance i).cache := by
  rcases hcaller : σ.callers i with ⟨q, stage⟩
  cases stage with
  | lookUp =>
    cases hcached : σ.cache.cached? q with
    | some reply =>
      rw [advance_lookUp_of_cached hcaller hcached]
      refine ⟨hσ.enter hi id, answered_enter fun reply' heq => ?_⟩
      cases heq
      exact hcached
    | none =>
      rw [advance_lookUp_of_none hcaller hcached]
      exact ⟨hσ.enter hi id, answered_enter fun _ heq => by cases heq⟩
  | acquire =>
    cases hσ with
    | free howner hothers hcache =>
      rw [advance_acquire_of_free hcaller howner]
      refine ⟨?_, answered_enter fun _ heq => by cases heq⟩
      exact Serial.keep (σ := { σ with owner := some i }) rfl (fun j _ => hothers j) hcache
    | held k howner hothers hunder =>
      rw [advance_acquire_of_held hcaller howner]
      exact ⟨.held k howner hothers hunder, hanswered⟩
  | returned result =>
    rw [advance_returned hcaller]
    exact ⟨hσ, hanswered⟩
  | recheck | work | release => exact absurd (by rw [hcaller]; trivial) hi

/-- A step of the caller that has got the lock. -/
theorem Serial.advance_inside (hσ : Serial r served σ) (hanswered : (σ.callers i).Answered σ.cache)
    (hi : (σ.callers i).stage.Holding) :
    ∃ served', (served' = served ∨ served' = served ++ [(σ.callers i).request]) ∧
      Serial r served' (σ.advance i) ∧ ((σ.advance i).callers i).Answered (σ.advance i).cache := by
  obtain ⟨howner, hothers, hunder⟩ := hσ.held_of_holding hi
  rcases hcaller : σ.callers i with ⟨q, stage⟩
  rw [hcaller] at hunder
  cases stage with
  | lookUp | acquire | returned => cases hunder
  | recheck =>
    replace hunder : σ.cache = Cache.inUse r served := hunder
    cases hcached : σ.cache.cached? q with
    | some reply =>
      rw [advance_recheck_of_cached hcaller hcached]
      refine ⟨served, .inl rfl, .keep howner hothers hunder, answered_enter fun _ heq => ?_⟩
      cases heq
      exact hcached
    | none =>
      rw [advance_recheck_of_none hcaller hcached]
      refine ⟨served, .inl rfl, .keep howner hothers ?_, answered_enter fun _ heq => by cases heq⟩
      rw [hunder] at hcached ⊢
      exact Cache.midway_start hcached
  | work w =>
    rw [advance_work hcaller]
    rcases hunder.perform with ⟨w', hw', hmid⟩ | hdone
    · rw [hw']
      exact ⟨served, .inl rfl, .keep howner hothers hmid, answered_enter fun _ heq => by cases heq⟩
    · -- the request counts as served with the last step of the work
      rw [hdone]
      refine ⟨served ++ [q], .inr rfl, .keep howner hothers (Cache.inUse_concat r served q).symm, ?_⟩
      exact answered_enter fun reply heq => Cache.cached?_after (Option.some.inj heq)
  | release result =>
    rw [advance_release hcaller]
    refine ⟨served, .inl rfl, .free rfl (fun j => ?_) hunder, answered_enter fun reply heq => ?_⟩
    · by_cases hji : j = i
      · rw [hji, callers_enter_self]
        exact id
      · rw [callers_enter_of_ne hji]
        exact hothers j hji
    · rw [hcaller] at hanswered
      exact hanswered reply heq

/-! ### What a run keeps -/

theorem Consistent.advance (hσ : Consistent r requests served σ) (i : ι) :
    ∃ served', Consistent r requests served' (σ.advance i) := by
  -- what the others were answered with stays cached
  have hanswered : ((σ.advance i).callers i).Answered (σ.advance i).cache →
      ∀ j, ((σ.advance i).callers j).Answered (σ.advance i).cache := by
    intro hi j
    by_cases hj : j = i
    · rwa [hj]
    · rw [callers_advance_of_ne hj]
      exact (hσ.answered j).grows (σ.grows_advance i)
  have hasked : ∀ j, ((σ.advance i).callers j).request = requests j := by
    intro j
    rw [request_advance, hσ.asked]
  by_cases hholding : (σ.callers i).stage.Holding
  · obtain ⟨served', hserved', hserial, hi⟩ := hσ.serial.advance_inside (hσ.answered i) hholding
    refine ⟨served', hasked, ?_, hserial, hanswered hi⟩
    rcases hserved' with rfl | rfl
    · exact hσ.ofCaller
    · rw [List.forall_mem_append, List.forall_mem_singleton]
      exact ⟨hσ.ofCaller, i, (hσ.asked i).symm⟩
  · obtain ⟨hserial, hi⟩ := hσ.serial.advance_outside (hσ.answered i) hholding
    exact ⟨served, hasked, hσ.ofCaller, hserial, hanswered hi⟩

theorem exists_consistent (r : Registry) (requests : ι → Request F) (schedule : List ι) :
    ∃ served, Consistent r requests served (run r requests schedule) := by
  apply List.foldlRecOn (motive := fun σ => ∃ served, Consistent r requests served σ)
  · exact ⟨[], fun _ => rfl, fun _ hq => absurd hq List.not_mem_nil, .free rfl (fun _ => id) rfl,
      fun _ _ heq => by cases heq⟩
  · rintro σ ⟨served, hσ⟩ i -
    exact hσ.advance i

/-! ### Calls that fail -/

theorem committed_of_cache_ne (hne : (σ.advance i).cache ≠ σ.cache) :
    ((σ.advance i).callers i).stage.Committed := by
  obtain ⟨stage, hcallers, hsame | ⟨w, -, rfl, hcache⟩⟩ := σ.advance_cases i
  · exact absurd hsame hne
  rw [hcache] at hne
  rw [hcallers, Function.update_self]
  exact Cache.committed_perform fun heq => absurd heq hne

theorem committed_advance (hi : (σ.callers i).stage.Committed) : ((σ.advance i).callers i).stage.Committed := by
  rcases hcaller : σ.callers i with ⟨q, stage⟩
  rw [hcaller] at hi
  cases stage with
  | lookUp | acquire | recheck => cases hi
  | work w =>
    rw [callers_advance_work hcaller]
    exact Cache.committed_perform fun _ => hi
  | release result =>
    rw [callers_advance_release hcaller]
    cases result with
    | error e => cases hi
    | ok reply => trivial
  | returned result =>
    rw [advance_returned hcaller, hcaller]
    exact hi

theorem committed_follow (hi : (σ.callers i).stage.Committed) (later : List ι) :
    ((σ.follow later).callers i).stage.Committed := by
  induction later generalizing σ with
  | nil => exact hi
  | cons j later ih =>
    apply ih
    by_cases hj : i = j
    · subst hj
      exact committed_advance hi
    · rwa [callers_advance_of_ne hj]

/-- A call that fails in the end has changed the cache at none of its steps. -/
theorem cache_eq_of_error {schedule before : List ι} (hbefore : before ++ [i] <+: schedule) {e : CompileError}
    (he : ((run r requests schedule).callers i).stage.result? = some (.error e)) :
    (run r requests (before ++ [i])).cache = (run r requests before).cache := by
  obtain ⟨later, rfl⟩ := hbefore
  rw [run_append, run_concat] at he
  rw [run_concat]
  by_contra hne
  exact (committed_follow (committed_of_cache_ne hne) later).result?_ne e he

/-! ### Calls that end -/

theorem Serial.exists_free (hσ : Serial r served σ) : ∃ later, (σ.follow later).owner = none := by
  cases hσ with
  | free howner => exact ⟨[], howner⟩
  | held i _ _ hunder =>
    rcases hcaller : σ.callers i with ⟨q, stage⟩
    rw [hcaller] at hunder
    cases stage with
    | lookUp | acquire | returned => cases hunder
    | recheck =>
      obtain ⟨n, -, hfree, -⟩ := completes_of_recheck hcaller
      exact ⟨_, hfree⟩
    | work w =>
      obtain ⟨n, -, hfree, -⟩ := completes_of_work hcaller hunder
      exact ⟨_, hfree⟩
    | release result =>
      obtain ⟨n, -, hfree, -⟩ := completes_of_release hcaller
      exact ⟨_, hfree⟩

theorem Serial.exists_returned (hσ : Serial r served σ) (hfree : σ.owner = none) {stage : Stage q}
    (hcaller : σ.callers i = ⟨q, stage⟩) : ∃ later result, (σ.follow later).callers i = ⟨q, .returned result⟩ := by
  cases hσ with
  | held j howner => cases hfree.symm.trans howner
  | free _ hothers _ =>
    have hi := hothers i
    rw [hcaller] at hi
    cases stage with
    | lookUp =>
      obtain ⟨n, -, -, hreturned⟩ := completes_of_lookUp hcaller hfree
      exact ⟨_, _, hreturned⟩
    | acquire =>
      obtain ⟨n, -, -, hreturned⟩ := completes_of_acquire hcaller hfree
      exact ⟨_, _, hreturned⟩
    | returned result => exact ⟨[], result, hcaller⟩
    | recheck | work | release => exact absurd trivial hi

/-- Whoever has the lock can be brought to release it, and then everyone can be brought to return. -/
theorem exists_returned (r : Registry) (requests : ι → Request F) (schedule : List ι) (i : ι) :
    ∃ later result, (run r requests (schedule ++ later)).callers i = ⟨requests i, .returned result⟩ := by
  obtain ⟨served, hσ⟩ := exists_consistent r requests schedule
  obtain ⟨later, hfree⟩ := hσ.serial.exists_free
  rw [← run_append] at hfree
  obtain ⟨served', hσ'⟩ := exists_consistent r requests (schedule ++ later)
  have hasked := hσ'.asked i
  rcases hcaller : (run r requests (schedule ++ later)).callers i with ⟨q, stage⟩
  rw [hcaller] at hasked
  obtain ⟨later', result, hreturned⟩ := hσ'.serial.exists_returned hfree hcaller
  rw [← run_append, List.append_assoc] at hreturned
  subst hasked
  exact ⟨later ++ later', result, hreturned⟩

/-! ### Agreement -/

/-- What concurrent callers can rely on, whatever they ask for and however their steps are interleaved.

No place is taken twice, no host type has two tables, no two objects have the same identity, and nothing that could be
seen before is lost or replaced. All who are answered for one key are answered with the same accessor set, and all who are
answered with a table of one host type with the same table. A table that can be seen was built for the members that came
with one of the requests, and what it holds can be seen under their keys. A call that fails changes the cache at none of
its steps. While no call is in progress, there are as many accessor sets as compilations were counted, and a call that is
then made and not disturbed does as its request. No call is ever kept from coming to its end. -/
theorem callers_agree (r : Registry) (requests : ι → Request F) (schedule : List ι) :
    let σ := run r requests schedule
    (σ.cache.places.Nodup ∧ σ.cache.hosts.Nodup ∧ σ.cache.identities.Nodup ∧
      ∀ before, before <+: schedule → (run r requests before).cache.Grows σ.cache) ∧
      (∀ i h m s, σ.callers i = ⟨.getOrCompile h m, .returned (.ok s)⟩ → σ.cache.find? h m.key = some s ∧
        ∀ j m' s', σ.callers j = ⟨.getOrCompile h m', .returned (.ok s')⟩ → m'.key = m.key → s' = s) ∧
      (∀ i h members t, σ.callers i = ⟨.table h members, .returned (.ok t)⟩ → σ.cache.table? h = some t ∧
        ∀ j members' t', σ.callers j = ⟨.table h members', .returned (.ok t')⟩ → t' = t) ∧
      (∀ h t, σ.cache.table? h = some t → ∃ i members, requests i = .table h members ∧
        List.Forall₂ (fun m s => σ.cache.find? h m.key = some s) members t.value.sets) ∧
      (∀ i e before, before ++ [i] <+: schedule → (σ.callers i).stage.result? = some (.error e) →
        (run r requests (before ++ [i])).cache = (run r requests before).cache) ∧
      ((∀ i, ¬ (σ.callers i).InProgress) → σ.cache.size = σ.cache.compilations ∧
        ∀ i q, σ.callers i = ⟨q, .lookUp⟩ → σ.Completes i q (σ.cache.reply q) (σ.cache.after q)) ∧
      ∀ i, ∃ later result, (run r requests (schedule ++ later)).callers i = ⟨requests i, .returned result⟩ := by
  intro σ
  obtain ⟨served, hσ⟩ := exists_consistent r requests schedule
  have hfound : ∀ i h m s, σ.callers i = ⟨.getOrCompile h m, .returned (.ok s)⟩ → σ.cache.find? h m.key = some s := by
    intro i h m s hi
    have hanswered := hσ.answered i
    rw [hi] at hanswered
    exact hanswered s rfl
  have htable : ∀ i h members t, σ.callers i = ⟨.table h members, .returned (.ok t)⟩ → σ.cache.table? h = some t := by
    intro i h members t hi
    have hanswered := hσ.answered i
    rw [hi] at hanswered
    exact hanswered t rfl
  obtain ⟨hplaces, hhosts, hidentities⟩ := hσ.nodup
  refine ⟨⟨hplaces, hhosts, hidentities, fun before => grows_run r requests⟩,
    fun i h m s hi => ⟨hfound i h m s hi, ?_⟩, fun i h members t hi => ⟨htable i h members t hi, ?_⟩,
    fun h t => hσ.find?_of_table?, fun i e before hbefore he => cache_eq_of_error hbefore he, ?_,
    exists_returned r requests schedule⟩
  · intro j m' s' hj hkey
    have hsame := hfound j h m' s' hj
    rw [hkey, hfound i h m s hi] at hsame
    exact (Option.some.inj hsame).symm
  · intro j members' t' hj
    exact Option.some.inj ((htable j h members' t' hj).symm.trans (htable i h members t hi))
  · intro hidle
    have hfree : σ.owner = none ∧ σ.cache = Cache.inUse r served := by
      cases hσ.serial with
      | free howner _ hcache => exact ⟨howner, hcache⟩
      | held i _ _ hunder => exact absurd hunder.holding.inProgress (hidle i)
    constructor
    · rw [hfree.2]
      exact (Cache.coherent_inUse r served).counted
    · intro i q hi
      exact completes_of_lookUp hi hfree.1

end System

namespace Pair

/-- Two callers that ask for the same key, and one for a table that cannot be built. -/
def rivals : Fin 3 → Request family
  | 0 => .getOrCompile () onRight
  | 1 => .getOrCompile () onLeft
  | 2 => .table () [onLeft, broken]

/-- All three find nothing. The table is tried first and fails; the number on the left is next, while the other waits for
the lock and is answered with it. -/
theorem callers_agree_onLeft :
    let schedule : List (Fin 3) := [0, 1, 2, 2, 1, 2, 2, 2, 2, 2, 0, 2, 1, 1, 0, 1, 1, 1, 1, 0, 0, 0]
    let σ := System.run (Registry.builtin {}) rivals schedule
    (∃ s, σ.callers 1 = ⟨.getOrCompile () onLeft, .returned (.ok s)⟩ ∧
      σ.callers 0 = ⟨.getOrCompile () onRight, .returned (.ok s)⟩) ∧
      (∃ e, σ.callers 2 = ⟨.table () [onLeft, broken], .returned (.error e)⟩) ∧
      (∀ before, before ++ [2] <+: schedule → (System.run (Registry.builtin {}) rivals (before ++ [2])).cache =
        (System.run (Registry.builtin {}) rivals before).cache) ∧ σ.cache.compilations = 1 := by
  intro schedule σ
  obtain ⟨-, hsets, -, -, hfailed, -⟩ := System.callers_agree (Registry.builtin {}) rivals schedule
  have hleft : ∃ s, σ.callers 1 = ⟨.getOrCompile () onLeft, .returned (.ok s)⟩ := ⟨_, rfl⟩
  have hright : ∃ s, σ.callers 0 = ⟨.getOrCompile () onRight, .returned (.ok s)⟩ := ⟨_, rfl⟩
  have htable : ∃ e, σ.callers 2 = ⟨.table () [onLeft, broken], .returned (.error e)⟩ := ⟨_, rfl⟩
  obtain ⟨s, hs⟩ := hleft
  obtain ⟨s', hs'⟩ := hright
  obtain ⟨e, he⟩ := htable
  have hsame : s' = s := (hsets 1 () onLeft s hs).2 0 onRight s' hs' rfl
  subst hsame
  refine ⟨⟨s', hs, hs'⟩, ⟨e, he⟩, fun before hbefore => hfailed 2 e before hbefore ?_, by decide +kernel⟩
  show (σ.callers 2).stage.result? = some (.error e)
  rw [he]
  rfl

end Pair

end Memberwise
