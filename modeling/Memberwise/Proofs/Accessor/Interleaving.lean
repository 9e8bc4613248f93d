import Mathlib.Logic.Function.Basic
import Memberwise.Proofs.Accessor.Coherence

/-!
# Concurrent requests

Any number of callers share one cache, each with one call, and their calls run in atomic steps, in any order
(`System.run`). A caller looks up what it asks for; only if it is not there, it takes the lock, looks again, does the work
(`Cache.perform`) and releases the lock. Lookups do not need the lock: between any two steps of the work the others see
what is published so far.

Work that is not disturbed comes to what the request comes to in one go (`Cache.Midway.perform`), so that a call which has
the cache to itself does as its request (`System.completes_of_lookUp`).
-/

namespace Memberwise

variable {F : HostFamily}

/-! ### Steps -/

/-- What a caller that has the lock is about to do. A table is built one member at a time: a member that is looked up and
not found is compiled next. -/
inductive Work : Request F → Type
  | compile {h : F.Host} {m : Member (F.Instance h)} : Work (.getOrCompile h m)
  | insert {h : F.Host} {m : Member (F.Instance h)} (s : Shared (AccessorSet (F.Instance h))) :
    Work (.getOrCompile h m)
  | count {h : F.Host} {m : Member (F.Instance h)} (s : Shared (AccessorSet (F.Instance h))) :
    Work (.getOrCompile h m)
  | lookUpNext {h : F.Host} {members : List (Member (F.Instance h))} (seen : List String) (b : Built F h)
    (rest : List (Member (F.Instance h))) : Work (.table h members)
  | compileNext {h : F.Host} {members : List (Member (F.Instance h))} (seen : List String) (b : Built F h)
    (m : Member (F.Instance h)) (rest : List (Member (F.Instance h))) : Work (.table h members)
  | insertSets {h : F.Host} {members : List (Member (F.Instance h))} (b : Built F h) : Work (.table h members)
  | insertTable {h : F.Host} {members : List (Member (F.Instance h))} (b : Built F h) : Work (.table h members)
  | countSets {h : F.Host} {members : List (Member (F.Instance h))} (b : Built F h)
    (t : Shared (Table (F.Instance h))) : Work (.table h members)

def Request.start : (q : Request F) → Work q
  | .getOrCompile _ _ => .compile
  | .table _ members => .lookUpNext [] ⟨[], []⟩ members

/-- How far a call has come. -/
inductive Stage (q : Request F)
  | lookUp
  | acquire
  | recheck
  | work (w : Work q)
  | release (result : Except CompileError q.Reply)
  | returned (result : Except CompileError q.Reply)

/-- Whether the stage is one at which the caller has the lock. -/
def Stage.Holding {q : Request F} : Stage q → Prop
  | .recheck | .work _ | .release _ => True
  | .lookUp | .acquire | .returned _ => False

structure Caller (F : HostFamily) where
  request : Request F
  stage : Stage request

/-- The caller has taken the first step of its call, and not yet the last. -/
def Caller.InProgress (caller : Caller F) : Prop :=
  caller.stage ≠ .lookUp ∧ ∀ result, caller.stage ≠ .returned result

def Built.append {h : F.Host} (b b' : Built F h) : Built F h := ⟨b.sets ++ b'.sets, b.fresh ++ b'.fresh⟩

namespace Cache

/-- A step of the work, with the stage that it leads to. -/
def perform (c : Cache F) : {q : Request F} → Work q → Cache F × Stage q
  | .getOrCompile h m, .compile =>
    match m.compile c.registry (F.name h) with
    | .error e => (c, .release (.error e))
    | .ok set => (c, .work (.insert ⟨c.nextId, set⟩))
  | .getOrCompile h m, .insert s => (c.insertSets [⟨h, m.key, s⟩], .work (.count s))
  | .getOrCompile _ _, .count s => (c.count 1, .release (.ok s))
  | .table _ _, .lookUpNext _ b [] => (c, .work (.insertSets b))
  | .table h _, .lookUpNext seen b (m :: rest) =>
    if m.name ∈ seen then (c, .release (.error (.binding (.duplicateMember (F.name h) m.name))))
    else
      match c.find? h m.key with
      | some s => (c, .work (.lookUpNext (m.name :: seen) (b.append ⟨[s], []⟩) rest))
      | none => (c, .work (.compileNext seen b m rest))
  | .table h _, .compileNext seen b m rest =>
    match m.compile c.registry (F.name h) with
    | .error e => (c, .release (.error e))
    | .ok set =>
      -- free until it is published, for nobody else publishes while the lock is held
      let s := ⟨c.nextId + b.fresh.length, set⟩
      (c, .work (.lookUpNext (m.name :: seen) (b.append ⟨[s], [⟨h, m.key, s⟩]⟩) rest))
  | .table _ _, .insertSets b => (c.insertSets b.fresh, .work (.insertTable b))
  | .table h _, .insertTable b => (c.insertTable h ⟨b.sets⟩, .work (.countSets b ⟨c.nextId, ⟨b.sets⟩⟩))
  | .table _ _, .countSets b t => (c.count b.fresh.length, .release (.ok t))

end Cache

/-- A cache with its callers, and the one of them that has the lock. -/
structure System (F : HostFamily) (ι : Type) where
  cache : Cache F
  owner : Option ι := none
  callers : ι → Caller F

namespace System

variable {ι : Type} [DecidableEq ι]

def enter (σ : System F ι) (i : ι) {q : Request F} (stage : Stage q) : System F ι :=
  { σ with callers := Function.update σ.callers i ⟨q, stage⟩ }

/-- A step of a caller. One that waits for the lock stays where it is. -/
def advance (σ : System F ι) (i : ι) : System F ι :=
  match σ.callers i with
  | ⟨q, .lookUp⟩ =>
    match σ.cache.cached? q with
    | some reply => σ.enter i (.returned (.ok reply) : Stage q)
    | none => σ.enter i (.acquire : Stage q)
  | ⟨q, .acquire⟩ =>
    match σ.owner with
    | some _ => σ
    | none => { σ.enter i (.recheck : Stage q) with owner := some i }
  | ⟨q, .recheck⟩ =>
    match σ.cache.cached? q with
    | some reply => σ.enter i (.release (.ok reply) : Stage q)
    | none => σ.enter i (.work q.start)
  | ⟨_, .work w⟩ => { σ.enter i (σ.cache.perform w).2 with cache := (σ.cache.perform w).1 }
  | ⟨q, .release result⟩ => { σ.enter i (.returned result : Stage q) with owner := none }
  | ⟨_, .returned _⟩ => σ

/-- The system after the steps of the callers listed. -/
def follow (σ : System F ι) (schedule : List ι) : System F ι := schedule.foldl advance σ

/-- The system after the steps of the callers listed, from a cache over the registry with nothing in it. -/
def run (r : Registry) (requests : ι → Request F) (schedule : List ι) : System F ι :=
  follow { cache := { registry := r }, callers := fun i => ⟨requests i, .lookUp⟩ } schedule

end System

/-! ### Work in one piece -/

namespace Cache

variable {c c' : Cache F} {q : Request F}

theorem cached?_after {reply : q.Reply} (hreply : c.reply q = .ok reply) : (c.after q).cached? q = some reply := by
  cases q with
  | getOrCompile h m => exact find?_of_getOrCompile hreply
  | table h members => exact table?_of_table hreply

theorem Grows.cached? (hc : c.Grows c') {reply : q.Reply} (hcached : c.cached? q = some reply) :
    c'.cached? q = some reply := by
  cases q with
  | getOrCompile h m => exact hc.find? hcached
  | table h members => exact hc.table? hcached

/-- The work on a request that was not cached has come to the step given. So far nothing was published, or what the steps
before have published, with the identities that it gets in one go. -/
inductive Midway (c : Cache F) : {q : Request F} → Work q → Cache F → Prop
  | compile {h : F.Host} {m : Member (F.Instance h)} (hnone : c.find? h m.key = none) :
    Midway c (.compile : Work (.getOrCompile h m)) c
  | insert {h : F.Host} {m : Member (F.Instance h)} {set : AccessorSet (F.Instance h)}
    (hnone : c.find? h m.key = none) (hset : m.compile c.registry (F.name h) = .ok set) :
    Midway c (.insert ⟨c.nextId, set⟩ : Work (.getOrCompile h m)) c
  | count {h : F.Host} {m : Member (F.Instance h)} {set : AccessorSet (F.Instance h)}
    (hnone : c.find? h m.key = none) (hset : m.compile c.registry (F.name h) = .ok set) :
    Midway c (.count ⟨c.nextId, set⟩ : Work (.getOrCompile h m)) (c.insertSets [⟨h, m.key, ⟨c.nextId, set⟩⟩])
  | lookUpNext {h : F.Host} {members rest : List (Member (F.Instance h))} {seen : List String} {b : Built F h}
    (hnone : c.table? h = none)
    (hbuild : c.build h [] c.nextId members = (c.build h seen (c.nextId + b.fresh.length) rest).map b.append) :
    Midway c (.lookUpNext seen b rest : Work (.table h members)) c
  | compileNext {h : F.Host} {members rest : List (Member (F.Instance h))} {seen : List String} {b : Built F h}
    {m : Member (F.Instance h)} (hnone : c.table? h = none)
    (hbuild : c.build h [] c.nextId members = (c.build h seen (c.nextId + b.fresh.length) (m :: rest)).map b.append)
    (hseen : m.name ∉ seen) (hfound : c.find? h m.key = none) :
    Midway c (.compileNext seen b m rest : Work (.table h members)) c
  | insertSets {h : F.Host} {members : List (Member (F.Instance h))} {b : Built F h} (hnone : c.table? h = none)
    (hbuild : c.build h [] c.nextId members = .ok b) : Midway c (.insertSets b : Work (.table h members)) c
  | insertTable {h : F.Host} {members : List (Member (F.Instance h))} {b : Built F h} (hnone : c.table? h = none)
    (hbuild : c.build h [] c.nextId members = .ok b) :
    Midway c (.insertTable b : Work (.table h members)) (c.insertSets b.fresh)
  | countSets {h : F.Host} {members : List (Member (F.Instance h))} {b : Built F h} (hnone : c.table? h = none)
    (hbuild : c.build h [] c.nextId members = .ok b) :
    Midway c (.countSets b ⟨c.nextId + b.fresh.length, ⟨b.sets⟩⟩ : Work (.table h members))
      ((c.insertSets b.fresh).insertTable h ⟨b.sets⟩)

theorem midway_start (hnone : c.cached? q = none) : Midway c q.start c := by
  cases q with
  | getOrCompile h m => exact .compile hnone
  | table h members =>
    refine .lookUpNext hnone ?_
    have hnil : (⟨[], []⟩ : Built F h).append = id := rfl
    rw [hnil, List.length_nil, Nat.add_zero, Except.map_id]
    rfl

/-- A member that is not the first of its name is found or compiled, and the build goes on with the rest. -/
private theorem map_build_of_find? {h : F.Host} {m : Member (F.Instance h)} {rest : List (Member (F.Instance h))}
    {seen : List String} {next : Nat} {s : Shared (AccessorSet (F.Instance h))} (b : Built F h)
    (hseen : m.name ∉ seen) (hs : c.find? h m.key = some s) :
    (c.build h seen next (m :: rest)).map b.append =
      (c.build h (m.name :: seen) next rest).map (b.append ⟨[s], []⟩).append := by
  rw [build, if_neg hseen, hs]
  cases c.build h (m.name :: seen) next rest with
  | error e => rfl
  | ok b' => simp [Except.map, bind, Except.bind, pure, Except.pure, Built.append]

private theorem map_build_of_compile {h : F.Host} {m : Member (F.Instance h)} {rest : List (Member (F.Instance h))}
    {seen : List String} {next : Nat} {set : AccessorSet (F.Instance h)} (b : Built F h)
    (hseen : m.name ∉ seen) (hnone : c.find? h m.key = none) (hset : m.compile c.registry (F.name h) = .ok set) :
    (c.build h seen next (m :: rest)).map b.append =
      (c.build h (m.name :: seen) (next + 1) rest).map
        (b.append ⟨[⟨next, set⟩], [⟨h, m.key, ⟨next, set⟩⟩]⟩).append := by
  rw [build, if_neg hseen, hnone, hset]
  simp only [bind, Except.bind]
  cases c.build h (m.name :: seen) (next + 1) rest with
  | error e => rfl
  | ok b' => simp [Except.map, pure, Except.pure, Built.append]

/-- A step of the work leads to the next one, or else the request is done and has come to what it comes to in one go. -/
theorem Midway.perform {w : Work q} (hmid : Midway c w c') :
    (∃ w', (c'.perform w).2 = .work w' ∧ Midway c w' (c'.perform w).1) ∨
      c'.perform w = (c.after q, .release (c.reply q)) := by
  cases hmid with
  | @compile h m hnone =>
    cases hcompile : m.compile c.registry (F.name h) with
    | error e =>
      right
      rw [Cache.perform, hcompile, after, reply, getOrCompile_of_error hnone hcompile]
      rfl
    | ok set =>
      left
      rw [Cache.perform, hcompile]
      exact ⟨_, rfl, .insert hnone hcompile⟩
  | insert hnone hset => exact .inl ⟨_, rfl, .count hnone hset⟩
  | count hnone hset =>
    right
    rw [after, reply, getOrCompile_of_compile hnone hset]
    rfl
  | @lookUpNext h members rest seen b hnone hbuild =>
    cases rest with
    | nil =>
      left
      refine ⟨_, rfl, .insertSets hnone ?_⟩
      rw [hbuild, build]
      simp [Except.map, Built.append]
    | cons m rest =>
      by_cases hseen : m.name ∈ seen
      · right
        have herror : c.build h [] c.nextId members = .error (.binding (.duplicateMember (F.name h) m.name)) := by
          rw [hbuild, build, if_pos hseen]
          rfl
        rw [Cache.perform, if_pos hseen, after, reply, table_of_error hnone herror]
        rfl
      cases hfound : c.find? h m.key with
      | some s =>
        left
        rw [Cache.perform, if_neg hseen, hfound]
        refine ⟨_, rfl, .lookUpNext hnone ?_⟩
        rw [hbuild, map_build_of_find? b hseen hfound]
        simp [Built.append]
      | none =>
        left
        rw [Cache.perform, if_neg hseen, hfound]
        exact ⟨_, rfl, .compileNext hnone hbuild hseen hfound⟩
  | @compileNext h members rest seen b m hnone hbuild hseen hfound =>
    cases hcompile : m.compile c.registry (F.name h) with
    | error e =>
      right
      have herror : c.build h [] c.nextId members = .error e := by
        rw [hbuild, build, if_neg hseen, hfound, hcompile]
        rfl
      rw [Cache.perform, hcompile, after, reply, table_of_error hnone herror]
      rfl
    | ok set =>
      left
      rw [Cache.perform, hcompile]
      refine ⟨_, rfl, .lookUpNext hnone ?_⟩
      rw [hbuild, map_build_of_compile b hseen hfound hcompile]
      simp [Built.append, Nat.add_assoc]
  | insertSets hnone hbuild => exact .inl ⟨_, rfl, .insertTable hnone hbuild⟩
  | insertTable hnone hbuild => exact .inl ⟨_, rfl, .countSets hnone hbuild⟩
  | countSets hnone hbuild =>
    right
    rw [after, reply, table_of_build hnone hbuild]
    rfl

end Cache

/-! ### What a step of the work does -/

/-- The steps that are left before the request is done, at most. -/
def Work.rank {q : Request F} : Work q → Nat
  | .compile => 2
  | .insert _ => 1
  | .count _ => 0
  | .lookUpNext _ _ rest => 2 * rest.length + 3
  | .compileNext _ _ _ rest => 2 * rest.length + 4
  | .insertSets _ => 2
  | .insertTable _ => 1
  | .countSets _ _ => 0

/-- Whether some of what the request publishes can be seen. -/
def Work.Publishing {q : Request F} : Work q → Prop
  | .compile | .insert _ | .lookUpNext _ _ _ | .compileNext _ _ _ _ | .insertSets _ => False
  | .count _ | .insertTable _ | .countSets _ _ => True

/-- Something of the request was published, or cached before, so that the call does not fail any more. -/
def Stage.Committed {q : Request F} : Stage q → Prop
  | .work w => w.Publishing
  | .release (.ok _) | .returned (.ok _) => True
  | _ => False

namespace Cache

theorem grows_insertSets (c : Cache F) (fresh : List (Entry F)) : c.Grows (c.insertSets fresh) :=
  ⟨List.prefix_append _ _, List.prefix_rfl⟩

theorem grows_insertTable (c : Cache F) (h : F.Host) (t : Table (F.Instance h)) : c.Grows (c.insertTable h t) :=
  ⟨List.prefix_rfl, List.prefix_append _ _⟩

theorem grows_count (c : Cache F) (n : Nat) : c.Grows (c.count n) := ⟨List.prefix_rfl, List.prefix_rfl⟩

/-- All that a step of the work can do. It prepares what is to be published, or fails at it, or publishes something, or
counts what was published and is done. -/
theorem perform_cases (c : Cache F) {q : Request F} (w : Work q) :
    (∃ w', c.perform w = (c, .work w') ∧ w'.rank < w.rank ∧ ¬ w.Publishing) ∨
      (∃ e, c.perform w = (c, .release (.error e)) ∧ ¬ w.Publishing) ∨
      (∃ c' w', c.perform w = (c', .work w') ∧ w'.rank < w.rank ∧ w'.Publishing ∧ c.Grows c') ∨
      ∃ c' reply, c.perform w = (c', .release (.ok reply)) ∧ c.Grows c' := by
  cases w with
  | compile =>
    rw [Cache.perform]
    split
    · exact .inr (.inl ⟨_, rfl, id⟩)
    · exact .inl ⟨_, rfl, Nat.lt_succ_self 1, id⟩
  | insert s => exact .inr (.inr (.inl ⟨_, _, rfl, Nat.zero_lt_one, trivial, c.grows_insertSets _⟩))
  | count s => exact .inr (.inr (.inr ⟨_, _, rfl, c.grows_count _⟩))
  | lookUpNext seen b rest =>
    cases rest with
    | nil => exact .inl ⟨_, rfl, Nat.lt_succ_self 2, id⟩
    | cons m rest =>
      rw [Cache.perform]
      split
      · exact .inr (.inl ⟨_, rfl, id⟩)
      split
      all_goals
        refine .inl ⟨_, rfl, ?_, id⟩
        simp only [Work.rank, List.length_cons]
        omega
  | compileNext seen b m rest =>
    rw [Cache.perform]
    split
    · exact .inr (.inl ⟨_, rfl, id⟩)
    · exact .inl ⟨_, rfl, Nat.lt_succ_self _, id⟩
  | insertSets b => exact .inr (.inr (.inl ⟨_, _, rfl, Nat.lt_succ_self 1, trivial, c.grows_insertSets _⟩))
  | insertTable b => exact .inr (.inr (.inl ⟨_, _, rfl, Nat.zero_lt_one, trivial, c.grows_insertTable _ _⟩))
  | countSets b t => exact .inr (.inr (.inr ⟨_, _, rfl, c.grows_count _⟩))

theorem grows_perform (c : Cache F) {q : Request F} (w : Work q) : c.Grows (c.perform w).1 := by
  rcases c.perform_cases w with ⟨w', heq, -⟩ | ⟨e, heq, -⟩ | ⟨c', w', heq, -, -, hgrows⟩ | ⟨c', reply, heq, hgrows⟩
  · rw [heq]
    exact .refl c
  · rw [heq]
    exact .refl c
  · rwa [heq]
  · rwa [heq]

theorem rank_perform {c : Cache F} {q : Request F} {w w' : Work q} (hw : (c.perform w).2 = .work w') :
    w'.rank < w.rank := by
  rcases c.perform_cases w with ⟨w'', heq, hrank, -⟩ | ⟨e, heq, -⟩ | ⟨c', w'', heq, hrank, -⟩ | ⟨c', reply, heq, -⟩
  all_goals
    rw [heq] at hw
    cases hw
  · exact hrank
  · exact hrank

/-- Who has published something, by this step or before, does not fail. -/
theorem committed_perform {c : Cache F} {q : Request F} {w : Work q} (hw : (c.perform w).1 = c → w.Publishing) :
    (c.perform w).2.Committed := by
  rcases c.perform_cases w with ⟨w', heq, -, hnot⟩ | ⟨e, heq, hnot⟩ | ⟨c', w', heq, -, hpublishing, -⟩ |
    ⟨c', reply, heq, -⟩
  all_goals rw [heq] at hw ⊢
  · exact absurd (hw rfl) hnot
  · exact absurd (hw rfl) hnot
  · exact hpublishing
  · trivial

end Cache

/-! ### What a step changes -/

namespace System

variable {ι : Type} [DecidableEq ι] {σ : System F ι} {i : ι} {q : Request F}

theorem callers_enter_self (stage : Stage q) : (σ.enter i stage).callers i = ⟨q, stage⟩ :=
  Function.update_self ..

theorem callers_enter_of_ne {j : ι} (hj : j ≠ i) (stage : Stage q) : (σ.enter i stage).callers j = σ.callers j :=
  Function.update_of_ne hj ..

theorem advance_lookUp_of_cached {reply : q.Reply} (hi : σ.callers i = ⟨q, .lookUp⟩)
    (hcached : σ.cache.cached? q = some reply) : σ.advance i = σ.enter i (.returned (.ok reply) : Stage q) := by
  simp only [advance, hi, hcached]

theorem advance_lookUp_of_none (hi : σ.callers i = ⟨q, .lookUp⟩) (hnone : σ.cache.cached? q = none) :
    σ.advance i = σ.enter i (.acquire : Stage q) := by
  simp only [advance, hi, hnone]

theorem advance_acquire_of_free (hi : σ.callers i = ⟨q, .acquire⟩) (hfree : σ.owner = none) :
    σ.advance i = { σ.enter i (.recheck : Stage q) with owner := some i } := by
  simp only [advance, hi, hfree]

theorem advance_acquire_of_held {j : ι} (hi : σ.callers i = ⟨q, .acquire⟩) (hheld : σ.owner = some j) :
    σ.advance i = σ := by
  simp only [advance, hi, hheld]

theorem advance_recheck_of_cached {reply : q.Reply} (hi : σ.callers i = ⟨q, .recheck⟩)
    (hcached : σ.cache.cached? q = some reply) : σ.advance i = σ.enter i (.release (.ok reply) : Stage q) := by
  simp only [advance, hi, hcached]

theorem advance_recheck_of_none (hi : σ.callers i = ⟨q, .recheck⟩) (hnone : σ.cache.cached? q = none) :
    σ.advance i = σ.enter i (.work q.start) := by
  simp only [advance, hi, hnone]

theorem advance_work {w : Work q} (hi : σ.callers i = ⟨q, .work w⟩) :
    σ.advance i = { σ.enter i (σ.cache.perform w).2 with cache := (σ.cache.perform w).1 } := by
  simp only [advance, hi]

theorem callers_advance_work {w : Work q} (hi : σ.callers i = ⟨q, .work w⟩) :
    (σ.advance i).callers i = ⟨q, (σ.cache.perform w).2⟩ := by
  rw [advance_work hi]
  exact callers_enter_self _

theorem advance_release {result : Except CompileError q.Reply} (hi : σ.callers i = ⟨q, .release result⟩) :
    σ.advance i = { σ.enter i (.returned result : Stage q) with owner := none } := by
  simp only [advance, hi]

theorem callers_advance_release {result : Except CompileError q.Reply} (hi : σ.callers i = ⟨q, .release result⟩) :
    (σ.advance i).callers i = ⟨q, .returned result⟩ := by
  rw [advance_release hi]
  exact callers_enter_self _

theorem advance_returned {result : Except CompileError q.Reply} (hi : σ.callers i = ⟨q, .returned result⟩) :
    σ.advance i = σ := by
  simp only [advance, hi]

/-- A step changes at most the stage of its caller, unless it is one of the work. -/
theorem advance_cases (σ : System F ι) (i : ι) :
    ∃ stage : Stage (σ.callers i).request,
      (σ.advance i).callers = Function.update σ.callers i ⟨_, stage⟩ ∧
        ((σ.advance i).cache = σ.cache ∨ ∃ w, (σ.callers i).stage = .work w ∧ stage = (σ.cache.perform w).2 ∧
          (σ.advance i).cache = (σ.cache.perform w).1) := by
  rcases hcaller : σ.callers i with ⟨q, stage⟩
  cases stage with
  | lookUp =>
    cases hcached : σ.cache.cached? q with
    | some reply =>
      rw [advance_lookUp_of_cached hcaller hcached]
      exact ⟨_, rfl, .inl rfl⟩
    | none =>
      rw [advance_lookUp_of_none hcaller hcached]
      exact ⟨_, rfl, .inl rfl⟩
  | acquire =>
    cases howner : σ.owner with
    | some j =>
      rw [advance_acquire_of_held hcaller howner]
      exact ⟨.acquire, (Function.update_eq_self_iff.2 hcaller.symm).symm, .inl rfl⟩
    | none =>
      rw [advance_acquire_of_free hcaller howner]
      exact ⟨_, rfl, .inl rfl⟩
  | recheck =>
    cases hcached : σ.cache.cached? q with
    | some reply =>
      rw [advance_recheck_of_cached hcaller hcached]
      exact ⟨_, rfl, .inl rfl⟩
    | none =>
      rw [advance_recheck_of_none hcaller hcached]
      exact ⟨_, rfl, .inl rfl⟩
  | work w =>
    rw [advance_work hcaller]
    exact ⟨_, rfl, .inr ⟨w, rfl, rfl, rfl⟩⟩
  | release result =>
    rw [advance_release hcaller]
    exact ⟨_, rfl, .inl rfl⟩
  | returned result =>
    rw [advance_returned hcaller]
    exact ⟨.returned result, (Function.update_eq_self_iff.2 hcaller.symm).symm, .inl rfl⟩

theorem callers_advance_of_ne {j : ι} (hj : j ≠ i) : (σ.advance i).callers j = σ.callers j := by
  obtain ⟨stage, hcallers, -⟩ := σ.advance_cases i
  rw [hcallers, Function.update_of_ne hj]

theorem request_advance (σ : System F ι) (i j : ι) : ((σ.advance i).callers j).request = (σ.callers j).request := by
  obtain ⟨stage, hcallers, -⟩ := σ.advance_cases i
  by_cases hj : j = i
  · rw [hcallers, hj, Function.update_self]
  · rw [hcallers, Function.update_of_ne hj]

theorem grows_advance (σ : System F ι) (i : ι) : σ.cache.Grows (σ.advance i).cache := by
  obtain ⟨stage, -, hsame | ⟨w, -, -, hcache⟩⟩ := σ.advance_cases i
  · rw [hsame]
    exact .refl _
  · rw [hcache]
    exact σ.cache.grows_perform w

theorem grows_follow (σ : System F ι) (schedule : List ι) : σ.cache.Grows (σ.follow schedule).cache := by
  induction schedule generalizing σ with
  | nil => exact .refl _
  | cons i schedule ih => exact (σ.grows_advance i).trans (ih _)

theorem run_append (r : Registry) (requests : ι → Request F) (schedule later : List ι) :
    run r requests (schedule ++ later) = (run r requests schedule).follow later :=
  List.foldl_append

theorem run_concat (r : Registry) (requests : ι → Request F) (schedule : List ι) (i : ι) :
    run r requests (schedule ++ [i]) = (run r requests schedule).advance i :=
  run_append r requests schedule [i]

theorem grows_run (r : Registry) (requests : ι → Request F) {before schedule : List ι} (hbefore : before <+: schedule) :
    (run r requests before).cache.Grows (run r requests schedule).cache := by
  obtain ⟨later, rfl⟩ := hbefore
  rw [run_append]
  exact grows_follow _ later

/-! ### A call by itself -/

/-- Left to itself, the caller comes to return the result of its request, with the cache as given and the lock free. -/
def Completes (σ : System F ι) (i : ι) (q : Request F) (result : Except CompileError q.Reply) (c : Cache F) : Prop :=
  ∃ n, let σ' := σ.follow (List.replicate n i)
    σ'.cache = c ∧ σ'.owner = none ∧ σ'.callers i = ⟨q, .returned result⟩

variable {result : Except CompileError q.Reply}

theorem Completes.of_advance {c : Cache F} (hnext : (σ.advance i).Completes i q result c) :
    σ.Completes i q result c := by
  obtain ⟨n, hn⟩ := hnext
  exact ⟨n + 1, hn⟩

theorem completes_of_release (hi : σ.callers i = ⟨q, .release result⟩) : σ.Completes i q result σ.cache := by
  refine .of_advance ⟨0, ?_, ?_, callers_advance_release hi⟩
  all_goals
    rw [advance_release hi]
    rfl

/-- Work that is not disturbed comes to what the request comes to in one go. -/
theorem completes_of_work {c : Cache F} {w : Work q} (hi : σ.callers i = ⟨q, .work w⟩)
    (hmid : Cache.Midway c w σ.cache) : σ.Completes i q (c.reply q) (c.after q) := by
  induction hrank : w.rank using Nat.strongRecOn generalizing σ w with
  | ind rank ih =>
    apply Completes.of_advance
    have hnext := callers_advance_work hi
    have hcache : (σ.advance i).cache = (σ.cache.perform w).1 := by rw [advance_work hi]
    rcases hmid.perform with ⟨w', hw', hmid'⟩ | hdone
    · rw [hw'] at hnext
      rw [← hcache] at hmid'
      exact ih w'.rank (hrank ▸ Cache.rank_perform hw') hnext hmid' rfl
    · rw [hdone] at hnext hcache
      rw [← show (σ.advance i).cache = c.after q from hcache]
      exact completes_of_release hnext

theorem completes_of_recheck (hi : σ.callers i = ⟨q, .recheck⟩) :
    σ.Completes i q (σ.cache.reply q) (σ.cache.after q) := by
  apply Completes.of_advance
  cases hcached : σ.cache.cached? q with
  | some reply =>
    obtain ⟨hreply, hafter⟩ := Cache.reply_of_cached? hcached
    rw [advance_recheck_of_cached hi hcached, hreply, hafter]
    exact completes_of_release (callers_enter_self _)
  | none =>
    rw [advance_recheck_of_none hi hcached]
    exact completes_of_work (callers_enter_self _) (Cache.midway_start hcached)

theorem completes_of_acquire (hi : σ.callers i = ⟨q, .acquire⟩) (hfree : σ.owner = none) :
    σ.Completes i q (σ.cache.reply q) (σ.cache.after q) := by
  apply Completes.of_advance
  rw [advance_acquire_of_free hi hfree]
  let σ' : System F ι := { σ.enter i (.recheck : Stage q) with owner := some i }
  have hrecheck : σ'.callers i = ⟨q, .recheck⟩ := callers_enter_self _
  exact completes_of_recheck hrecheck

/-- A call that has the cache to itself does as its request. -/
theorem completes_of_lookUp (hi : σ.callers i = ⟨q, .lookUp⟩) (hfree : σ.owner = none) :
    σ.Completes i q (σ.cache.reply q) (σ.cache.after q) := by
  apply Completes.of_advance
  cases hcached : σ.cache.cached? q with
  | some reply =>
    obtain ⟨hreply, hafter⟩ := Cache.reply_of_cached? hcached
    rw [advance_lookUp_of_cached hi hcached, hreply, hafter]
    exact ⟨0, rfl, hfree, callers_enter_self _⟩
  | none =>
    rw [advance_lookUp_of_none hi hcached]
    have hacquire : (σ.enter i (.acquire : Stage q)).callers i = ⟨q, .acquire⟩ := callers_enter_self _
    exact completes_of_acquire hacquire hfree

end System

end Memberwise
