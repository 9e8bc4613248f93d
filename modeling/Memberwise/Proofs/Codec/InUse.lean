import Mathlib.Data.List.Nodup
import Memberwise.Proofs.Codec.Resolution

/-!
# Registries in use

A registry starts without operations, or with the built-in ones for some settings, and then operations are registered one
after another. One whose type, kind and name are taken is refused, and changes nothing (`Registry.inUse`).

So a registry only grows (`Registry.Extends`): what was found by name is found ever after, and what was found by shape
either is found still or has become one of several. And no two operations agree in type, kind and name
(`Registry.Distinct`), so that the errors of a look-up are as they should be (`Registry.inUse_told_apart`).
-/

namespace Memberwise.Registry

variable {r r' r'' : Registry} {t : ValueType} {k : OperationKind} {op : Operation}

/-! ### Registering -/

/-- The registry after an operation was registered or refused. -/
def after (r : Registry) (op : Operation) : Registry :=
  match r.insert op with
  | .ok r' => r'
  | .error _ => r

/-- The registry after operations were registered in their order, as far as they were not refused. -/
def afterAll (r : Registry) (ops : List Operation) : Registry := ops.foldl after r

/-- The registry without operations, or the built-in one for the settings given. -/
def fresh : Option RegistryConfig → Registry
  | none => empty
  | some config => builtin config

/-- A registry in which operations were registered in their order, as far as they were not refused. -/
def inUse (start : Option RegistryConfig) (ops : List Operation) : Registry := (fresh start).afterAll ops

/-- All that registering an operation can do. -/
theorem after_cases (r : Registry) (op : Operation) :
    r.after op = r ∨ r.find? op.type op.kind op.name = none ∧ r.after op = r.push op := by
  unfold after insert
  by_cases htaken : (r.find? op.type op.kind op.name).isSome
  · rw [if_pos htaken]
    exact .inl rfl
  · rw [if_neg htaken]
    exact .inr ⟨Option.not_isSome_iff_eq_none.1 htaken, rfl⟩

/-- What registering an operation keeps, registering any number of them keeps. -/
theorem afterAll_induction {P : Registry → Prop} (hr : P r) (hstep : ∀ r op, P r → P (r.after op))
    (ops : List Operation) : P (r.afterAll ops) :=
  List.foldlRecOn ops after hr fun r hr op _ => hstep r op hr

/-! ### Growth -/

/-- All operations of one registry are in the other, which may have more after them. -/
def Extends (r r' : Registry) : Prop := r.operations <+: r'.operations

theorem Extends.refl (r : Registry) : r.Extends r := List.prefix_rfl

theorem Extends.trans (h : r.Extends r') (h' : r'.Extends r'') : r.Extends r'' := List.IsPrefix.trans h h'

theorem extends_after (r : Registry) (op : Operation) : r.Extends (r.after op) := by
  rcases r.after_cases op with heq | ⟨-, heq⟩
  · rw [heq]
    exact .refl r
  · rw [heq]
    exact List.prefix_append _ _

theorem extends_afterAll (r : Registry) (ops : List Operation) : r.Extends (r.afterAll ops) :=
  afterAll_induction (.refl r) (fun r' op h => h.trans (r'.extends_after op)) ops

theorem Extends.candidates (h : r.Extends r') (t : ValueType) (k : OperationKind) :
    r.candidates t k <+: r'.candidates t k := h.filter _

/-- What was found by name is found ever after. -/
theorem Extends.find? (h : r.Extends r') {n : String} (hop : r.find? t k n = some op) : r'.find? t k n = some op := by
  obtain ⟨later, heq⟩ := h.candidates t k
  unfold Registry.find? at hop ⊢
  rw [← heq, List.find?_append, hop, Option.some_or]

theorem Extends.resolve (h : r.Extends r') {n : String} {b : Bound (k.Call t.Carrier)}
    (hb : r.resolve t k (some n) = .ok b) : r'.resolve t k (some n) = .ok b := by
  rw [resolve_eq_ok_iff, lookup_some_eq_ok_iff] at hb ⊢
  exact h.find? hb

/-- What is found before and after is the same, also if it is found by shape. -/
theorem Extends.resolve_unique (h : r.Extends r') {name : Option String} {b b' : Bound (k.Call t.Carrier)}
    (hb : r.resolve t k name = .ok b) (hb' : r'.resolve t k name = .ok b') : b' = b := by
  cases name with
  | some n =>
    rw [h.resolve hb, Except.ok.injEq] at hb'
    exact hb'.symm
  | none =>
    have hprefix := h.candidates t k
    rw [(mem_of_resolve hb).2.2 rfl, (mem_of_resolve hb').2.2 rfl] at hprefix
    obtain ⟨later, heq⟩ := hprefix
    injection heq with hop
    injection hop with _ _ hname hcall
    cases b
    cases b'
    cases hname
    cases hcall
    rfl

/-! ### Operations told apart -/

/-- No two operations agree in type, kind and name. -/
def Distinct (r : Registry) : Prop := (r.operations.map Operation.listed).Nodup

theorem find?_eq_none_iff {n : String} : r.find? t k n = none ↔ ⟨t, k, n⟩ ∉ r.operations.map Operation.listed := by
  simp only [find?, candidates, List.find?_eq_none, List.mem_filter, List.mem_map, Operation.listed, decide_eq_true_eq,
    Listed.mk.injEq, not_exists, not_and, and_imp]

theorem isSome_find?_iff {n : String} :
    (r.find? t k n).isSome ↔ ⟨t, k, n⟩ ∈ r.operations.map Operation.listed := by
  rw [Option.isSome_iff_ne_none, ne_eq, find?_eq_none_iff, not_not]

theorem insert_of_mem (h : op.listed ∈ r.operations.map Operation.listed) :
    r.insert op = .error ⟨op.type.name, op.kind, op.name⟩ := by
  rw [insert, if_pos (isSome_find?_iff.2 h)]

theorem insert_of_notMem (h : op.listed ∉ r.operations.map Operation.listed) : r.insert op = .ok (r.push op) := by
  rw [insert, if_neg (mt isSome_find?_iff.1 h)]

theorem after_of_mem (h : op.listed ∈ r.operations.map Operation.listed) : r.after op = r := by
  rw [after, insert_of_mem h]

theorem after_of_notMem (h : op.listed ∉ r.operations.map Operation.listed) : r.after op = r.push op := by
  rw [after, insert_of_notMem h]

/-- Whether it was refused or not, an operation is registered afterwards, or one of the same type, kind and name. -/
theorem mem_listed_after {e : Listed} :
    e ∈ (r.after op).operations.map Operation.listed ↔ e ∈ (r.operations ++ [op]).map Operation.listed := by
  by_cases htaken : op.listed ∈ r.operations.map Operation.listed
  · rw [after_of_mem htaken, List.map_append, List.mem_append, List.map_singleton, List.mem_singleton]
    refine ⟨Or.inl, fun he => ?_⟩
    rcases he with he | rfl
    · exact he
    · exact htaken
  · rw [after_of_notMem htaken]
    rfl

theorem mem_listed_afterAll {e : Listed} {ops : List Operation} :
    e ∈ (r.afterAll ops).operations.map Operation.listed ↔ e ∈ (r.operations ++ ops).map Operation.listed := by
  induction ops generalizing r with
  | nil => rw [List.append_nil]; rfl
  | cons op ops ih =>
    have hafter : e ∈ (r.after op).operations.map Operation.listed ↔ e ∈ (r.operations ++ [op]).map Operation.listed :=
      mem_listed_after
    rw [show r.afterAll (op :: ops) = (r.after op).afterAll ops from rfl, ih]
    simp only [List.map_append, List.mem_append, List.map_cons, List.mem_cons, List.map_nil, List.not_mem_nil,
      or_false] at hafter ⊢
    rw [hafter, or_assoc]

theorem Distinct.after (h : r.Distinct) (op : Operation) : (r.after op).Distinct := by
  rcases r.after_cases op with heq | ⟨hfree, heq⟩
  · rwa [heq]
  · have hnew : op.listed ∉ r.operations.map Operation.listed := find?_eq_none_iff.1 hfree
    rw [heq, Distinct, push, List.map_append, List.map_singleton, ← List.concat_eq_append]
    exact List.Nodup.concat hnew h

theorem distinct_builtin (config : RegistryConfig) : (builtin config).Distinct := by
  obtain ⟨order, varint⟩ := config
  unfold Distinct
  cases order <;> cases varint <;> decide +kernel

theorem distinct_fresh (start : Option RegistryConfig) : (fresh start).Distinct := by
  cases start with
  | none => exact List.nodup_nil
  | some config => exact distinct_builtin config

theorem distinct_inUse (start : Option RegistryConfig) (ops : List Operation) : (inUse start ops).Distinct :=
  afterAll_induction (distinct_fresh start) (fun _ op h => h.after op) ops

theorem Distinct.names (h : r.Distinct) (t : ValueType) (k : OperationKind) :
    ((r.candidates t k).map (·.name)).Nodup := by
  refine List.Nodup.map_on (fun op hop op' hop' hname => ?_) (List.Nodup.filter _ (List.Nodup.of_map _ h))
  obtain ⟨htype, hkind⟩ := type_kind_of_mem hop
  obtain ⟨htype', hkind'⟩ := type_kind_of_mem hop'
  refine List.inj_on_of_nodup_map h (List.mem_of_mem_filter hop) (List.mem_of_mem_filter hop') ?_
  rw [Operation.listed, Operation.listed, htype, hkind, htype', hkind', hname]

/-- What is registered is found by its name. -/
theorem Distinct.resolve (h : r.Distinct) {n : String} {call : k.Call t.Carrier} (hmem : ⟨t, k, n, call⟩ ∈ r.operations) :
    r.resolve t k (some n) = .ok ⟨n, call⟩ := by
  rw [resolve_eq_ok_iff, lookup_some_eq_ok_iff]
  cases hfound : r.find? t k n with
  | none => exact absurd (List.mem_map_of_mem hmem) (find?_eq_none_iff.1 hfound)
  | some op =>
    obtain ⟨hop, hname⟩ := mem_candidates_of_find? hfound
    obtain ⟨htype, hkind⟩ := type_kind_of_mem hop
    have hlisted : op.listed = Operation.listed ⟨t, k, n, call⟩ := by
      rw [Operation.listed, htype, hkind, hname]
      rfl
    rw [List.inj_on_of_nodup_map h (List.mem_of_mem_filter hop) hmem hlisted]

/-! ### Errors of a look-up -/

theorem supports_iff : r.supports t k ↔ r.candidates t k ≠ [] := by simp [supports]

/-- A type offers an operation of a kind exactly if looking for one by shape does not fail for want of it. -/
theorem supports_iff_lookup :
    r.supports t k ↔ ∀ type kind name, r.lookup t k none ≠ .error (.notFound type kind name) := by
  rw [supports_iff]
  constructor
  · intro hsome type kind name he
    rcases r.lookup_cases t k none with ⟨op, heq⟩ | ⟨hnone, -⟩ | ⟨-, -, heq⟩ | ⟨n, hn, -⟩
    · cases heq.symm.trans he
    · exact hsome (hnone rfl)
    · cases heq.symm.trans he
    · cases hn
  · intro hfound hnone
    exact hfound t.name k none (by rw [lookup, hnone])

/-- The candidates between which a look-up cannot choose have different names, and are at least two. -/
theorem Distinct.of_ambiguous (h : r.Distinct) {name : Option String} {type : String} {kind : OperationKind}
    {names : List String} (he : r.lookup t k name = .error (.ambiguous type kind names)) :
    names.Nodup ∧ 2 ≤ names.length := by
  rcases r.lookup_cases t k name with ⟨op, heq⟩ | ⟨-, heq⟩ | ⟨-, hmany, heq⟩ | ⟨n, -, -, heq⟩
  · cases heq.symm.trans he
  · cases heq.symm.trans he
  · cases heq.symm.trans he
    exact ⟨h.names t k, by rwa [List.length_map]⟩
  · cases heq.symm.trans he

/-- The kinds under which a name was found instead of the one asked for come in their order. -/
theorem of_shapeMismatch {name : Option String} {type n : String} {expected : OperationKind}
    {found : List OperationKind} (he : r.lookup t k name = .error (.shapeMismatch type n expected found)) :
    expected = k ∧ found ≠ [] ∧ (found.Pairwise fun j j' => j.index < j'.index) ∧ expected ∉ found := by
  rcases r.lookup_cases t k name with ⟨op, heq⟩ | ⟨-, heq⟩ | ⟨-, -, heq⟩ | ⟨n', -, hfound, heq⟩
  · cases heq.symm.trans he
  · cases heq.symm.trans he
  · cases heq.symm.trans he
  · cases heq.symm.trans he
    exact ⟨rfl, hfound, r.otherKinds_ascending t k _, fun hmem => (mem_otherKinds.1 hmem).1 rfl⟩

end Memberwise.Registry
