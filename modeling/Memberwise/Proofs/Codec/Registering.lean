import Memberwise.Proofs.Codec.Listing

/-!
# What a registration changes

One more operation is one more candidate of its kind on its type, and the last of them. So it is found by its name
(`find?_push_self`) and nothing else is found that was not found before (`find?_push_of_ne`). Look-ups that fail may see
it too:

* by its name under another kind, where the error names the kinds that the name is registered under
  (`lookup_push_otherKind`);
* by its shape, where one operation more makes the choice possible, impossible or harder (`lookup_push_shape`).

All other answers stay (`Registry.Gained`). A refused registration changes none (`Registry.registered_or_refused`).
-/

namespace Memberwise.Registry

variable {r : Registry} {t : ValueType} {k : OperationKind} {n : String} {op : Operation}

/-! ### Candidates -/

theorem candidates_push_self (r : Registry) (op : Operation) :
    (r.push op).candidates op.type op.kind = r.candidates op.type op.kind ++ [op] := by
  simp [candidates, push]

theorem candidates_push_of_ne (h : ¬(t = op.type ∧ k = op.kind)) : (r.push op).candidates t k = r.candidates t k := by
  have hother : ¬(op.type = t ∧ op.kind = k) := fun ⟨htype, hkind⟩ => h ⟨htype.symm, hkind.symm⟩
  simp only [candidates, push, List.filter_append, List.filter_cons, List.filter_nil, decide_eq_true_eq, if_neg hother,
    List.append_nil]

/-! ### By name -/

theorem find?_push_self (h : op.listed ∉ r.operations.map Operation.listed) :
    (r.push op).find? op.type op.kind op.name = some op := by
  have hnone : (r.candidates op.type op.kind).find? (·.name = op.name) = none := find?_eq_none_iff.2 h
  rw [find?, candidates_push_self, List.find?_append, hnone]
  simp

theorem find?_push_of_ne (h : (⟨t, k, n⟩ : Listed) ≠ op.listed) : (r.push op).find? t k n = r.find? t k n := by
  by_cases hshape : t = op.type ∧ k = op.kind
  · obtain ⟨rfl, rfl⟩ := hshape
    have hname : op.name ≠ n := by
      rintro rfl
      exact h rfl
    rw [find?, find?, candidates_push_self, List.find?_append, List.find?_singleton, if_neg (by simpa using hname),
      Option.or_none]
  · rw [find?, find?, candidates_push_of_ne hshape]

/-- The kinds that a name is registered under gain the kind of the operation, at its place in the order of kinds. -/
theorem otherKinds_push (hnew : op.listed ∉ r.operations.map Operation.listed) (hk : k ≠ op.kind) :
    (r.push op).otherKinds op.type k op.name =
      (r.otherKinds op.type k op.name).orderedInsert (·.index ≤ ·.index) op.kind := by
  have hascending := (r.push op).otherKinds_ascending op.type k op.name
  have hnodup : ((r.push op).otherKinds op.type k op.name).Nodup := List.Nodup.filter _ (by decide)
  have hmem : op.kind ∈ (r.push op).otherKinds op.type k op.name :=
    mem_otherKinds.2 ⟨hk.symm, by rw [find?_push_self hnew]; rfl⟩
  have herase : ((r.push op).otherKinds op.type k op.name).erase op.kind = r.otherKinds op.type k op.name := by
    rw [hnodup.erase_eq_filter, otherKinds, List.filter_filter, otherKinds]
    refine List.filter_congr fun other _ => ?_
    by_cases hother : other = op.kind
    · have hnone : r.find? op.type op.kind op.name = none := find?_eq_none_iff.2 hnew
      simp [hother, hnone]
    · have hne : (⟨op.type, other, op.name⟩ : Listed) ≠ op.listed := fun heq => hother (congrArg Listed.kind heq)
      simp [hother, find?_push_of_ne hne]
  have antisymm : Std.Antisymm fun j j' : OperationKind => j.index ≤ j'.index :=
    ⟨fun _ _ hle hge => OperationKind.index_inj.1 (Nat.le_antisymm hle hge)⟩
  rw [← herase]
  exact (List.orderedInsert_erase _ _ hmem (hascending.imp Nat.le_of_lt)).symm

theorem otherKinds_push_of_ne (h : ¬(t = op.type ∧ n = op.name)) :
    (r.push op).otherKinds t k n = r.otherKinds t k n := by
  refine List.filter_congr fun other _ => ?_
  rw [find?_push_of_ne fun heq => h ⟨congrArg Listed.type heq, congrArg Listed.name heq⟩]

/-- The answer to a look-up by name once the name is registered under kind `j` also, which is not the kind asked for. -/
def alsoUnder (j : OperationKind) : Except ResolutionError Operation → Except ResolutionError Operation
  | .error (.notFound type kind (some name)) => .error (.shapeMismatch type name kind [j])
  | .error (.shapeMismatch type name kind found) =>
    .error (.shapeMismatch type name kind (found.orderedInsert (·.index ≤ ·.index) j))
  | answer => answer

theorem lookup_push_self (h : op.listed ∉ r.operations.map Operation.listed) :
    (r.push op).lookup op.type op.kind (some op.name) = .ok op :=
  lookup_some_eq_ok_iff.2 (find?_push_self h)

theorem lookup_push_otherKind (hnew : op.listed ∉ r.operations.map Operation.listed) (hk : k ≠ op.kind) :
    (r.push op).lookup op.type k (some op.name) = alsoUnder op.kind (r.lookup op.type k (some op.name)) := by
  have hne : (⟨op.type, k, op.name⟩ : Listed) ≠ op.listed := fun heq => hk (congrArg Listed.kind heq)
  simp only [lookup, find?_push_of_ne hne, otherKinds_push hnew hk]
  cases r.find? op.type k op.name with
  | some earlier => rfl
  | none =>
    cases r.otherKinds op.type k op.name with
    | nil => rfl
    | cons j found =>
      rw [alsoUnder, List.orderedInsert_cons]
      by_cases hle : op.kind.index ≤ j.index
      · simp only [if_pos hle]
      · simp only [if_neg hle]

theorem lookup_push_of_ne (h : ¬(t = op.type ∧ n = op.name)) :
    (r.push op).lookup t k (some n) = r.lookup t k (some n) := by
  have hne : (⟨t, k, n⟩ : Listed) ≠ op.listed := fun heq => h ⟨congrArg Listed.type heq, congrArg Listed.name heq⟩
  simp only [lookup, find?_push_of_ne hne, otherKinds_push_of_ne h]

/-! ### By shape -/

/-- The answer to a look-up by shape once there is one operation more to choose from. -/
def alsoOffering (op : Operation) : Except ResolutionError Operation → Except ResolutionError Operation
  | .error (.notFound ..) => .ok op
  | .ok earlier => .error (.ambiguous op.type.name op.kind [earlier.name, op.name])
  | .error (.ambiguous type kind names) => .error (.ambiguous type kind (names ++ [op.name]))
  | answer => answer

theorem lookup_push_shape (r : Registry) (op : Operation) :
    (r.push op).lookup op.type op.kind none = alsoOffering op (r.lookup op.type op.kind none) := by
  simp only [lookup, candidates_push_self]
  -- none, one or more were there before
  cases r.candidates op.type op.kind with
  | nil => rfl
  | cons first rest =>
    cases rest with
    | nil => rfl
    | cons second rest => simp [alsoOffering]

theorem lookup_push_shape_of_ne (h : ¬(t = op.type ∧ k = op.kind)) :
    (r.push op).lookup t k none = r.lookup t k none := by
  simp only [lookup, candidates_push_of_ne h]

/-! ### All answers -/

/-- The answers of a registry that gained an operation, told from those that it gave before. -/
structure Gained (r : Registry) (op : Operation) (r' : Registry) : Prop where
  named : ∀ t k n, r'.lookup t k (some n) =
    if t = op.type ∧ n = op.name then
      if k = op.kind then .ok op else alsoUnder op.kind (r.lookup t k (some n))
    else r.lookup t k (some n)
  shaped : ∀ t k, r'.lookup t k none =
    if t = op.type ∧ k = op.kind then alsoOffering op (r.lookup t k none) else r.lookup t k none
  supports : ∀ t k, r'.supports t k ↔ r.supports t k ∨ t = op.type ∧ k = op.kind
  size : r'.size = r.size + 1
  config : r'.config = r.config
  listing : r'.listing = r.listing.orderedInsert (·.place ≤ ·.place) op.listed

theorem gained_push (hnew : op.listed ∉ r.operations.map Operation.listed) : r.Gained op (r.push op) where
  named t k n := by
    by_cases hname : t = op.type ∧ n = op.name
    · obtain ⟨rfl, rfl⟩ := hname
      rw [if_pos ⟨rfl, rfl⟩]
      by_cases hk : k = op.kind
      · rw [if_pos hk, hk]
        exact lookup_push_self hnew
      · rw [if_neg hk]
        exact lookup_push_otherKind hnew hk
    · rw [if_neg hname]
      exact lookup_push_of_ne hname
  shaped t k := by
    by_cases hshape : t = op.type ∧ k = op.kind
    · obtain ⟨rfl, rfl⟩ := hshape
      rw [if_pos ⟨rfl, rfl⟩]
      exact lookup_push_shape r op
    · rw [if_neg hshape]
      exact lookup_push_shape_of_ne hshape
  supports t k := by
    rw [supports_iff, supports_iff]
    by_cases hshape : t = op.type ∧ k = op.kind
    · obtain ⟨rfl, rfl⟩ := hshape
      simp [candidates_push_self]
    · simp [candidates_push_of_ne hshape, hshape]
  size := by simp [Registry.size, push]
  config := rfl
  listing := listing_push r op

/-- A registration is refused exactly if the type, kind and name are taken. Then nothing changes, and the operation that
took them is found as before. Otherwise the registry gains the operation. -/
theorem registered_or_refused (r : Registry) (op : Operation) :
    (r.insert op = .error ⟨op.type.name, op.kind, op.name⟩ ↔ op.listed ∈ r.operations.map Operation.listed) ∧
    (op.listed ∈ r.operations.map Operation.listed → r.after op = r ∧
      ∃ earlier ∈ r.operations, earlier.listed = op.listed ∧
        (r.after op).lookup op.type op.kind (some op.name) = .ok earlier) ∧
    (op.listed ∉ r.operations.map Operation.listed →
      r.insert op = .ok (r.after op) ∧ r.Gained op (r.after op)) := by
  refine ⟨⟨fun hrefused => ?_, insert_of_mem⟩, fun htaken => ⟨after_of_mem htaken, ?_⟩, fun hnew => ?_⟩
  · by_contra hnew
    rw [insert_of_notMem hnew] at hrefused
    cases hrefused
  · obtain ⟨earlier, hfound⟩ := Option.isSome_iff_exists.1 (isSome_find?_iff.2 htaken)
    obtain ⟨hmem, hname⟩ := mem_candidates_of_find? hfound
    obtain ⟨htype, hkind⟩ := type_kind_of_mem hmem
    rw [after_of_mem htaken]
    refine ⟨earlier, List.mem_of_mem_filter hmem, ?_, lookup_some_eq_ok_iff.2 hfound⟩
    rw [Operation.listed, htype, hkind, hname, Operation.listed]
  · rw [after_of_notMem hnew]
    exact ⟨insert_of_notMem hnew, gained_push hnew⟩

end Memberwise.Registry
