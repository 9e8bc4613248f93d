import Mathlib.Data.List.Nodup
import Mathlib.Data.List.Sort
import Mathlib.Data.Prod.Lex
import Mathlib.Data.String.Basic
import Memberwise.Proofs.Codec.InUse

/-!
# The listing of a registry

The entries of a listing stand in the order of their places: by type name, then kind, then operation name. Different
types have different names, so different entries have different places (`Listed.place_injective`). There is then only one
way to list given entries (`Registry.eq_of_perm_of_ascending`), and sorting finds it from whatever order they come in.

A registry in use holds no entry twice. So its listing depends on nothing but which entries were registered, neither on
when each of them was nor on the order in which the groups of operations are gone through (`Registry.listing_inUse`). What
one registration adds to the listing is one line, at its place (`Registry.listing_push`).
-/

namespace Memberwise

/-! ### Places -/

/-- Different types have different names. -/
theorem ValueType.name_injective : Function.Injective ValueType.name := by
  let types : List ValueType := [.bool, .bytes, .string, .char, .ipv4, .duration] ++ Scalar.all.map .scalar
  have hnodup : (types.map ValueType.name).Nodup := by decide
  have hall (t : ValueType) : t ∈ types := by
    cases t with
    | scalar u => exact List.mem_append_right _ (List.mem_map_of_mem (Scalar.mem_all u))
    | _ => exact List.mem_append_left _ (by decide)
  intro t u heq
  exact List.inj_on_of_nodup_map hnodup (hall t) (hall u) heq

namespace Listed

/-- Where an entry stands in the order of entries. -/
def place (e : Listed) : String ×ₗ Nat ×ₗ String := toLex (e.type.name, toLex (e.kind.index, e.name))

theorem place_injective : Function.Injective place := by
  rintro ⟨t, k, n⟩ ⟨t', k', n'⟩ heq
  simp only [place, EmbeddingLike.apply_eq_iff_eq, Prod.mk.injEq] at heq
  obtain ⟨htype, hkind, hname⟩ := heq
  rw [ValueType.name_injective htype, OperationKind.index_inj.1 hkind, hname]

theorem ble_iff {a b : Listed} : a.ble b ↔ a.place ≤ b.place := by
  have hkind : a.kind = b.kind ↔ a.kind.index = b.kind.index := OperationKind.index_inj.symm
  simp only [ble, place, Prod.Lex.toLex_le_toLex, Bool.or_eq_true, Bool.and_eq_true, decide_eq_true_eq, beq_iff_eq,
    hkind]

end Listed

namespace Registry

variable {r r' : Registry} {op : Operation}

/-! ### Entries in their order -/

/-- Only one list of given entries has them in the order of their places. -/
theorem eq_of_perm_of_ascending {l l' : List Listed} (hperm : l.Perm l') (hl : l.Pairwise (·.place ≤ ·.place))
    (hl' : l'.Pairwise (·.place ≤ ·.place)) : l = l' :=
  hperm.eq_of_pairwise (fun _ _ _ _ hab hba => Listed.place_injective (le_antisymm hab hba)) hl hl'

theorem ascending_mergeSort (l : List Listed) : (l.mergeSort Listed.ble).Pairwise (·.place ≤ ·.place) := by
  have hsorted : (l.mergeSort Listed.ble).Pairwise fun a b => a.ble b := by
    refine List.pairwise_mergeSort (fun a b c hab hbc => ?_) (fun a b => ?_) l
    · exact Listed.ble_iff.2 ((Listed.ble_iff.1 hab).trans (Listed.ble_iff.1 hbc))
    · rw [Bool.or_eq_true, Listed.ble_iff, Listed.ble_iff]
      exact le_total _ _
  exact hsorted.imp Listed.ble_iff.1

/-- Sorting entries forgets the order in which they came. -/
theorem mergeSort_eq_of_perm {l l' : List Listed} (h : l.Perm l') : l.mergeSort Listed.ble = l'.mergeSort Listed.ble :=
  eq_of_perm_of_ascending ((List.mergeSort_perm l _).trans (h.trans (List.mergeSort_perm l' _).symm))
    (ascending_mergeSort l) (ascending_mergeSort l')

theorem listing_perm (r : Registry) : r.listing.Perm (r.operations.map Operation.listed) := List.mergeSort_perm _ _

theorem mem_listing {e : Listed} : e ∈ r.listing ↔ e ∈ r.operations.map Operation.listed := r.listing_perm.mem_iff

theorem length_listing (r : Registry) : r.listing.length = r.size := by
  rw [listing, List.length_mergeSort, List.length_map, size]

theorem Distinct.nodup_listing (h : r.Distinct) : r.listing.Nodup := r.listing_perm.nodup_iff.2 h

/-- Operations told apart stand at different places. -/
theorem Distinct.listing_ascending (h : r.Distinct) : r.listing.Pairwise (·.place < ·.place) := by
  have hle : r.listing.Pairwise (·.place ≤ ·.place) := ascending_mergeSort _
  exact (hle.and h.nodup_listing).imp fun ⟨hab, hne⟩ => lt_of_le_of_ne hab (Listed.place_injective.ne hne)

/-- Registries that hold the same entries, each once, have the same listing. -/
theorem Distinct.listing_eq (h : r.Distinct) (h' : r'.Distinct)
    (hentries : ∀ e, e ∈ r.operations.map Operation.listed ↔ e ∈ r'.operations.map Operation.listed) :
    r.listing = r'.listing :=
  mergeSort_eq_of_perm ((List.perm_ext_iff_of_nodup h h').2 hentries)

/-- A new operation adds its line at its place and leaves the other lines in their order. -/
theorem listing_push (r : Registry) (op : Operation) :
    (r.push op).listing = r.listing.orderedInsert (·.place ≤ ·.place) op.listed := by
  have hperm : (r.push op).listing.Perm (r.listing.orderedInsert (·.place ≤ ·.place) op.listed) :=
    calc (r.push op).listing.Perm ((r.push op).operations.map Operation.listed) := listing_perm _
      _ = r.operations.map Operation.listed ++ [op.listed] := List.map_append
      List.Perm _ (op.listed :: r.operations.map Operation.listed) := List.perm_append_singleton ..
      List.Perm _ (op.listed :: r.listing) := r.listing_perm.symm.cons _
      List.Perm _ (r.listing.orderedInsert (·.place ≤ ·.place) op.listed) := (List.perm_orderedInsert ..).symm
  have total : Std.Total fun a b : Listed => a.place ≤ b.place := ⟨fun a b => le_total a.place b.place⟩
  have trans : IsTrans Listed fun a b => a.place ≤ b.place := ⟨fun _ _ _ => le_trans⟩
  exact eq_of_perm_of_ascending hperm (ascending_mergeSort _) ((ascending_mergeSort _).orderedInsert _ _)

/-! ### Operations gathered by type and kind -/

/-- The entries of all operations, gathered from the groups of one type and kind in the order given. -/
def gathered (r : Registry) (groups : List (ValueType × OperationKind)) : List Listed :=
  groups.flatMap fun g => (r.candidates g.1 g.2).map Operation.listed

/-- Gone through in any order, the groups hold the entries of the registry and each entry once. -/
theorem Distinct.gathered_perm (h : r.Distinct) {groups : List (ValueType × OperationKind)} (hgroups : groups.Nodup)
    (hall : ∀ op ∈ r.operations, (op.type, op.kind) ∈ groups) :
    (r.gathered groups).Perm (r.operations.map Operation.listed) := by
  have hgroup {g : ValueType × OperationKind} {e : Listed} (he : e ∈ (r.candidates g.1 g.2).map Operation.listed) :
      (e.type, e.kind) = g := by
    obtain ⟨op, hop, rfl⟩ := List.mem_map.1 he
    obtain ⟨htype, hkind⟩ := type_kind_of_mem hop
    rw [Operation.listed, htype, hkind]
  have hnodup : (r.gathered groups).Nodup := by
    refine List.nodup_flatMap.2 ⟨fun g _ => h.sublist (List.filter_sublist.map _), hgroups.imp ?_⟩
    intro g g' hne e he he'
    exact hne ((hgroup he).symm.trans (hgroup he'))
  refine (List.perm_ext_iff_of_nodup hnodup h).2 fun e => ?_
  simp only [gathered, List.mem_flatMap, List.mem_map]
  constructor
  · rintro ⟨g, -, op, hop, rfl⟩
    exact ⟨op, List.mem_of_mem_filter hop, rfl⟩
  · rintro ⟨op, hop, rfl⟩
    exact ⟨(op.type, op.kind), hall op hop, op, List.mem_filter.2 ⟨hop, by simp⟩, rfl⟩

/-! ### The listing of a registry in use -/

/-- The listing is strictly ascending by type name, kind and operation name. It holds one entry for each type, kind and
name that was registered and no other, so as many as there are operations, and these are the ones that can be looked up.
It is what sorting gives from the operations gathered group by group, in whatever order the groups come. And it is the
same for every registry into which the same entries were registered, in whatever order. -/
theorem listing_inUse (start : Option RegistryConfig) (ops : List Operation) :
    let r := inUse start ops
    r.listing.Pairwise (·.place < ·.place) ∧
    (∀ e, r.listing.count e = if e ∈ ((fresh start).operations ++ ops).map Operation.listed then 1 else 0) ∧
    (∀ e, e ∈ r.listing ↔ ∃ op, r.lookup e.type e.kind (some e.name) = .ok op) ∧
    r.listing.length = r.size ∧
    (∀ groups : List (ValueType × OperationKind), groups.Nodup →
      (∀ op ∈ r.operations, (op.type, op.kind) ∈ groups) →
      (r.gathered groups).length = r.size ∧ (r.gathered groups).mergeSort Listed.ble = r.listing) ∧
    ∀ start' ops', (∀ e, e ∈ ((fresh start').operations ++ ops').map Operation.listed ↔
        e ∈ ((fresh start).operations ++ ops).map Operation.listed) →
      (inUse start' ops').listing = r.listing := by
  intro r
  have hdistinct : r.Distinct := distinct_inUse start ops
  have hmem (e : Listed) : e ∈ r.listing ↔ e ∈ ((fresh start).operations ++ ops).map Operation.listed :=
    mem_listing.trans mem_listed_afterAll
  refine ⟨hdistinct.listing_ascending, fun e => ?_, fun e => ?_, r.length_listing, fun groups hgroups hall => ?_,
    fun start' ops' hentries => ?_⟩
  · by_cases he : e ∈ r.listing
    · rw [if_pos ((hmem e).1 he), List.count_eq_one_of_mem hdistinct.nodup_listing he]
    · rw [if_neg (mt (hmem e).2 he), List.count_eq_zero_of_not_mem he]
  · rw [mem_listing, ← isSome_find?_iff, Option.isSome_iff_exists]
    exact exists_congr fun op => lookup_some_eq_ok_iff.symm
  · have hperm := hdistinct.gathered_perm hgroups hall
    refine ⟨?_, mergeSort_eq_of_perm hperm⟩
    rw [hperm.length_eq, List.length_map, size]
  · refine (distinct_inUse start' ops').listing_eq hdistinct fun e => ?_
    rw [inUse, mem_listed_afterAll, hentries e, ← hmem e, mem_listing]

end Registry

end Memberwise
