import Memberwise.Proofs.Accessor.Needs
import Memberwise.Proofs.Codec.Family

/-!
# Registries that offer the same operations

Registries are alike if they list the same types, kinds and names in the same order (`Registry.Alike`), whatever the
functions do. A look-up then ends the same in both: it succeeds in both, or fails in both with the same error
(`Registry.Alike.lookup`), and so does compiling a member (`Member.endsLike_compile`).

The built-in registries of both byte orders are alike (`Builtin.alike`). What they do differs in the numbers of more than
one byte that are written at their full width: their bytes come in reverse (`Member.encoding_big`).
-/

namespace Memberwise

/-! ### Ending the same -/

/-- Both results are values, or both are the same error. -/
inductive EndsLike {ε α β : Type} : Except ε α → Except ε β → Prop
  | ok (a : α) (b : β) : EndsLike (.ok a) (.ok b)
  | error (e : ε) : EndsLike (.error e) (.error e)

namespace EndsLike

variable {ε α β : Type} {x : Except ε α} {y : Except ε β}

theorem refl (x : Except ε α) : EndsLike x x := by
  cases x with
  | error e => exact .error e
  | ok a => exact .ok a a

theorem symm (h : EndsLike x y) : EndsLike y x := by
  cases h with
  | error e => exact .error e
  | ok a b => exact .ok b a

theorem of_ok (h : EndsLike x y) {a : α} (ha : x = .ok a) : ∃ b, y = .ok b := by
  subst ha
  cases h with
  | ok _ b => exact ⟨b, rfl⟩

theorem of_error (h : EndsLike x y) {e : ε} (he : x = .error e) : y = .error e := by
  subst he
  cases h
  rfl

theorem iff_map_unit : EndsLike x y ↔ (x.map fun _ => ()) = y.map fun _ => () := by
  constructor
  · intro h
    cases h <;> rfl
  · intro h
    cases x with
    | error e =>
      cases y with
      | error e' =>
        cases h
        exact .error e
      | ok b => cases h
    | ok a =>
      cases y with
      | error e' => cases h
      | ok b => exact .ok a b

end EndsLike

namespace Registry

/-- The same types, kinds and names of operations, in the same order. -/
def Alike (r r' : Registry) : Prop := r.operations.map Operation.listed = r'.operations.map Operation.listed

variable {r r' : Registry} {t : ValueType} {k : OperationKind}

theorem candidates_listed (r : Registry) (t : ValueType) (k : OperationKind) :
    (r.candidates t k).map Operation.listed =
      (r.operations.map Operation.listed).filter fun l => l.type = t ∧ l.kind = k := by
  rw [List.filter_map]
  rfl

namespace Alike

theorem refl (r : Registry) : r.Alike r := rfl

theorem candidates (h : r.Alike r') (t : ValueType) (k : OperationKind) :
    (r.candidates t k).map Operation.listed = (r'.candidates t k).map Operation.listed := by
  rw [candidates_listed, candidates_listed, h]

theorem isSome_find? (h : r.Alike r') (t : ValueType) (k : OperationKind) (name : String) :
    (r.find? t k name).isSome = (r'.find? t k name).isSome := by
  have hlisted : ∀ r : Registry, (r.find? t k name).map Operation.listed =
      ((r.candidates t k).map Operation.listed).find? fun l => l.name = name := by
    intro r
    rw [List.find?_map]
    rfl
  have hsame := (hlisted r).trans ((congrArg (List.find? _) (h.candidates t k)).trans (hlisted r').symm)
  simpa only [Option.isSome_map] using congrArg Option.isSome hsame

theorem otherKinds (h : r.Alike r') (t : ValueType) (k : OperationKind) (name : String) :
    r.otherKinds t k name = r'.otherKinds t k name := by
  unfold Registry.otherKinds
  refine List.filter_congr fun other _ => ?_
  rw [h.isSome_find?]

theorem lookup (h : r.Alike r') (t : ValueType) (k : OperationKind) (name : Option String) :
    EndsLike (r.lookup t k name) (r'.lookup t k name) := by
  cases name with
  | some n =>
    have hsome := h.isSome_find? t k n
    simp only [Registry.lookup, h.otherKinds t k n]
    cases hfound : r.find? t k n with
    | none =>
      cases hfound' : r'.find? t k n with
      | none => exact .refl _
      | some op' =>
        rw [hfound, hfound'] at hsome
        cases hsome
    | some op =>
      cases hfound' : r'.find? t k n with
      | none =>
        rw [hfound, hfound'] at hsome
        cases hsome
      | some op' => exact .ok op op'
  | none =>
    have hsame := h.candidates t k
    unfold Registry.lookup
    generalize r.candidates t k = ops at hsame
    generalize r'.candidates t k = ops' at hsame
    have hnames : ops.map (·.name) = ops'.map (·.name) := by
      have hlisted := congrArg (List.map Listed.name) hsame
      rwa [List.map_map, List.map_map] at hlisted
    have hlength : ops.length = ops'.length := by simpa using congrArg List.length hsame
    -- none, one or many: the numbers agree, and so do the names that an ambiguous look-up reports
    rcases ops with _ | ⟨op, _ | ⟨next, rest⟩⟩ <;> rcases ops' with _ | ⟨op', _ | ⟨next', rest'⟩⟩ <;>
      try (simp at hlength; done)
    · exact .error _
    · exact .ok op op'
    · dsimp only
      rw [hnames]
      exact .error _

end Alike

end Registry

/-! ### Compiling -/

namespace Member

variable {H : Type} {r r' : Registry}

theorem unmet?_alike (h : r.Alike r') (m : Member H) : m.unmet? r = m.unmet? r' := by
  unfold unmet?
  congr 1
  funext k
  have hfind : EndsLike (m.find r k) (m.find r' k) := h.lookup m.type k (m.codec.name? k)
  unfold missing?
  generalize m.find r k = x at hfind
  generalize m.find r' k = y at hfind
  cases hfind <;> rfl

/-- Over registries that are alike a member compiles in both, or is refused in both for the same reason. -/
theorem endsLike_compile (h : r.Alike r') (m : Member H) (host : String) :
    EndsLike (m.compile r host) (m.compile r' host) := by
  rw [compile_eq, compile_eq, unmet?_alike h]
  cases m.unmet? r' with
  | some e => exact .error _
  | none => exact .ok _ _

end Member

/-! ### Byte orders -/

namespace Builtin

variable {t : ValueType} {order order' : ByteOrder} {varint : Bool}

theorem alike (order order' : ByteOrder) (varint : Bool) :
    (Registry.builtin ⟨order, varint⟩).Alike (Registry.builtin ⟨order', varint⟩) := by
  have hscalars : ∀ order : ByteOrder, (Scalar.all.flatMap (scalar order)).map Operation.listed =
      Scalar.all.flatMap fun t => [⟨.scalar t, .sizeOf, sizeName⟩, ⟨.scalar t, .write, writeName⟩,
        ⟨.scalar t, .readScalar, readerName t⟩] := by
    intro order
    rw [List.map_flatMap]
    rfl
  unfold Registry.Alike
  simp only [Registry.builtin, operations, List.map_append, hscalars]

theorem plain_big (t : ValueType) (v : t.Carrier) :
    plain .big t v = if 1 < fixedWidth t then (plain .little t v).reverse else plain .little t v := by
  cases t with
  | scalar u =>
    have hreverse : plain .big (.scalar u) v = (plain .little (.scalar u) v).reverse := rfl
    rw [hreverse]
    split
    · rfl
    · next hwidth =>
      have hlength : (plain .little (.scalar u) v).length ≤ 1 := by
        rw [length_plain _ rfl]
        exact Nat.le_of_not_lt hwidth
      match plain .little (.scalar u) v, hlength with
      | [], _ | [_], _ => rfl
  | _ => rfl

theorem length_plain_congr (order order' : ByteOrder) (t : ValueType) (v : t.Carrier) :
    (plain order t v).length = (plain order' t v).length := by
  cases t with
  | scalar u => rw [length_plain order rfl, length_plain order' rfl]
  | _ => rfl

/-- Operations of one name measure the same in both byte orders. -/
theorem measure_eq_of_resolve {n : String} {z z' : Bound (t.Carrier → UInt64)}
    (hz : (Registry.builtin ⟨order, varint⟩).resolve t .sizeOf (some n) = .ok z)
    (hz' : (Registry.builtin ⟨order', varint⟩).resolve t .sizeOf (some n) = .ok z') : z.call = z'.call := by
  funext v
  have hname : z.name = z'.name :=
    ((Registry.mem_of_resolve hz).2.1 n rfl).trans ((Registry.mem_of_resolve hz').2.1 n rfl).symm
  rcases promise_of_resolve hz with ⟨hplain, hmeasures⟩ | ⟨hdigits, hmeasures⟩ <;>
    rcases promise_of_resolve hz' with ⟨hplain', hmeasures'⟩ | ⟨hdigits', hmeasures'⟩
  · rw [hmeasures, hmeasures', length_plain_congr order order']
  · exact absurd (hplain.symm.trans (hname.trans hdigits')) (by decide)
  · exact absurd (hplain'.symm.trans (hname.symm.trans hdigits)) (by decide)
  · rw [hmeasures, hmeasures']

end Builtin

namespace Member

variable {H : Type} {m : Member H}

/-- A number of more than one byte that is written at its full width. -/
def IsWide (m : Member H) : Prop := m.codec.write ≠ "GetVarBytes" ∧ 1 < Builtin.fixedWidth m.type

instance : Decidable m.IsWide := inferInstanceAs (Decidable (_ ∧ _))

theorem encoding_big (m : Member H) (v : m.type.Carrier) :
    Builtin.encoding .big m v =
      if m.IsWide then (Builtin.encoding .little m v).reverse else Builtin.encoding .little m v := by
  unfold Builtin.encoding IsWide
  by_cases hdigits : m.codec.write = "GetVarBytes"
  · simp only [hdigits, if_true, ne_eq, not_true_eq_false, false_and, if_false]
  · simp only [hdigits, if_false, ne_eq, not_false_eq_true, true_and, Builtin.plain_big m.type v]

theorem length_encoding (order order' : ByteOrder) (m : Member H) (v : m.type.Carrier) :
    (Builtin.encoding order m v).length = (Builtin.encoding order' m v).length := by
  unfold Builtin.encoding
  split
  · rfl
  · exact Builtin.length_plain_congr order order' m.type v

/-- A wide number cannot be read from a given number of bytes. -/
theorem IsWide.boundedReader (hm : m.IsWide) : Builtin.boundedReader m.type = none := by
  have hwidth := hm.2
  cases htype : m.type with
  | bytes | string =>
    rw [htype] at hwidth
    exact absurd hwidth (by decide)
  | _ => rfl

end Member

end Memberwise
