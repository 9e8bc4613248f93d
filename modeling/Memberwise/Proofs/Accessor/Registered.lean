import Memberwise.Proofs.Accessor.Needs
import Memberwise.Proofs.Codec.InUse

/-!
# Compiling over registries in use

A member that names all that it needs is not affected by what is registered later: it compiles as before, and is bound to
the same functions (`Member.compile_over_extension`). What is found by shape alone can become ambiguous, so only a reader
that the member can do without may come and go.

In a registry in use names tell operations apart, and each operation is what it is registered as, so that of the errors of a
look-up some never come up and the others are what they should be (`Registry.inUse_told_apart`).
-/

namespace Memberwise

namespace LengthMode

variable {mode : LengthMode}

theorem eq_prefixed_of_ne (h : .readScalar ≠ mode.reader) : mode = .prefixed := by
  cases mode with
  | implicit => exact absurd rfl h
  | prefixed => rfl

theorem eq_implicit_of_ne (h : .readBounded ≠ mode.reader) : mode = .implicit := by
  cases mode with
  | implicit => rfl
  | prefixed => exact absurd rfl h

end LengthMode

namespace Member

variable {H : Type} {m : Member H} {r r' : Registry} {k : OperationKind}

/-- What a member that is assigned needs has a name if the reader of its length mode has one. -/
theorem isSome_name_of_needs (hnamed : m.isWritable = false ∨ (m.codec.name? m.codec.length.reader).isSome)
    (hneeds : m.Needs k) : (m.codec.name? k).isSome := by
  obtain ⟨hserves, hname | rfl⟩ := hneeds
  · exact hname
  · rcases hnamed with hunassigned | hname
    · have hwrite : m.isWritable := by
        cases hmode : m.codec.length <;> rwa [hmode] at hserves
      rw [hunassigned] at hwrite
      cases hwrite
    · exact hname

/-- A function that was offered is offered still, unless it was found by shape and is no longer the only one. -/
theorem function?_of_extends (h : r.Extends r') {b : Bound (k.Call m.type.Carrier)} (hb : m.function? r k = some b) :
    m.function? r' k = some b ∨ m.codec.name? k = none ∧ m.function? r' k = none := by
  rw [function?_eq_some_iff] at hb
  cases hname : m.codec.name? k with
  | some n =>
    left
    rw [function?_eq_some_iff]
    rw [hname] at hb ⊢
    exact h.resolve hb
  | none =>
    cases hb' : m.function? r' k with
    | none => exact .inr ⟨rfl, rfl⟩
    | some b' => exact .inl (congrArg some (h.resolve_unique hb (function?_eq_some_iff.1 hb')))

section Extension

variable (h : r.Extends r') (hnamed : m.isWritable = false ∨ (m.codec.name? m.codec.length.reader).isSome)
  (hmet : m.unmet? r = none)

include h hnamed hmet

theorem function?_of_needs (hneeds : m.Needs k) : ∃ b, m.function? r k = some b ∧ m.function? r' k = some b := by
  obtain ⟨b, hb⟩ := function?_of_met hmet hneeds
  rcases function?_of_extends h hb with hkept | ⟨hnone, -⟩
  · exact ⟨b, hb, hkept⟩
  · have hname := isSome_name_of_needs hnamed hneeds
    rw [hnone] at hname
    cases hname

/-- A function is offered as before, or else it is a reader that the member can do without and does not name, and it has
come or gone. -/
theorem function?_of_serves (hserves : m.Serves k) :
    m.function? r' k = m.function? r k ∨
      k ≠ m.codec.length.reader ∧ m.codec.name? k = none ∧ (m.function? r k = none ∨ m.function? r' k = none) := by
  by_cases hneeds : m.Needs k
  · obtain ⟨b, hb, hb'⟩ := function?_of_needs h hnamed hmet hneeds
    exact .inl (hb'.trans hb.symm)
  · have hname : m.codec.name? k = none := by
      by_contra hsome
      exact hneeds ⟨hserves, .inl (Option.isSome_iff_ne_none.2 hsome)⟩
    have hother : k ≠ m.codec.length.reader := fun hreader => hneeds ⟨hserves, .inr hreader⟩
    cases hb : m.function? r k with
    | none => exact .inr ⟨hother, hname, .inl rfl⟩
    | some b =>
      rcases function?_of_extends h hb with hkept | ⟨-, hgone⟩
      · exact .inl hkept
      · exact .inr ⟨hother, hname, .inr hgone⟩

/-- What a member is bound to for a kind stays, comes or goes as its function does. -/
theorem bind_function?_of_extends (k : OperationKind) {α β : Type} (access : Option α)
    (compose : α → k.Call m.type.Carrier → β) (hserves : access.isSome → m.Serves k) :
    let bound r := access.bind fun a => (m.function? r k).map (Bound.map (compose a))
    bound r' = bound r ∨
      k ≠ m.codec.length.reader ∧ m.codec.name? k = none ∧ (bound r = none ∨ bound r' = none) := by
  intro bound
  cases access with
  | none => exact .inl rfl
  | some a =>
    rcases function?_of_serves h hnamed hmet (hserves rfl) with hkept | ⟨hother, hname, hmoved⟩
    · exact .inl (by simp only [bound, hkept])
    · exact .inr ⟨hother, hname, hmoved.imp (fun hnone => by simp [bound, hnone]) fun hnone => by simp [bound, hnone]⟩

end Extension

/-- A member that cannot be assigned, or names the reader that its length mode calls for, compiles over a registry as it
did before more operations were registered there, whether these were refused or not. It is bound to the same writer, the
same measure and the same readers. Only the other reader may come or go, if the member does not name it. -/
theorem compile_over_extension (m : Member H) (r : Registry) (later : List Operation) (host : String)
    (hnamed : m.isWritable = false ∨ (m.codec.name? m.codec.length.reader).isSome) (s : AccessorSet H)
    (hs : m.compile r host = .ok s) :
    ∃ s', m.compile (r.afterAll later) host = .ok s' ∧
      (s'.member = s.member ∧ s'.type = s.type ∧ s'.length = s.length) ∧
      s'.write = s.write ∧ s'.sizeOf = s.sizeOf ∧
      (s'.readScalar = s.readScalar ∨ m.codec.length = .prefixed ∧ m.codec.readScalar = none ∧
        (s.readScalar = none ∨ s'.readScalar = none)) ∧
      (s'.readBounded = s.readBounded ∨ m.codec.length = .implicit ∧ m.codec.readBounded = none ∧
        (s.readBounded = none ∨ s'.readBounded = none)) := by
  obtain ⟨hmet, rfl⟩ := compile_eq_ok_iff.1 hs
  have hextends := r.extends_afterAll later
  generalize r.afterAll later = r' at hextends ⊢
  have hmet' : m.unmet? r' = none := by
    refine unmet?_eq_none_iff.2 fun k hneeds => ?_
    obtain ⟨b, -, hb⟩ := function?_of_needs hextends hnamed hmet hneeds
    exact ⟨_, Registry.resolve_eq_ok_iff.1 (function?_eq_some_iff.1 hb)⟩
  refine ⟨m.offered r', compile_eq_ok_iff.2 ⟨hmet', rfl⟩, ⟨rfl, rfl, rfl⟩, ?_, ?_, ?_, ?_⟩
  · have hwrite := bind_function?_of_extends hextends hnamed hmet .write m.getter Writer.comap id
    exact hwrite.resolve_right fun hother => nomatch hother.2.1
  · have hsize := bind_function?_of_extends hextends hnamed hmet .sizeOf m.getter (fun get measure => measure ∘ get) id
    exact hsize.resolve_right fun hother => nomatch hother.2.1
  · have hscalar := bind_function?_of_extends hextends hnamed hmet .readScalar m.setter assignScalar id
    exact hscalar.imp_right fun hother => ⟨LengthMode.eq_prefixed_of_ne hother.1, hother.2⟩
  · have hbounded := bind_function?_of_extends hextends hnamed hmet .readBounded m.setter assignBounded id
    exact hbounded.imp_right fun hother => ⟨LengthMode.eq_implicit_of_ne hother.1, hother.2⟩

end Member

namespace Octet

/-- A number of eight bits as its own only member. -/
def value : Member (BitVec 8) :=
  (Member.field "value" (.scalar .u8) (fun x : BitVec 8 => x) fun _ v => v).withScalarReader "ToByte"

/-- A reader of a number of eight bits from any number of bytes, none of which it looks at. -/
def reader (name : String) : Operation := ⟨.scalar .u8, .readBounded, name, fun _ _ _ => some (0 : BitVec 8)⟩

/-- With one bounded reader registered the octet is bound to it, with a second one it is no more; it is written and read as
before in either case. The built-in reader cannot be registered again. -/
theorem compile_over_extension_value :
    let r := Registry.builtin {}
    let again : Operation := ⟨.scalar .u8, .readScalar, "ToByte", fun _ _ => some (0 : BitVec 8)⟩
    ∃ s one two, value.compile r "Octet" = .ok s ∧
      value.compile (r.afterAll [again, reader "first"]) "Octet" = .ok one ∧
      value.compile (r.afterAll [again, reader "first", reader "second"]) "Octet" = .ok two ∧
      one.write = s.write ∧ two.write = s.write ∧ one.readScalar = s.readScalar ∧ two.readScalar = s.readScalar ∧
      [s, one, two].map (·.has .readBounded) = [false, true, false] := by
  intro r again
  have hs : value.compile r "Octet" = .ok (value.offered r) :=
    Member.compile_eq_ok_iff.2 ⟨by decide +kernel, rfl⟩
  obtain ⟨one, hone, -, hwrite, -, hscalar, -⟩ :=
    value.compile_over_extension r [again, reader "first"] "Octet" (.inr rfl) _ hs
  obtain ⟨two, htwo, -, hwrite', -, hscalar', -⟩ :=
    value.compile_over_extension r [again, reader "first", reader "second"] "Octet" (.inr rfl) _ hs
  refine ⟨_, one, two, hs, hone, htwo, hwrite, hwrite', ?_, ?_, ?_⟩
  · exact hscalar.resolve_right fun hmode => absurd hmode.1 (by decide)
  · exact hscalar'.resolve_right fun hmode => absurd hmode.1 (by decide)
  · rw [← (Member.compile_eq_ok_iff.1 hone).2, ← (Member.compile_eq_ok_iff.1 htwo).2]
    decide +kernel

end Octet

namespace Registry

/-- What can be relied on in a registry, whether it started empty or with the built-in operations of any settings, and
whatever was registered since.

The operations of one kind on one type differ in name. Each of them gives up its function to those who ask for this type
and kind, and to nobody else; so neither binding an operation nor compiling a member is ever refused for a signature. This
is so of every operation by its type (`Operation`), whose function has the shape of its kind on values of its type, and not
for how a registry came about.

Whether a kind is supported is whether a look-up by shape finds anything. A look-up that cannot choose names two candidates
or more, all different. One that finds the name under other kinds lists these, in the order of kinds. -/
theorem inUse_told_apart (start : Option RegistryConfig) (ops : List Operation) :
    let r := inUse start ops
    (∀ t k, ((r.candidates t k).map (·.name)).Nodup ∧ ∀ op ∈ r.candidates t k,
      (∃ call, op = ⟨t, k, op.name, call⟩ ∧ op.as? t k = some call) ∧
        ∀ t' k', (op.as? t' k').isSome → t' = t ∧ k' = k) ∧
      (∀ t k name type n kind, r.resolve t k name ≠ .error (.signatureMismatch type n kind)) ∧
      (∀ (H : Type) (m : Member H) (host : String) (t : ValueType) host' member type n kind,
        m.compile r host ≠ .error (.codec host' member (.signatureMismatch type n kind)) ∧
          m.compileAs r host t ≠ .error (.codec host' member (.signatureMismatch type n kind))) ∧
      (∀ t k, r.supports t k ↔ ∀ type kind name, r.lookup t k none ≠ .error (.notFound type kind name)) ∧
      (∀ t k name type kind names, r.lookup t k name = .error (.ambiguous type kind names) →
        names.Nodup ∧ 2 ≤ names.length) ∧
      ∀ t k name type n expected found, r.lookup t k name = .error (.shapeMismatch type n expected found) →
        expected = k ∧ found ≠ [] ∧ (found.Pairwise fun j j' => j.index < j'.index) ∧ expected ∉ found := by
  intro r
  have hdistinct : r.Distinct := distinct_inUse start ops
  refine ⟨fun t k => ⟨hdistinct.names t k, fun op hop => ?_⟩, fun t k name type n kind he => ?_,
    fun H m host t host' member type n kind => ⟨?_, ?_⟩, fun t k => supports_iff_lookup,
    fun t k name type kind names => hdistinct.of_ambiguous, fun t k name type n expected found => of_shapeMismatch⟩
  · obtain ⟨rfl, rfl⟩ := type_kind_of_mem hop
    refine ⟨⟨op.call, rfl, op.as?_self⟩, fun t' k' hsome => ?_⟩
    obtain ⟨htype, hkind⟩ := Operation.isSome_as?.1 hsome
    exact ⟨htype.symm, hkind.symm⟩
  · exact r.lookup_ne_signatureMismatch t k name type n kind (resolve_eq_error_iff.1 he)
  · exact m.compile_ne_signatureMismatch r host host' member type n kind
  · unfold Member.compileAs
    split
    · exact m.compile_ne_signatureMismatch r host host' member type n kind
    · simp

/-- Registering a reader again changes nothing; with a second one besides there is no choosing by shape. -/
example :
    let reader (name : String) : Operation := ⟨.scalar .u8, .readBounded, name, fun _ _ _ => some (0 : BitVec 8)⟩
    ((inUse (some {}) [reader "first", reader "first"]).lookup (.scalar .u8) .readBounded none).map (·.name) =
        .ok "first" ∧
      ((inUse (some {}) [reader "first", reader "first", reader "second"]).lookup (.scalar .u8) .readBounded none).map
        (·.name) = .error (.ambiguous "u8" .readBounded ["first", "second"]) := by decide +kernel

end Registry

end Memberwise
