import Memberwise.Accessor.Compile
import Memberwise.Proofs.Codec.Resolution

/-!
# What a member needs

A member asks for at most one operation of each kind, by name or by shape. It needs the writer and the measure if it can
be read, and if it can be assigned the reader of its length mode; the other reader it needs if it names one
(`Member.Needs`). What it cannot be used for it does not ask for, whatever names it gives.

Compiling it comes down to this (`Member.compile_eq`): if the registry fails to meet some need, the first of them in the
order of kinds is the error (`Member.unmet?`), and otherwise the accessor set holds all that the registry has of what was
asked for (`Member.offered`). The length mode makes no difference beyond that.
-/

namespace Memberwise

/-- The name that a selection gives for the operation of a kind. -/
def CodecSelection.name? (c : CodecSelection) : OperationKind → Option String
  | .write => some c.write
  | .sizeOf => some c.sizeOf
  | .readScalar => c.readScalar
  | .readBounded => c.readBounded

/-- The kind of the reader that a length mode calls for. -/
def LengthMode.reader : LengthMode → OperationKind
  | .implicit => .readScalar
  | .prefixed => .readBounded

namespace AccessorSet

variable {H : Type} {s : AccessorSet H}

/-- The bindings listed are those of the functions that are there, in the order of kinds. -/
def Listed (s : AccessorSet H) : Prop :=
  s.bindings = OperationKind.all.filterMap fun k => (s.boundName k).map fun name => ⟨s.type, k, name⟩

/-- There is one binding for each kind that is present, in the order of kinds. -/
theorem Listed.map_kind (h : s.Listed) : s.bindings.map (·.kind) = OperationKind.all.filter s.has := by
  rw [h, List.map_filterMap, ← List.filterMap_eq_filter]
  congr 1
  funext k
  rcases Option.eq_none_or_eq_some (s.boundName k) with hnone | ⟨n, hsome⟩
  · simp [has, Option.guard, hnone]
  · simp [has, Option.guard, hsome]

theorem Listed.mem_iff (h : s.Listed) {b : Binding} :
    b ∈ s.bindings ↔ b.type = s.type ∧ s.boundName b.kind = some b.name := by
  obtain ⟨type, kind, name⟩ := b
  rw [h]
  simp only [List.mem_filterMap, Option.map_eq_some_iff, Binding.mk.injEq]
  constructor
  · rintro ⟨k, -, n, hn, rfl, rfl, rfl⟩
    exact ⟨rfl, hn⟩
  · rintro ⟨rfl, hn⟩
    exact ⟨kind, kind.mem_all, name, hn, rfl, rfl, rfl⟩

end AccessorSet

namespace Member

variable {H : Type} {m : Member H} {r : Registry} {k : OperationKind}

/-- Whether the member can be used for operations of a kind. -/
def Serves (m : Member H) : OperationKind → Prop
  | .write | .sizeOf => m.isReadable
  | .readScalar | .readBounded => m.isWritable

instance (m : Member H) : (k : OperationKind) → Decidable (m.Serves k)
  | .write | .sizeOf => inferInstanceAs (Decidable (m.isReadable = true))
  | .readScalar | .readBounded => inferInstanceAs (Decidable (m.isWritable = true))

/-- Whether the member needs an operation of a kind: it can be used for it, and names it or has the length mode that
calls for it. The writer and the measure always have a name. -/
def Needs (m : Member H) (k : OperationKind) : Prop :=
  m.Serves k ∧ ((m.codec.name? k).isSome ∨ k = m.codec.length.reader)

instance (m : Member H) (k : OperationKind) : Decidable (m.Needs k) := inferInstanceAs (Decidable (_ ∧ _))

/-- The look-up of the operation of a kind for the member. -/
def find (m : Member H) (r : Registry) (k : OperationKind) : Except ResolutionError Operation :=
  r.lookup m.type k (m.codec.name? k)

/-- Why the registry fails to meet the need of the member for an operation of a kind, if it has this need. -/
def missing? (m : Member H) (r : Registry) (k : OperationKind) : Option ResolutionError :=
  if m.Needs k then
    match m.find r k with
    | .error e => some e
    | .ok _ => none
  else none

/-- Why the registry fails to meet the first of the needs of the member that it does not meet. -/
def unmet? (m : Member H) (r : Registry) : Option ResolutionError := OperationKind.all.findSome? (m.missing? r)

/-- The function that the registry has for the member, needed or not. -/
def function? (m : Member H) (r : Registry) (k : OperationKind) : Option (Bound (k.Call m.type.Carrier)) :=
  (r.resolve m.type k (m.codec.name? k)).toOption

/-- The binding to the function that the registry has for the member, if the member can be used for it. -/
def binding? (m : Member H) (r : Registry) (k : OperationKind) : Option Binding :=
  if m.Serves k then (m.function? r k).map (·.binding m.type k) else none

/-- The accessor set with all that the registry has of what the member asks for. -/
def offered (m : Member H) (r : Registry) : AccessorSet H where
  member := m.name
  type := m.type
  length := m.codec.length
  bindings := OperationKind.all.filterMap (m.binding? r)
  write := m.getter.bind fun get => (m.function? r .write).map (Bound.map (Writer.comap get))
  sizeOf := m.getter.bind fun get => (m.function? r .sizeOf).map (Bound.map fun measure => measure ∘ get)
  readScalar := m.setter.bind fun set => (m.function? r .readScalar).map (Bound.map (assignScalar set))
  readBounded := m.setter.bind fun set => (m.function? r .readBounded).map (Bound.map (assignBounded set))

/-! ### One need -/

theorem missing?_of_not_needs (h : ¬ m.Needs k) : m.missing? r k = none := if_neg h

theorem missing?_of_error {e : ResolutionError} (hneeds : m.Needs k)
    (he : r.resolve m.type k (m.codec.name? k) = .error e) : m.missing? r k = some e := by
  rw [missing?, if_pos hneeds, find, Registry.resolve_eq_error_iff.1 he]

theorem missing?_of_ok {b : Bound (k.Call m.type.Carrier)} (hb : r.resolve m.type k (m.codec.name? k) = .ok b) :
    m.missing? r k = none := by
  rw [missing?, find, Registry.resolve_eq_ok_iff.1 hb]
  exact ite_self none

theorem function?_of_error {e : ResolutionError} (he : r.resolve m.type k (m.codec.name? k) = .error e) :
    m.function? r k = none := by
  rw [function?, he]
  rfl

theorem function?_eq_some_iff {b : Bound (k.Call m.type.Carrier)} :
    m.function? r k = some b ↔ r.resolve m.type k (m.codec.name? k) = .ok b := by
  rw [function?]
  cases r.resolve m.type k (m.codec.name? k) <;> simp [Except.toOption]

/-- A reader that can be done without is bound if the registry has it, and missed only if it is named. -/
theorem resolveOptional_eq (hserves : m.Serves k) (hother : k ≠ m.codec.length.reader) :
    r.resolveOptional m.type k (m.codec.name? k) =
      match m.missing? r k with
      | some e => .error e
      | none => .ok (m.function? r k) := by
  have hneeds : m.Needs k ↔ (m.codec.name? k).isSome := by simp [Needs, hserves, hother]
  unfold Registry.resolveOptional
  cases hresolve : r.resolve m.type k (m.codec.name? k) with
  | ok b => rw [missing?_of_ok hresolve, function?_eq_some_iff.2 hresolve]
  | error e =>
    cases hname : m.codec.name? k with
    | some n =>
      rw [missing?_of_error (hneeds.2 (by rw [hname]; rfl)) hresolve]
      cases e <;> rfl
    | none =>
      rw [missing?_of_not_needs (by simp [hneeds, hname]), function?_of_error hresolve]
      -- without a name there is none of the kind or more than one, and neither is an error
      rw [hname, Registry.resolve_eq_error_iff] at hresolve
      rcases r.lookup_cases m.type k none with ⟨op, hop⟩ | ⟨-, hop⟩ | ⟨-, -, hop⟩ | ⟨n, hn, -⟩
      · cases hop.symm.trans hresolve
      · cases hop.symm.trans hresolve
        rfl
      · cases hop.symm.trans hresolve
        rfl
      · cases hn

/-! ### Compiling -/

theorem binding?_of_serves (h : m.Serves k) (r : Registry) :
    m.binding? r k = (m.function? r k).map (·.binding m.type k) := if_pos h

theorem binding?_of_not_serves (h : ¬ m.Serves k) (r : Registry) : m.binding? r k = none := if_neg h

theorem compileRead_eq (m : Member H) (r : Registry) :
    m.compileRead r =
      match [OperationKind.write, .sizeOf].findSome? (m.missing? r) with
      | some e => .error e
      | none => .ok { bindings := [OperationKind.write, .sizeOf].filterMap (m.binding? r),
                      write := (m.offered r).write, sizeOf := (m.offered r).sizeOf } := by
  cases hget : m.getter with
  | none =>
    have hserves : ∀ k ∈ [OperationKind.write, .sizeOf], ¬ m.Serves k := by simp [Serves, isReadable, hget]
    have hneeds : ∀ k ∈ [OperationKind.write, .sizeOf], ¬ m.Needs k := fun k hk hneeds => hserves k hk hneeds.1
    simp [compileRead, offered, hget, missing?_of_not_needs (hneeds _ (.head _)),
      missing?_of_not_needs (hneeds _ (.tail _ (.head _))), binding?_of_not_serves (hserves _ (.head _)),
      binding?_of_not_serves (hserves _ (.tail _ (.head _)))]
  | some get =>
    have hserves : m.Serves .write ∧ m.Serves .sizeOf := by simp [Serves, isReadable, hget]
    have hneeds : m.Needs .write ∧ m.Needs .sizeOf := by simp [Needs, hserves, CodecSelection.name?]
    unfold compileRead
    rw [hget]
    cases hwrite : r.resolve m.type .write (some m.codec.write) with
    | error e =>
      rw [List.findSome?_cons, missing?_of_error hneeds.1 hwrite]
      rfl
    | ok w =>
      rw [List.findSome?_cons, List.findSome?_cons, missing?_of_ok hwrite]
      cases hsize : r.resolve m.type .sizeOf (some m.codec.sizeOf) with
      | error e =>
        rw [missing?_of_error hneeds.2 hsize]
        rfl
      | ok z =>
        rw [missing?_of_ok hsize, offered, hget, List.filterMap_cons, List.filterMap_cons,
          binding?_of_serves hserves.1, binding?_of_serves hserves.2, function?_eq_some_iff.2 hwrite,
          function?_eq_some_iff.2 hsize]
        rfl

/-- Both readers are those that the registry has, and the first one missing is the error, whichever of them the length
mode calls for. -/
theorem resolveReaders_eq (h : m.isWritable) (r : Registry) :
    m.resolveReaders r =
      match [OperationKind.readScalar, .readBounded].findSome? (m.missing? r) with
      | some e => .error e
      | none => .ok (m.function? r .readScalar, m.function? r .readBounded) := by
  unfold resolveReaders
  rw [List.findSome?_cons, List.findSome?_cons]
  cases hmode : m.codec.length with
  | implicit =>
    have hneeds : m.Needs .readScalar := ⟨h, .inr (by rw [hmode]; rfl)⟩
    have hbounded : r.resolveOptional m.type .readBounded m.codec.readBounded = _ :=
      m.resolveOptional_eq h (by rw [hmode]; decide)
    cases hscalar : r.resolve m.type .readScalar m.codec.readScalar with
    | error e =>
      rw [missing?_of_error hneeds hscalar]
      rfl
    | ok scalar =>
      rw [missing?_of_ok hscalar, function?_eq_some_iff.2 hscalar, hbounded]
      cases m.missing? r .readBounded <;> rfl
  | prefixed =>
    have hneeds : m.Needs .readBounded := ⟨h, .inr (by rw [hmode]; rfl)⟩
    have hscalar : r.resolveOptional m.type .readScalar m.codec.readScalar = _ :=
      m.resolveOptional_eq h (by rw [hmode]; decide)
    rw [hscalar]
    cases m.missing? r .readScalar with
    | some e => rfl
    | none =>
      cases hbounded : r.resolve m.type .readBounded m.codec.readBounded with
      | error e =>
        rw [missing?_of_error hneeds hbounded]
        rfl
      | ok bounded =>
        rw [missing?_of_ok hbounded, function?_eq_some_iff.2 hbounded]
        rfl

theorem compileAssign_eq (m : Member H) (r : Registry) :
    m.compileAssign r =
      match [OperationKind.readScalar, .readBounded].findSome? (m.missing? r) with
      | some e => .error e
      | none => .ok { bindings := [OperationKind.readScalar, .readBounded].filterMap (m.binding? r),
                      readScalar := (m.offered r).readScalar, readBounded := (m.offered r).readBounded } := by
  cases hset : m.setter with
  | none =>
    have hserves : ∀ k ∈ [OperationKind.readScalar, .readBounded], ¬ m.Serves k := by
      simp [Serves, isWritable, hset]
    have hneeds : ∀ k ∈ [OperationKind.readScalar, .readBounded], ¬ m.Needs k := fun k hk hneeds =>
      hserves k hk hneeds.1
    simp [compileAssign, offered, hset, missing?_of_not_needs (hneeds _ (.head _)),
      missing?_of_not_needs (hneeds _ (.tail _ (.head _))), binding?_of_not_serves (hserves _ (.head _)),
      binding?_of_not_serves (hserves _ (.tail _ (.head _)))]
  | some set =>
    have hserves : m.Serves .readScalar ∧ m.Serves .readBounded := by simp [Serves, isWritable, hset]
    -- the readers are pushed one after the other if they are there
    have hbindings : [OperationKind.readScalar, .readBounded].filterMap (m.binding? r) =
        ((m.function? r .readScalar).map (·.binding m.type .readScalar)).toList ++
          ((m.function? r .readBounded).map (·.binding m.type .readBounded)).toList := by
      rw [List.filterMap_cons, List.filterMap_cons, List.filterMap_nil, binding?_of_serves hserves.1,
        binding?_of_serves hserves.2]
      cases m.function? r .readScalar <;> cases m.function? r .readBounded <;> rfl
    unfold compileAssign
    rw [hset, resolveReaders_eq hserves.1, offered, hset, hbindings]
    cases [OperationKind.readScalar, .readBounded].findSome? (m.missing? r) <;> rfl

/-- A member compiles to what is offered to it if no need is unmet; the first unmet need is the error. -/
theorem compile_eq (m : Member H) (r : Registry) (host : String) :
    m.compile r host =
      match m.unmet? r with
      | some e => .error (.codec host m.name e)
      | none => .ok (m.offered r) := by
  have hunmet : m.unmet? r = ([OperationKind.write, .sizeOf].findSome? (m.missing? r)).or
      ([OperationKind.readScalar, .readBounded].findSome? (m.missing? r)) := by
    rw [← List.findSome?_append]
    rfl
  have hbindings : (m.offered r).bindings = [OperationKind.write, .sizeOf].filterMap (m.binding? r) ++
      [OperationKind.readScalar, .readBounded].filterMap (m.binding? r) := by
    rw [← List.filterMap_append]
    rfl
  unfold compile Member.bind
  rw [hunmet, compileRead_eq, compileAssign_eq]
  cases [OperationKind.write, .sizeOf].findSome? (m.missing? r) with
  | some e => rfl
  | none =>
    cases [OperationKind.readScalar, .readBounded].findSome? (m.missing? r) with
    | some e => rfl
    | none => exact congrArg (fun bindings => Except.ok { m.offered r with bindings }) hbindings.symm

theorem compile_eq_ok_iff {host : String} {s : AccessorSet H} :
    m.compile r host = .ok s ↔ m.unmet? r = none ∧ m.offered r = s := by
  rw [compile_eq]
  cases m.unmet? r <;> simp

/-- What an absent capability would be used for does not matter. -/
theorem compile_unreadable (h : m.isReadable = false) (write sizeOf : String) (r : Registry) (host : String) :
    ({ m with codec := { m.codec with write, sizeOf } } : Member H).compile r host = m.compile r host := by
  obtain ⟨name, type, kind, getter, setter, ⟨_, _, _, _, length⟩⟩ := m
  cases getter with
  | none =>
    cases setter with
    | none => rfl
    | some set => cases length <;> rfl
  | some get => cases h

theorem compile_unassignable (h : m.isWritable = false) (readScalar readBounded : Option String) (r : Registry)
    (host : String) :
    ({ m with codec := { m.codec with readScalar, readBounded } } : Member H).compile r host = m.compile r host := by
  obtain ⟨name, type, kind, getter, setter, codec⟩ := m
  cases setter with
  | none => cases getter <;> rfl
  | some set => cases h

/-! ### What is offered -/

theorem name_function? (m : Member H) (r : Registry) (k : OperationKind) :
    (m.function? r k).map (·.name) = (m.find r k).toOption.map (·.name) := by
  unfold function? find
  cases hlookup : r.lookup m.type k (m.codec.name? k) with
  | error e =>
    rw [Registry.resolve_eq_error_iff.2 hlookup]
    rfl
  | ok op =>
    obtain ⟨call, -, hresolve⟩ := Registry.resolve_of_lookup hlookup
    rw [hresolve]
    rfl

/-- A member that can be used for a kind is offered the operation found for it. -/
theorem boundName_offered (m : Member H) (r : Registry) (k : OperationKind) :
    (m.offered r).boundName k = if m.Serves k then (m.find r k).toOption.map (·.name) else none := by
  rw [← name_function?]
  have hname : ∀ {α β : Type} (f : α → β) (b : Option (Bound α)),
      (b.map (Bound.map f)).map (·.name) = b.map (·.name) := by
    intro α β f b
    cases b <;> rfl
  cases k with
  | write | sizeOf =>
    obtain ⟨_, _, _, getter, _, _⟩ := m
    cases getter with
    | none => rfl
    | some get => exact hname _ _
  | readScalar | readBounded =>
    obtain ⟨_, _, _, _, setter, _⟩ := m
    cases setter with
    | none => rfl
    | some set => exact hname _ _

theorem binding?_eq (m : Member H) (r : Registry) (k : OperationKind) :
    m.binding? r k = ((m.offered r).boundName k).map fun name => ⟨m.type, k, name⟩ := by
  rw [boundName_offered, ← name_function?]
  by_cases hserves : m.Serves k
  · rw [binding?_of_serves hserves, if_pos hserves, Option.map_map]
    rfl
  · rw [binding?_of_not_serves hserves, if_neg hserves, Option.map_none]

theorem listed_offered (m : Member H) (r : Registry) : (m.offered r).Listed := by
  unfold AccessorSet.Listed
  exact congrArg OperationKind.all.filterMap (funext (m.binding?_eq r))

theorem has_offered : (m.offered r).has k ↔ m.Serves k ∧ ∃ op, m.find r k = .ok op := by
  rw [AccessorSet.has, boundName_offered]
  by_cases hserves : m.Serves k
  · rw [if_pos hserves]
    cases hfind : m.find r k <;> simp [hserves, Except.toOption]
  · simp [hserves]

theorem unmet?_eq_none_iff : m.unmet? r = none ↔ ∀ k, m.Needs k → ∃ op, m.find r k = .ok op := by
  rw [unmet?, List.findSome?_eq_none_iff]
  have hkind : ∀ k, m.missing? r k = none ↔ (m.Needs k → ∃ op, m.find r k = .ok op) := by
    intro k
    unfold missing?
    by_cases hneeds : m.Needs k
    · cases hfind : m.find r k <;> simp [hneeds]
    · simp [hneeds]
  exact ⟨fun h k => (hkind k).1 (h k k.mem_all), fun h k _ => (hkind k).2 (h k)⟩

/-- If no need is unmet, the registry has a function for each of them. -/
theorem function?_of_met (h : m.unmet? r = none) (hneeds : m.Needs k) : ∃ b, m.function? r k = some b := by
  obtain ⟨op, hop⟩ := unmet?_eq_none_iff.1 h k hneeds
  obtain ⟨call, -, hresolve⟩ := Registry.resolve_of_lookup hop
  exact ⟨⟨op.name, call⟩, function?_eq_some_iff.2 hresolve⟩

theorem find_of_unmet? {e : ResolutionError} (h : m.unmet? r = some e) : ∃ k, m.Needs k ∧ m.find r k = .error e := by
  obtain ⟨k, -, hk⟩ := List.exists_of_findSome?_eq_some h
  unfold missing? at hk
  split at hk
  · next hneeds =>
    refine ⟨k, hneeds, ?_⟩
    split at hk
    · next heq =>
      cases hk
      exact heq
    · cases hk
  · cases hk

theorem compile_ne_signatureMismatch (m : Member H) (r : Registry) (host host' member type n : String)
    (kind : OperationKind) : m.compile r host ≠ .error (.codec host' member (.signatureMismatch type n kind)) := by
  intro he
  rw [compile_eq] at he
  cases hunmet : m.unmet? r with
  | none =>
    rw [hunmet] at he
    cases he
  | some e =>
    rw [hunmet] at he
    cases he
    obtain ⟨k, -, hk⟩ := find_of_unmet? hunmet
    exact r.lookup_ne_signatureMismatch m.type k _ type n kind hk

/-- If no need is unmet, what is bound is what is needed and what can be had besides by shape alone. -/
theorem has_offered_of_met (h : m.unmet? r = none) :
    (m.offered r).has k ↔
      m.Needs k ∨ m.Serves k ∧ m.codec.name? k = none ∧ ∃ op, r.candidates m.type k = [op] := by
  rw [has_offered]
  constructor
  · rintro ⟨hserves, op, hop⟩
    cases hname : m.codec.name? k with
    | some n => exact .inl ⟨hserves, .inl (by rw [hname]; rfl)⟩
    | none =>
      rw [find, hname] at hop
      exact .inr ⟨hserves, rfl, op, Registry.lookup_none_eq_ok_iff.1 hop⟩
  · rintro (hneeds | ⟨hserves, hname, op, hone⟩)
    · exact ⟨hneeds.1, unmet?_eq_none_iff.1 h k hneeds⟩
    · refine ⟨hserves, op, ?_⟩
      rw [find, hname]
      exact Registry.lookup_none_eq_ok_iff.2 hone

/-- Each function of an accessor set is one that the registry has for the member, applied to what the getter gives, or with
its result handed to the setter. -/
structure Composes (m : Member H) (r : Registry) (s : AccessorSet H) : Prop where
  write : ∀ b ∈ s.write, ∃ get ∈ m.getter, ∃ w, m.find r .write = .ok ⟨m.type, .write, b.name, w⟩ ∧
    ∀ x buf offset, b.call.run x buf offset = w.run (get x) buf offset
  sizeOf : ∀ b ∈ s.sizeOf, ∃ get ∈ m.getter, ∃ z, m.find r .sizeOf = .ok ⟨m.type, .sizeOf, b.name, z⟩ ∧
    ∀ x, b.call x = z (get x)
  readScalar : ∀ b ∈ s.readScalar, ∃ set ∈ m.setter, ∃ read,
    m.find r .readScalar = .ok ⟨m.type, .readScalar, b.name, read⟩ ∧
      ∀ x buf offset, b.call x buf offset = (read buf offset).map (set x)
  readBounded : ∀ b ∈ s.readBounded, ∃ set ∈ m.setter, ∃ read,
    m.find r .readBounded = .ok ⟨m.type, .readBounded, b.name, read⟩ ∧
      ∀ x buf offset length, b.call x buf offset length = (read buf offset length).map (set x)

private theorem function_of_bind (k : OperationKind) {α β : Type} {access : Option α}
    (compose : α → k.Call m.type.Carrier → β) {b : Bound β}
    (hb : (access.bind fun a => (m.function? r k).map (Bound.map (compose a))) = some b) :
    ∃ a ∈ access, ∃ call, m.find r k = .ok ⟨m.type, k, b.name, call⟩ ∧ b.call = compose a call := by
  obtain ⟨a, ha, hb⟩ := Option.bind_eq_some_iff.1 hb
  obtain ⟨b', hb', rfl⟩ := Option.map_eq_some_iff.1 hb
  exact ⟨a, ha, b'.call, Registry.resolve_eq_ok_iff.1 (function?_eq_some_iff.1 hb'), rfl⟩

theorem composes_offered (m : Member H) (r : Registry) : m.Composes r (m.offered r) := by
  constructor
  · intro b hb
    obtain ⟨get, hget, w, hw, hcall⟩ := function_of_bind .write Writer.comap hb
    exact ⟨get, hget, w, hw, fun x buf offset => by rw [hcall]; rfl⟩
  · intro b hb
    obtain ⟨get, hget, z, hz, hcall⟩ := function_of_bind .sizeOf (fun get measure => measure ∘ get) hb
    exact ⟨get, hget, z, hz, fun x => by rw [hcall]; rfl⟩
  · intro b hb
    obtain ⟨set, hset, read, hread, hcall⟩ := function_of_bind .readScalar assignScalar hb
    exact ⟨set, hset, read, hread, fun x buf offset => by rw [hcall]; rfl⟩
  · intro b hb
    obtain ⟨set, hset, read, hread, hcall⟩ := function_of_bind .readBounded assignBounded hb
    exact ⟨set, hset, read, hread, fun x buf offset length => by rw [hcall]; rfl⟩

/-- What compiling a member comes down to, over any registry.

The first of its needs that the registry does not meet is the error, reported with the host and the member; names for
what the member cannot be used for make no difference. If all needs are met there is an accessor set for the member. It is
bound to what is needed, and to the other reader if that is not named and the registry has exactly one of the type. It
lists a binding for each kind that is present, in the order of kinds, under the name that was found, and each function of
it is the one found, composed with the getter or the setter of the member. -/
theorem compile_by_needs (m : Member H) (r : Registry) (host : String) :
    (∀ e, m.unmet? r = some e → m.compile r host = .error (.codec host m.name e)) ∧
      (m.unmet? r = none → ∃ s, m.compile r host = .ok s ∧
        (s.member = m.name ∧ s.type = m.type ∧ s.length = m.codec.length) ∧
        (∀ k, s.has k ↔
          m.Needs k ∨ m.Serves k ∧ m.codec.name? k = none ∧ ∃ op, r.candidates m.type k = [op]) ∧
        s.bindings.map (·.kind) = OperationKind.all.filter s.has ∧
        (∀ b ∈ s.bindings, b.type = m.type ∧ ∃ op, m.find r b.kind = .ok op ∧ op.name = b.name) ∧
        m.Composes r s) ∧
      (m.isReadable = false → ∀ write sizeOf,
        ({ m with codec := { m.codec with write, sizeOf } } : Member H).compile r host = m.compile r host) ∧
      (m.isWritable = false → ∀ readScalar readBounded,
        ({ m with codec := { m.codec with readScalar, readBounded } } : Member H).compile r host =
          m.compile r host) := by
  refine ⟨fun e he => by rw [compile_eq, he], fun hmet => ?_, fun hunread write sizeOf =>
    compile_unreadable hunread write sizeOf r host, fun hunassigned readScalar readBounded =>
    compile_unassignable hunassigned readScalar readBounded r host⟩
  refine ⟨m.offered r, by rw [compile_eq, hmet], ⟨rfl, rfl, rfl⟩, fun k => has_offered_of_met hmet,
    (m.listed_offered r).map_kind, fun b hb => ?_, m.composes_offered r⟩
  obtain ⟨htype, hname⟩ := (m.listed_offered r).mem_iff.1 hb
  refine ⟨htype, ?_⟩
  rw [boundName_offered] at hname
  split at hname
  · cases hfind : m.find r b.kind with
    | error e =>
      rw [hfind] at hname
      cases hname
    | ok op =>
      rw [hfind] at hname
      exact ⟨op, rfl, Option.some.inj hname⟩
  · cases hname

/-- There is no built-in reader of a number of eight bits that takes a length, neither by shape nor by the name of the one
that takes none. -/
example :
    let code : Member (BitVec 8) := (field "code" (.scalar .u8) (fun x : BitVec 8 => x) fun _ v => v).prefixed
    code.unmet? (Registry.builtin {}) = some (.notFound "u8" .readBounded none) ∧
      (code.withBoundedReader "ToByte").unmet? (Registry.builtin {}) =
        some (.shapeMismatch "u8" "ToByte" .readBounded [.readScalar]) := by decide +kernel

end Member

end Memberwise
