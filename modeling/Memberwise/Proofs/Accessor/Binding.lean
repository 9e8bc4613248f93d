import Memberwise.Proofs.Accessor.Needs

/-!
# What a compiled member is bound to

`Member.Binds` says all that messages need to know of an accessor set compiled from a member: which operations of the
registry it calls, and with which getter and setter. Compiling gives a set of which it holds
(`Member.binds_of_compile`).
-/

namespace Memberwise

theorem bind_eq_ok_iff {ε α β : Type} {x : Except ε α} {f : α → Except ε β} {b : β} :
    x >>= f = .ok b ↔ ∃ a, x = .ok a ∧ f a = .ok b := by
  cases x with
  | ok a => simp [bind, Except.bind]
  | error e => simp [bind, Except.bind]

theorem map_eq_ok_iff {ε α β : Type} {x : Except ε α} {f : α → β} {b : β} :
    x.map f = .ok b ↔ ∃ a, x = .ok a ∧ f a = b := by
  cases x with
  | ok a => simp [Except.map]
  | error e => simp [Except.map]

/-- A check of a list ends with the first element that fails, if there is one. -/
theorem forM_eq_find? {ε α : Type} (f : α → Except ε Unit) (l : List α) :
    l.forM f =
      match l.find? fun a => !(f a).isOk with
      | some a => f a
      | none => .ok () := by
  induction l with
  | nil => rfl
  | cons a l ih =>
    rw [show (a :: l).forM f = (f a >>= fun _ => l.forM f) from rfl, List.find?_cons]
    cases ha : f a with
    | error e => exact ha.symm
    | ok u => exact ih

theorem forM_eq_ok_iff {ε α : Type} {f : α → Except ε Unit} {l : List α} :
    l.forM f = .ok () ↔ ∀ a ∈ l, f a = .ok () := by
  have hok : ∀ a, (f a).isOk ↔ f a = .ok () := by
    intro a
    cases f a <;> simp [Except.isOk, Except.toBool]
  rw [forM_eq_find?]
  cases hfind : l.find? fun a => !(f a).isOk with
  | some a =>
    have ha : ¬ f a = .ok () := by simpa [← hok] using List.find?_some hfind
    exact iff_of_false ha fun hall => ha (hall a (List.mem_of_find?_eq_some hfind))
  | none => exact iff_of_true rfl (by simpa [hok] using hfind)

/-- What can be used for both can be read and assigned. -/
theorem Access.check_readWrite {host member : String} {readable writable : Bool} :
    Access.readWrite.check host member readable writable = .ok () ↔ readable ∧ writable := by
  cases readable <;> cases writable <;> simp [check, needsRead, needsWrite]

namespace AccessorSet

variable {H : Type} (s : AccessorSet H)

@[simp] theorem has_write : s.has .write = s.write.isSome := Option.isSome_map

@[simp] theorem has_sizeOf : s.has .sizeOf = s.sizeOf.isSome := Option.isSome_map

@[simp] theorem has_readScalar : s.has .readScalar = s.readScalar.isSome := Option.isSome_map

@[simp] theorem has_readBounded : s.has .readBounded = s.readBounded.isSome := Option.isSome_map

end AccessorSet

namespace Member

variable {H : Type}

/-- An accessor set that goes by the name, type and length mode of the member. What is read from an instance goes
through the getter to the named writer and measure; what is assigned comes from the reader of the length mode and
goes through the setter. -/
structure Binds (m : Member H) (r : Registry) (s : AccessorSet H) : Prop where
  member : s.member = m.name
  type : s.type = m.type
  length : s.length = m.codec.length
  read : ∀ get ∈ m.getter, ∃ w z, r.resolve m.type .write (some m.codec.write) = .ok w ∧
    r.resolve m.type .sizeOf (some m.codec.sizeOf) = .ok z ∧
    s.write = some (w.map (Writer.comap get)) ∧ s.sizeOf = some (z.map fun measure => measure ∘ get)
  unread : m.getter = none → s.write = none ∧ s.sizeOf = none
  assignScalar : ∀ set ∈ m.setter, m.codec.length = .implicit →
    ∃ read, r.resolve m.type .readScalar m.codec.readScalar = .ok read ∧
      s.readScalar = some (read.map (Member.assignScalar set))
  assignBounded : ∀ set ∈ m.setter, m.codec.length = .prefixed →
    ∃ read, r.resolve m.type .readBounded m.codec.readBounded = .ok read ∧
      s.readBounded = some (read.map (Member.assignBounded set))
  unassigned : m.setter = none → s.readScalar = none ∧ s.readBounded = none

theorem binds_of_compile {m : Member H} {r : Registry} {host : String} {s : AccessorSet H}
    (h : m.compile r host = .ok s) : m.Binds r s := by
  obtain ⟨hmet, rfl⟩ := compile_eq_ok_iff.1 h
  have hfound : ∀ k, m.Needs k →
      ∃ b, r.resolve m.type k (m.codec.name? k) = .ok b ∧ m.function? r k = some b := by
    intro k hneeds
    obtain ⟨b, hb⟩ := function?_of_met hmet hneeds
    exact ⟨b, function?_eq_some_iff.1 hb, hb⟩
  refine ⟨rfl, rfl, rfl, fun get hget => ?_, fun hnone => by simp [offered, hnone], fun set hset hmode => ?_,
    fun set hset hmode => ?_, fun hnone => by simp [offered, hnone]⟩
  · have hread : m.isReadable := Option.isSome_of_mem hget
    obtain ⟨w, hw, hwrite⟩ := hfound .write ⟨hread, .inl rfl⟩
    obtain ⟨z, hz, hsize⟩ := hfound .sizeOf ⟨hread, .inl rfl⟩
    rw [Option.mem_def] at hget
    exact ⟨w, z, hw, hz, by rw [offered, hget, hwrite]; rfl, by rw [offered, hget, hsize]; rfl⟩
  · have hwrite : m.isWritable := Option.isSome_of_mem hset
    obtain ⟨read, hread, hscalar⟩ := hfound .readScalar ⟨hwrite, .inr (by rw [hmode]; rfl)⟩
    rw [Option.mem_def] at hset
    exact ⟨read, hread, by rw [offered, hset, hscalar]; rfl⟩
  · have hwrite : m.isWritable := Option.isSome_of_mem hset
    obtain ⟨read, hread, hbounded⟩ := hfound .readBounded ⟨hwrite, .inr (by rw [hmode]; rfl)⟩
    rw [Option.mem_def] at hset
    exact ⟨read, hread, by rw [offered, hset, hbounded]; rfl⟩

/-- A compiled member can be used as the member can. -/
theorem Binds.capability {m : Member H} {r : Registry} {s : AccessorSet H} (hb : m.Binds r s) :
    s.isReadable = m.isReadable ∧ s.isWritable = m.isWritable := by
  constructor
  · cases hget : m.getter with
    | none =>
      obtain ⟨hwrite, -⟩ := hb.unread hget
      simp [AccessorSet.isReadable, isReadable, hwrite, hget]
    | some get =>
      obtain ⟨w, z, -, -, hwrite, -⟩ := hb.read get hget
      simp [AccessorSet.isReadable, isReadable, hwrite, hget]
  · cases hset : m.setter with
    | none =>
      obtain ⟨hscalar, hbounded⟩ := hb.unassigned hset
      cases hmode : m.codec.length <;>
        simp [AccessorSet.isWritable, isWritable, hb.length, hmode, hscalar, hbounded, hset]
    | some set =>
      cases hmode : m.codec.length with
      | implicit =>
        obtain ⟨read, -, hscalar⟩ := hb.assignScalar set hset hmode
        simp [AccessorSet.isWritable, isWritable, hb.length, hmode, hscalar, hset]
      | prefixed =>
        obtain ⟨read, -, hbounded⟩ := hb.assignBounded set hset hmode
        simp [AccessorSet.isWritable, isWritable, hb.length, hmode, hbounded, hset]

end Member

end Memberwise
