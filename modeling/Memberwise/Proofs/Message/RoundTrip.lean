import Memberwise.Proofs.Message.ReadBack

/-!
# The round trip

What one serializer writes another one over the same registry and settings reads back, whatever either was called for
before: into any instance, and wherever the message stands in the input. Afterwards the instance has every member that
was written.

The members must be of the families of built-in codecs, and independent of each other (`Independent`): reading copies the
members one by one, and what was copied stays only if later ones leave it alone (`Independent.get_copyAll`). A number of
variable length must start below 128, since reading goes by what a default instance takes at least. The input as a whole
has less than `2 ^ 64` bytes, as positions are 64-bit words.
-/

namespace Memberwise

namespace Member

variable {H : Type} {m : Member H} {rc : RegistryConfig}

/-- A number of variable length takes as many bytes once it was copied, if the getter returns what was assigned. -/
theorem IsVarint.remeasures (hm : m.IsVarint) {get : H → m.type.Carrier} {set : H → m.type.Carrier → H}
    (hget : m.getter = some get) (hset : m.setter = some set) (hback : ∀ x a, get (set x a) = a) (v : H) :
    m.Remeasures (Builtin.encoding rc.byteOrder) v := by
  intro _ x
  have hcopy : m.copy v x = set x (get v) := by simp only [copy, hget, hset]
  rw [m.body_eq_comp hget, encoding_of_digits _ hm.write, Function.comp_apply, Function.comp_apply, hcopy, hback]

/-- A number of variable length that is below 128 in the instance to probe with takes one byte there. -/
theorem IsVarint.steady (hm : m.IsVarint) {get : H → m.type.Carrier} {set : H → m.type.Carrier → H}
    (hget : m.getter = some get) (hset : m.setter = some set) (hback : ∀ x a, get (set x a) = a) {least : H}
    (hleast : Builtin.magnitude m.type (get least) < 128) (v : H) :
    m.Steady (Builtin.encoding rc.byteOrder) least v := by
  intro hmode
  refine ⟨?_, hm.remeasures hget hset hback v hmode⟩
  have hone : (Builtin.digits m.type (get least)).length ≤ 1 := by
    rw [Builtin.digits, Varint.length_encode]
    exact Builtin.size_le (by decide) (by simpa using hleast)
  rw [m.body_eq_comp hget, encoding_of_digits _ hm.write]
  exact Nat.le_trans hone (Builtin.length_digits_pos m.type (get v))

end Member

/-! ### Independent members -/

/-- Members whose accessors do not interfere: a getter returns what the setter of the same member stored, and what the
setter of another one stored does not change it. -/
structure Independent {H : Type} (members : List (Member H)) : Prop where
  get_set : ∀ m ∈ members, ∀ get ∈ m.getter, ∀ set ∈ m.setter, ∀ x a, get (set x a) = a
  get_set_other : ∀ m ∈ members, ∀ m' ∈ members, m.name ≠ m'.name → ∀ get ∈ m.getter, ∀ set ∈ m'.setter,
    ∀ x a, get (set x a) = get x

namespace Independent

variable {H : Type} {m : Member H} {rest : List (Member H)} {get : H → m.type.Carrier}

theorem tail (h : Independent (m :: rest)) : Independent rest where
  get_set m' hm' := h.get_set m' (.tail _ hm')
  get_set_other m' hm' m'' hm'' := h.get_set_other m' (.tail _ hm') m'' (.tail _ hm'')

/-- Copying other members leaves a member as it is. -/
theorem get_copyAll_other {members : List (Member H)} (h : Independent members) (hm : m ∈ members)
    (hget : m.getter = some get) {others : List (Member H)} (hothers : ∀ m' ∈ others, m' ∈ members ∧ m.name ≠ m'.name)
    (v x : H) : get (Layout.copyAll others v x) = get x := by
  induction others generalizing x with
  | nil => rfl
  | cons m' rest ih =>
    obtain ⟨hm', hname⟩ := hothers m' (.head _)
    have hone : get (m'.copy v x) = get x := by
      unfold Member.copy
      split
      · next get' set' _ hset' => exact h.get_set_other m hm m' hm' hname get hget set' hset' x _
      · rfl
    exact (ih (fun m'' hm'' => hothers m'' (.tail _ hm'')) (m'.copy v x)).trans hone

/-- Copying all members gives each of them the value that it was copied from. -/
theorem get_copyAll {members : List (Member H)} (h : Independent members) (hnodup : (members.map (·.name)).Nodup)
    (hm : m ∈ members) (hget : m.getter = some get) (hwrite : m.isWritable) (v x : H) :
    get (Layout.copyAll members v x) = get v := by
  -- the setter of `m` runs once, since no other member has its name, and the members after it leave it alone
  induction members generalizing x with
  | nil => cases hm
  | cons m' rest ih =>
    rw [List.map_cons, List.nodup_cons] at hnodup
    rcases List.mem_cons.1 hm with rfl | hrest
    · obtain ⟨set, hset⟩ := Option.isSome_iff_exists.1 hwrite
      have hcopy : m.copy v x = set x (get v) := by simp only [Member.copy, hget, hset]
      have hothers : ∀ m' ∈ rest, m' ∈ m :: rest ∧ m.name ≠ m'.name := by
        intro m' hm'
        refine ⟨.tail _ hm', fun hname => hnodup.1 ?_⟩
        rw [hname]
        exact List.mem_map_of_mem hm'
      have hkept := h.get_copyAll_other (.head _) hget hothers v (m.copy v x)
      rw [hcopy, h.get_set m (.head _) get hget set hset] at hkept
      rwa [Layout.copyAll, List.foldl_cons, hcopy]
    · exact ih h.tail hnodup.2 hrest (m'.copy v x)

end Independent

namespace Serializer

/-- What was serialized is read back. Take a host type over the built-in codecs whose members can be read and assigned,
are each of one family, are independent of each other, and start below 128 if they are of variable length. The message
of an instance, with anything around it, is read into any other instance to its end, and then this has all members as
they were written. Neither serializer may have compiled another member under the key of a declared one before; else
their calls are arbitrary. -/
theorem deserializeInto_serialize {F : HostFamily} (locate : Locator F) (rc : RegistryConfig) (config : MessageConfig)
    (sent received : List (Call F)) (hsent : ∀ call ∈ sent, call.Genuine locate)
    (hreceived : ∀ call ∈ received, call.Genuine locate) (h : F.Host)
    (haccess : ∀ m ∈ locate h, m.isReadable ∧ m.isWritable) (hfamily : ∀ m ∈ locate h, m.OfFamily)
    (hindependent : Independent (locate h))
    (hstart : ∀ m ∈ locate h, m.IsVarint → ∀ get ∈ m.getter, Builtin.magnitude m.type (get (F.default h)) < 128)
    (v : F.Instance h) (b : Bytes)
    (hb : ((inUse locate (Registry.builtin rc) config sent).serialize h (locate h) v).1 = .ok b)
    (target : F.Instance h) (pre post : Bytes) (hlength : (pre ++ b ++ post).length < 2 ^ 64) :
    ∃ y, ((inUse locate (Registry.builtin rc) config received).deserializeInto h (locate h) target (pre ++ b ++ post)
        (UInt64.ofNat pre.length)).1 = (.ok (UInt64.ofNat b.length), y) ∧
      ∀ m ∈ locate h, ∀ get ∈ m.getter, get y = get v := by
  have hlawful : ∀ m ∈ locate h, LawfulMember (Registry.builtin rc) (Builtin.encoding rc.byteOrder) m :=
    fun m hm => (hfamily m hm).matched.lawful
  obtain ⟨_, -, hnodup, hcompiled, hmessage, hfits, -⟩ := serialize_spec hsent hlawful hb
  have hsteady : ∀ m ∈ locate h, m.Steady (Builtin.encoding rc.byteOrder) (F.default h) v := by
    intro m hm
    obtain ⟨hread, hwrite⟩ := haccess m hm
    obtain ⟨s, hs⟩ := hcompiled.exists_of_mem m hm
    rcases hfamily m hm with hfixed | hvarint | hprefixed
    · exact (hfixed.keepsWidth hs hread hwrite).steady _ v
    · obtain ⟨get, hget⟩ := Option.isSome_iff_exists.1 hread
      obtain ⟨set, hset⟩ := Option.isSome_iff_exists.1 hwrite
      exact hvarint.steady hget hset (hindependent.get_set m hm get hget set hset) (hstart m hm hvarint get hget) v
    · exact (hprefixed.keepsWidth _).steady _ v
  obtain ⟨t, ht, hreads⟩ := exists_table_reads config hreceived haccess hfamily hnodup hcompiled.exists_of_mem
  have hpos : (UInt64.ofNat pre.length).toNat = pre.length := by
    rw [List.append_assoc, List.length_append] at hlength
    exact UInt64.toNat_ofNat_of_lt' (by rw [UInt64.size]; omega)
  rw [hmessage] at hlength ⊢
  obtain ⟨pos', hdecode, hend⟩ := Layout.decode_message hreads hfits hsteady target hpos hlength
  refine ⟨Layout.copyAll (locate h) v target, ?_, fun m hm get hget => ?_⟩
  · have hconsumed : pos' - UInt64.ofNat pre.length =
        UInt64.ofNat (Layout.message config.lengthPrefix (Builtin.encoding rc.byteOrder) (locate h) v).length := by
      rw [List.length_append] at hend hlength
      rw [List.length_append] at hlength
      have hforward : UInt64.ofNat pre.length ≤ pos' := by
        rw [UInt64.le_iff_toNat_le]
        omega
      apply UInt64.toNat_inj.1
      rw [UInt64.toNat_sub_of_le _ _ hforward, hend, hpos, Nat.add_sub_cancel_left,
        UInt64.toNat_ofNat_of_lt' (by rw [UInt64.size]; omega)]
    rw [deserializeInto_of_table ht, config_inUse, deserializeIntoWith, hdecode, ← hconsumed]
  · exact hindependent.get_copyAll hnodup hm hget (haccess m hm).2 v target

end Serializer

/-- What a page counts: how often it was asked for, whether it was shown, and its path. -/
structure Visit where
  hits : BitVec 64 := 0
  shown : Bool := false
  path : String := ""
  deriving DecidableEq

namespace Visit

/-- One host type, the visit. -/
def family : HostFamily where
  Host := Unit
  decEq := inferInstance
  name _ := "Visit"
  Instance _ := Visit
  default _ := {}

/-- The members of a visit: one of variable length, one of fixed width, one prefixed. -/
def members : List (Member Visit) :=
  [(Member.field "hits" (.scalar .u64) (fun x : Visit => x.hits) fun x v => { x with hits := v }).withCodec
      { write := "GetVarBytes", sizeOf := "GetVarByteCount", readScalar := some "ReadVarUInt64" },
   Member.field "shown" .bool (fun x : Visit => x.shown) fun x v => { x with shown := v },
   (Member.field "path" .string (fun x : Visit => x.path) fun x v => { x with path := v }).prefixed]

/-- A visit with every member other than at the start. -/
def sample : Visit := { hits := 300, shown := true, path := "/é" }

/-- A serializer that has written a visit already. -/
def serializer : Serializer family :=
  Serializer.inUse (fun _ => members) (Registry.builtin ⟨.big, true⟩) ⟨.u16, 100⟩ [.serialize () sample]

/-- The message of the visit. -/
def bytes : Bytes := [172, 2] ++ [1] ++ [3, 0] ++ [47, 195, 169]

theorem independent_members : Independent members where
  get_set m hm get hget set hset x a := by
    simp only [members, List.mem_cons, List.not_mem_nil, or_false] at hm
    rcases hm with rfl | rfl | rfl <;> cases hget <;> cases hset <;> rfl
  get_set_other m hm m' hm' hname get hget set hset x a := by
    simp only [members, List.mem_cons, List.not_mem_nil, or_false] at hm hm'
    rcases hm with rfl | rfl | rfl <;> rcases hm' with rfl | rfl | rfl <;> cases hget <;> cases hset <;>
      first | rfl | exact absurd rfl hname

theorem ofFamily_members : ∀ m ∈ members, m.OfFamily := by
  simp only [members, List.forall_mem_cons, List.not_mem_nil, false_imp_iff, implies_true, and_true]
  refine ⟨.inr (.inl ⟨rfl, rfl, rfl, _, rfl, rfl⟩), .inl ⟨rfl, rfl, rfl, ?_⟩, .inr (.inr ⟨.inr rfl, rfl, rfl, rfl, ?_⟩)⟩
  · rintro _ ⟨⟩
  · rintro _ ⟨⟩

/-- A visit is read into another one, one byte into the input. -/
theorem deserializeInto_bytes :
    (serializer.serialize () members sample).1 = .ok bytes ∧
      ∃ y : Visit, (serializer.deserializeInto () members { hits := 7, path := "/" } ([255] ++ bytes ++ [0, 0])
        (UInt64.ofNat 1)).1 = (.ok (UInt64.ofNat 8), y) ∧ ∀ m ∈ members, ∀ get ∈ m.getter, get y = get sample := by
  have hb : (serializer.serialize () members sample).1 = .ok bytes := by decide +kernel
  have hcalls : ∀ call ∈ [Call.serialize (F := family) () sample], call.Genuine (fun _ => members) :=
    List.forall_mem_singleton.2 trivial
  have hstart : ∀ m ∈ members, m.IsVarint → ∀ get ∈ m.getter, Builtin.magnitude m.type (get {}) < 128 := by
    simp only [members, List.forall_mem_cons, List.not_mem_nil, false_imp_iff, implies_true, and_true]
    refine ⟨?_, ?_, ?_⟩
    all_goals
      rintro - _ ⟨⟩
      decide
  have haccess : ∀ m ∈ members, m.isReadable ∧ m.isWritable := by decide
  exact ⟨hb, Serializer.deserializeInto_serialize (F := family) (fun _ => members) ⟨.big, true⟩ ⟨.u16, 100⟩ _ _ hcalls hcalls ()
    haccess ofFamily_members independent_members hstart sample bytes hb { hits := 7, path := "/" } [255] [0, 0]
    (by decide)⟩

end Visit

end Memberwise
