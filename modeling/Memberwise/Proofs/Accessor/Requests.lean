import Memberwise.Proofs.Accessor.Published

/-!
# Requests to a cache

A member is found in a cache by its key, and that holds all of the member but its kind, its getter and its setter. So
members with the same key compile to sets for the same member that are bound to the same operations
(`Member.compile_of_key_eq`).

A cache in use has served a list of requests, whatever they were and in whatever order (`Cache.inUse`), and each of its
accessor sets was compiled from a member that one of them presented (`Cache.sourced_inUse`).
-/

namespace Memberwise

/-! ### What a key determines -/

/-- What an accessor set shows of itself besides its functions: which member it is for, and which operations it is bound
to. -/
structure Profile where
  member : String
  type : ValueType
  length : LengthMode
  bindings : List Binding
  bound : OperationKind → Option String

def AccessorSet.profile {H : Type} (s : AccessorSet H) : Profile :=
  ⟨s.member, s.type, s.length, s.bindings, s.boundName⟩

namespace Member

variable {H : Type}

theorem serves_of_key_eq {m m' : Member H} (h : m'.key = m.key) (k : OperationKind) : m'.Serves k ↔ m.Serves k := by
  have hread : m'.isReadable = m.isReadable := congrArg Key.readable h
  have hwrite : m'.isWritable = m.isWritable := congrArg Key.writable h
  cases k <;> simp only [Serves, hread, hwrite]

theorem find_of_key_eq {m m' : Member H} (h : m'.key = m.key) (r : Registry) (k : OperationKind) :
    m'.find r k = m.find r k := by
  have htype : m'.type = m.type := congrArg Key.type h
  have hcodec : m'.codec = m.codec := congrArg Key.codec h
  rw [find, find, htype, hcodec]

theorem unmet?_of_key_eq {m m' : Member H} (h : m'.key = m.key) (r : Registry) : m'.unmet? r = m.unmet? r := by
  have hcodec : m'.codec = m.codec := congrArg Key.codec h
  unfold unmet?
  congr 1
  funext k
  have hneeds : m'.Needs k ↔ m.Needs k := by rw [Needs, Needs, serves_of_key_eq h, hcodec]
  rw [missing?, missing?, find_of_key_eq h]
  exact if_congr hneeds rfl rfl

theorem profile_offered_of_key_eq {m m' : Member H} (h : m'.key = m.key) (r : Registry) :
    (m'.offered r).profile = (m.offered r).profile := by
  have htype : (m'.offered r).type = (m.offered r).type := congrArg Key.type h
  have hbound : (m'.offered r).boundName = (m.offered r).boundName := by
    funext k
    simp only [boundName_offered, serves_of_key_eq h, find_of_key_eq h]
  rw [AccessorSet.profile, AccessorSet.profile, Profile.mk.injEq]
  refine ⟨congrArg Key.member h, htype, congrArg (·.codec.length) h, ?_, hbound⟩
  rw [m'.listed_offered r, m.listed_offered r, htype, hbound]

/-- Members with the same key compile to sets for the same member that are bound to the same operations, or fail with the
same error. -/
theorem compile_of_key_eq {m m' : Member H} (h : m'.key = m.key) (r : Registry) (host : String) :
    (m'.compile r host).map AccessorSet.profile = (m.compile r host).map AccessorSet.profile := by
  have hname : m'.name = m.name := congrArg Key.member h
  rw [compile_eq, compile_eq, unmet?_of_key_eq h, hname]
  cases m.unmet? r with
  | some e => rfl
  | none => exact congrArg Except.ok (profile_offered_of_key_eq h r)

theorem compile_kind (m : Member H) (kind : MemberKind) (r : Registry) (host : String) :
    ({ m with kind } : Member H).compile r host = m.compile r host := by
  obtain ⟨name, type, _, getter, setter, codec⟩ := m
  cases getter <;> cases setter <;> rfl

end Member

/-! ### Requests -/

variable {F : HostFamily}

/-- A request to a cache, with the members that a host type declares at that time if it is for a table. -/
inductive Request (F : HostFamily)
  | getOrCompile (h : F.Host) (m : Member (F.Instance h))
  | table (h : F.Host) (members : List (Member (F.Instance h)))

/-- The members that a request presents to the cache. -/
inductive Request.Presents : Request F → (h : F.Host) → Member (F.Instance h) → Prop
  | getOrCompile (h : F.Host) (m : Member (F.Instance h)) : Presents (.getOrCompile h m) h m
  | table {h : F.Host} {members : List (Member (F.Instance h))} {m : Member (F.Instance h)} (hm : m ∈ members) :
    Presents (.table h members) h m

/-- The members that were presented to a cache by some of the requests. -/
def Presented (requests : List (Request F)) : Origin F := fun h m => ∃ q ∈ requests, q.Presents h m

namespace Cache

/-- The cache after a request. -/
def after (c : Cache F) : Request F → Cache F
  | .getOrCompile h m => (c.getOrCompile h m).2
  | .table h members => (c.table h members).2

/-- A cache over a registry that has served the requests listed. -/
def inUse (r : Registry) (requests : List (Request F)) : Cache F := requests.foldl after { registry := r }

theorem registry_after (c : Cache F) (q : Request F) : (c.after q).registry = c.registry := by
  cases q with
  | getOrCompile h m => exact c.registry_getOrCompile h m
  | table h members => exact c.registry_table h members

theorem Sourced.after {c : Cache F} {origin : Origin F} (hc : c.Sourced origin) {q : Request F}
    (hq : ∀ h m, q.Presents h m → origin h m) : (c.after q).Sourced origin := by
  cases q with
  | getOrCompile h m => exact hc.getOrCompile (hq h m (.getOrCompile h m))
  | table h members => exact hc.table fun m hm => hq h m (.table hm)

theorem inUse_induction {P : Cache F → Prop} {r : Registry} {requests : List (Request F)}
    (hempty : P { registry := r }) (hstep : ∀ c, P c → ∀ q ∈ requests, P (c.after q)) : P (inUse r requests) := by
  unfold inUse
  exact List.foldlRecOn requests after hempty hstep

theorem registry_inUse (r : Registry) (requests : List (Request F)) : (inUse r requests).registry = r := by
  apply inUse_induction (P := fun c => c.registry = r) rfl
  intro c hc q _
  rw [registry_after, hc]

theorem sourced_inUse (r : Registry) (requests : List (Request F)) :
    (inUse r requests).Sourced (Presented requests) := by
  apply inUse_induction (P := fun c => c.Sourced (Presented requests))
  · exact ⟨fun e he => absurd he List.not_mem_nil⟩
  · intro c hc q hq
    exact hc.after fun h m hpresents => ⟨q, hq, hpresents⟩

end Cache

/-- Two numbers, either of which can be presented as the same member. -/
structure Pair where
  left : BitVec 8
  right : BitVec 8
  deriving DecidableEq

namespace Pair

def family : HostFamily where
  Host := Unit
  decEq := inferInstance
  name _ := "Pair"
  Instance _ := Pair
  default _ := ⟨0, 0⟩

/-- The member that is the number on the left. -/
def onLeft : Member Pair := .field "x" (.scalar .u8) (fun x : Pair => x.left) fun x v => { x with left := v }

def onRight : Member Pair := .field "x" (.scalar .u8) (fun x : Pair => x.right) fun x v => { x with right := v }

end Pair

end Memberwise
