import Memberwise.Accessor.Compile

/-!
# The accessor cache

A cache keeps every accessor set that it has compiled and the tables of whole host types. A set is found by the
host type and the key of the member: its name, value type, capabilities and codec selection.

* What is published stays: a set is compiled once for its key, and a table built once for its host type.
* A table takes the sets that are cached already and compiles the others; they are published together with it, or
  not at all.
* A failed compilation leaves the cache as it was.

A host family gives the host types that a cache serves. Published objects are numbered in the order of
publication, and the number is the identity of the object.
-/

namespace Memberwise

/-- A family of host types: their names, their instances, and for each the instance to decode into. -/
structure HostFamily where
  Host : Type
  decEq : DecidableEq Host
  name : Host → String
  Instance : Host → Type
  default : (h : Host) → Instance h

instance (F : HostFamily) : DecidableEq F.Host := F.decEq

/-- A published object and its identity. -/
structure Shared (α : Type) where
  id : Nat
  value : α

/-- What an accessor set is cached under, besides its host type. -/
structure Key where
  member : String
  type : ValueType
  readable : Bool
  writable : Bool
  codec : CodecSelection
  deriving DecidableEq, Repr

def Member.key {H : Type} (m : Member H) : Key := ⟨m.name, m.type, m.isReadable, m.isWritable, m.codec⟩

/-- The accessor sets of all members of a host type, in the order of the members. -/
structure Table (H : Type) where
  sets : List (Shared (AccessorSet H))

namespace Table

variable {H : Type}

def size (t : Table H) : Nat := t.sets.length

def members (t : Table H) : List String := t.sets.map (·.value.member)

def get? (t : Table H) (i : Nat) : Option (Shared (AccessorSet H)) := t.sets[i]?

def byName? (t : Table H) (name : String) : Option (Shared (AccessorSet H)) :=
  t.sets.find? (·.value.member = name)

/-- Whether every member can be used as asked; the first that cannot is the error. -/
def require (t : Table H) (host : String) (access : Access) : Except BindingError Unit :=
  t.sets.forM (·.value.require host access)

end Table

/-- A cached accessor set with what it is found by. -/
structure Entry (F : HostFamily) where
  host : F.Host
  key : Key
  set : Shared (AccessorSet (F.Instance host))

/-- The set of an entry, if the entry is for the given host type and key. -/
def Entry.as? {F : HostFamily} (e : Entry F) (h : F.Host) (key : Key) :
    Option (Shared (AccessorSet (F.Instance h))) :=
  if eq : e.host = h ∧ e.key = key then some (eq.1 ▸ e.set) else none

structure PublishedTable (F : HostFamily) where
  host : F.Host
  table : Shared (Table (F.Instance host))

/-- The table published, if it is for the given host type. -/
def PublishedTable.as? {F : HostFamily} (p : PublishedTable F) (h : F.Host) :
    Option (Shared (Table (F.Instance h))) :=
  if eq : p.host = h then some (eq ▸ p.table) else none

/-- The accessor sets of a table about to be published, and those among them that are new. -/
structure Built (F : HostFamily) (h : F.Host) where
  sets : List (Shared (AccessorSet (F.Instance h)))
  fresh : List (Entry F)

/-- What has been published, and how many compilations were. -/
structure Cache (F : HostFamily) where
  registry : Registry
  entries : List (Entry F) := []
  tables : List (PublishedTable F) := []
  compilations : Nat := 0
  nextId : Nat := 0

namespace Cache

variable {F : HostFamily}

def size (c : Cache F) : Nat := c.entries.length

def find? (c : Cache F) (h : F.Host) (key : Key) : Option (Shared (AccessorSet (F.Instance h))) :=
  c.entries.findSome? (·.as? h key)

def get? (c : Cache F) (h : F.Host) (m : Member (F.Instance h)) : Option (Shared (AccessorSet (F.Instance h))) :=
  c.find? h m.key

/-- Whether a set is cached under the key of a member. -/
def contains (c : Cache F) (h : F.Host) (m : Member (F.Instance h)) : Bool :=
  c.entries.any fun e => e.host = h ∧ e.key = m.key

def table? (c : Cache F) (h : F.Host) : Option (Shared (Table (F.Instance h))) :=
  c.tables.findSome? (·.as? h)

def hasTable (c : Cache F) (h : F.Host) : Bool := c.tables.any (·.host = h)

/-- Publishes accessor sets, which take the next identities in order. -/
def insertSets (c : Cache F) (fresh : List (Entry F)) : Cache F :=
  { c with entries := c.entries ++ fresh, nextId := c.nextId + fresh.length }

/-- Publishes a table, which takes the next identity. -/
def insertTable (c : Cache F) (h : F.Host) (t : Table (F.Instance h)) : Cache F :=
  { c with tables := c.tables ++ [⟨h, ⟨c.nextId, t⟩⟩], nextId := c.nextId + 1 }

def count (c : Cache F) (n : Nat) : Cache F := { c with compilations := c.compilations + n }

/-- The cached set of a member, compiled and published if it is not there yet. -/
def getOrCompile (c : Cache F) (h : F.Host) (m : Member (F.Instance h)) :
    Except CompileError (Shared (AccessorSet (F.Instance h))) × Cache F :=
  match c.find? h m.key with
  | some s => (.ok s, c)
  | none =>
    match m.compile c.registry (F.name h) with
    | .error e => (.error e, c)
    | .ok set =>
      let s := ⟨c.nextId, set⟩
      (.ok s, (c.insertSets [⟨h, m.key, s⟩]).count 1)

/-- The accessor sets of a list of members, without publishing anything: cached ones as they are, the others
compiled, with identities from `next` on. A name in `seen` must not come again. -/
def build (c : Cache F) (h : F.Host) (seen : List String) (next : Nat) :
    List (Member (F.Instance h)) → Except CompileError (Built F h)
  | [] => .ok ⟨[], []⟩
  | m :: rest =>
    if m.name ∈ seen then .error (.binding (.duplicateMember (F.name h) m.name))
    else
      match c.find? h m.key with
      | some s => do
        let b ← c.build h (m.name :: seen) next rest
        return ⟨s :: b.sets, b.fresh⟩
      | none => do
        let set ← m.compile c.registry (F.name h)
        let b ← c.build h (m.name :: seen) (next + 1) rest
        return ⟨⟨next, set⟩ :: b.sets, ⟨h, m.key, ⟨next, set⟩⟩ :: b.fresh⟩

/-- Publishes new accessor sets and a table over them. -/
def publish (c : Cache F) (h : F.Host) (b : Built F h) : Cache F :=
  ((c.insertSets b.fresh).insertTable h ⟨b.sets⟩).count b.fresh.length

/-- The table of a host type, built from the given members and published if it is not there yet. -/
def table (c : Cache F) (h : F.Host) (members : List (Member (F.Instance h))) :
    Except CompileError (Shared (Table (F.Instance h))) × Cache F :=
  match c.table? h with
  | some t => (.ok t, c)
  | none =>
    match c.build h [] c.nextId members with
    | .error e => (.error e, c)
    | .ok b => (.ok ⟨c.nextId + b.fresh.length, ⟨b.sets⟩⟩, c.publish h b)

end Cache

end Memberwise
