import Memberwise.Samples

/-!
# A workbench

A serializer with things to work on: named buffers, named instances of each host type, and the members that each
host type declares at the moment. A buffer that was never filled is empty; an instance that was never touched is
the one that its host type starts with.

The host types are slot records, known by their numbers, and the samples.
-/

namespace Memberwise

inductive HostId
  | numbered (i : Nat)
  | sample (s : Sample)
  deriving DecidableEq, Repr

namespace HostId

/-- The instances of a host type, given the slots of the numbered ones. -/
def Instance (decls : Nat → List SlotDecl) : HostId → Type
  | .numbered i => SlotRecord (decls i)
  | .sample s => s.Instance

/-- The instance that a host type starts with. -/
def start (decls : Nat → List SlotDecl) : (h : HostId) → h.Instance decls
  | .numbered i => SlotRecord.start (decls i)
  | .sample s => s.start

def slots (decls : Nat → List SlotDecl) : (h : HostId) → List (Slot (h.Instance decls))
  | .numbered i => SlotRecord.slots (decls i)
  | .sample s => s.slots

/-- The host types of a workbench as a family; `path` names the module that their full names go by. -/
abbrev family (path : String) (decls : Nat → List SlotDecl) : HostFamily where
  Host := HostId
  decEq := inferInstance
  name
    | .numbered i => path ++ "::session::Host<" ++ toString i ++ ">"
    | .sample s => (Sample.family (path ++ "::samples")).name s
  Instance := Instance decls
  default := start decls

end HostId

/-- A serializer and things to work on. -/
structure Workbench (F : HostFamily) where
  serializer : Serializer F
  members : (h : F.Host) → List (Member (F.Instance h))
  buffers : List (String × Bytes) := []
  instances : (h : F.Host) → List (String × F.Instance h) := fun _ => []
  seen : List Nat := []

namespace Workbench

variable {F : HostFamily}

def buffer (w : Workbench F) (name : String) : Bytes := (w.buffers.lookup name).getD []

def setBuffer (w : Workbench F) (name : String) (bs : Bytes) : Workbench F :=
  { w with buffers := (name, bs) :: w.buffers.filter (·.1 ≠ name) }

def inst (w : Workbench F) (h : F.Host) (name : String) : F.Instance h :=
  ((w.instances h).lookup name).getD (F.default h)

def setInst (w : Workbench F) (h : F.Host) (name : String) (x : F.Instance h) : Workbench F :=
  let named := (name, x) :: (w.instances h).filter (·.1 ≠ name)
  { w with instances := fun h' => if e : h = h' then e ▸ named else w.instances h' }

def setMembers (w : Workbench F) (h : F.Host) (ms : List (Member (F.Instance h))) : Workbench F :=
  { w with members := fun h' => if e : h = h' then e ▸ ms else w.members h' }

/-- Numbers the published objects that are shown, in the order in which they first are. -/
def number (w : Workbench F) (id : Nat) : Nat × Workbench F :=
  match w.seen.idxOf? id with
  | some i => (i, w)
  | none => (w.seen.length, { w with seen := w.seen ++ [id] })

/-- The registry that everything is compiled over. -/
def registry (w : Workbench F) : Registry := w.serializer.cache.registry

def withCache (w : Workbench F) (cache : Cache F) : Workbench F :=
  { w with serializer := { w.serializer with cache } }

/-- The cached accessor set of a member, compiled if need be. -/
def getOrCompile (w : Workbench F) (h : F.Host) (m : Member (F.Instance h)) :
    Except CompileError (Shared (AccessorSet (F.Instance h))) × Workbench F :=
  let (s, cache) := w.serializer.cache.getOrCompile h m
  (s, w.withCache cache)

/-- The table of a host type, built if need be. Members need not be readable and assignable for this. -/
def table (w : Workbench F) (h : F.Host) :
    Except CompileError (Shared (Table (F.Instance h))) × Workbench F :=
  let (t, cache) := w.serializer.cache.table h (w.members h)
  (t, w.withCache cache)

/-- Registers a host type. -/
def register (w : Workbench F) (h : F.Host) : Except MessageError Unit × Workbench F :=
  let (result, serializer) := w.serializer.register h (w.members h)
  (result, { w with serializer })

/-- Registers a host type several times over. -/
def registerTimes (w : Workbench F) (h : F.Host) : Nat → List (Except MessageError Unit) × Workbench F
  | 0 => ([], w)
  | n + 1 =>
    let (first, w) := w.register h
    let (rest, w) := w.registerTimes h n
    (first :: rest, w)

/-- The size of the message of an instance. -/
def sizeOf (w : Workbench F) (h : F.Host) (inst : String) : Outcome UInt64 × Workbench F :=
  let (result, serializer) := w.serializer.sizeOf h (w.members h) (w.inst h inst)
  (result, { w with serializer })

/-- Puts the message of an instance into a buffer, unless there is none. The result is its length. -/
def serialize (w : Workbench F) (h : F.Host) (inst buf : String) : Outcome Nat × Workbench F :=
  let (result, serializer) := w.serializer.serialize h (w.members h) (w.inst h inst)
  let w := { w with serializer }
  match result with
  | .error e => (.error e, w)
  | .ok message => (.ok message.length, w.setBuffer buf message)

/-- Writes the message of an instance into a buffer at an offset. -/
def serializeInto (w : Workbench F) (h : F.Host) (inst buf : String) (offset : UInt64) :
    Outcome UInt64 × Workbench F :=
  let ((result, out), serializer) :=
    w.serializer.serializeInto h (w.members h) (w.inst h inst) (w.buffer buf) offset
  (result, { w with serializer }.setBuffer buf out)

/-- Reads a new instance from the start of a buffer and keeps it, unless there is none. -/
def deserialize (w : Workbench F) (h : F.Host) (inst buf : String) : Outcome Unit × Workbench F :=
  let (result, serializer) := w.serializer.deserialize h (w.members h) (w.buffer buf)
  let w := { w with serializer }
  match result with
  | .error e => (.error e, w)
  | .ok x => (.ok (), w.setInst h inst x)

/-- Reads a message from a buffer at an offset into an instance. -/
def deserializeInto (w : Workbench F) (h : F.Host) (inst buf : String) (offset : UInt64) :
    Outcome UInt64 × Workbench F :=
  let ((result, x), serializer) :=
    w.serializer.deserializeInto h (w.members h) (w.inst h inst) (w.buffer buf) offset
  (result, { w with serializer }.setInst h inst x)

/-- What a call of a single accessor gives: a number of bytes, nothing but its effect, or that there is no such
accessor. -/
inductive Called
  | count (n : UInt64)
  | assigned
  | missing
  | fault
  deriving DecidableEq, Repr

/-- Keeps the instance that an accessor has assigned to. -/
def keep (w : Workbench F) (h : F.Host) (inst : String) : Option (F.Instance h) → Called × Workbench F
  | none => (.fault, w)
  | some x => (.assigned, w.setInst h inst x)

/-- Calls one accessor of a set on an instance and a buffer. -/
def call (w : Workbench F) (h : F.Host) (s : AccessorSet (F.Instance h)) (k : OperationKind) (inst buf : String)
    (offset length : UInt64) : Called × Workbench F :=
  let x := w.inst h inst
  let bs := w.buffer buf
  match k with
  | .write =>
    match s.write with
    | none => (.missing, w)
    | some write =>
      let ⟨out, count⟩ := write.call.run x bs offset
      (count.elim .fault .count, w.setBuffer buf out)
  | .sizeOf => (s.sizeOf.elim .missing fun measure => .count (measure.call x), w)
  | .readScalar => s.readScalar.elim (.missing, w) fun read => w.keep h inst (read.call x bs offset)
  | .readBounded => s.readBounded.elim (.missing, w) fun read => w.keep h inst (read.call x bs offset length)

end Workbench

end Memberwise
