import Memberwise.Message.Layout

/-!
# The serializer

A serializer writes and reads messages of the host types of a family through the tables of its cache. A host type
is registered on first use, or ahead of it: each of its members must be readable and assignable, which is checked
for all of them before any is compiled.

Every operation returns the serializer after it, since a table that was built stays even if the operation then
fails.
-/

namespace Memberwise

/-- A cache of accessors with the settings of the messages. -/
structure Serializer (F : HostFamily) where
  cache : Cache F
  config : MessageConfig := {}

namespace Serializer

variable {F : HostFamily}

/-- A serializer that has not compiled anything. -/
def ofRegistry (r : Registry) (config : MessageConfig := {}) : Serializer F :=
  { cache := { registry := r }, config }

/-- The table of a host type, built if it is not published yet and all members can be read and assigned. -/
def table (s : Serializer F) (h : F.Host) (members : List (Member (F.Instance h))) :
    Except CompileError (Shared (Table (F.Instance h))) × Serializer F :=
  match if s.cache.hasTable h then .ok () else members.forM (·.require (F.name h) .readWrite) with
  | .error e => (.error (.binding e), s)
  | .ok () =>
    let (t, cache) := s.cache.table h members
    (t, { s with cache })

/-- Runs an operation on the accessor sets of a host type, or reports why there is no table. -/
def withTable {α : Type} (s : Serializer F) (h : F.Host) (members : List (Member (F.Instance h)))
    (refuse : MessageError → α) (run : List (AccessorSet (F.Instance h)) → α) : α × Serializer F :=
  match s.table h members with
  | (.error e, s) => (refuse (.compile e), s)
  | (.ok t, s) => (run (t.value.sets.map (·.value)), s)

/-- Builds the table of a host type ahead of use. -/
def register (s : Serializer F) (h : F.Host) (members : List (Member (F.Instance h))) :
    Except MessageError Unit × Serializer F :=
  s.withTable h members .error fun _ => .ok ()

/-- Whether the table of a host type is published. -/
def isRegistered (s : Serializer F) (h : F.Host) : Bool := s.cache.hasTable h

/-- The size of the message of an instance. -/
def sizeOf (s : Serializer F) (h : F.Host) (members : List (Member (F.Instance h))) (x : F.Instance h) :
    Outcome UInt64 × Serializer F :=
  s.withTable h members Outcome.fail fun sets => Layout.measure s.config.lengthPrefix sets x

/-- The size of the message of an instance, if the settings allow for it. -/
def measureChecked {H : Type} (config : MessageConfig) (sets : List (AccessorSet H)) (x : H) : Outcome UInt64 := do
  let total ← Layout.measure config.lengthPrefix sets x
  if config.maxSize < total then Outcome.fail (.messageTooLarge total.toNat config.maxSize.toNat)
  else return total

/-- The message of an instance in a buffer of its own. A buffer of `2 ^ 63` bytes or more cannot be had. -/
def serializeWith {H : Type} (config : MessageConfig) (x : H) (sets : List (AccessorSet H)) : Outcome Bytes :=
  match measureChecked config sets x with
  | .error e => .error e
  | .ok total =>
    if 0x8000000000000000 ≤ total.toNat then Outcome.fault
    else
      match Layout.encode config.lengthPrefix x sets (List.replicate total.toNat 0) 0 with
      | (.error e, _) => .error e
      | (.ok _, out) => .ok out

/-- The message of an instance. -/
def serialize (s : Serializer F) (h : F.Host) (members : List (Member (F.Instance h))) (x : F.Instance h) :
    Outcome Bytes × Serializer F :=
  s.withTable h members Outcome.fail (serializeWith s.config x)

/-- Writes the message of an instance into a buffer at an offset; the result is the number of bytes written. -/
def serializeIntoWith {H : Type} (config : MessageConfig) (x : H) (buf : Bytes) (offset : UInt64)
    (sets : List (AccessorSet H)) : Outcome UInt64 × Bytes :=
  match measureChecked config sets x with
  | .error e => (.error e, buf)
  | .ok total =>
    let avail := Layout.available buf offset
    if avail < total.toNat then (Outcome.fail (.bufferTooSmall total.toNat avail), buf)
    else
      match Layout.encode config.lengthPrefix x sets buf offset with
      | (.error e, out) => (.error e, out)
      | (.ok pos, out) => (.ok (pos - offset), out)

/-- Writes the message of an instance into a buffer at an offset; the result is the number of bytes written. The
buffer is returned as it was left. -/
def serializeInto (s : Serializer F) (h : F.Host) (members : List (Member (F.Instance h))) (x : F.Instance h)
    (buf : Bytes) (offset : UInt64) : (Outcome UInt64 × Bytes) × Serializer F :=
  s.withTable h members (fun e => (Outcome.fail e, buf)) (serializeIntoWith s.config x buf offset)

/-- Reads a message at an offset into an instance; the result is the number of bytes read. -/
def deserializeIntoWith {H : Type} (config : MessageConfig) (least x : H) (buf : Bytes) (offset : UInt64)
    (sets : List (AccessorSet H)) : Outcome UInt64 × H :=
  match Layout.decode config.lengthPrefix least sets x buf offset with
  | (.error e, y) => (.error e, y)
  | (.ok pos, y) => (.ok (pos - offset), y)

/-- Reads a message at an offset into an instance; the result is the number of bytes read. The instance is
returned as it was left: members read before a failure stay assigned. -/
def deserializeInto (s : Serializer F) (h : F.Host) (members : List (Member (F.Instance h))) (x : F.Instance h)
    (buf : Bytes) (offset : UInt64) : (Outcome UInt64 × F.Instance h) × Serializer F :=
  s.withTable h members (fun e => (Outcome.fail e, x))
    (deserializeIntoWith s.config (F.default h) x buf offset)

/-- Reads a new instance from the start of a buffer. -/
def deserialize (s : Serializer F) (h : F.Host) (members : List (Member (F.Instance h))) (buf : Bytes) :
    Outcome (F.Instance h) × Serializer F :=
  match s.deserializeInto h members (F.default h) buf 0 with
  | ((.error e, _), s) => (.error e, s)
  | ((.ok _, x), s) => (.ok x, s)

end Serializer

end Memberwise
