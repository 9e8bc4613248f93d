import Memberwise.Accessor.Cache
import Memberwise.Message.Config
import Memberwise.Message.Error

/-!
# The layout of a message

A message is the members of an instance back to back, in the order of the table. A member of implicit length is
the bytes of its codec; a prefixed one has its length in front, lowest byte first in either byte order.

* `measure` adds up the sizes, `encode` writes, `decode` reads and assigns.
* Sizes and positions are 64-bit words. A total of sizes, or a position to write at, that leaves 64 bits faults
  (`advance`).
* Reading a member of implicit length first makes sure of as many bytes as a default instance takes, then reads,
  and goes on by the size that the value read has. A position to read at never leaves 64 bits: it moves on only by
  what is still available.
-/

namespace Memberwise.Layout

variable {H : Type}

/-- A total or a position moved on by a number of bytes. -/
def advance (total n : UInt64) : Outcome UInt64 :=
  if total.toNat + n.toNat < UInt64.size then .ok (total + n) else Outcome.fault

/-- The size of a member of an instance. -/
def memberSize (s : AccessorSet H) (x : H) : Except MessageError UInt64 :=
  match s.sizeOf with
  | some measure => .ok (measure.call x)
  | none => .error (.missingAccessor s.member .sizeOf)

/-- Whether a length fits the prefix. -/
def checkPrefix (p : LengthPrefix) (s : AccessorSet H) (length : UInt64) : Except MessageError Unit :=
  if p.maxLength < length.toNat then .error (.lengthOverflow s.member length.toNat p.maxLength) else .ok ()

/-- The width of what stands in front of a member. -/
def headWidth (p : LengthPrefix) (s : AccessorSet H) : UInt64 :=
  match s.length with
  | .implicit => 0
  | .prefixed => UInt64.ofNat p.width

/-- The size of a member, if it fits the prefix in front of it. -/
def measureMember (p : LengthPrefix) (s : AccessorSet H) (x : H) : Except MessageError UInt64 := do
  let size ← memberSize s x
  match s.length with
  | .implicit => return size
  | .prefixed =>
    checkPrefix p s size
    return size

/-- The size of the message of an instance, counted on from `total`. -/
def measureFrom (p : LengthPrefix) (x : H) (total : UInt64) : List (AccessorSet H) → Outcome UInt64
  | [] => .ok total
  | s :: rest =>
    match measureMember p s x with
    | .error e => Outcome.fail e
    | .ok size => do
      let start ← advance total (headWidth p s)
      let total ← advance start size
      measureFrom p x total rest

/-- The size of the message of an instance. -/
def measure (p : LengthPrefix) (sets : List (AccessorSet H)) (x : H) : Outcome UInt64 := measureFrom p x 0 sets

/-- Writes what stands in front of a member of the given size. -/
def writeHead (p : LengthPrefix) (s : AccessorSet H) (size : UInt64) (buf : Bytes) (pos : UInt64) :
    Outcome Bytes :=
  match s.length with
  | .implicit => .ok buf
  | .prefixed =>
    match checkPrefix p s size with
    | .error e => Outcome.fail e
    | .ok () => Outcome.ofOption (buf.overwrite? pos.toNat (p.encode size.toNat))

/-- Writes a member of the given size; the result is the position after it. -/
def writeBody (s : AccessorSet H) (x : H) (size : UInt64) (buf : Bytes) (pos : UInt64) : Outcome UInt64 × Bytes :=
  match s.write with
  | none => (Outcome.fail (.missingAccessor s.member .write), buf)
  | some write =>
    match write.call.run x buf pos with
    | ⟨out, none⟩ => (Outcome.fault, out)
    | ⟨out, some written⟩ =>
      if written = size then (advance pos written, out)
      else (Outcome.fail (.sizeMismatch s.member size.toNat written.toNat), out)

/-- Writes a member with what stands in front of it; the result is the position after it. -/
def encodeMember (p : LengthPrefix) (s : AccessorSet H) (x : H) (buf : Bytes) (pos : UInt64) :
    Outcome UInt64 × Bytes :=
  match memberSize s x with
  | .error e => (Outcome.fail e, buf)
  | .ok size =>
    match writeHead p s size buf pos with
    | .error e => (.error e, buf)
    | .ok out =>
      match advance pos (headWidth p s) with
      | .error e => (.error e, out)
      | .ok start => writeBody s x size out start

/-- Writes the message of an instance; the result is the position after it. The buffer is returned as it was left,
also when the writing stopped. -/
def encode (p : LengthPrefix) (x : H) : List (AccessorSet H) → Bytes → UInt64 → Outcome UInt64 × Bytes
  | [], buf, pos => (.ok pos, buf)
  | s :: rest, buf, pos =>
    match encodeMember p s x buf pos with
    | (.error e, out) => (.error e, out)
    | (.ok pos, out) => encode p x rest out pos

/-- Number of bytes from a position to the end of a buffer, zero beyond the end. -/
def available (buf : Bytes) (pos : UInt64) : Nat := buf.length - pos.toNat

/-- Reads and assigns a member of implicit length; the result is the position after it. -/
def decodeImplicit (s : AccessorSet H) (least x : H) (buf : Bytes) (pos : UInt64) : Outcome UInt64 × H :=
  let avail := available buf pos
  match memberSize s least with
  | .error e => (Outcome.fail e, x)
  | .ok needed =>
    if avail < needed.toNat then (Outcome.fail (.truncated s.member needed.toNat avail), x)
    else
      match s.readScalar with
      | none => (Outcome.fail (.missingAccessor s.member .readScalar), x)
      | some read =>
        match read.call x buf pos with
        | none => (Outcome.fault, x)
        | some y =>
          match memberSize s y with
          | .error e => (Outcome.fail e, y)
          | .ok consumed =>
            if avail < consumed.toNat then (Outcome.fail (.truncated s.member consumed.toNat avail), y)
            else (.ok (pos + consumed), y)

/-- Reads and assigns a prefixed member; the result is the position after it. -/
def decodePrefixed (p : LengthPrefix) (s : AccessorSet H) (x : H) (buf : Bytes) (pos : UInt64) :
    Outcome UInt64 × H :=
  let avail := available buf pos
  match buf.slice? pos.toNat p.width with
  | none => (Outcome.fail (.truncated s.member p.width avail), x)
  | some head =>
    let length := Numeral.ofLittle head
    let rest := avail - p.width
    if rest < length then (Outcome.fail (.truncated s.member length rest), x)
    else
      match s.readBounded with
      | none => (Outcome.fail (.missingAccessor s.member .readBounded), x)
      | some read =>
        let start := pos + UInt64.ofNat p.width
        match read.call x buf start (UInt64.ofNat length) with
        | none => (Outcome.fault, x)
        | some y => (.ok (start + UInt64.ofNat length), y)

/-- Reads and assigns a member; the result is the position after it. -/
def decodeMember (p : LengthPrefix) (s : AccessorSet H) (least x : H) (buf : Bytes) (pos : UInt64) :
    Outcome UInt64 × H :=
  match s.length with
  | .implicit => decodeImplicit s least x buf pos
  | .prefixed => decodePrefixed p s x buf pos

/-- Reads a message into an instance; the result is the position after it. The instance is returned as it was
left, also when the reading stopped. -/
def decode (p : LengthPrefix) (least : H) : List (AccessorSet H) → H → Bytes → UInt64 → Outcome UInt64 × H
  | [], x, _, pos => (.ok pos, x)
  | s :: rest, x, buf, pos =>
    match decodeMember p s least x buf pos with
    | (.error e, y) => (.error e, y)
    | (.ok pos, y) => decode p least rest y buf pos

end Memberwise.Layout
