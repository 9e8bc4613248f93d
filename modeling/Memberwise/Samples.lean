import Memberwise.Slots

/-!
# Sample host types

Two host types to show messages with: a reading has members of fixed width only, a record also has prefixed ones
and a computed one.
-/

namespace Memberwise

/-- What a sensor reports. -/
structure Reading where
  sensor : BitVec 16 := 0
  celsius : BitVec 32 := 0
  pressure : BitVec 64 := 0
  healthy : Bool := false
  sequence : BitVec 64 := 0
  deriving DecidableEq, Repr

/-- A named record with a payload and the time of its creation. -/
structure Record where
  id : BitVec 64 := 0
  name : String := ""
  payload : Bytes := []
  created : Duration := Duration.zero
  flags : BitVec 8 := 0
  deriving DecidableEq, Repr

namespace Reading

def start : Reading := {}

/-- The reading to show: 21.5 degrees at 101325 pascal. -/
def sample : Reading where
  sensor := 0x0a0b
  celsius := 0x41ac0000
  pressure := 0x40f8bcd000000000
  healthy := true
  sequence := 0x1122334455667788

def sensorPlace : Place Reading (ValueType.scalar .u16).Carrier :=
  ⟨(·.sensor), fun x v => { x with sensor := v }⟩

def celsiusPlace : Place Reading (ValueType.scalar .f32).Carrier :=
  ⟨(·.celsius), fun x v => { x with celsius := v }⟩

def pressurePlace : Place Reading (ValueType.scalar .f64).Carrier :=
  ⟨(·.pressure), fun x v => { x with pressure := v }⟩

def healthyPlace : Place Reading ValueType.bool.Carrier := ⟨(·.healthy), fun x v => { x with healthy := v }⟩

def sequencePlace : Place Reading (ValueType.scalar .u64).Carrier :=
  ⟨(·.sequence), fun x v => { x with sequence := v }⟩

def slots : List (Slot Reading) :=
  [⟨"sensor", .scalar .u16, sensorPlace⟩, ⟨"celsius", .scalar .f32, celsiusPlace⟩,
   ⟨"pressure", .scalar .f64, pressurePlace⟩, ⟨"healthy", .bool, healthyPlace⟩,
   ⟨"sequence", .scalar .u64, sequencePlace⟩]

/-- The members of a reading: its fields. -/
def members : List (Member Reading) := slots.map fun s => s.place.member s.name .field

end Reading

namespace Record

def start : Record := {}

/-- The record to show. -/
def sample : Record where
  id := BitVec.ofInt 64 (-42)
  name := "wirebind"
  payload := [0xde, 0xad, 0xbe, 0xef]
  created := .ofParts 1700000000 0
  flags := 5

def idPlace : Place Record (ValueType.scalar .i64).Carrier := ⟨(·.id), fun x v => { x with id := v }⟩

def namePlace : Place Record ValueType.string.Carrier := ⟨(·.name), fun x v => { x with name := v }⟩

def payloadPlace : Place Record ValueType.bytes.Carrier := ⟨(·.payload), fun x v => { x with payload := v }⟩

def createdPlace : Place Record ValueType.duration.Carrier :=
  ⟨(·.created), fun x v => { x with created := v }⟩

def flagsPlace : Place Record (ValueType.scalar .u8).Carrier := ⟨(·.flags), fun x v => { x with flags := v }⟩

/-- The time of creation in milliseconds. -/
def createdMillis : Place Record (ValueType.scalar .u64).Carrier := createdPlace.millis

def slots : List (Slot Record) :=
  [⟨"id", .scalar .i64, idPlace⟩, ⟨"name", .string, namePlace⟩, ⟨"payload", .bytes, payloadPlace⟩,
   ⟨"created", .duration, createdPlace⟩, ⟨"flags", .scalar .u8, flagsPlace⟩]

/-- The members of a record. The time of creation is a computed member in milliseconds. -/
def members : List (Member Record) :=
  [idPlace.member "id" .field, (namePlace.member "name" .field).prefixed,
   (payloadPlace.member "payload" .field).prefixed, createdMillis.member "created_ms" .property,
   flagsPlace.member "flags" .field]

end Record

inductive Sample
  | reading
  | record
  deriving DecidableEq, Repr

namespace Sample

/-- The name of a sample on the command line. -/
def text : Sample → String
  | .reading => "reading"
  | .record => "record"

def about : Sample → String
  | .reading => "Fixed-width scalar members only"
  | .record => "Prefixed string and bytes members plus a computed property"

def Instance : Sample → Type
  | .reading => Reading
  | .record => Record

/-- The instance to decode into. -/
def start : (s : Sample) → s.Instance
  | .reading => Reading.start
  | .record => Record.start

/-- The instance to show. -/
def value : (s : Sample) → s.Instance
  | .reading => Reading.sample
  | .record => Record.sample

def members : (s : Sample) → List (Member s.Instance)
  | .reading => Reading.members
  | .record => Record.members

def slots : (s : Sample) → List (Slot s.Instance)
  | .reading => Reading.slots
  | .record => Record.slots

instance : (s : Sample) → DecidableEq s.Instance
  | .reading => inferInstanceAs (DecidableEq Reading)
  | .record => inferInstanceAs (DecidableEq Record)

/-- Whether an instance is the one to show. -/
def isValue (s : Sample) (x : s.Instance) : Bool := decide (x = s.value)

end Sample

/-- The sample host types as a family. Their full names go by the module that declares them. -/
def Sample.family (path : String) : HostFamily where
  Host := Sample
  decEq := inferInstance
  name
    | .reading => path ++ "::Reading"
    | .record => path ++ "::Record"
  Instance := Sample.Instance
  default := Sample.start

end Memberwise
