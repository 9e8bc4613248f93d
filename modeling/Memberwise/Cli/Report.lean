import Memberwise.Cli.Arguments
import Memberwise.Cli.Exit
import Memberwise.Text.Grid
import Memberwise.Text.Hex
import Memberwise.Text.Json

/-!
# Reports

What the commands find out, and its three printed forms: JSON on one line, a table, and lines to read.
-/

namespace Memberwise.Cli

open Text

/-- The operations of a registry. -/
structure CodecsReport where
  config : RegistryConfig
  operations : List Listed

namespace CodecsReport

/-- Lists the built-in operations. -/
def of (config : RegistryConfig) : CodecsReport := ⟨config, (Registry.builtin config).listing⟩

def json (r : CodecsReport) : String :=
  Json.object
    [("byte_order", Json.string r.config.byteOrder.text), ("varint", Json.bool r.config.varint),
     ("count", Json.number r.operations.length),
     ("operations", Json.array (r.operations.map fun op => Json.object
       [("value_type", Json.string op.type.shortName), ("kind", Json.string op.kind.text),
        ("name", Json.string op.name), ("signature", Json.string op.kind.signature)]))]

def table (r : CodecsReport) : List String :=
  Grid.lines ["TYPE", "KIND", "NAME", "SIGNATURE"]
    (r.operations.map fun op => [op.type.shortName, op.kind.text, op.name, op.kind.signature])

def pretty (r : CodecsReport) : List String :=
  ("byte_order=" ++ r.config.byteOrder.text ++ " varint=" ++ Json.bool r.config.varint ++
    " operations=" ++ toString r.operations.length) ::
    r.operations.map fun op =>
      "  " ++ Grid.padRight 10 op.type.shortName ++ " " ++ Grid.padRight 13 op.kind.text ++ " " ++ op.name

def print (r : CodecsReport) : Format → List String
  | .json => [r.json]
  | .table => r.table
  | .pretty => r.pretty

end CodecsReport

/-- A member of a sample and what it is bound to. -/
structure MemberLine where
  name : String
  type : String
  kind : String
  access : String
  length : String
  size : Option Nat
  operations : List String

namespace MemberLine

def accessText : Bool → Bool → String
  | true, true => "rw"
  | true, false => "r"
  | false, true => "w"
  | false, false => "-"

/-- The line of a member of an instance. -/
def of {H : Type} (x : H) (m : Member H) (s : AccessorSet H) : MemberLine where
  name := s.member
  type := s.type.shortName
  kind := m.kind.text
  access := accessText s.isReadable s.isWritable
  length := s.length.text
  size := s.sizeOf.map fun measure => (measure.call x).toNat
  operations := s.bindings.map (·.text)

def json (l : MemberLine) : String :=
  Json.object
    [("name", Json.string l.name), ("value_type", Json.string l.type), ("kind", Json.string l.kind),
     ("access", Json.string l.access), ("length", Json.string l.length), ("size", l.size.elim "null" Json.number),
     ("operations", Json.array (l.operations.map Json.string))]

def cells (l : MemberLine) : List String :=
  [l.name, l.type, l.kind, l.access, l.length, l.size.elim "-" toString, ", ".intercalate l.operations]

def pretty (l : MemberLine) : String :=
  "  " ++ l.name ++ " : " ++ l.type ++ " [" ++ l.kind ++ " " ++ l.access ++ " " ++ l.length ++ "] " ++
    " ".intercalate l.operations

end MemberLine

/-- The members of a sample and the size of its message. -/
structure InspectReport where
  sample : Sample
  encodedSize : Nat
  members : List MemberLine

/-- The host types of the program. -/
def hosts : HostFamily := Sample.family "wirebind::samples"

namespace InspectReport

/-- Compiles a sample host type and measures its instance. -/
def of (s : Sample) (config : RegistryConfig) : Except Failure InspectReport := do
  let refuse := Failure.ofMessageError ("compile " ++ s.text)
  let start : Serializer hosts := Serializer.ofRegistry (Registry.builtin config)
  let (registered, serializer) := start.register s s.members
  registered.mapError refuse
  let (measured, serializer) := serializer.sizeOf s s.members s.value
  let size ← measured.mapError (Failure.ofStop ("compile " ++ s.text))
  let (found, _) := serializer.cache.table s s.members
  let table ← found.mapError fun e => refuse (.compile e)
  return ⟨s, size.toNat, List.zipWith (MemberLine.of s.value) s.members (table.value.sets.map (·.value))⟩

def json (r : InspectReport) : String :=
  Json.object
    [("sample", Json.string r.sample.text), ("encoded_size", Json.number r.encodedSize),
     ("members", Json.array (r.members.map (·.json)))]

def table (r : InspectReport) : List String :=
  Grid.lines ["MEMBER", "TYPE", "KIND", "ACCESS", "LENGTH", "SIZE", "OPERATIONS"] (r.members.map (·.cells))

def pretty (r : InspectReport) : List String :=
  (r.sample.text ++ " (" ++ toString r.encodedSize ++ " bytes encoded)") :: r.members.map (·.pretty)

def print (r : InspectReport) : Format → List String
  | .json => [r.json]
  | .table => r.table
  | .pretty => r.pretty

end InspectReport

/-- The message of a sample, and whether reading it gives the sample back. -/
structure RoundtripReport where
  sample : Sample
  message : Bytes
  consumed : Nat
  verified : Bool

namespace RoundtripReport

/-- Writes the sample instance and reads it again. -/
def of (s : Sample) (config : RegistryConfig) (lengthPrefix : LengthPrefix) : Except Failure RoundtripReport := do
  let start : Serializer hosts := Serializer.ofRegistry (Registry.builtin config) { lengthPrefix }
  let (written, serializer) := start.serialize s s.members s.value
  let message ← written.mapError (Failure.ofStop ("encode " ++ s.text))
  let ((read, x), _) := serializer.deserializeInto s s.members s.start message 0
  let consumed ← read.mapError (Failure.ofStop ("decode " ++ s.text))
  return ⟨s, message, consumed.toNat, consumed.toNat == message.length && s.isValue x⟩

def json (r : RoundtripReport) : String :=
  Json.object
    [("sample", Json.string r.sample.text), ("size", Json.number r.message.length),
     ("consumed", Json.number r.consumed), ("hex", Json.string (Hex.ofBytes r.message)),
     ("verified", Json.bool r.verified)]

def table (r : RoundtripReport) : List String :=
  Grid.lines ["SAMPLE", "SIZE", "CONSUMED", "VERIFIED", "HEX"]
    [[r.sample.text, toString r.message.length, toString r.consumed, Json.bool r.verified, Hex.ofBytes r.message]]

def pretty (r : RoundtripReport) : List String :=
  [r.sample.text ++ " size=" ++ toString r.message.length ++ " consumed=" ++ toString r.consumed ++
     " verified=" ++ Json.bool r.verified, Hex.ofBytes r.message]

def print (r : RoundtripReport) : Format → List String
  | .json => [r.json]
  | .table => r.table
  | .pretty => r.pretty

end RoundtripReport

end Memberwise.Cli
