import Memberwise.Message.Serializer
import Memberwise.Text.Debug

/-!
# Debug text of the library's objects

What operations, members, accessor sets, tables, caches and serializers look like in debug text.
-/

namespace Memberwise

open Text

def ValueType.debug (t : ValueType) : String := TypeName.debug t.name

/-- The debug text of an operation: all but its function. -/
def Operation.debug (op : Operation) : String :=
  Debug.record "CodecOperation"
    [("value_type", op.type.debug), ("kind", op.kind.debug), ("name", Debug.quote op.name)]

def MemberKind.debug : MemberKind → String
  | .field => "Field"
  | .property => "Property"

def LengthMode.debug : LengthMode → String
  | .implicit => "Implicit"
  | .prefixed => "Prefixed"

def CodecSelection.debug (c : CodecSelection) : String :=
  Debug.record "CodecSelection"
    [("write", Debug.quote c.write), ("size_of", Debug.quote c.sizeOf),
     ("read_scalar", Debug.option (c.readScalar.map Debug.quote)),
     ("read_bounded", Debug.option (c.readBounded.map Debug.quote)), ("length", c.length.debug)]

/-- The debug text of a member: all but its functions. -/
def Member.debug {H : Type} (m : Member H) : String :=
  Debug.record "MemberDescriptor"
    [("name", Debug.quote m.name), ("value_type", m.type.debug), ("kind", m.kind.debug),
     ("readable", Debug.bool m.isReadable), ("writable", Debug.bool m.isWritable), ("codec", m.codec.debug)]

def Binding.debug (b : Binding) : String :=
  Debug.record "CodecBinding"
    [("value_type", b.type.debug), ("kind", b.kind.debug), ("name", Debug.quote b.name)]

/-- The debug text of an accessor set: all but its functions. -/
def AccessorSet.debug {H : Type} (s : AccessorSet H) : String :=
  Debug.record "CompiledAccessorSet"
    [("member", Debug.quote s.member), ("value_type", s.type.debug), ("length", s.length.debug),
     ("bindings", Debug.list (s.bindings.map Binding.debug))]

/-- The debug text of a table: the list of its accessor sets. -/
def Table.debug {H : Type} (t : Table H) : String := Debug.list (t.sets.map (·.value.debug))

/-- The debug text of what compiles over a registry. -/
def Registry.compilerDebug (r : Registry) : String :=
  Debug.record "AccessorCompiler" [("operations", toString r.size)]

/-- The debug text of a cache: how much it holds. -/
def Cache.debug {F : HostFamily} (c : Cache F) : String :=
  Debug.record "AccessorCache"
    [("members", toString c.size), ("tables", toString c.tables.length),
     ("compilations", toString c.compilations)]

def MessageConfig.debug (c : MessageConfig) : String :=
  Debug.record "EntityConfig"
    [("length_prefix", c.lengthPrefix.debug), ("max_message_size", toString c.maxSize.toNat)]

def Serializer.debug {F : HostFamily} (s : Serializer F) : String :=
  Debug.record "EntitySerializer" [("cache", s.cache.debug), ("config", s.config.debug)]

end Memberwise
