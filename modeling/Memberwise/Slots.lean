import Memberwise.Message.Serializer
import Memberwise.Value.Raw

/-!
# Host types made of slots

A slot is a named, typed place in a host. A slot record is a host type given by data: one slot for each
declaration, which also says what the slot starts with. Members over slots are the usual ones, stored or computed,
and differ in what an assignment does with the value.
-/

namespace Memberwise

/-- A place in a host: how to read it and how to replace it. -/
structure Place (H α : Type) where
  get : H → α
  set : H → α → H

/-- A named place for values of a type. -/
structure Slot (H : Type) where
  name : String
  type : ValueType
  place : Place H type.Carrier

/-- The place of a slot, if it is for values of the given type. -/
def Slot.as? {H : Type} (s : Slot H) (t : ValueType) : Option (Place H t.Carrier) :=
  if h : s.type = t then some (h ▸ s.place) else none

/-- A slot to be had, and the value that it starts with. -/
structure SlotDecl where
  name : String
  type : ValueType
  start : type.Carrier

/-- One value for each declared slot. -/
def SlotRecord : List SlotDecl → Type
  | [] => Unit
  | d :: ds => d.type.Carrier × SlotRecord ds

namespace SlotRecord

def start : (decls : List SlotDecl) → SlotRecord decls
  | [] => ()
  | d :: ds => (d.start, start ds)

/-- The slots of a record, in the order of their declarations. -/
def slots : (decls : List SlotDecl) → List (Slot (SlotRecord decls))
  | [] => []
  | d :: ds =>
    ⟨d.name, d.type, ⟨Prod.fst, fun x v => (v, x.2)⟩⟩ ::
      (slots ds).map fun s =>
        ⟨s.name, s.type, ⟨fun x => s.place.get x.2, fun x v => (x.1, s.place.set x.2 v)⟩⟩

end SlotRecord

/-- What an assignment does with the value: store it, add it to what is stored, or, unless the value is zero, put
the whole host back to where it started. -/
inductive StoreMode
  | assign
  | add
  | reset
  deriving DecidableEq, Repr

/-- What the sum of two values is: integers wrap, truth values combine by "or", sequences are joined, and of other
values the second counts. -/
def ValueType.combine : (t : ValueType) → t.Carrier → t.Carrier → t.Carrier
  | .bool, a, b => Bool.or a b
  | .scalar .f32, _, b | .scalar .f64, _, b => b
  | .scalar _, a, b => BitVec.add a b
  | .bytes, a, b => List.append a b
  | .string, a, b => String.append a b
  | .char, _, b | .ipv4, _, b | .duration, _, b => b

namespace Place

variable {H : Type}

/-- The same place, assigned to in another way. -/
def storing {t : ValueType} (p : Place H t.Carrier) (start : H) : StoreMode → Place H t.Carrier
  | .assign => p
  | .add => { p with set := fun x v => p.set x (t.combine (p.get x) v) }
  | .reset => { p with set := fun x v => if t.isNonzero v then start else x }

/-- A span of time as whole milliseconds, modulo `2 ^ 64`. -/
def millis (p : Place H Duration) : Place H (BitVec 64) where
  get x := BitVec.ofNat 64 (p.get x).toMillis
  set x v := p.set x (Duration.ofMillis v)

/-- A number of 32 bits as one of 64 bits; what does not fit is dropped on assignment. -/
def widened (p : Place H (BitVec 32)) : Place H (BitVec 64) where
  get x := (p.get x).setWidth 64
  set x v := p.set x (v.setWidth 32)

/-- The number of bytes of a text; assigning it does nothing. -/
def byteLength (p : Place H String) : Place H (BitVec 64) where
  get x := BitVec.ofNat 64 (p.get x).utf8ByteSize
  set x _ := x

end Place

inductive MemberSort
  | field
  | readOnlyField
  | property
  | readOnlyProperty
  | writeOnly
  deriving DecidableEq, Repr

/-- The member of a sort over a place. -/
def Place.member {H : Type} {t : ValueType} (p : Place H t.Carrier) (name : String) : MemberSort → Member H
  | .field => Member.field name t p.get p.set
  | .readOnlyField => Member.readOnlyField name t p.get
  | .property => Member.property name t p.get p.set
  | .readOnlyProperty => Member.readOnlyProperty name t p.get
  | .writeOnly => Member.writeOnly name t p.set

end Memberwise
