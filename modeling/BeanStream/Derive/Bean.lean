import BeanStream.Bean.Descriptor
import BeanStream.Derive.Item

/-!
# Derived beans

The properties of a bean, read off its declaration. A field that is not skipped becomes a
property named by its **rename** option, else by its **name**, else by its **number among all
fields**, the skipped ones included; so skipping a field renumbers nothing. Properties keep the
order of the fields, and their names have to be there and differ (`Property.ofFieldsFrom`).
-/

namespace BeanStream.Derive

open Source

/-- A property of a derived bean. -/
structure Property where
  name : String
  /-- The number of its field among all fields. -/
  slot : Nat
  /-- How an instance names the field. -/
  member : String
  type : List Token

namespace FieldDeclaration

/-- How an instance names the field with number `slot`. -/
def member (f : FieldDeclaration) (slot : Nat) : String := f.name.getD (toString slot)

/-- The name of the property that the field with number `slot` makes. -/
def propertyName (f : FieldDeclaration) (slot : Nat) (settings : FieldSettings) : String :=
  settings.rename.getD ((f.name.map plainName).getD (toString slot))

end FieldDeclaration

/-- The properties of the fields from number `slot` on; `earlier` are the names taken. -/
def Property.ofFieldsFrom (slot : Nat) (earlier : List String) :
    List FieldDeclaration → Except Rejection (List Property)
  | [] => .ok []
  | f :: fs => do
    let settings ← FieldSettings.ofAttributes f.attributes
    if settings.skip then ofFieldsFrom (slot + 1) earlier fs
    else
      let name := f.propertyName slot settings
      if name = "" then throw .emptyName
      else if name ∈ earlier then throw (.duplicateName name)
      else
        let rest ← ofFieldsFrom (slot + 1) (name :: earlier) fs
        return { name, slot, member := f.member slot, type := f.type } :: rest

/-- The properties of the fields of a struct. -/
def Property.ofFields (fs : List FieldDeclaration) : Except Rejection (List Property) :=
  ofFieldsFrom 0 [] fs

/-- A declaration that describes a bean. -/
structure Bean where
  name : String
  generics : Generics
  settings : TypeSettings
  properties : List Property

/-- The bean that a declaration describes. Its options are looked at first, then its kind, then
whether a type path would be shared by a family of types, and its fields last. -/
def Bean.ofItem (item : Item) : Except Rejection Bean := do
  let settings ← TypeSettings.ofAttributes item.attributes
  let .struct fields := item.body | throw .notStruct
  if settings.typePath.isSome && item.generics.isFamily then throw .sharedTypePath
  return { name := item.name, generics := item.generics, settings
           properties := ← Property.ofFields fields }

/-- The fields that a derived descriptor declares. -/
def Bean.fields (b : Bean) : List Field := b.properties.map fun p => ⟨p.name, p.slot⟩

end BeanStream.Derive
