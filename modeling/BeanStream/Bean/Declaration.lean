import BeanStream.Value

/-!
# Bean declarations

What a bean type says about itself: the type path under which it is known, the names of its
fields in order, whether its instances bring **conventions**, and whether its fields are
**trusted** to be named well, which saves the check. A type without a declaration is known by
its name.

`Value.typePath` is how diagnostics and streams call the type of a value: an optional value is
called by its own type, a shared or boxed one **by the type of its content**.
-/

namespace BeanStream

/-- What a bean type says about itself. -/
structure Declaration where
  /-- The type path. -/
  path : String
  /-- The names of the fields, in the order of their slots. -/
  fields : List String := []
  /-- Whether instances bring conventions. -/
  conventions : Bool := false
  /-- Whether the fields are trusted to be named well. -/
  trusted : Bool := false

/-- The declarations of the bean types. -/
abbrev Declarations := TypeMap Declaration

namespace Declarations

/-- The type path of a type. -/
def path (decls : Declarations) (type : TypeId) : String :=
  ((decls.get? type).map Declaration.path).getD type.name

end Declarations

/-- The type path of a value. -/
def Value.typePath (decls : Declarations) : Value → String
  | .shared content => content.typePath decls
  | .boxed content => content.typePath decls
  | v => decls.path v.typeId

end BeanStream
