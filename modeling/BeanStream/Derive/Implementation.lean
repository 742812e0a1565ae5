import BeanStream.Derive.Bean
import BeanStream.Derive.Bounds

/-!
# Derived implementations

The program text that deriving adds to a type: the implementation of values, the implementation
of beans, and the registration of types that register themselves. Everything the text names is
reached through **one path of the library** (`exported`), which depends on how the calling
program depends on the library.
-/

namespace BeanStream.Derive

open Source

/-- An item that derived text may name, below the path of the library. -/
def exported (library : List String) (name : List String) : List Token :=
  absolutePath (library ++ "__macro_exports" :: name)

/-- An implementation of a trait for a type. -/
def implementation (trait : List Token) (name : String) (g : Generics)
    (bounds : List (List Token)) (body : List Token) : List Token :=
  words ["impl"] ++ parameterList Param.declared g.params ++ trait ++ words ["for", name]
    ++ parameterList Param.applied g.params ++ boundsClause bounds ++ braces body

/-- The request to expand a function at its calls. -/
private def inlineMark : List Token := sign "#" ++ brackets (words ["inline"])

/-- The type of constant text. -/
private def constantText : List Token := sign "&" ++ lifetime "static" ++ words ["str"]

/-- The type itself, as an argument. -/
private def ofSelf : List Token := sign "::" ++ angled (words ["Self"])

/-- The type path of a bean, asked of its implementation. -/
private def ownTypePath (beanTrait : List Token) : List Token :=
  angled (words ["Self", "as"] ++ beanTrait) ++ sign "::" ++ words ["bean_type_path"] ++ parens []

/-- An empty implementation of values, whose declared items are left as they are. -/
def plainValue (library : List String) (item : Item) : List Token :=
  implementation (exported library ["Value"]) item.name item.generics
    (valueBounds item.generics) []

namespace Bean

/-- The expression for the type path: the one that was set, the full name of the type if it is
one of a family, and else its module with its name. -/
def typePath (b : Bean) : List Token :=
  match b.settings.typePath with
  | some literal => [literal]
  | none =>
    if b.generics.isFamily then
      absolutePath ["core", "any", "type_name"] ++ ofSelf ++ parens []
    else
      absolutePath ["core", "concat"] ++ sign "!" ++ parens (
        absolutePath ["core", "module_path"] ++ sign "!" ++ parens [] ++ sign ","
          ++ [string "::"] ++ sign "," ++ [string (plainName b.name)])

/-- The implementation of values: its type path is that of the bean. -/
def valueImplementation (library : List String) (b : Bean) : List Token :=
  implementation (exported library ["Value"]) b.name b.generics (valueBounds b.generics) <|
    inlineMark ++ words ["fn", "value_type_path"] ++ parens (sign "&" ++ words ["self"])
      ++ sign "->" ++ constantText ++ braces (ownTypePath (exported library ["Bean"]))

/-- The description of a property: its name, and the way to its field. -/
def propertyDescription (library : List String) (p : Property) : List Token :=
  exported library ["FieldDescriptor", "new"] ++ ofSelf ++ parens (
    [string p.name] ++ sign "," ++ sign "|" ++ words ["__bean"] ++ sign "|" ++ sign "&"
      ++ words ["__bean"] ++ sign "." ++ words [p.member])

/-- The expression for the descriptor of a bean. -/
def descriptor (library : List String) (b : Bean) : List Token :=
  exported library ["BeanDescriptor", "from_fields"] ++ ofSelf ++ parens (
    ownTypePath (exported library ["Bean"]) ++ sign ","
      ++ absolutePath ["std", "vec", "Vec", "from"] ++ parens (brackets (
        b.properties.flatMap fun p => propertyDescription library p ++ sign ","))
      ++ sign ",")
    ++ if b.settings.conventions then sign "." ++ words ["with_conventions"] ++ ofSelf ++ parens []
      else []

/-- The implementation of beans. -/
def beanImplementation (library : List String) (b : Bean) : List Token :=
  let types := b.properties.map Property.type
  implementation (exported library ["Bean"]) b.name b.generics
    (beanBounds b.generics (exported library ["Value"]) types) <|
    (if b.generics.isFamily then [] else inlineMark)
      ++ words ["fn", "bean_type_path"] ++ parens [] ++ sign "->" ++ constantText
      ++ braces b.typePath
      ++ words ["fn", "bean_descriptor"] ++ parens [] ++ sign "->"
      ++ exported library ["BeanDescriptor"] ++ braces (b.descriptor library)

/-- The registration of a type that registers itself. A family of types has none. -/
def registration (library : List String) (b : Bean) : List Token :=
  let submitted (name : List String) := exported library ("auto_register" :: name)
  if !b.settings.autoRegister || b.generics.isFamily then []
  else
    words ["fn", "__register_bean"]
      ++ parens (words ["registry"] ++ sign ":" ++ sign "&" ++ words ["mut"]
        ++ submitted ["BeanRegistry"])
      ++ braces (words ["registry"] ++ sign "." ++ words ["register"] ++ sign "::"
        ++ angled (words [b.name]) ++ parens [] ++ sign ";")
      ++ submitted ["inventory", "submit"] ++ sign "!"
      ++ braces (submitted ["__AutoRegisterFunc"] ++ parens (words ["__register_bean"]))

end Bean

end BeanStream.Derive
