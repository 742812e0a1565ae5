import BeanStream.Derive.Rejection
import BeanStream.Source.Keyword
import BeanStream.Source.Token

/-!
# Bean attributes

The options of types and fields, read from attributes. **All bean attributes of a type, or of a
field, are read as one list of options**; other attributes are passed over.

Each option has a **slot** that is set once (`setOnce`), as soon as the option has been read. So
reading stops at the first fault, whether this is one of form or a repeated option.
-/

namespace BeanStream.Derive

open Source

/-! ### Attributes -/

/-- What follows the path of an attribute. -/
inductive Arguments where
  | missing
  /-- An equality sign with an expression. -/
  | value
  | list (tokens : List Token)

/-- An attribute. -/
structure Attribute where
  path : List Token
  arguments : Arguments

/-- The attribute that some tokens spell. -/
def Attribute.ofTokens (tokens : List Token) : Attribute :=
  let inPath : Token → Bool
    | .group .. | .mark '=' _ => false
    | _ => true
  let ts := spliced tokens
  { path := ts.takeWhile inPath
    arguments := match ts.dropWhile inPath with
      | .group _ body :: _ => .list body
      | [] => .missing
      | _ => .value }

/-- Whether an attribute is one of beans. -/
def Attribute.isBean (a : Attribute) : Bool :=
  match a.path with
  | [.ident name] => name = "bean"
  | _ => false

/-! ### Options -/

/-- The form of an option. -/
inductive Form (α : Type) where
  /-- The name alone. -/
  | alone (option : α)
  /-- The name with a string, of which the written form and the text it stands for are given. -/
  | text (accept : (written value : String) → Except Rejection α)

/-- The forms of the options, by their names. -/
abbrev Grammar (α : Type) := String → Except Rejection (Form α)

/-- Reads options between commas, and puts each into its slot before it goes on. A comma may follow
the last one. -/
def fillOptions {α σ : Type} (g : Grammar α) (put : α → σ → Except Rejection σ) :
    List Token → σ → Except Rejection σ
  | [], s => .ok s
  | .ident name :: rest, s =>
    if !isName name then .error (.keyword name) else
    match g name, rest with
    | .error fault, _ => .error fault
    | .ok (.alone a), .mark ',' _ :: rest => do fillOptions g put rest (← put a s)
    | .ok (.alone a), [] => put a s
    | .ok (.alone a), _ => do
      let _ ← put a s
      throw (.missingMark ',')
    | .ok (.text accept), .mark '=' _ :: .literal written (some value) :: rest =>
      match accept written value, rest with
      | .error fault, _ => .error fault
      | .ok a, .mark ',' _ :: rest => do fillOptions g put rest (← put a s)
      | .ok a, [] => put a s
      | .ok a, _ => do
        let _ ← put a s
        throw (.missingMark ',')
    | .ok (.text _), .mark '=' _ :: rest => .error (.notString rest.isEmpty)
    | .ok (.text _), _ => .error (.missingMark '=')
  | _ :: _, _ => .error .notIdentifier

/-- Reads the options of all bean attributes into their slots. -/
def fillAttributes {α σ : Type} (g : Grammar α) (put : α → σ → Except Rejection σ) :
    List Attribute → σ → Except Rejection σ
  | [], s => .ok s
  | a :: as, s =>
    if a.isBean then
      match a.arguments with
      | .missing => .error .noArguments
      | .value => .error .notParenthesised
      | .list ts => do fillAttributes g put as (← fillOptions g put (spliced ts) s)
    else fillAttributes g put as s

/-- What comes of setting a slot that is set once only. -/
def setOnce {σ : Type} (isSet : Bool) (name : String) (s : σ) : Except Rejection σ :=
  if isSet then .error (.repeated name) else .ok s

/-! ### Types -/

/-- An option of a type. -/
inductive TypeOption where
  /-- The type path, as it is written and as it reads. -/
  | typePath (written value : String)
  /-- The type brings its own conventions. -/
  | conventions
  /-- The type registers itself. -/
  | autoRegister
  deriving DecidableEq

namespace TypeOption

/-- The name of an option. -/
def name : TypeOption → String
  | .typePath .. => "type_path"
  | .conventions => "conventions"
  | .autoRegister => "auto_register"

/-- The options of types. A type path is not empty. -/
def grammar : Grammar TypeOption
  | "type_path" => .ok <| .text fun written value =>
    if value = "" then .error .emptyTypePath else .ok (.typePath written value)
  | "conventions" => .ok (.alone .conventions)
  | "auto_register" => .ok (.alone .autoRegister)
  | name => .error (.unknownTypeOption name)

end TypeOption

/-- The settings of a type. -/
structure TypeSettings where
  /-- The literal of the type path. -/
  typePath : Option Token := none
  conventions : Bool := false
  autoRegister : Bool := false

namespace TypeSettings

/-- Puts an option into its slot. -/
def put (o : TypeOption) (s : TypeSettings) : Except Rejection TypeSettings :=
  match o with
  | .typePath written value =>
    setOnce s.typePath.isSome o.name { s with typePath := some (.literal written (some value)) }
  | .conventions => setOnce s.conventions o.name { s with conventions := true }
  | .autoRegister => setOnce s.autoRegister o.name { s with autoRegister := true }

/-- The settings that the attributes of a type make. -/
def ofAttributes (as : List Attribute) : Except Rejection TypeSettings :=
  fillAttributes TypeOption.grammar put as {}

end TypeSettings

/-! ### Fields -/

/-- An option of a field. -/
inductive FieldOption where
  /-- The field is no property. -/
  | skip
  /-- The property has another name. -/
  | rename (name : String)
  deriving DecidableEq

namespace FieldOption

/-- The name of an option. -/
def name : FieldOption → String
  | .skip => "skip"
  | .rename _ => "rename"

/-- The options of fields. -/
def grammar : Grammar FieldOption
  | "skip" => .ok (.alone .skip)
  | "rename" => .ok (.text fun _ value => .ok (.rename value))
  | name => .error (.unknownFieldOption name)

end FieldOption

/-- The settings of a field. -/
structure FieldSettings where
  skip : Bool := false
  rename : Option String := none
  deriving DecidableEq

namespace FieldSettings

/-- Puts an option into its slot. -/
def put (o : FieldOption) (s : FieldSettings) : Except Rejection FieldSettings :=
  match o with
  | .skip => setOnce s.skip o.name { s with skip := true }
  | .rename name => setOnce s.rename.isSome o.name { s with rename := some name }

/-- The settings that the attributes of a field make. A skipped field has no name to change. -/
def ofAttributes (as : List Attribute) : Except Rejection FieldSettings := do
  let settings ← fillAttributes FieldOption.grammar put as {}
  if settings.skip && settings.rename.isSome then throw .renamedSkip
  return settings

end FieldSettings

end BeanStream.Derive
