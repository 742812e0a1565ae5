import BeanStream.Store.Lazy

/-!
# Deferred values

A deferred value only holds, or knows how to come by, another value. One **step** asks it for
that value; **unwrapping** repeats steps until a value that is not deferred, or none, is
reached.

Along a chain, a container with an identity may be met **once** only, and at most
`maxUnwrapDepth` containers are opened; of the two checks the depth comes first. Optional,
shared and boxed values have no identity: they cannot hold themselves.
-/

namespace BeanStream

/-- The deferred shapes. -/
inductive Deferred where
  /-- A value that is there, or not. -/
  | optional (content : Option Value)
  | file (cell : Nat)
  | property (cell : Nat)
  | provider (identity : Nat) (supply : Supply)
  | producer (identity : Nat) (supply : Supply)
  | lazy (cell : Nat)

/-- The deferred shape of a value. -/
def Value.deferred? : Value → Option Deferred
  | .optional _ content => some (.optional content)
  | .shared content => some (.optional (some content))
  | .boxed content => some (.optional (some content))
  | .property cell => some (.property cell)
  | .file cell => some (.file cell)
  | .lazy cell => some (.lazy cell)
  | .provider identity supply => some (.provider identity supply)
  | .producer identity supply => some (.producer identity supply)
  | .scalar _ | .custom _ _ _ | .tree _ _ | .sequence _ _ | .bean _ _ _ => none

/-- The outcome of one step. -/
inductive Step where
  /-- The container holds nothing. -/
  | absent
  /-- The container exposes a value of its own. -/
  | value (v : Value)
  /-- The container made or shares a value. -/
  | shared (v : Value)

namespace Step

/-- The value that a step reached. -/
def content : Step → Option Value
  | .absent => none
  | .value v | .shared v => some v

/-- A value that may be shared, as a step. -/
def ofOption : Option Value → Step
  | none => .absent
  | some v => .shared v

@[simp] theorem content_ofOption (v : Option Value) : (ofOption v).content = v := by
  cases v <;> rfl

/-- The word for an outcome. -/
def name : Step → String
  | .absent => "Absent"
  | .value _ => "Value"
  | .shared _ => "Shared"

end Step

/-- Writes are made on behalf of this thread. -/
def mainThread : Nat := 0

namespace Deferred

/-- The words for a shape. -/
def kindName : Deferred → String
  | .optional _ => "optional value"
  | .file _ => "file property"
  | .property _ => "property"
  | .provider _ _ => "provider"
  | .producer _ _ => "producer"
  | .lazy _ => "lazy value"

/-- The identity of a container, if it has one. -/
def identity : Deferred → Option Nat
  | .optional _ => none
  | .file cell | .property cell | .lazy cell => some cell
  | .provider identity _ | .producer identity _ => some identity

/-- One step. -/
def resolve (decls : Declarations) : Deferred → ExceptT UnwrapError StoreM Step
  | .optional none => pure .absent
  | .optional (some v) => pure (.value v)
  | .file cell => return Step.ofOption (((← get).file cell).get.map Value.ofPath)
  | .property cell => return Step.ofOption ((← get).property cell)
  | .provider _ supply => return Step.ofOption (← (supply.query decls : StoreM _))
  | .producer _ supply => return .shared (← (supply.produce decls : StoreM _))
  | .lazy cell => return Step.ofOption (← ExceptT.mk (Store.force decls mainThread cell))

end Deferred

namespace Value

/-- One step, for a deferred value. -/
def unwrapStep (decls : Declarations) (v : Value) :
    ExceptT UnwrapError StoreM (Option Step) :=
  match v.deferred? with
  | none => pure none
  | some d => some <$> d.resolve decls

/-- Steps until a value that is not deferred or none is reached: at most `budget` steps, none
from a container that is in `met`. -/
def unwrapWithin (decls : Declarations) :
    (budget : Nat) → (met : List Nat) → Option Value → ExceptT UnwrapError StoreM (Option Value)
  | _, _, none => pure none
  | 0, _, some v =>
    match v.deferred? with
    | none => pure (some v)
    | some _ => throw .tooDeep
  | budget + 1, met, some v =>
    match v.deferred? with
    | none => pure (some v)
    | some d =>
      if d.identity.any met.contains then throw (.reentrant d.kindName)
      else do
        let step ← d.resolve decls
        unwrapWithin decls budget (d.identity.toList ++ met) step.content

/-- Steps until a value that is not deferred or none is reached. -/
def unwrap (decls : Declarations) (v : Option Value) :
    ExceptT UnwrapError StoreM (Option Value) :=
  unwrapWithin decls maxUnwrapDepth [] v

/-! ### Diagnostics -/

/-- What can be told of a value without asking anyone. -/
structure Description where
  typePath : String
  /-- Its text, if values of its type have one; a path that is no text has none to show. -/
  text : Option (Option String)
  /-- The words for its deferred shape. -/
  kind : Option String
  /-- The number of its elements. -/
  length : Option Nat

/-- The text of a scalar. Floating-point numbers are shown by their bits. -/
def scalarText : Scalar → Option (Option String)
  | .unit => none
  | .bool b => some (Text.flag b)
  | .char c => some c.toString
  | .int k bits => some (toString (k.toInt bits))
  | .f32 bits => some (Text.Hex.ofNat 8 bits.toNat)
  | .f64 bits => some (Text.Hex.ofNat 16 bits.toNat)
  | .string s | .str s | .cow s => some s
  | .path bs => some (Text.ofBytes? bs)

/-- What can be told of a value. -/
def describe (decls : Declarations) (v : Value) : Description where
  typePath := v.typePath decls
  text := match v with
    | .scalar s => scalarText s
    | .custom _ data _ => if data = "" then none else some data
    | _ => none
  kind := v.deferred?.map Deferred.kindName
  length := v.items?.map List.length

/-- A value of unknown type, by its type path. -/
def typeDebug (decls : Declarations) (v : Value) : String :=
  "dyn Value<" ++ v.typePath decls ++ ">"

/-- A value as a record, as far as it shows what it is. -/
def debug (decls : Declarations) (s : Store) : Value → String
  | .property cell =>
    Text.wrapped "Property" (Text.optional ((s.property cell).map (typeDebug decls)))
  | .file cell =>
    let f := s.file cell
    Text.record "FileProperty"
      [("kind", f.kind.name), ("base", Text.optional (f.base.map Text.quote)),
        ("location", Text.partialRecord "RwLock"
          [("data", Text.optional (f.location.map Text.quote)), ("poisoned", Text.flag false)])]
  | .lazy cell => (s.lazyState cell).debug
  | .provider _ _ => Text.partialRecord "Provider" []
  | .producer _ _ => Text.partialRecord "Producer" []
  | v => v.typeDebug decls

end Value

/-- The outcome of a step as a record. -/
def Step.debug (decls : Declarations) (step : Step) : String :=
  match step.content with
  | none => step.name
  | some v => Text.wrapped step.name (v.typeDebug decls)

end BeanStream
