import BeanStream.Pass.Action

/-!
# Writing, over nested writing

The operations of a pass, given how the values **one level below** are written (`Nested`).
Properties, beans, sequences and codecs reach nested values through it alone, so that the
depth of nesting is a number that the whole pass recurses on.

A property is its name followed by its value, or nothing at all: the name is written only when
it is known how to write the value. A stream of properties ends with the empty name, **unless
something failed before**.
-/

namespace BeanStream

open Wire

/-- How values one level below are written. -/
structure Nested (ω : Type := Encoder) where
  /-- Writes the tag and payload of an action. -/
  writeWith : Action → AttemptTo ω WriteError Unit
  /-- Writes a value by a codec, without tag. -/
  encode : Entry → Value → AttemptTo ω CodecError Unit

namespace Pass

variable {ω : Type} [Output ω] (env : Env) (below : Nested ω)

/-! ### Values -/

/-- Writes a value with its tag. A value cannot be left out: it is a failure if it cannot be
written. -/
def writeValue (v : Option Value) : AttemptTo ω WriteError Unit := do
  let v ← unwrap env [] v
  match ← actionFor (ω := ω) env v with
  | some action => below.writeWith action
  | none => failAt (.missingCodec · (typePathOf env v))

/-- Writes elements, each under its index. -/
def writeElements : (index : Nat) → List Value → AttemptTo ω WriteError Unit
  | _, [] => return
  | index, v :: vs => do
    framed (.element index) (writeValue env below (some v))
    writeElements (index + 1) vs

/-! ### Properties -/

/-- Writes the name of a property. -/
def writeName (name : String) : AttemptTo ω WriteError Unit := emit (.string name)

/-- Ends a stream of properties after `body`. -/
def writingProperties (body : AttemptTo ω WriteError Unit) : AttemptTo ω WriteError Unit := do
  body
  writeName ""

/-- What becomes of a property whose value cannot be written. -/
def omitProperty (v : Option Value) : AttemptTo ω WriteError Bool := do
  let typePath := typePathOf env v
  match env.settings.missing with
  | .warn =>
    log (ω := ω) (.omitted (← trace (ω := ω)) typePath)
    return false
  | .fail => failAt (.missingCodec · typePath)

/-- Writes a property whose value is not deferred. The answer is whether it was written. -/
def writeResolvedProperty (kind : PropertyKind) (name : String) (v : Option Value) :
    AttemptTo ω WriteError Bool :=
  framed (.property kind name) do
    match ← actionFor (ω := ω) env v with
    | none => omitProperty env v
    | some action =>
      writeName name
      below.writeWith action
      log (ω := ω) (.written (← trace (ω := ω)) (v.map (Value.typePath env.decls)))
      return true

/-- Writes a property. The answer is whether it was written: a value that cannot be written is
left out if the settings say so. -/
def writeNextProperty (name : String) (v : Option Value) (kind : PropertyKind) :
    AttemptTo ω WriteError Bool := do
  if name = "" then failAt .emptyPropertyName
  else
    let v ← unwrap env [.property kind name] v
    writeResolvedProperty env below kind name v

/-! ### Beans -/

/-- Writes a field. Where the value of a field is absent, its convention value is written, if
the bean brings one. -/
def writeField (d : Descriptor) (v : Value) (conventions : Option Nat) (f : Field) :
    AttemptTo ω WriteError Unit := do
  match d.read f v with
  | none => throw (.fieldAccess d.path f.name (v.typePath env.decls))
  | some raw =>
    match conventions with
    | none => discard <| writeNextProperty env below f.name (some raw) .field
    | some mapping =>
      match ← unwrap env [.property .field f.name] (some raw) with
      | some content => discard <| writeNextProperty env below f.name (some content) .field
      | none =>
        let fallback := (← getThe (Machine ω)).store.conventionValue mapping f.name
        discard <| writeNextProperty env below f.name fallback .field

/-- Writes fields in order. -/
def writeFields (d : Descriptor) (v : Value) (conventions : Option Nat) :
    List Field → AttemptTo ω WriteError Unit
  | [] => return
  | f :: fs => do
    writeField env below d v conventions f
    writeFields d v conventions fs

/-- Writes the properties of an instance of a bean. The limit on nesting is checked before
anything is written. -/
def writeFieldsOf (d : Descriptor) (v : Value) : AttemptTo ω WriteError Unit := do
  if (← trace (ω := ω)).beanDepth ≥ env.settings.maxDepth then
    failAt (.tooDeep · env.settings.maxDepth)
  else
    framed (.bean d.path) <|
      writingProperties (writeFields env below d v (d.conventionsOf v) d.fields)

/-- Writes the properties of an instance of a bean, which has to be known. -/
def writeBean (v : Value) : AttemptTo ω WriteError Unit := do
  match ← writer? (ω := ω) env v.typeId with
  | none => throw (.unknownBean (v.typePath env.decls))
  | some d => writeFieldsOf env below d v

/-! ### Codecs -/

/-- Runs the script of a codec. -/
def run : Script → AttemptTo ω CodecError Unit
  | .done => return
  | .fail reason => throw reason
  | .write p next => do run (next (← outcome (onEncoder (Encoder.write p))))
  | .tree t next => do run (next (← outcome (onEncoder t.writeTo)))
  | .value v next => do run (next (← outcome (writeValue env below v)))
  | .bean v next => do run (next (← outcome (writeBean env below v)))
  | .property name v kind next => do
    run (next (← outcome (writeNextProperty env below name v kind)))
  | .name name next => do run (next (← outcome (writeName name)))
  | .framed frame body next => do run (next (← outcome (framed frame (run body))))
  | .reencode v next => do
    match env.codecs.get? v.typeId with
    | some e => run (next (← outcome (below.encode e v)))
    | none => run (next (.ok ()))
  | .context next => do run (next (← trace (ω := ω)) env.settings)
  | .knows type next => do run (next (← writer? (ω := ω) env type).isSome)

/-- Writes a value by a codec, which has to be that of its type. -/
def encode (e : Entry) (v : Value) : AttemptTo ω CodecError Unit :=
  if v.typeId = e.type then run env below (e.codec v)
  else throw (.wrongType e.type.name (v.typePath env.decls))

/-! ### Actions -/

/-- Writes the payload of an action. -/
def writePayload : Action → AttemptTo ω WriteError Unit
  | .null => return
  | .codec e v => do
    match ← outcome (encode env below e v) with
    | .ok () => return
    | .error reason => failAt (WriteError.ofCodec · (v.typePath env.decls) reason)
  | .bean d v => do
    emit (.string d.path)
    writeFieldsOf env below d v
  | .sequence items => do
    emit (.len items.length)
    writeElements env below 0 items

/-- Writes the tag and payload of an action. -/
def writeWith (action : Action) : AttemptTo ω WriteError Unit := do
  emit (.tag (BitVec.ofNat 32 action.tag))
  writePayload env below action

end Pass

end BeanStream
