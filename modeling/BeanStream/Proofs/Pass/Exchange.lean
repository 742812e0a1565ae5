import BeanStream.Proofs.Codec.Agreement
import BeanStream.Proofs.Pass.Dispatch
import BeanStream.Proofs.Pass.Naming

/-!
# Codecs in exchange

A pass depends on its codecs only through what they do. Where each type has the tag that it had, and
a codec that does **the same with all values of the type**, everything is written as before
(`Call.run_exchange`): the operations of a pass are taken one by one, over writes one level below
that are the same.

Main fact: a scalar type of the library may get the codec of trees in place of its own. It **keeps
its tag**, and each scalar of the type **keeps its payload** on every output, also on one that
fails, unless it is a path that is no text (`CodecRegistry.exchanged_treeScript`).
-/

namespace BeanStream

open Wire Pass

/-- An entry that does the same as `e` with all values of the type. -/
structure Entry.Alike (e e' : Entry) : Prop where
  tag : e'.tag = e.tag
  type : e'.type = e.type
  codec {v : Value} (own : v.typeId = e.type) {ω : Type} [Output ω] (env : Env)
    (below : Nested ω) :
    run env below (e.codec v) = run env below (e'.codec v)

/-- Types have the same tags, and their codecs do the same. -/
def CodecRegistry.Alike (r r' : CodecRegistry) : Prop :=
  ∀ type, Option.Rel Entry.Alike (r.get? type) (r'.get? type)

theorem Entry.Alike.refl (e : Entry) : e.Alike e := ⟨rfl, rfl, fun _ _ _ _ _ => rfl⟩

/-- Two ways to write a value, by codecs that do the same. -/
inductive Action.Alike : Action → Action → Prop
  | null : Alike .null .null
  | codec {e e'} (v : Value) (same : e.Alike e') : Alike (.codec e v) (.codec e' v)
  | bean (d : Descriptor) (v : Value) : Alike (.bean d v) (.bean d v)
  | sequence (items : List Value) : Alike (.sequence items) (.sequence items)

theorem Action.Alike.tag_eq {a a' : Action} (h : a.Alike a') : a.tag = a'.tag := by
  cases h with
  | codec _ same => exact same.tag.symm
  | null | bean | sequence => rfl

/-- Of two levels, the writes are the same. -/
structure Nested.Alike {ω : Type} (below below' : Nested ω) : Prop where
  writeWith {a a' : Action} (same : a.Alike a') : below.writeWith a = below'.writeWith a'
  encode {e e' : Entry} (same : e.Alike e') (v : Value) : below.encode e v = below'.encode e' v

namespace Pass

/-! ### Operations, over writes that are the same -/

section Operations

variable {ω ε α : Type} {env : Env} {codecs : CodecRegistry} {below below' : Nested ω}
  (same : env.codecs.Alike codecs)

include same

/-- The same way to write a value is found. -/
theorem actionFor_exchange (v : Option Value) {f g : Option Action → AttemptTo ω ε α}
    (next : ∀ a a', Option.Rel Action.Alike a a' → f a = g a') :
    (liftM (actionFor env v) >>= f) = (liftM (actionFor { env with codecs } v) >>= g) := by
  rcases v with _ | v
  · exact next _ _ (.some .null)
  have entries := same v.typeId
  rcases found : env.codecs.get? v.typeId with _ | e <;>
    rcases found' : codecs.get? v.typeId with _ | e' <;> rw [found, found'] at entries <;>
    cases entries
  · simp only [actionFor, found, found', liftM_bind, bind_assoc]
    refine bind_congr fun d => ?_
    rcases d with _ | d
    · refine next _ _ ?_
      cases v.items? with
      | none => exact .none
      | some items => exact .some (.sequence items)
    · exact next _ _ (.some (.bean d v))
  · simp only [actionFor, found, found']
    exact next _ _ (.some (.codec v ‹_›))

variable (h : below.Alike below')

include h

theorem writeValue_exchange (v : Option Value) :
    writeValue env below v = writeValue { env with codecs } below' v := by
  refine bind_congr fun w => actionFor_exchange same w fun a a' found => ?_
  cases found with
  | none => rfl
  | some same => exact h.writeWith same

theorem writeElements_exchange (index : Nat) (vs : List Value) :
    writeElements env below index vs = writeElements { env with codecs } below' index vs := by
  induction vs generalizing index with
  | nil => rfl
  | cons v vs ih => rw [writeElements, writeElements, writeValue_exchange same h, ih]

variable [Output ω]

theorem writeResolvedProperty_exchange (kind : PropertyKind) (name : String) (v : Option Value) :
    writeResolvedProperty env below kind name v =
      writeResolvedProperty { env with codecs } below' kind name v := by
  refine congrArg (framed _) (actionFor_exchange same v fun a a' found => ?_)
  cases found with
  | none => rfl
  | some same =>
    dsimp only
    rw [h.writeWith same]

theorem writeNextProperty_exchange (name : String) (v : Option Value) (kind : PropertyKind) :
    writeNextProperty env below name v kind =
      writeNextProperty { env with codecs } below' name v kind := by
  simp only [writeNextProperty, writeResolvedProperty_exchange same h]
  rfl

theorem writeField_exchange (d : Descriptor) (v : Value) (conventions : Option Nat) (f : Field) :
    writeField env below d v conventions f =
      writeField { env with codecs } below' d v conventions f := by
  simp only [writeField, writeNextProperty_exchange same h]
  rfl

theorem writeFields_exchange (d : Descriptor) (v : Value) (conventions : Option Nat)
    (fs : List Field) :
    writeFields env below d v conventions fs =
      writeFields { env with codecs } below' d v conventions fs := by
  induction fs with
  | nil => rfl
  | cons f fs ih => rw [writeFields, writeFields, writeField_exchange same h, ih]

theorem writeFieldsOf_exchange (d : Descriptor) (v : Value) :
    writeFieldsOf env below d v = writeFieldsOf { env with codecs } below' d v := by
  simp only [writeFieldsOf, writeFields_exchange same h]

theorem writeBean_exchange (v : Value) :
    writeBean env below v = writeBean { env with codecs } below' v := by
  simp only [writeBean, writeFieldsOf_exchange same h]
  rfl

/-- A script does the same in both passes. -/
theorem run_exchange (s : Script) : run env below s = run { env with codecs } below' s := by
  induction s with
  | done | fail => rfl
  | write _ _ ih | tree _ _ ih | name _ _ ih => exact bind_congr fun answer => ih answer
  | value v next ih =>
    rw [run, run, writeValue_exchange same h]
    exact bind_congr fun answer => ih answer
  | bean v next ih =>
    rw [run, run, writeBean_exchange same h]
    exact bind_congr fun answer => ih answer
  | property name v kind next ih =>
    rw [run, run, writeNextProperty_exchange same h]
    exact bind_congr fun answer => ih answer
  | framed f body next body_ih ih =>
    rw [run, run, body_ih]
    exact bind_congr fun answer => ih answer
  | reencode v next ih =>
    have entries := same v.typeId
    rw [run, run]
    rcases found : env.codecs.get? v.typeId with _ | e <;>
      rcases found' : codecs.get? v.typeId with _ | e' <;> rw [found, found'] at entries <;>
      cases entries
    · exact ih _
    · dsimp only
      rw [h.encode ‹_›]
      exact bind_congr fun answer => ih answer
  | context next ih => exact bind_congr fun trace => ih trace env.settings
  | knows type next ih => exact bind_congr fun d => ih d.isSome

theorem encode_exchange {e e' : Entry} (alike : e.Alike e') (v : Value) :
    encode env below e v = encode { env with codecs } below' e' v := by
  rw [encode, encode, alike.type]
  split
  · rw [alike.codec ‹_›, run_exchange same h]
  · rfl

theorem writeWith_exchange {a a' : Action} (alike : a.Alike a') :
    writeWith env below a = writeWith { env with codecs } below' a' := by
  rw [writeWith, writeWith, alike.tag_eq]
  refine bind_congr fun _ => ?_
  cases alike with
  | null => rfl
  | codec v alike => rw [writePayload, writePayload, encode_exchange same h alike]
  | bean d v => rw [writePayload, writePayload, writeFieldsOf_exchange same h]
  | sequence items => rw [writePayload, writePayload, writeElements_exchange same h]

end Operations

/-- With as many levels to go, everything is written in the same way. -/
theorem alike_ofDepth {ω : Type} [Output ω] {env : Env} {codecs : CodecRegistry}
    (same : env.codecs.Alike codecs) (depth : Nat) :
    (Nested.ofDepth env depth : Nested ω).Alike (.ofDepth { env with codecs } depth) := by
  induction depth with
  | zero => exact ⟨fun _ => rfl, fun _ _ => rfl⟩
  | succ depth ih =>
    exact ⟨fun alike => writeWith_exchange same ih alike,
      fun alike v => encode_exchange same ih alike v⟩

end Pass

/-- Whatever is asked for, it does not matter which of the codecs a pass has. -/
theorem Call.run_exchange {ω : Type} [Output ω] {env : Env} {codecs : CodecRegistry}
    (same : env.codecs.Alike codecs) (c : Call) (depth : Nat) :
    c.run (ω := ω) env (.ofDepth env depth) =
      c.run { env with codecs } (.ofDepth { env with codecs } depth) := by
  have below := alike_ofDepth (ω := ω) same depth
  cases c with
  | value v => exact writeValue_exchange same below v
  | property name v kind => exact writeNextProperty_exchange same below name v kind
  | bean v => exact writeBean_exchange same below v

/-! ### Scalars as trees -/

namespace Pass

variable {ω : Type} {env : Env} {below below' : Nested ω} {e e' : Entry}

/-- A value that leads to one with a codec is written by this codec. -/
theorem run_writeValue_of_codec {v : Option Value} {w : Value} {m : Machine ω} {store : Store}
    (leads : (Value.unwrap env.decls v).run m.store = .ok (.ok (some w)) store)
    (found : env.codecs.get? w.typeId = some e) :
    (writeValue env below v).run m = (below.writeWith (.codec e w)).run { m with store } := by
  rw [run_writeValue, leads]
  dsimp only
  rw [actionFor_of_codec found]

/-- The tag and the payload are all there is to a value with a codec. -/
theorem writeWith_codec_congr [Output ω] {codecs : CodecRegistry} {v : Value} (tag : e'.tag = e.tag)
    (payload : encode env below e v = encode { env with codecs } below' e' v) :
    writeWith env below (.codec e v) = writeWith { env with codecs } below' (.codec e' v) := by
  rw [writeWith, writeWith, Action.tag, Action.tag, tag, writePayload, writePayload, payload]

end Pass

namespace CodecRegistry

variable {r : CodecRegistry} {t : ScalarType} {e : Entry}

/-- Scalars of a type are written as trees from now on. -/
def asTree (r : CodecRegistry) (t : ScalarType) : CodecRegistry :=
  (r.register (.scalar t) Value.treeScript).2

/-- What is certain when scalars of the type `t` are written as trees from now on, instead of by the
codec of `e`. -/
structure Exchanges (r : CodecRegistry) (t : ScalarType) (e : Entry) : Prop where
  own : r.get? (.scalar t) = some e
  codec : e.codec = Value.scalarScript t
  /-- The type keeps its tag, -/
  tag : (r.register (.scalar t) Value.treeScript).1 = e.tag
  /-- and so does its entry, while nothing else is changed. -/
  entries (type : TypeId) : (r.asTree t).get? type =
    if type = .scalar t then some { e with codec := Value.treeScript } else r.get? type
  next : (r.asTree t).nextTag = r.nextTag
  /-- By both codecs, the payload of a scalar is what its tree writes, whatever becomes of the
  output. -/
  payload {s : Scalar} (type : s.type = t) (text : s.IsText) {ω : Type} [Output ω] (env : Env)
    (below : Nested ω) :
    WritesAs (encode env below e (.scalar s)) s.toTree ∧
      WritesAs (encode env below { e with codec := Value.treeScript } (.scalar s)) s.toTree
  /-- So a value that leads to the scalar is written in the same way, with its tag. -/
  value {env : Env} (codecs : env.codecs = r) {s : Scalar} (type : s.type = t) (text : s.IsText)
    {v : Option Value} {ω : Type} [Output ω] {m : Machine ω} {store : Store}
    (leads : (Value.unwrap env.decls v).run m.store = .ok (.ok (some (.scalar s))) store)
    (depth : Nat) :
    (writeValue { env with codecs := r.asTree t }
      (.ofDepth { env with codecs := r.asTree t } depth) v).run m =
    (writeValue env (.ofDepth env depth) v).run m
  /-- If there are no scalars of the type but texts, so is everything, on typed machines. -/
  pass (always : ∀ s : Scalar, s.type = t → s.IsText) {L : Layout} {env : Env}
    (codecs : env.codecs = r) (fits : env.Fits L) {ω : Type} [Output ω] {m : Machine ω}
    (typed : m.Typed L) {c : Call}
    (subject : ∀ v, c.subject = some v → v.Typed L) (depth : Nat) :
    (c.run { env with codecs := r.asTree t }
      (.ofDepth { env with codecs := r.asTree t } depth)).run m =
    (c.run env (.ofDepth env depth)).run m

/-- A codec that writes scalars as themselves, and all else as trees. -/
def mixedScript : Codec
  | .scalar s => s.script
  | v => v.treeScript

/-- Values of a scalar type are scalars, for which the codec of the library is the mixed one. -/
theorem sameFor_mixed {L : Layout} (own : r.get? (.scalar t) = some e) (keyed : e.type = .scalar t)
    (codec : e.codec = Value.scalarScript t) :
    r.SameFor L (r.register (.scalar t) mixedScript).2 := by
  intro type
  rw [get?_register_of_entry own]
  split
  · subst type
    rw [own]
    refine .some ⟨rfl, rfl, fun {v} suits => ?_⟩
    obtain ⟨s, rfl⟩ := suits.typed.exists_scalar (suits.typeId_eq.trans keyed)
    rw [codec]
    rfl
  · exact SameFor.refl r type

/-- Scalars are written as trees like by themselves, if they are texts. -/
theorem alike_mixed (own : r.get? (.scalar t) = some e) (keyed : e.type = .scalar t)
    (always : ∀ s : Scalar, s.type = t → s.IsText) :
    (r.register (.scalar t) mixedScript).2.Alike (r.asTree t) := by
  intro type
  rw [asTree, get?_register_of_entry own, get?_register_of_entry own]
  split
  · refine .some ⟨rfl, rfl, fun {v} type ω _ env below => ?_⟩
    cases v with
    | scalar s =>
      have same : s.type = t := TypeId.scalar.inj (type.trans keyed)
      exact (Scalar.run_treeScript (always s same)).symm
    | _ => rfl
  · cases r.get? type with
    | none => exact .none
    | some e' => exact .some (.refl e')

theorem exchanges_of_entry (own : r.get? (.scalar t) = some e) (keyed : e.type = .scalar t)
    (codec : e.codec = Value.scalarScript t) : r.Exchanges t e := by
  have entries := get?_register_of_entry own Value.treeScript
  have payload {s : Scalar} (type : s.type = t) (text : s.IsText) {ω : Type} [Output ω]
      (env : Env) (below : Nested ω) :
      WritesAs (encode env below e (.scalar s)) s.toTree ∧
        WritesAs (encode env below { e with codec := Value.treeScript } (.scalar s)) s.toTree := by
    have typeId : (Value.scalar s).typeId = e.type := by rw [keyed, ← type, Value.typeId]
    rw [encode, encode, if_pos typeId, if_pos typeId, codec]
    exact ⟨Scalar.writesAs_script text, Scalar.writesAs_treeScript text⟩
  constructor
  case own => exact own
  case codec => exact codec
  case tag => exact register_tag_of_entry own _
  case entries => exact entries
  case next => simp only [asTree, register, own]
  case payload => exact payload
  case value =>
    rintro env rfl s rfl text v ω _ m store leads depth
    let bridged : Env := { env with codecs := env.codecs.asTree s.type }
    let e' : Entry := { e with codec := Value.treeScript }
    have leads' : (Value.unwrap bridged.decls v).run m.store = _ := leads
    have own' : bridged.codecs.get? (.scalar s.type) = some e' :=
      (entries (.scalar s.type)).trans (if_pos rfl)
    rw [run_writeValue_of_codec leads own, run_writeValue_of_codec leads' own']
    cases depth with
    | zero => rfl
    | succ depth =>
      have same : encode (ω := ω) env (.ofDepth env depth) e (.scalar s) =
          encode bridged (.ofDepth bridged depth) e' (.scalar s) :=
        (payload rfl text env _).1.unique (payload rfl text bridged _).2
      exact congrFun (writeWith_codec_congr (show e'.tag = e.tag from rfl) same).symm _
  case pass =>
    rintro always L env rfl fits ω _ m typed c subject depth
    have mixed := Call.tallies_run (p := False) fits (sameFor_mixed own keyed codec)
      (Nested.follows_ofDepth L _) False.elim typed subject depth
    have exchanged := @Call.run_exchange ω _ { env with codecs := _ } _
      (alike_mixed own keyed always) c depth
    rw [← exchanged]
    exact mixed.same

/-- A scalar type of the library may get the codec of trees, whatever else is registered. -/
theorem exchanged_treeScript (regs : List (TypeId × Codec)) (t : ScalarType)
    (kept : .scalar t ∉ regs.map Prod.fst) :
    ∃ e, e.tag = Tag.firstCodec + ScalarType.all.idxOf t ∧
      (builtin.registerAll regs).Exchanges t e := by
  obtain ⟨e, given, tag⟩ := Option.map_eq_some_iff.1 (tag_builtin t)
  obtain ⟨_, ⟨⟩, keyed, codec⟩ := exists_scalar_of_builtin given
  refine ⟨e, tag, exchanges_of_entry ?_ keyed codec⟩
  rw [get?_registerAll_of_notMem builtin kept, given]

/-- Paths, with a codec of a user beside. -/
theorem exchanged_treeScript_path :
    let r := builtin.registerAll [(.named "demo::Tree", Value.treeScript)]
    ∃ e, e.tag = 28 ∧ r.Exchanges .path e ∧ Scalar.IsText (.path [97]) := by
  intro r
  obtain ⟨e, tag, exchanges⟩ :=
    exchanged_treeScript [(.named "demo::Tree", Value.treeScript)] .path (by decide)
  have text : (Text.ofBytes? [97]).isSome = true := by decide +kernel
  exact ⟨e, tag.trans (by decide), exchanges, text⟩

end CodecRegistry

end BeanStream
