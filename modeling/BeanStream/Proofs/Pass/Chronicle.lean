import BeanStream.Proofs.Pass.Advance
import BeanStream.Proofs.Pass.Spelling

/-!
# What a pass has done

What a pass has done is told as a tree: what was written of a value is its **imprint** (`Imprint`),
and what became of a property is a **deed** (`Deed`). Both may be complete, or have been broken off.
A tree has bytes, and the lines that are logged while it grows: **a property is told of when it is
complete**, so behind all that is inside of it, and one that is left out where it would have been.

Which tree it is depends on the value only, and on the place where the pass was broken off, if it
was (`Leaves`). That is told in terms of what is remembered, without a pass. A tree is complete if
something is remembered behind it.

Main fact: in the lines of a tree, there is **one line for each complete property** at any nesting,
and one for each that was left out, and none for any other (`Imprint.countP_lines`).
-/

namespace BeanStream

open Wire

/-! ### Imprints and deeds -/

mutual

/-- What was written of a value. -/
inductive Imprint where
  /-- The tag of absence. -/
  | null
  /-- A part of the tag, or of what else stands in front of the properties or elements. -/
  | head (part : List UInt8)
  /-- The tag of a codec, and what the codec wrote. -/
  | codec (tag : Nat) (payload : List UInt8)
  /-- The tag of beans, the type path, the properties, and what was written of the empty name. -/
  | bean (path : String) (deeds : List Deed) (ending : List UInt8)
  /-- The tag of sequences, the number of elements, and what was written of them. -/
  | sequence (count : Nat) (items : List Imprint)

/-- What became of a property. -/
inductive Deed where
  /-- It is complete. Its value has this type path, unless it is absent. -/
  | written (kind : PropertyKind) (name : String) (typePath : Option String) (value : Imprint)
  /-- It was left out. -/
  | omitted (kind : PropertyKind) (name typePath : String)
  /-- It was broken off behind its name. -/
  | broken (kind : PropertyKind) (name : String) (value : Imprint)
  /-- It was broken off in front of the end of its name. -/
  | unnamed (part : List UInt8)

end

/-- The form of a tag. -/
def Tag.bytes (tag : Nat) : List UInt8 := (Primitive.tag (BitVec.ofNat 32 tag)).encoding

mutual

/-- The bytes of an imprint. -/
def Imprint.bytes : Imprint → List UInt8
  | .null => Tag.bytes Tag.null
  | .head part => part
  | .codec tag payload => Tag.bytes tag ++ payload
  | .bean path deeds ending =>
    Tag.bytes Tag.bean ++ ((Primitive.string path).encoding ++ (Deed.bytesOf deeds ++ ending))
  | .sequence count items =>
    Tag.bytes Tag.sequence ++ ((Primitive.len count).encoding ++ Imprint.bytesOf items)

/-- The bytes of a deed. -/
def Deed.bytes : Deed → List UInt8
  | .written _ name _ value => (Primitive.string name).encoding ++ value.bytes
  | .omitted _ _ _ => []
  | .broken _ name value => (Primitive.string name).encoding ++ value.bytes
  | .unnamed part => part

/-- The bytes of deeds in a row. -/
def Deed.bytesOf : List Deed → List UInt8
  | [] => []
  | d :: ds => d.bytes ++ Deed.bytesOf ds

/-- The bytes of imprints in a row. -/
def Imprint.bytesOf : List Imprint → List UInt8
  | [] => []
  | i :: is => i.bytes ++ Imprint.bytesOf is

end

/-- The line that tells of a deed, at this place. -/
def Deed.line? (place : Trace) : Deed → Option LogLine
  | .written kind name typePath _ => some (.written (.property kind name :: place) typePath)
  | .omitted kind name typePath => some (.omitted (.property kind name :: place) typePath)
  | .broken .. | .unnamed _ => none

mutual

/-- The lines of an imprint at a place: those of the properties inside. -/
def Imprint.lines (place : Trace) : Imprint → List LogLine
  | .bean path deeds _ => Deed.linesOf (.bean path :: place) deeds
  | .sequence _ items => Imprint.linesFrom place 0 items
  | .null | .head _ | .codec .. => []

/-- The lines of a deed at a place: those of what is inside, and then its own. -/
def Deed.lines (place : Trace) : Deed → List LogLine
  | .written kind name typePath value =>
    value.lines (.property kind name :: place) ++
      ((Deed.written kind name typePath value).line? place).toList
  | .omitted kind name typePath => ((Deed.omitted kind name typePath).line? place).toList
  | .broken kind name value => value.lines (.property kind name :: place)
  | .unnamed _ => []

/-- The lines of deeds in a row. -/
def Deed.linesOf (place : Trace) : List Deed → List LogLine
  | [] => []
  | d :: ds => d.lines place ++ Deed.linesOf place ds

/-- The lines of the elements of a sequence, from this index on. -/
def Imprint.linesFrom (place : Trace) (index : Nat) : List Imprint → List LogLine
  | [] => []
  | i :: is => i.lines (.element index :: place) ++ Imprint.linesFrom place (index + 1) is

end

mutual

/-- How many deeds of some sort there are inside of an imprint, at any nesting. -/
def Imprint.count (sort : Deed → Bool) : Imprint → Nat
  | .bean _ deeds _ => Deed.countOf sort deeds
  | .sequence _ items => Imprint.countOf sort items
  | .null | .head _ | .codec .. => 0

/-- How many deeds of some sort there are, this one included, at any nesting. -/
def Deed.count (sort : Deed → Bool) : Deed → Nat
  | .written kind name typePath value =>
    value.count sort + (sort (.written kind name typePath value)).toNat
  | .omitted kind name typePath => (sort (.omitted kind name typePath)).toNat
  | .broken kind name value => value.count sort + (sort (.broken kind name value)).toNat
  | .unnamed part => (sort (.unnamed part)).toNat

/-- How many deeds of some sort there are in a row of deeds. -/
def Deed.countOf (sort : Deed → Bool) : List Deed → Nat
  | [] => 0
  | d :: ds => d.count sort + Deed.countOf sort ds

/-- How many deeds of some sort there are inside of a row of imprints. -/
def Imprint.countOf (sort : Deed → Bool) : List Imprint → Nat
  | [] => 0
  | i :: is => i.count sort + Imprint.countOf sort is

end

mutual

/-- The payloads of codecs inside of an imprint, with the tags of the codecs. -/
def Imprint.payloads : Imprint → List (Nat × List UInt8)
  | .codec tag payload => [(tag, payload)]
  | .bean _ deeds _ => Deed.payloadsOf deeds
  | .sequence _ items => Imprint.payloadsOf items
  | .null | .head _ => []

/-- The payloads of codecs in the value of a property. -/
def Deed.payloads : Deed → List (Nat × List UInt8)
  | .written _ _ _ value | .broken _ _ value => value.payloads
  | .omitted .. | .unnamed _ => []

/-- The payloads of codecs in properties in a row. -/
def Deed.payloadsOf : List Deed → List (Nat × List UInt8)
  | [] => []
  | d :: ds => d.payloads ++ Deed.payloadsOf ds

/-- The payloads of codecs in imprints in a row. -/
def Imprint.payloadsOf : List Imprint → List (Nat × List UInt8)
  | [] => []
  | i :: is => i.payloads ++ Imprint.payloadsOf is

end

/-- Whether the property is complete. -/
def Deed.isWritten : Deed → Bool
  | .written .. => true
  | _ => false

/-- Whether the property was left out. -/
def Deed.isOmitted : Deed → Bool
  | .omitted .. => true
  | _ => false

/-! ### Lines and deeds -/

section Count

variable {tells : LogLine → Bool} {sort : Deed → Bool}

private theorem countP_toList {α : Type} (p : α → Bool) (o : Option α) :
    o.toList.countP p = (o.any p).toNat := by
  cases o with
  | none => rfl
  | some a => cases h : p a <;> simp [h]

mutual

/-- Where lines of some sort tell of deeds of some sort, there are as many of the ones as of the
others. -/
theorem Imprint.countP_lines (told : ∀ place d, (Deed.line? place d).any tells = sort d)
    (place : Trace) : (i : Imprint) → (i.lines place).countP tells = i.count sort
  | .bean path deeds _ => by
    rw [Imprint.lines, Imprint.count]
    exact Deed.countP_linesOf told (.bean path :: place) deeds
  | .sequence _ items => by
    rw [Imprint.lines, Imprint.count]
    exact Imprint.countP_linesFrom told place 0 items
  | .null | .head _ | .codec .. => by
    rw [Imprint.lines, Imprint.count]
    rfl

theorem Deed.countP_lines (told : ∀ place d, (Deed.line? place d).any tells = sort d)
    (place : Trace) : (d : Deed) → (d.lines place).countP tells = d.count sort
  | .written kind name typePath value => by
    rw [Deed.lines, Deed.count, List.countP_append, Imprint.countP_lines told _ value,
      countP_toList, told]
  | .omitted kind name typePath => by
    rw [Deed.lines, Deed.count, countP_toList, told]
  | .broken kind name value => by
    rw [Deed.lines, Deed.count, Imprint.countP_lines told _ value, ← told place]
    rfl
  | .unnamed part => by
    rw [Deed.lines, Deed.count, ← told place]
    rfl

theorem Deed.countP_linesOf (told : ∀ place d, (Deed.line? place d).any tells = sort d)
    (place : Trace) : (ds : List Deed) → (Deed.linesOf place ds).countP tells = Deed.countOf sort ds
  | [] => by
    rw [Deed.linesOf, Deed.countOf]
    rfl
  | d :: ds => by
    rw [Deed.linesOf, Deed.countOf, List.countP_append, d.countP_lines told,
      Deed.countP_linesOf told place ds]

theorem Imprint.countP_linesFrom (told : ∀ place d, (Deed.line? place d).any tells = sort d)
    (place : Trace) (index : Nat) : (is : List Imprint) →
      (Imprint.linesFrom place index is).countP tells = Imprint.countOf sort is
  | [] => by
    rw [Imprint.linesFrom, Imprint.countOf]
    rfl
  | i :: is => by
    rw [Imprint.linesFrom, Imprint.countOf, List.countP_append, i.countP_lines told,
      Imprint.countP_linesFrom told place (index + 1) is]

end

end Count

/-- The lines that tell of complete properties. -/
theorem Deed.any_not_isOmission_line? (place : Trace) (d : Deed) :
    (d.line? place).any (!·.isOmission) = d.isWritten := by
  cases d <;> rfl

/-- The lines that tell of properties that were left out. -/
theorem Deed.any_isOmission_line? (place : Trace) (d : Deed) :
    (d.line? place).any LogLine.isOmission = d.isOmitted := by
  cases d <;> rfl

/-! ### Which tree it is -/

/-- In every pass, the script may end in a failure with these bytes written: its own, or one of the
output. -/
def Script.Fails (s : Script) (part : List UInt8) : Prop :=
  ∃ (pieces : List (List UInt8)) (ending : Except CodecError Unit),
    s.Performs pieces ending ∧
      (Cut part pieces.flatten ∨ part = pieces.flatten ∧ ∃ reason, ending = .error reason)

mutual

/-- What is written of a value by its action, where `n` beans are nested already, and what is
remembered if that is all of it. -/
inductive Leaves (env : Env) : (n : Nat) → Memory → Action → Imprint → Option Memory → Prop
  | null (n c) : Leaves env n c .null .null (some c)
  | head {n c a part} (cut : Cut part a.mark) : Leaves env n c a (.head part) none
  | codec {n c e v bs} (type : v.typeId = e.type) (codec : (e.codec v).Spells bs) :
    Leaves env n c (.codec e v) (.codec e.tag bs) (some c)
  | failed {n c e v part} (type : v.typeId = e.type) (codec : (e.codec v).Fails part) :
    Leaves env n c (.codec e v) (.codec e.tag part) none
  | foreign {n c e v} (type : v.typeId ≠ e.type) :
    Leaves env n c (.codec e v) (.codec e.tag []) none
  | path {n c d v part} (cut : Cut part (Primitive.string d.path).encoding) :
    Leaves env n c (.bean d v) (.head (Tag.bytes Tag.bean ++ part)) none
  | bean {n c d v deeds ending r} (fields : BeanLeaves env n c d v deeds ending r) :
    Leaves env n c (.bean d v) (.bean d.path deeds ending) r
  | count {n c items part} (cut : Cut part (Primitive.len items.length).encoding) :
    Leaves env n c (.sequence items) (.head (Tag.bytes Tag.sequence ++ part)) none
  | sequence {n c items imprints r} (row : RowLeaves env n c items imprints r) :
    Leaves env n c (.sequence items) (.sequence items.length imprints) r

/-- What becomes of the properties of an instance `v` of a bean, and what is written of their end.
-/
inductive BeanLeaves (env : Env) :
    (n : Nat) → Memory → Descriptor → Value → List Deed → List UInt8 → Option Memory → Prop
  | tooDeep {n c d v} (deep : env.settings.maxDepth ≤ n) : BeanLeaves env n c d v [] [] none
  | broken {n c d v deeds} (within : n < env.settings.maxDepth)
      (fields : FieldsLeave env (n + 1) c d v d.fields deeds none) :
      BeanLeaves env n c d v deeds [] none
  | unended {n c d v deeds c' part} (within : n < env.settings.maxDepth)
      (fields : FieldsLeave env (n + 1) c d v d.fields deeds (some c'))
      (cut : Cut part (Primitive.string "").encoding) : BeanLeaves env n c d v deeds part none
  | ended {n c d v deeds c'} (within : n < env.settings.maxDepth)
      (fields : FieldsLeave env (n + 1) c d v d.fields deeds (some c')) :
      BeanLeaves env n c d v deeds (Primitive.string "").encoding (some c')

/-- What becomes of fields in a row. -/
inductive FieldsLeave (env : Env) :
    (n : Nat) → Memory → Descriptor → Value → List Field → List Deed → Option Memory → Prop
  | nil (n c d v) : FieldsLeave env n c d v [] [] (some c)
  | broken {n c d v f fs deeds}
      (first : PropertyLeaves env n .field f.name (c.Effective env d v f) deeds none) :
      FieldsLeave env n c d v (f :: fs) deeds none
  | cons {n c d v f fs deeds c₁ more r}
      (first : PropertyLeaves env n .field f.name (c.Effective env d v f) deeds (some c₁))
      (others : FieldsLeave env n c₁ d v fs more r) :
      FieldsLeave env n c d v (f :: fs) (deeds ++ more) r

/-- What becomes of a property that is to have a value with `IsValue`: nothing at all if there is
none, or no name. -/
inductive PropertyLeaves (env : Env) : (n : Nat) → PropertyKind → String →
    (IsValue : Option Value → Memory → Prop) → List Deed → Option Memory → Prop
  | nameless {n kind IsValue} : PropertyLeaves env n kind "" IsValue [] none
  | valueless {n kind name} {IsValue : Option Value → Memory → Prop}
      (none_is : ∀ w c, ¬ IsValue w c) : PropertyLeaves env n kind name IsValue [] none
  | deed {n kind name w c deed r} {IsValue : Option Value → Memory → Prop} (named : name ≠ "")
      (value : IsValue w c) (leaves : DeedLeaves env n kind name c w deed r) :
      PropertyLeaves env n kind name IsValue [deed] r

/-- What becomes of a property with the unwrapped value `w`. -/
inductive DeedLeaves (env : Env) : (n : Nat) → PropertyKind → String → Memory → Option Value →
    Deed → Option Memory → Prop
  | omitted {n kind name c w c'} (lenient : env.settings.missing = .warn)
      (nothing : c.Chooses env w none c') :
      DeedLeaves env n kind name c w (.omitted kind name (Pass.typePathOf env w)) (some c')
  | missing {n kind name c w c'} (strict : env.settings.missing = .fail)
      (nothing : c.Chooses env w none c') : DeedLeaves env n kind name c w (.unnamed []) none
  /-- No answer is given. -/
  | undecided {n kind name c w} (never : ∀ a c', ¬ c.Chooses env w a c') :
      DeedLeaves env n kind name c w (.unnamed []) none
  | unnamed {n kind name c w a c' part} (chooses : c.Chooses env w (some a) c')
      (cut : Cut part (Primitive.string name).encoding) :
      DeedLeaves env n kind name c w (.unnamed part) none
  | broken {n kind name c w a c' value} (chooses : c.Chooses env w (some a) c')
      (leaves : Leaves env n c' a value none) :
      DeedLeaves env n kind name c w (.broken kind name value) none
  | written {n kind name c w a c₁ value c'} (chooses : c.Chooses env w (some a) c₁)
      (leaves : Leaves env n c₁ a value (some c')) :
      DeedLeaves env n kind name c w
        (.written kind name (w.map (Value.typePath env.decls)) value) (some c')

/-- What is written of elements in a row. -/
inductive RowLeaves (env : Env) :
    (n : Nat) → Memory → List Value → List Imprint → Option Memory → Prop
  | nil (n c) : RowLeaves env n c [] [] (some c)
  | broken {n c v vs imprints} (first : ElementLeaves env n c v imprints none) :
      RowLeaves env n c (v :: vs) imprints none
  | cons {n c v vs imprints c₁ more r} (first : ElementLeaves env n c v imprints (some c₁))
      (others : RowLeaves env n c₁ vs more r) : RowLeaves env n c (v :: vs) (imprints ++ more) r

/-- What is written of an element: nothing at all if there is no way to write it. -/
inductive ElementLeaves (env : Env) :
    (n : Nat) → Memory → Value → List Imprint → Option Memory → Prop
  | unwritable {n c v}
      (never : ∀ w c₁ a c₂, c.Unwraps env (some v) w c₁ → ¬ c₁.Chooses env w (some a) c₂) :
      ElementLeaves env n c v [] none
  | imprint {n c v w c₁ a c₂ i r} (unwraps : c.Unwraps env (some v) w c₁)
      (chooses : c₁.Chooses env w (some a) c₂) (leaves : Leaves env n c₂ a i r) :
      ElementLeaves env n c v [i] r

end

/-- Whether a call writes properties, and not a value. -/
def Call.Streams : Call → Prop
  | .value _ => False
  | .property .. | .bean _ => True

/-- What becomes of the properties that a call writes, in these frames, and what is written of their
end. -/
inductive Call.Leaves (env : Env) (n : Nat) (c : Memory) :
    Call → (frames : Trace) → List Deed → (ending : List UInt8) → Option Memory → Prop
  | property {name v kind deeds r}
      (leaves : PropertyLeaves env n kind name (c.Unwraps env v) deeds r) :
      Leaves env n c (.property name v kind) [] deeds [] r
  | bean {v d beans deeds ending r}
      (writer : Beans.writer? env.decls v.typeId c.beans = .ok (some d) beans)
      (leaves : BeanLeaves env n { c with beans } d v deeds ending r) :
      Leaves env n c (.bean v) [.bean d.path] deeds ending r
  | unknown {v}
      (never : ∀ d beans, Beans.writer? env.decls v.typeId c.beans ≠ .ok (some d) beans) :
      Leaves env n c (.bean v) [] [] [] none

end BeanStream
