import BeanStream.Derive.Bean
import Mathlib.Data.List.Forall2

/-!
# The properties of derived beans

A field whose options have been read makes a property unless it is skipped. The property is
**named** by the rename option, else by the identifier without the mark of raw ones, else by the
number of the field among all fields (`ReadField.Names`), and is read off an instance under the name
that the very field has there (`Property.Describes`).

Names are checked twice, by two implementations: where a bean is derived, against the names in
front, which are gathered from the last to the first (`ofFieldsFrom_eq_ok_iff`); and where it is
described, against those gathered from the first to the last (`Descriptor.validate_eq_ok_iff`). Both
accept the same names.

Main fact: **a struct is accepted exactly if the names of the kept fields are there and differ**;
then its properties are these fields in order, and no description of it is refused at run time
(`ofItem_keeps_fields`).
-/

namespace BeanStream.Derive

open Source

/-- A field with the settings that its attributes make. -/
structure ReadField where
  declaration : FieldDeclaration
  settings : FieldSettings
  reads : FieldSettings.ofAttributes declaration.attributes = .ok settings

namespace ReadField

/-- The names of properties. The number of the field is `slot`. -/
inductive Names (f : ReadField) (slot : Nat) : String → Prop
  | renamed {name} (rename : f.settings.rename = some name) : Names f slot name
  | raw {name} (kept : f.settings.rename = none)
      (ident : f.declaration.name = some ("r#" ++ name)) : Names f slot name
  | plain {name} (kept : f.settings.rename = none) (ident : f.declaration.name = some name)
      (plain : ¬ ∃ rest, name = "r#" ++ rest) : Names f slot name
  | number (kept : f.settings.rename = none) (unnamed : f.declaration.name = none) :
      Names f slot (toString slot)

/-- The property of a field. -/
def property (f : ReadField) (slot : Nat) : Property where
  name := f.declaration.propertyName slot f.settings
  slot
  member := f.declaration.member slot
  type := f.declaration.type

/-- The fields that are not skipped, each with its number among all fields from number `slot` on. -/
def kept (fields : List ReadField) (slot : Nat) : List (ReadField × Nat) :=
  (fields.zipIdx slot).filter fun (f, _) => !f.settings.skip

end ReadField

/-- The property is named for the field with number `slot`, and leads to that field. -/
structure Property.Describes (p : Property) (f : ReadField) (slot : Nat) : Prop where
  name : f.Names slot p.name
  place : p.slot = slot
  named : ∀ ident, f.declaration.name = some ident → p.member = ident
  numbered : f.declaration.name = none → p.member = toString slot
  type : p.type = f.declaration.type

/-! ### Names -/

/-- The mark of raw identifiers is left out. -/
theorem plainName_raw (name : String) : plainName ("r#" ++ name) = name := by
  simp [plainName, String.toList_append]

theorem plainName_of_not_raw {name : String} (plain : ¬ ∃ rest, name = "r#" ++ rest) :
    plainName name = name := by
  unfold plainName
  split
  · rename_i rest raw
    refine absurd ⟨String.ofList rest, ?_⟩ plain
    rw [← String.toList_inj, raw]
    simp
  · rfl

/-- A field names its property in one way. -/
theorem ReadField.names_iff {f : ReadField} {slot : Nat} {name : String} :
    f.Names slot name ↔ name = f.declaration.propertyName slot f.settings := by
  unfold FieldDeclaration.propertyName
  constructor
  · rintro (rename | ⟨kept, ident⟩ | ⟨kept, ident, plain⟩ | ⟨kept, unnamed⟩)
    · rw [rename, Option.getD_some]
    · rw [kept, ident]
      exact (plainName_raw name).symm
    · rw [kept, ident]
      exact (plainName_of_not_raw plain).symm
    · rw [kept, unnamed]
      rfl
  · rintro rfl
    rcases kept : f.settings.rename with _ | literal
    · rcases ident : f.declaration.name with _ | name
      · exact .number kept ident
      · change Names f slot (plainName name)
        by_cases raw : ∃ rest, name = "r#" ++ rest
        · obtain ⟨rest, rfl⟩ := raw
          rw [plainName_raw]
          exact .raw kept ident
        · rw [plainName_of_not_raw raw]
          exact .plain kept ident raw
    · exact .renamed kept

/-- A field is described by one property. -/
theorem Property.describes_iff {p : Property} {f : ReadField} {slot : Nat} :
    p.Describes f slot ↔ p = f.property slot := by
  constructor
  · intro h
    obtain ⟨name, slot', member, type⟩ := p
    obtain rfl : slot' = slot := h.place
    obtain rfl : type = f.declaration.type := h.type
    obtain rfl := ReadField.names_iff.1 h.name
    suffices member = f.declaration.member slot' by rw [this]; rfl
    rcases ident : f.declaration.name with _ | ident'
    · rw [FieldDeclaration.member, ident]
      exact h.numbered ident
    · rw [FieldDeclaration.member, ident]
      exact h.named ident' ident
  · rintro rfl
    refine ⟨ReadField.names_iff.2 rfl, rfl, fun ident named => ?_, fun unnamed => ?_, rfl⟩
    · exact congrArg (Option.getD · (toString slot)) named
    · exact congrArg (Option.getD · (toString slot)) unnamed

/-! ### Fields -/

namespace Property

open ReadField

variable {f : ReadField} {fields : List ReadField} {slot : Nat} {earlier : List String}

/-- A skipped field makes no property, but has a number. -/
theorem ofFieldsFrom_skipped {fs : List FieldDeclaration} (skip : f.settings.skip = true) :
    ofFieldsFrom slot earlier (f.declaration :: fs) = ofFieldsFrom (slot + 1) earlier fs := by
  rw [ofFieldsFrom, f.reads]
  exact if_pos skip

/-- Any other field makes one in front of the others, if it is named well. -/
theorem ofFieldsFrom_kept_eq_ok_iff {fs : List FieldDeclaration} {ps : List Property}
    (skip : f.settings.skip = false) :
    ofFieldsFrom slot earlier (f.declaration :: fs) = .ok ps ↔
      (f.property slot).name ≠ "" ∧ (f.property slot).name ∉ earlier ∧
      ∃ rest, ofFieldsFrom (slot + 1) ((f.property slot).name :: earlier) fs = .ok rest ∧
        ps = f.property slot :: rest := by
  have steps : ofFieldsFrom slot earlier (f.declaration :: fs) =
      if (f.property slot).name = "" then .error .emptyName
      else if (f.property slot).name ∈ earlier then
        .error (.duplicateName (f.property slot).name)
      else (f.property slot :: ·) <$>
        ofFieldsFrom (slot + 1) ((f.property slot).name :: earlier) fs := by
    rw [ofFieldsFrom, f.reads]
    change (if _ then _ else _) = _
    rw [if_neg (by simp [skip])]
    rfl
  rw [steps]
  split
  · rename_i empty
    exact iff_of_false nofun fun h => h.1 empty
  split
  · rename_i taken
    exact iff_of_false nofun fun h => h.2.1 taken
  rename_i there free
  rcases ofFieldsFrom (slot + 1) ((f.property slot).name :: earlier) fs with fault | rest
  · exact iff_of_false nofun fun ⟨_, _, _, made, _⟩ => nomatch made
  · constructor
    · rintro ⟨⟩
      exact ⟨there, free, rest, rfl, rfl⟩
    · rintro ⟨-, -, _, ⟨⟩, rfl⟩
      rfl

/-- Properties are made of fields exactly if their names are there, differ, and are not taken. -/
theorem ofFieldsFrom_eq_ok_iff {ps : List Property} :
    ofFieldsFrom slot earlier (fields.map declaration) = .ok ps ↔
      ps = (kept fields slot).map (fun k => k.1.property k.2) ∧
      (∀ p ∈ ps, p.name ≠ "" ∧ p.name ∉ earlier) ∧ (ps.map Property.name).Nodup := by
  induction fields generalizing slot earlier ps with
  | nil =>
    constructor
    · rintro ⟨⟩
      simp [kept]
    · rintro ⟨rfl, -⟩
      rfl
  | cons f fields ih =>
    rw [List.map_cons]
    cases skip : f.settings.skip with
    | true =>
      rw [ofFieldsFrom_skipped skip, ih]
      simp [kept, skip]
    | false =>
      have keeps : kept (f :: fields) slot = (f, slot) :: kept fields (slot + 1) := by
        simp [kept, skip]
      rw [ofFieldsFrom_kept_eq_ok_iff skip, keeps, List.map_cons]
      dsimp only
      generalize f.property slot = p
      constructor
      · rintro ⟨there, free, rest, made, rfl⟩
        obtain ⟨rfl, named, distinct⟩ := ih.1 made
        simp only [List.mem_cons, not_or] at named
        refine ⟨rfl, List.forall_mem_cons.2 ⟨⟨there, free⟩,
          fun q mem => ⟨(named q mem).1, (named q mem).2.2⟩⟩, ?_⟩
        rw [List.map_cons, List.nodup_cons, List.mem_map]
        exact ⟨fun ⟨q, mem, same⟩ => (named q mem).2.1 same, distinct⟩
      · rintro ⟨rfl, named, distinct⟩
        obtain ⟨⟨there, free⟩, named⟩ := List.forall_mem_cons.1 named
        rw [List.map_cons, List.nodup_cons, List.mem_map] at distinct
        refine ⟨there, free, _, ih.2 ⟨rfl, fun q mem => ⟨(named q mem).1, ?_⟩, distinct.2⟩, rfl⟩
        rw [List.mem_cons, not_or]
        exact ⟨fun same => distinct.1 ⟨q, mem, same⟩, (named q mem).2⟩

/-- The properties of fields, if they are named well, describe the fields that are kept. -/
theorem forall₂_describes_iff {ps : List Property} {k : List (ReadField × Nat)} :
    List.Forall₂ (fun k p => p.Describes k.1 k.2) k ps ↔
      ps = k.map fun k => k.1.property k.2 := by
  simp only [describes_iff]
  rw [eq_comm, ← List.forall₂_eq_eq_eq, List.forall₂_map_left_iff]
  simp only [eq_comm]

end Property

/-! ### Beans -/

/-- A struct whose options are read is accepted if its properties are made. -/
theorem Bean.ofItem_eq_ok_iff {item : Item} {settings : TypeSettings}
    {fields : List FieldDeclaration} {b : Bean} (body : item.body = .struct fields)
    (read : TypeSettings.ofAttributes item.attributes = .ok settings)
    (own : settings.typePath = none ∨ item.generics.isFamily = false) :
    ofItem item = .ok b ↔
      ∃ ps, Property.ofFields fields = .ok ps ∧ b = ⟨item.name, item.generics, settings, ps⟩ := by
  have single : (settings.typePath.isSome && item.generics.isFamily) = false := by
    rcases own with none | one
    · rw [none]; rfl
    · rw [one, Bool.and_false]
  have steps : ofItem item =
      (Property.ofFields fields).map (⟨item.name, item.generics, settings, ·⟩) := by
    rw [ofItem, read]
    simp only [body]
    change (if _ then _ else _) = _
    rw [single]
    rfl
  rw [steps]
  rcases Property.ofFields fields with fault | ps
  · exact iff_of_false nofun fun ⟨_, made, _⟩ => nomatch made
  · constructor
    · rintro ⟨⟩
      exact ⟨ps, rfl, rfl⟩
    · rintro ⟨_, ⟨⟩, rfl⟩
      rfl

/-- A struct with readable options, and with no type path for a family of types, is accepted exactly
if the names of the fields that are not skipped are there and differ. It has the properties of these
fields then, in their order; and its fields pass the check of descriptions, whatever it is called,
so that the promise behind its descriptor is kept. -/
theorem ofItem_keeps_fields {item : Item} {settings : TypeSettings} {fields : List ReadField}
    (body : item.body = .struct (fields.map ReadField.declaration))
    (read : TypeSettings.ofAttributes item.attributes = .ok settings)
    (own : settings.typePath = none ∨ ∀ p ∈ item.generics.params, p.isLifetime = true) :
    ((∃ b, Bean.ofItem item = .ok b) ↔
      ∃ ps, List.Forall₂ (fun k p => p.Describes k.1 k.2) (ReadField.kept fields 0) ps ∧
        (∀ p ∈ ps, p.name ≠ "") ∧ (ps.map Property.name).Nodup) ∧
    ∀ b, Bean.ofItem item = .ok b →
      List.Forall₂ (fun k p => p.Describes k.1 k.2) (ReadField.kept fields 0) b.properties ∧
      ∀ type path conventions, Descriptor.validate path b.fields = .ok () ∧
        Descriptor.ofFields type path b.fields conventions =
          .ok ⟨type, path, b.fields, conventions⟩ := by
  have own : settings.typePath = none ∨ item.generics.isFamily = false :=
    own.imp_right fun lifetimes => List.any_eq_false.2 fun p mem => by simp [lifetimes p mem]
  have made {ps : List Property} : Property.ofFields (fields.map ReadField.declaration) = .ok ps ↔
      List.Forall₂ (fun k p => p.Describes k.1 k.2) (ReadField.kept fields 0) ps ∧
        (∀ p ∈ ps, p.name ≠ "") ∧ (ps.map Property.name).Nodup := by
    rw [Property.ofFields, Property.ofFieldsFrom_eq_ok_iff, Property.forall₂_describes_iff]
    simp
  constructor
  · simp only [Bean.ofItem_eq_ok_iff body read own, made]
    constructor
    · rintro ⟨b, ps, good, -⟩
      exact ⟨ps, good⟩
    · rintro ⟨ps, good⟩
      exact ⟨_, ps, good, rfl⟩
  · intro b accepted
    obtain ⟨ps, good, rfl⟩ := (Bean.ofItem_eq_ok_iff body read own).1 accepted
    obtain ⟨describes, named, distinct⟩ := made.1 good
    refine ⟨describes, fun type path conventions => ?_⟩
    have valid : Descriptor.validate path
        (Bean.fields ⟨item.name, item.generics, settings, ps⟩) = .ok () := by
      rw [Descriptor.validate_eq_ok_iff, Bean.fields, List.forall_mem_map, List.map_map]
      exact ⟨named, distinct⟩
    exact ⟨valid, by rw [Descriptor.ofFields, valid]⟩

/-- `struct S { r#type: A, #[bean(skip)] b: B, #[bean(rename = "1")] c: C }` has the properties
`type` and `1`, of which the second is the third field. -/
theorem ofItem_keeps_fields_renumbered :
    let bean (options : List Token) : List Attribute := [⟨[.ident "bean"], .list options⟩]
    let fields : List FieldDeclaration :=
      [⟨some "r#type", words ["A"], []⟩, ⟨some "b", words ["B"], bean [.ident "skip"]⟩,
        ⟨some "c", words ["C"], bean [.ident "rename", .mark '=' false, string "1"]⟩]
    let item : Item := { name := "S", body := .struct fields }
    ∃ b, Bean.ofItem item = .ok b ∧ b.fields = [⟨"type", 0⟩, ⟨"1", 2⟩] ∧
      ∀ type path conventions, Descriptor.ofFields type path b.fields conventions =
        .ok ⟨type, path, b.fields, conventions⟩ := by
  intro bean fields item
  let reads : List ReadField :=
    [⟨⟨some "r#type", words ["A"], []⟩, {}, rfl⟩,
      ⟨⟨some "b", words ["B"], bean [.ident "skip"]⟩, { skip := true }, rfl⟩,
      ⟨⟨some "c", words ["C"], bean [.ident "rename", .mark '=' false, string "1"]⟩,
        { rename := some "1" }, rfl⟩]
  have facts := @ofItem_keeps_fields item _ reads rfl rfl (.inl rfl)
  obtain ⟨b, accepted⟩ : ∃ b, Bean.ofItem item = .ok b :=
    facts.1.2 ⟨_, Property.forall₂_describes_iff.2 rfl, by decide +kernel, by decide +kernel⟩
  obtain ⟨describes, described⟩ := facts.2 b accepted
  refine ⟨b, accepted, ?_, fun type path conventions => (described type path conventions).2⟩
  rw [Bean.fields, Property.forall₂_describes_iff.1 describes]
  decide +kernel

end BeanStream.Derive
