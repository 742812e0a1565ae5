import BeanStream.Derive.Implementation
import BeanStream.Proofs.Derive.Properties

/-!
# Clauses of derived implementations

A derived implementation states in its clause what it needs of the types that are put in for the
parameters. Of the type itself that is what the kinds of its parameters ask for (`SelfBound`), then
come the predicates of the declaration; and an implementation of beans needs the type of every field
that it describes to be one of values, **if that type depends on a type parameter**, which means
that the name of one occurs in it, in whatever brackets (`Occurs`, `ReadField.NeedsBound`).

A bound that is missing here, or one too many, is seen only where the derived text is compiled, and
there only for the types that come in.

Main fact: the clauses of an accepted declaration state exactly these predicates, in this order, and
there is no clause exactly if there are none (`clauses_of_accepted`).
-/

namespace BeanStream

namespace Source

/-- A name occurs in tokens, in whatever brackets. -/
inductive Occurs (name : String) : List Token → Prop
  | here {ts} : Occurs name (.ident name :: ts)
  | inside {d body ts} (inner : Occurs name body) : Occurs name (.group d body :: ts)
  | behind {t ts} (later : Occurs name ts) : Occurs name (t :: ts)

mutual

private theorem Token.occurs_of_mem_names {name : String} :
    (t : Token) → name ∈ t.names → ∀ ts, Occurs name (t :: ts)
  | .ident _, mem, _ => by
    rw [Token.names, List.mem_singleton] at mem
    exact mem ▸ .here
  | .group _ body, mem, _ => by
    rw [Token.names] at mem
    exact .inside (occurs_of_mem_namesIn body mem)
  | .mark _ _, mem, _ => by simp [Token.names] at mem
  | .literal _ _, mem, _ => by simp [Token.names] at mem

private theorem occurs_of_mem_namesIn {name : String} :
    (ts : List Token) → name ∈ namesIn ts → Occurs name ts
  | [], mem => by simp [namesIn] at mem
  | t :: ts, mem => by
    rw [namesIn, List.mem_append] at mem
    exact mem.elim (fun first => Token.occurs_of_mem_names t first ts)
      fun later => .behind (occurs_of_mem_namesIn ts later)

end

/-- The names that occur in tokens are the ones that are collected from them. -/
theorem occurs_iff {name : String} {ts : List Token} : Occurs name ts ↔ name ∈ namesIn ts := by
  refine ⟨fun occurs => ?_, occurs_of_mem_namesIn ts⟩
  induction occurs with
  | here => simp [namesIn, Token.names]
  | inside _ ih => simp [namesIn, Token.names, ih]
  | behind _ ih => simp [namesIn, ih]

end Source

namespace Derive

open Source

/-! ### Predicates -/

/-- What an implementation needs of the type itself: with a type parameter, that it is known at run
time and shared between threads; with lifetimes and no type parameter, that it does not borrow. -/
inductive SelfBound (params : List Param) : List (List Token) → Prop
  | shared {name bounds} (generic : .type name bounds ∈ params) :
      SelfBound params [words ["Self"] ++ sign ":" ++ absolutePath ["core", "any", "Any"]
        ++ sign "+" ++ absolutePath ["core", "marker", "Send"]
        ++ sign "+" ++ absolutePath ["core", "marker", "Sync"]]
  | unborrowed {label bounds} (concrete : ∀ name bounds, .type name bounds ∉ params)
      (borrows : .lifetime label bounds ∈ params) :
      SelfBound params [words ["Self"] ++ sign ":" ++ lifetime "static"]
  | free (concrete : ∀ name bounds, .type name bounds ∉ params)
      (owned : ∀ label bounds, .lifetime label bounds ∉ params) : SelfBound params []

/-- An implementation of beans has a bound on the type of a field: it describes the field, and the
type depends on a type parameter. -/
def ReadField.NeedsBound (g : Generics) (f : ReadField) : Prop :=
  f.settings.skip = false ∧
    ∃ name bounds, .type name bounds ∈ g.params ∧ Occurs name f.declaration.type

/-- The bound on the type of a field. -/
def ReadField.bound (trait : List Token) (f : ReadField) : List Token :=
  f.declaration.type ++ sign ":" ++ trait

/-- Predicates with commas between them. -/
inductive Row : List (List Token) → List Token → Prop
  | last (p) : Row [p] p
  | next (p) {ps row} (others : Row ps row) : Row (p :: ps) (p ++ .mark ',' false :: row)

/-- A clause that states predicates. -/
inductive Clause : List (List Token) → List Token → Prop
  | none : Clause [] []
  | some {ps row} (stated : Row ps row) : Clause ps (.ident "where" :: row)

/-- An implementation of a trait for a declared type: the clause, which is empty exactly if there is
nothing to state, stands between the head and the body. -/
def ImplementsUnder (item : Item) (trait : List Token) (ps : List (List Token))
    (text : List Token) : Prop :=
  ∃ clause body, Clause ps clause ∧ (clause = [] ↔ ps = []) ∧
    text = words ["impl"] ++ parameterList Param.declared item.generics.params ++ trait
      ++ words ["for", item.name] ++ parameterList Param.applied item.generics.params
      ++ clause ++ braces body

/-! ### What is stated -/

theorem mem_typeNames_iff {g : Generics} {name : String} :
    name ∈ g.typeNames ↔ ∃ bounds, .type name bounds ∈ g.params := by
  rw [Generics.typeNames, List.mem_filterMap]
  constructor
  · rintro ⟨p, mem, named⟩
    cases p with
    | type name' bounds =>
      cases named
      exact ⟨bounds, mem⟩
    | lifetime | const => cases named
  · rintro ⟨bounds, mem⟩
    exact ⟨_, mem, rfl⟩

theorem typeNames_eq_nil_iff {g : Generics} :
    g.typeNames = [] ↔ ∀ name bounds, .type name bounds ∉ g.params := by
  rw [List.eq_nil_iff_forall_not_mem]
  simp only [mem_typeNames_iff, not_exists]

theorem any_isLifetime_iff {params : List Param} :
    params.any Param.isLifetime = true ↔ ∃ label bounds, .lifetime label bounds ∈ params := by
  rw [List.any_eq_true]
  constructor
  · rintro ⟨p, mem, lifetime⟩
    cases p with
    | lifetime label bounds => exact ⟨label, bounds, mem⟩
    | type | const => cases lifetime
  · rintro ⟨label, bounds, mem⟩
    exact ⟨_, mem, rfl⟩

/-- The bounds on the type itself are those that its parameters ask for. -/
theorem selfBound_ownBounds (g : Generics) : SelfBound g.params (ownBounds g) := by
  by_cases concrete : g.typeNames = []
  · have no_types : ∀ name bounds, .type name bounds ∉ g.params := typeNames_eq_nil_iff.1 concrete
    by_cases borrows : g.params.any Param.isLifetime = true
    · obtain ⟨label, bounds, mem⟩ := any_isLifetime_iff.1 borrows
      have own : ownBounds g = [words ["Self"] ++ sign ":" ++ lifetime "static"] := by
        simp [ownBounds, concrete, borrows]
      exact own ▸ .unborrowed no_types mem
    · have no_lifetimes : ∀ label bounds, .lifetime label bounds ∉ g.params :=
        fun label bounds mem => borrows (any_isLifetime_iff.2 ⟨label, bounds, mem⟩)
      have own : ownBounds g = [] := by simp [ownBounds, concrete, borrows]
      exact own ▸ .free no_types no_lifetimes
  · obtain ⟨name, mem⟩ := List.exists_mem_of_ne_nil _ concrete
    obtain ⟨bounds, generic⟩ := mem_typeNames_iff.1 mem
    rw [ownBounds, if_pos (by simp [concrete])]
    exact .shared generic

/-- Whether a field needs a bound is found out by searching its type. -/
theorem ReadField.needsBound_iff {g : Generics} {f : ReadField} :
    f.NeedsBound g ↔
      f.settings.skip = false ∧ mentions g.typeNames f.declaration.type = true := by
  refine and_congr_right fun _ => ?_
  rw [mentions_iff]
  constructor
  · rintro ⟨name, bounds, generic, occurs⟩
    exact ⟨name, occurs_iff.1 occurs, mem_typeNames_iff.2 ⟨bounds, generic⟩⟩
  · rintro ⟨name, mem, named⟩
    obtain ⟨bounds, generic⟩ := mem_typeNames_iff.1 named
    exact ⟨name, bounds, generic, occurs_iff.2 mem⟩

instance (g : Generics) : DecidablePred (ReadField.NeedsBound g) := fun _ =>
  decidable_of_iff _ ReadField.needsBound_iff.symm

/-- The fields that are kept, without their numbers, are those that are not skipped. -/
theorem ReadField.map_fst_kept (fields : List ReadField) (slot : Nat) :
    (kept fields slot).map Prod.fst = fields.filter fun f => !f.settings.skip := by
  have numbered : (fields.zipIdx slot).map Prod.fst = fields := List.zipIdx_map_fst slot fields
  calc (kept fields slot).map Prod.fst
      = ((fields.zipIdx slot).map Prod.fst).filter fun f => !f.settings.skip := by
        rw [kept, List.filter_map]; rfl
    _ = fields.filter fun f => !f.settings.skip := by rw [numbered]

/-- Of the types of the fields that are described, those are bounded that have to be. -/
theorem fieldBounds_kept (g : Generics) (trait : List Token) (fields : List ReadField)
    (slot : Nat) :
    fieldBounds g trait ((ReadField.kept fields slot).map fun k => (k.1.property k.2).type) =
      (fields.filter (·.NeedsBound g)).map (ReadField.bound trait) := by
  have types : ((ReadField.kept fields slot).map fun k => (k.1.property k.2).type) =
      (fields.filter fun f => !f.settings.skip).map fun f => f.declaration.type := by
    rw [← ReadField.map_fst_kept fields slot, List.map_map]
    rfl
  have needed (f : ReadField) : decide (f.NeedsBound g) =
      (mentions g.typeNames f.declaration.type && !f.settings.skip) := by
    rw [Bool.eq_iff_iff, decide_eq_true_iff, ReadField.needsBound_iff]
    simp [and_comm]
  rw [fieldBounds, types, List.filter_map, List.filter_filter, List.map_map]
  simp only [needed]
  rfl

/-! ### Clauses -/

theorem row_separated (p : List Token) (ps : List (List Token)) :
    Row (p :: ps) (separated "," (p :: ps)) := by
  induction ps generalizing p with
  | nil =>
    rw [separated, List.intercalate_singleton]
    exact .last p
  | cons q ps ih =>
    rw [separated, List.intercalate_cons_cons, List.append_assoc]
    exact .next p (ih q)

theorem clause_boundsClause (ps : List (List Token)) : Clause ps (boundsClause ps) := by
  cases ps with
  | nil => exact .none
  | cons p ps => exact .some (row_separated p ps)

theorem implementsUnder_implementation (item : Item) (trait : List Token) (ps : List (List Token))
    (body : List Token) :
    ImplementsUnder item trait ps (implementation trait item.name item.generics ps body) :=
  ⟨boundsClause ps, body, clause_boundsClause ps, boundsClause_eq_nil_iff, rfl⟩

/-! ### Accepted declarations -/

/-- A declaration of a field is read in one way. -/
theorem ReadField.declaration_injective : Function.Injective ReadField.declaration := by
  rintro ⟨d, settings, reads⟩ ⟨d', settings', reads'⟩ same
  obtain rfl : d = d' := same
  obtain rfl : settings = settings' := Except.ok.inj (reads.symm.trans reads')
  rfl

/-- The attributes of all fields are read where properties are made of them. -/
theorem Property.exists_reads {slot : Nat} {earlier : List String} {fs : List FieldDeclaration}
    {ps : List Property} (made : ofFieldsFrom slot earlier fs = .ok ps) :
    ∃ fields : List ReadField, fs = fields.map ReadField.declaration := by
  induction fs generalizing slot earlier ps with
  | nil => exact ⟨[], rfl⟩
  | cons d fs ih =>
    cases read : FieldSettings.ofAttributes d.attributes with
    | error fault =>
      rw [ofFieldsFrom, read] at made
      cases made
    | ok settings =>
      let f : ReadField := ⟨d, settings, read⟩
      cases skip : f.settings.skip with
      | true =>
        obtain ⟨fields, rfl⟩ := ih ((ofFieldsFrom_skipped skip).symm.trans made)
        exact ⟨f :: fields, rfl⟩
      | false =>
        obtain ⟨-, -, rest, others, -⟩ := (ofFieldsFrom_kept_eq_ok_iff skip).1 made
        obtain ⟨fields, rfl⟩ := ih others
        exact ⟨f :: fields, rfl⟩

/-- A type path is refused where a family of types would share it. -/
theorem Bean.ofItem_of_shared {item : Item} {settings : TypeSettings}
    {fs : List FieldDeclaration} (body : item.body = .struct fs)
    (read : TypeSettings.ofAttributes item.attributes = .ok settings)
    (shared : (settings.typePath.isSome && item.generics.isFamily) = true) :
    ofItem item = .error .sharedTypePath := by
  rw [ofItem, read]
  simp only [body]
  change (if _ then _ else _) = _
  rw [if_pos shared]
  rfl

/-- A declaration that is accepted is one of a struct, and describes a bean with its name and its
parameters, whose properties are made of the fields. -/
theorem Bean.exists_fields_of_accepted {item : Item} {b : Bean} (accepted : ofItem item = .ok b) :
    ∃ fields : List ReadField, item.body = .struct (fields.map ReadField.declaration) ∧
      b.name = item.name ∧ b.generics = item.generics ∧
      b.properties = (ReadField.kept fields 0).map fun k => k.1.property k.2 := by
  cases read : TypeSettings.ofAttributes item.attributes with
  | error fault =>
    rw [ofItem, read] at accepted
    cases accepted
  | ok settings =>
    cases body : item.body with
    | enumeration | union =>
      rw [ofItem, read, body] at accepted
      cases accepted
    | struct fs =>
      have own : settings.typePath = none ∨ item.generics.isFamily = false := by
        by_cases shared : (settings.typePath.isSome && item.generics.isFamily) = true
        · rw [ofItem_of_shared body read shared] at accepted
          cases accepted
        · cases path : settings.typePath with
          | none => exact .inl rfl
          | some literal => exact .inr (by simpa [path] using shared)
      obtain ⟨ps, made, rfl⟩ := (ofItem_eq_ok_iff body read own).1 accepted
      obtain ⟨fields, rfl⟩ := Property.exists_reads made
      obtain ⟨properties, -⟩ := Property.ofFieldsFrom_eq_ok_iff.1 made
      exact ⟨fields, rfl, rfl, rfl, properties⟩

/-- The clauses of the implementations that an accepted declaration gets. Each states what the kinds
of the parameters ask for, and then the predicates of the declaration, in their order. That of the
implementation of beans goes on with the bounds on the types of those fields, in their order, that
are described and have a type in which the name of a type parameter occurs. An implementation of
values that is derived alone has the clause of one that is derived with a bean. -/
theorem clauses_of_accepted {item : Item} {b : Bean} (accepted : Bean.ofItem item = .ok b)
    (library : List String) :
    ∃ (fields : List ReadField) (own : List (List Token)),
      item.body = .struct (fields.map ReadField.declaration) ∧
      SelfBound item.generics.params own ∧
      ImplementsUnder item (exported library ["Bean"])
        (own ++ item.generics.predicates ++
          (fields.filter (·.NeedsBound item.generics)).map
            (ReadField.bound (exported library ["Value"])))
        (b.beanImplementation library) ∧
      ImplementsUnder item (exported library ["Value"]) (own ++ item.generics.predicates)
        (b.valueImplementation library) ∧
      ImplementsUnder item (exported library ["Value"]) (own ++ item.generics.predicates)
        (plainValue library item) := by
  obtain ⟨fields, body, name, generics, properties⟩ := Bean.exists_fields_of_accepted accepted
  refine ⟨fields, ownBounds item.generics, body, selfBound_ownBounds _, ?_, ?_,
    implementsUnder_implementation ..⟩
  · have bounds : beanBounds b.generics (exported library ["Value"])
          (b.properties.map Property.type) =
        ownBounds item.generics ++ item.generics.predicates ++
          (fields.filter (·.NeedsBound item.generics)).map
            (ReadField.bound (exported library ["Value"])) := by
      rw [beanBounds, valueBounds, generics, properties, List.map_map]
      exact congrArg _ (fieldBounds_kept _ _ fields 0)
    rw [← bounds, Bean.beanImplementation, name, generics]
    exact implementsUnder_implementation ..
  · rw [Bean.valueImplementation, name, generics]
    exact implementsUnder_implementation ..

/-- `struct S<'a, T, const N: usize> where T: Copy` with the fields `a: [(u8, T); N]`,
`#[bean(skip)] b: T` and `c: &'a str` is bounded by `Self: Any + Send + Sync` and `T: Copy`, and as
a bean by `[(u8, T); N]: Value` besides: the second field is not described, and the third one does
not depend on `T`. -/
theorem clauses_of_accepted_nested :
    let inBrackets := brackets (parens (words ["u8"] ++ sign "," ++ words ["T"]) ++ sign ";"
      ++ words ["N"])
    let fields : List FieldDeclaration :=
      [⟨some "a", inBrackets, []⟩,
        ⟨some "b", words ["T"], [⟨[.ident "bean"], .list [.ident "skip"]⟩]⟩,
        ⟨some "c", sign "&" ++ lifetime "a" ++ words ["str"], []⟩]
    let copy := words ["T"] ++ sign ":" ++ words ["Copy"]
    let item : Item :=
      { name := "S", body := .struct fields
        generics :=
          { params := [.lifetime "a" [], .type "T" [], .const "N" (words ["usize"])]
            predicates := [copy] } }
    let value := exported ["stash"] ["Value"]
    ∃ b self, Bean.ofItem item = .ok b ∧ SelfBound item.generics.params [self] ∧
      ImplementsUnder item (exported ["stash"] ["Bean"])
        [self, copy, inBrackets ++ sign ":" ++ value] (b.beanImplementation ["stash"]) ∧
      ImplementsUnder item value [self, copy] (b.valueImplementation ["stash"]) := by
  intro inBrackets fields copy item value
  let reads : List ReadField :=
    [⟨⟨some "a", inBrackets, []⟩, {}, rfl⟩,
      ⟨⟨some "b", words ["T"], [⟨[.ident "bean"], .list [.ident "skip"]⟩]⟩, { skip := true }, rfl⟩,
      ⟨⟨some "c", sign "&" ++ lifetime "a" ++ words ["str"], []⟩, {}, rfl⟩]
  obtain ⟨b, accepted⟩ : ∃ b, Bean.ofItem item = .ok b := ⟨_, rfl⟩
  obtain ⟨fields', own, body, self, bean, values, -⟩ := clauses_of_accepted accepted ["stash"]
  have same : fields' = reads :=
    ReadField.declaration_injective.list_map (Body.struct.inj body).symm
  have needed : (reads.filter (·.NeedsBound item.generics)).map (ReadField.bound value) =
      [inBrackets ++ sign ":" ++ value] := rfl
  rw [same, needed] at bean
  cases self with
  | shared generic => exact ⟨b, _, accepted, .shared generic, bean, values⟩
  | unborrowed concrete => exact absurd (by simp [item]) (concrete "T" [])
  | free concrete => exact absurd (by simp [item]) (concrete "T" [])

end Derive

end BeanStream
