import BeanStream.Proofs.Pass.Asked
import BeanStream.Proofs.Pass.Naming

/-!
# Conventions

A bean type may bring conventions. They only **fill absences**: what is written for a field is its
own value, or, if that unwraps to absence, its convention value.

Main fact: over pure containers, a bean with conventions comes to what comes of writing the values
that are **chosen** like this (`Store.chosen`), one after the other. If there is nothing to fill, or
nothing to fill it with, it is as if there were no conventions
(`Pass.writeFieldsOf_withConventions`).
-/

namespace BeanStream

open Wire Encoder Pass

/-- The same bean type, with instances that bring conventions. -/
def Descriptor.withConventions (d : Descriptor) : Descriptor := { d with conventions := true }

/-- What is written for a field with the value `raw`: its convention value, if the value is absent
and there are conventions. -/
def Store.chosen (decls : Declarations) (s : Store) (conventions : Option Nat) (f : Field)
    (raw : Value) : Option Value :=
  match conventions, s.absent decls raw with
  | some mapping, true => s.conventionValue mapping f.name
  | _, _ => some raw

namespace Pass

variable {ω : Type} [Output ω] {env : Env} {below : Nested ω}

/-- To write a value as a property is to unwrap it, and to write what it unwraps to. -/
theorem writeNextProperty_of_unwraps {name : String} (named : name ≠ "") {v w : Option Value}
    {m : Machine ω} {s : Store} (run : (Value.unwrap env.decls v).run m.store = .ok (.ok w) s)
    (kind : PropertyKind) :
    (writeNextProperty env below name v kind).run m =
      (writeNextProperty env below name w kind).run { m with store := s } := by
  rw [run_writeNextProperty below named, run_writeNextProperty below named, run,
    Value.unwrap_of_unwrapped run]

/-- With conventions, the own value of a field is written as it is without them, unless it is
absent. Then its convention value is looked up once, and written over what is left of the store. -/
theorem run_writeField_conventions {d : Descriptor} {v : Value} {f : Field} (named : f.name ≠ "")
    {raw : Value} (read : d.read f v = some raw) (mapping : Nat) (m : Machine ω) :
    (writeField env below d v (some mapping) f).run m =
      match (Value.unwrap env.decls (some raw)).run m.store with
      | .ok (.ok none) s =>
        (discard (writeNextProperty env below f.name (s.conventionValue mapping f.name)
          .field)).run { m with store := s }
      | _ => (discard (writeNextProperty env below f.name (some raw) .field)).run m := by
  simp only [writeField, read]
  rw [run_bind, run_unwrap]
  rcases unwrapped : (Value.unwrap env.decls (some raw)).run m.store with
    ⟨source | _ | w, s⟩ | ⟨reason, s⟩
  · dsimp only
    rw [run_discard, run_writeNextProperty below named, unwrapped]
    rfl
  · rfl
  · dsimp only [Outcome.andThen]
    rw [run_discard, run_discard, writeNextProperty_of_unwraps named unwrapped]
  · dsimp only
    rw [run_discard, run_writeNextProperty below named, unwrapped]
    rfl

/-! ### Writing what is chosen -/

section Chosen

variable (env : Env) (below : Nested ω) (d : Descriptor) (v : Value)
  (chosen : Field → Value → Option Value)

/-- Writes a field, with the value that is chosen for it. -/
def writeChosenField (f : Field) : AttemptTo ω WriteError Unit :=
  match d.read f v with
  | none => throw (.fieldAccess d.path f.name (v.typePath env.decls))
  | some raw => discard <| writeNextProperty env below f.name (chosen f raw) .field

/-- Writes fields in order, each with the value that is chosen for it. -/
def writeChosenFields : List Field → AttemptTo ω WriteError Unit
  | [] => return
  | f :: fs => do
    writeChosenField env below d v chosen f
    writeChosenFields fs

/-- Writes the properties of an instance of a bean, each with the value that is chosen for it. -/
def writeChosenFieldsOf : AttemptTo ω WriteError Unit :=
  underBean env.settings.maxDepth d.path
    (writingProperties (writeChosenFields env below d v chosen d.fields))

variable {below}

theorem proceeds_writeChosenFields (h : below.Proceeds env) (fs : List Field) :
    Proceeds env (writeChosenFields env below d v chosen fs) := by
  induction fs with
  | nil => exact .pure ()
  | cons f fs ih =>
    refine Proceeds.bind ?_ fun _ => ih
    unfold writeChosenField
    split
    · exact .throw _
    · exact (Proceeds.writeNextProperty h _ _ _).discard

end Chosen

namespace Undisturbed

variable {origin : Memory} {d : Descriptor} {v : Value}

/-- A field is written with the value that is chosen for it, whatever was asked before. -/
theorem coupled_writeField (h : Below env origin below)
    (pure : origin.store.Pure env.decls env.codecs v) {f : Field} (named : f.name ≠ "") :
    (origin.coupling env).Coupled (writeField env below d v (d.conventionsOf v) f)
      (writeChosenField env below d v (origin.store.chosen env.decls (d.conventionsOf v)) f) := by
  unfold writeChosenField
  rcases read : d.read f v with _ | raw
  · simp only [writeField, read]
    exact (Coupling.joined_throw (.fieldAccess _ _ _) fun _ => rfl).coupled
  have own : ∀ u, some raw = some u → origin.store.Pure env.decls env.codecs u := by
    rintro u ⟨⟩
    exact (origin.coupling (ω := ω) env).fits_field pure read
  have written : (origin.coupling env).Coupled
      (discard (writeNextProperty env below f.name (some raw) .field))
      (discard (writeNextProperty env below f.name (some raw) .field)) :=
    (Coupling.writeNextProperty h.writes f.name .field own).discard
  rcases brings : d.conventionsOf v with _ | mapping
  · simp only [writeField, read]
    exact written
  -- with conventions, the own value is unwrapped here, without them only as a property; since it
  -- is pure, it comes to the same on the machine of this pass and at the beginning
  intro m m' sim
  obtain ⟨outcome, -, unwraps⟩ := Store.exists_unwrap own
  obtain ⟨s, run⟩ := unwraps m.store sim.first.store
  obtain ⟨s₀, run₀⟩ := unwraps origin.store (.refl _)
  rw [run_writeField_conventions named read, run]
  unfold Store.chosen Store.absent
  dsimp only
  rw [run₀]
  rcases outcome with source | _ | w
  · exact written sim
  -- the convention value is written over what is left of the store
  · have left : origin.Remains env.decls { m.memory with store := s } := by
      have asked := sim.first.asked (.unwrap (some raw) m.memory)
      rw [show m.memory.store = m.store from rfl, run] at asked
      exact asked
    have sim' : Machine.Beside env.decls origin { m with store := s } m' :=
      { sim with first := left }
    have fallback : ∀ u, origin.store.conventionValue mapping f.name = some u →
        origin.store.Pure env.decls env.codecs u :=
      fun u mapped => pure.part (Descriptor.part_of_conventionsOf brings mapped)
    have same : s.conventionValue mapping f.name = origin.store.conventionValue mapping f.name :=
      left.store.conventionValue mapping f.name
    dsimp only
    rw [same]
    exact (Coupling.writeNextProperty h.writes f.name .field fallback).discard sim'
  · exact written sim

theorem coupled_writeFields (h : Below env origin below)
    (pure : origin.store.Pure env.decls env.codecs v) {fs : List Field}
    (named : ∀ f ∈ fs, f.name ≠ "") :
    (origin.coupling env).Coupled (writeFields env below d v (d.conventionsOf v) fs)
      (writeChosenFields env below d v (origin.store.chosen env.decls (d.conventionsOf v)) fs) := by
  induction fs with
  | nil => exact Coupling.coupled_pure ()
  | cons f fs ih =>
    obtain ⟨first, others⟩ := List.forall_mem_cons.1 named
    exact (coupled_writeField h pure first).bind (fun _ => ih others)
      (fun _ => .writeFields h.writes.proceeds d v _ fs)
      fun _ => proceeds_writeChosenFields env d v _ h.writes.proceeds fs

/-- The limit on nesting is exceeded in both passes, or in none of them. -/
theorem coupled_underBean {x y : AttemptTo ω WriteError Unit}
    (h : (origin.coupling env).Coupled x y) (proceeds : Proceeds env y) (path : String) :
    (origin.coupling env).Coupled (underBean env.settings.maxDepth path x)
      (underBean env.settings.maxDepth path y) := by
  intro m m' sim
  rw [run_underBean, run_underBean, ← run_framed, ← run_framed, ← sim.trace]
  split
  · exact .together (.failed rfl sim)
  · rename_i within
    exact h.rel_framed proceeds sim fun _ => Nat.lt_of_not_le within

theorem coupled_writeFieldsOf (h : Below env origin below)
    (pure : origin.store.Pure env.decls env.codecs v) (named : ∀ f ∈ d.fields, f.name ≠ "") :
    (origin.coupling env).Coupled (writeFieldsOf env below d v)
      (writeChosenFieldsOf env below d v
        (origin.store.chosen env.decls (d.conventionsOf v))) := by
  have ended : (origin.coupling (ω := ω) env).Coupled (writeName "") (writeName "") :=
    Coupling.coupled_emit _
  refine coupled_underBean ?_ ?_ d.path
  · exact (coupled_writeFields h pure named).bind (fun _ => ended) (fun _ => .emit _)
      fun _ => .emit _
  · exact (proceeds_writeChosenFields env d v _ h.writes.proceeds d.fields).bind fun _ => .emit _

end Undisturbed

/-! ### Conventions that are not needed -/

/-- Fields are read and named alike with conventions and without them. -/
theorem writeFields_withConventions (d : Descriptor) (v : Value) (conventions : Option Nat)
    (fs : List Field) :
    writeFields env below d.withConventions v conventions fs =
      writeFields env below d v conventions fs := by
  induction fs with
  | nil => rfl
  | cons f fs ih =>
    rw [writeFields, writeFields, ih]
    rfl

theorem writeChosenFieldsOf_withConventions (d : Descriptor) (v : Value)
    (chosen : Field → Value → Option Value) :
    writeChosenFieldsOf env below d.withConventions v chosen =
      writeChosenFieldsOf env below d v chosen := by
  have fields (fs : List Field) : writeChosenFields env below d.withConventions v chosen fs =
      writeChosenFields env below d v chosen fs := by
    induction fs with
    | nil => rfl
    | cons f fs ih =>
      rw [writeChosenFields, writeChosenFields, ih]
      rfl
  rw [writeChosenFieldsOf, fields]
  rfl

section Unneeded

variable {origin : Memory} {d : Descriptor} {v : Value}
  (pure : origin.store.Pure env.decls env.codecs v)

/-- No field of a row is absent and has a convention value. -/
def Unneeded (decls : Declarations) (s : Store) (d : Descriptor) (v : Value) (mapping : Nat)
    (fs : List Field) : Prop :=
  ∀ f ∈ fs, ∀ raw, d.read f v = some raw → s.absent decls raw = true →
    s.conventionValue mapping f.name = none

include pure

theorem run_writeField_unneeded {f : Field} (named : f.name ≠ "") {mapping : Nat}
    (unneeded : Unneeded env.decls origin.store d v mapping [f]) {m : Machine ω}
    (remains : origin.Remains env.decls m.memory) :
    (writeField env below d v (some mapping) f).run m =
      (writeField env below d v none f).run m := by
  rcases read : d.read f v with _ | raw
  · simp only [writeField, read]
  rw [run_writeField_conventions named read]
  simp only [writeField, read]
  have own : origin.store.Pure env.decls env.codecs raw := pure.part (Descriptor.part_of_read read)
  rcases run : (Value.unwrap env.decls (some raw)).run m.store with
    ⟨source | _ | w, s⟩ | ⟨reason, s⟩
  · rfl
  · have absent : origin.store.absent env.decls raw = true := by
      rw [← own.absent_eq remains.store]
      exact Store.absent_eq_true_iff.2 ⟨s, run⟩
    have left : origin.Remains env.decls { m.memory with store := s } := by
      have asked := remains.asked (.unwrap (some raw) m.memory)
      rw [show m.memory.store = m.store from rfl, run] at asked
      exact asked
    have nothing : s.conventionValue mapping f.name = none :=
      (left.store.conventionValue mapping f.name).trans
        (unneeded f (List.mem_singleton_self f) raw read absent)
    dsimp only
    rw [nothing, run_discard, run_discard, writeNextProperty_of_unwraps named run]
  · rfl
  · rfl

theorem run_writeFields_unneeded (proceeds : below.Proceeds env) {fs : List Field}
    (named : ∀ f ∈ fs, f.name ≠ "") {mapping : Nat}
    (unneeded : Unneeded env.decls origin.store d v mapping fs) {m : Machine ω}
    (remains : origin.Remains env.decls m.memory) :
    (writeFields env below d v (some mapping) fs).run m =
      (writeFields env below d v none fs).run m := by
  induction fs generalizing m with
  | nil => rfl
  | cons f fs ih =>
    obtain ⟨first, others⟩ := List.forall_mem_cons.1 named
    obtain ⟨unneeded₁, unneeded⟩ := List.forall_mem_cons.1 unneeded
    have head : (writeField env below d v (some mapping) f).run m =
        (writeField env below d v none f).run m :=
      run_writeField_unneeded pure first (fun g mem => List.mem_singleton.1 mem ▸ unneeded₁) remains
    rw [writeFields, writeFields, run_bind, run_bind, head]
    refine Outcome.andThen_congr fun _ m₁ run => ih others unneeded ?_
    have advances := (Proceeds.writeField proceeds d v none f).advances m
    rw [run] at advances
    exact remains.all_asked advances.memory

theorem run_writeFieldsOf_unneeded (proceeds : below.Proceeds env)
    (named : ∀ f ∈ d.fields, f.name ≠ "") (bare : d.conventions = false)
    (unneeded : ∀ mapping, d.withConventions.conventionsOf v = some mapping →
      Unneeded env.decls origin.store d v mapping d.fields)
    {m : Machine ω} (remains : origin.Remains env.decls m.memory) :
    (writeFieldsOf env below d.withConventions v).run m = (writeFieldsOf env below d v).run m := by
  have fields : (writeFields env below d v (d.withConventions.conventionsOf v) d.fields).run
        (m.enter (.bean d.path)) =
      (writeFields env below d v none d.fields).run (m.enter (.bean d.path)) := by
    rcases brings : d.withConventions.conventionsOf v with _ | mapping
    · rfl
    · exact run_writeFields_unneeded pure proceeds named (unneeded mapping brings) remains
  have none_brought : d.conventionsOf v = none := by
    simp [Descriptor.conventionsOf, bare]
  rw [writeFieldsOf_eq_underBean, writeFieldsOf_eq_underBean, run_underBean, run_underBean,
    none_brought, writeFields_withConventions]
  split
  · rfl
  · rw [writingProperties, writingProperties, run_bind, run_bind]
    exact congrArg (fun r => Outcome.leave (Outcome.andThen r _)) fields

end Unneeded

/-! ### What conventions make of a bean -/

/-- An instance of a bean is written by a descriptor without conventions, and by the same one with
them, where its containers are pure and its fields are named well.

* With conventions, it comes to the same, with the same bytes and lines of the log, as writing the
  fields in order, each with the value that is chosen for it.
* For the own value of a field that is reached, both descriptors open the same containers. The
  conventions are asked once for each field that is reached and absent, and for no other one.
* If no field is absent, or no absent one has a convention value, both come to the same. -/
theorem writeFieldsOf_withConventions {d : Descriptor} (bare : d.conventions = false)
    (checked : Descriptor.validate d.path d.fields = .ok ()) {v : Value} {m : Machine ω}
    (pure : m.store.Pure env.decls env.codecs v) (depth : Nat) :
    let below := Nested.ofDepth env depth
    let conventions := d.withConventions.conventionsOf v
    Alike Machine.Same ((writeFieldsOf env below d.withConventions v).run m)
        ((writeChosenFieldsOf env below d v (m.store.chosen env.decls conventions)).run m) ∧
      (Told env below d v m ∧ Told env below d.withConventions v m) ∧
      ((∀ mapping, conventions = some mapping →
          Unneeded env.decls m.store d v mapping d.fields) →
        (writeFieldsOf env below d.withConventions v).run m =
          (writeFieldsOf env below d v).run m) := by
  intro below conventions
  have named : ∀ f ∈ d.fields, f.name ≠ "" := (Descriptor.validate_eq_ok_iff.1 checked).1
  have proceeds : below.Proceeds env := proceeds_ofDepth env depth
  have settled : m.memory.store.Pure env.decls env.codecs v := pure
  refine ⟨?_, ⟨told proceeds named pure, told (d := d.withConventions) proceeds named pure⟩,
    fun unneeded => ?_⟩
  · rw [← writeChosenFieldsOf_withConventions]
    have beside : Machine.Beside env.decls m.memory m m := ⟨⟨rfl, rfl, rfl⟩, .refl _, .refl _⟩
    have related := Undisturbed.coupled_writeFieldsOf (d := d.withConventions)
      (undisturbed_ofDepth env m.memory depth) settled named beside
    have alike := related.alike (fun _ _ => id) (fun _ _ _ => id) fun _ _ _ => id
    exact alike.imp fun _ _ left => left.toSame
  · exact run_writeFieldsOf_unneeded settled proceeds named bare unneeded (.refl _)

/-- The next link is absent, and the conventions have a path in its place, which a provider
supplies. -/
theorem writeFieldsOf_withConventions_link :
    let d : Descriptor :=
      { type := Link.type, path := "demo::Link", fields := [⟨"next", 0⟩, ⟨"name", 1⟩]
        conventions := false }
    let supply : Supply := .fixed (some (.scalar (.path [99])))
    let m : Machine :=
      { Link.machine with
        store := { mappings := Table.empty.set 0 (Table.empty.set "next" (5, supply)) } }
    let v := Link.link none [98]
    let below := Nested.ofDepth Link.env 2
    let chosen := m.store.chosen Link.env.decls (some 0)
    chosen ⟨"next", 0⟩ (.optional Link.type none) = some (.provider 5 supply) ∧
      Outcome.isDone ((writeFieldsOf Link.env below d.withConventions v).run m) = true ∧
      Alike Machine.Same ((writeFieldsOf Link.env below d.withConventions v).run m)
        ((writeChosenFieldsOf Link.env below d v chosen).run m) := by
  intro d supply m v below chosen
  have flat : Link.env.codecs.Flat := CodecRegistry.flat_builtin
  have path (bs : List UInt8) :
      m.store.Pure Link.env.decls Link.env.codecs (.scalar (.path bs)) := by
    refine (Store.pure_iff flat).2 ⟨trivial, fun w part => ?_⟩
    cases part with
    | exposed exposes => cases exposes
  have pure : m.store.Pure Link.env.decls Link.env.codecs v := by
    refine (Store.pure_iff flat).2 ⟨trivial, fun w part => ?_⟩
    change m.store.Part _ (.bean Link.type [.optional Link.type none, .scalar (.path [98])] 0) w
      at part
    cases part with
    | exposed exposes => cases exposes
    | field mem =>
      rcases List.mem_cons.1 mem with rfl | mem
      · refine (Store.pure_iff flat).2 ⟨trivial, fun u part => ?_⟩
        cases part with
        | exposed exposes => cases exposes
      · exact List.mem_singleton.1 mem ▸ path [98]
    | @convention _ _ _ name _ found =>
      obtain ⟨⟨identity, given⟩, mapped, rfl⟩ := Option.map_eq_some_iff.1 found
      change (Table.empty.set "next" (5, supply)).get? name = _ at mapped
      rw [Table.get?_set] at mapped
      split at mapped
      · cases mapped
        refine (Store.pure_iff flat).2 ⟨Store.exists_supplies trivial, fun u part => ?_⟩
        cases part with
        | exposed exposes =>
          cases exposes with
          | provider offers =>
            change m.store.Offers _ (.fixed (some (.scalar (.path [99])))) u at offers
            cases offers with
            | fixed => exact path [99]
      · cases mapped
  exact ⟨rfl, by decide +kernel, (writeFieldsOf_withConventions rfl (by decide) pure 2).1⟩

end Pass

end BeanStream
