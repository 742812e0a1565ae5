import BeanStream.Proofs.Pass.Spelling
import BeanStream.Proofs.Reading.Grammar
import BeanStream.Proofs.Reading.Schema
import Mathlib.Algebra.Group.Nat.Defs

/-!
# Bean streams of any codecs read back

Streams of any codecs are read by the grammar if it is known **how the payloads are read**, tag by
tag. That has to fit the codecs: what a codec spells is read back, as a value without properties
(`CodecRegistry.ReadBy`). The codecs of the library are read by the layouts of the scalar types
(`readBy_builtin`), and codecs that write trees of a schema by its decoder (`ReadBy.register`).
-/

namespace BeanStream

open Wire Encoder

/-! ### Records -/

mutual

/-- How many properties there are inside of a value, at any nesting. -/
def Node.records : Node → Nat
  | .bean _ properties => Node.recordsIn properties
  | .sequence items => Node.recordsOf items
  | .null | .scalar _ => 0

/-- How many properties there are in a row, at any nesting. -/
def Node.recordsIn : List (String × Node) → Nat
  | [] => 0
  | (_, n) :: ps => n.records + 1 + Node.recordsIn ps

/-- How many properties there are inside of values in a row. -/
def Node.recordsOf : List Node → Nat
  | [] => 0
  | n :: ns => n.records + Node.recordsOf ns

end

open Reading

/-! ### Payloads of codecs -/

/-- The payloads of codecs are read back, as values without properties, where they are among these,
which have their tags. -/
structure CodecRegistry.ReadBy (r : CodecRegistry) (payloads : Nat → Reader Node)
    (among : List (Nat × List UInt8)) : Prop where
  /-- The tags are those of codecs, and are written without loss. -/
  range : ∀ {type e}, r.get? type = some e → Tag.firstCodec ≤ e.tag ∧ e.tag < 2 ^ 32
  reads : ∀ {type e v bs}, r.get? type = some e → v.typeId = e.type → (e.codec v).Spells bs →
    (e.tag, bs) ∈ among → ∃ n, n.records = 0 ∧ Reads (payloads e.tag) bs n

namespace Script

/-- What a script spells is what it writes over an output without limits. -/
theorem Spells.run {s : Script} {bs : List UInt8} (h : s.Spells bs) (env : Env) (below : Nested) :
    ∃ m', (Pass.run env below s).run {} = .ok (.ok ()) m' ∧ m'.written = bs := by
  obtain ⟨pieces, rfl, run⟩ := h
  obtain ⟨position, written⟩ := @writePieces_of_fits {} pieces nofun nofun
  exact ⟨_, by rw [run, endingOf, written], rfl⟩

/-- A script spells one thing only. -/
theorem Spells.unique {s : Script} {bs cs : List UInt8} (h : s.Spells bs) (h' : s.Spells cs) :
    bs = cs := by
  obtain ⟨m₁, run, rfl⟩ := h.run Link.env (.ofDepth Link.env 0)
  obtain ⟨m₂, run', rfl⟩ := h'.run Link.env (.ofDepth Link.env 0)
  cases run.symm.trans run'
  rfl

theorem spells_done : Script.done.Spells [] := ⟨[], rfl, fun _ _ _ => rfl⟩

/-- A single item is its form. -/
theorem spells_item (p : Primitive) : (item p).Spells p.encoding := by
  refine ⟨p.pieces, rfl, fun env below m => ?_⟩
  rw [item, writeThen, Pass.run, Pass.run_outcome_bind, endingOf]
  simp only [Pass.onEncoder, ExceptT.run, writes_write p m.encoder]
  rcases writePieces p.pieces m.encoder with ⟨⟨⟩, encoder⟩ | ⟨source, encoder⟩ <;> rfl

/-- A failure spells nothing. -/
theorem not_spells_fail {reason : CodecError} {bs : List UInt8} :
    ¬ (Script.fail reason).Spells bs := by
  intro spells
  obtain ⟨m', run, -⟩ := spells.run Link.env (.ofDepth Link.env 0)
  cases run

end Script

/-- The codecs of the library are read back by the layouts of the scalar types. -/
theorem CodecRegistry.readBy_builtin (among : List (Nat × List UInt8)) :
    builtin.ReadBy layouts among where
  range found := by
    have range := numbered_builtin.range found
    rw [nextTag_builtin] at range
    exact ⟨range.1, by omega⟩
  reads {type e v bs} found own spells _ := by
    obtain ⟨t, -, isType, codec⟩ := exists_scalar_of_builtin found
    rw [codec] at spells
    rw [layouts_scalar found isType]
    cases v with
    | scalar s =>
      obtain rfl : s.type = t := TypeId.scalar.inj (own.trans isType)
      have spells : s.script.Spells bs := spells
      refine ⟨.scalar s, rfl, Reads.map ?_ Node.scalar⟩
      rcases s.script_cases with ⟨script, reads⟩ | ⟨p, script, reads⟩ | ⟨path, script⟩ <;>
        rw [script] at spells
      · exact spells.unique Script.spells_done ▸ reads
      · exact spells.unique (Script.spells_item p) ▸ reads
      · exact absurd spells Script.not_spells_fail
    -- only scalars are written
    | _ => exact absurd spells Script.not_spells_fail

/-- A type has the tag that registering it gave as the answer. -/
theorem CodecRegistry.tag_of_get?_register {r : CodecRegistry} {type : TypeId} {codec : Codec}
    {e : Entry} (found : (r.register type codec).2.get? type = some e) :
    e.tag = (r.register type codec).1 := by
  rw [get?_register, if_pos rfl] at found
  rcases known : r.get? type with _ | e'
  · rw [known] at found
    cases found
    exact (register_tag_of_none known codec).symm
  · rw [known] at found
    cases found
    exact (register_tag_of_entry known codec).symm

/-- Where all payloads of one more codec are trees of a schema, they are read back by its decoder.
-/
theorem CodecRegistry.ReadBy.register {r : CodecRegistry} {payloads : Nat → Reader Node}
    {among : List (Nat × List UInt8)} (h : r.ReadBy payloads among) (numbered : r.Numbered)
    {type : TypeId} {codec : Codec} (room : (r.register type codec).2.nextTag ≤ 2 ^ 32)
    {schema : Schema}
    (trees : ∀ bs, ((r.register type codec).1, bs) ∈ among → ∃ t, schema.Has t ∧ t.encoding = bs) :
    (r.register type codec).2.ReadBy (fun tag => if tag = (r.register type codec).1
      then (fun _ => Node.null) <$> schema.read else payloads tag) among where
  range found := by
    have range := (numbered.register type codec).range found
    exact ⟨range.1, by omega⟩
  reads {type' e v bs} found own spells mem := by
    by_cases same : e.tag = (r.register type codec).1
    · obtain ⟨t, has, rfl⟩ := trees bs (same ▸ mem)
      rw [if_pos same]
      exact ⟨.null, rfl, Reads.map (schema.decodable.read has) _⟩
    · have other : type' ≠ type := by
        rintro rfl
        exact same (tag_of_get?_register found)
      rw [get?_register, if_neg other] at found
      rw [if_neg same]
      exact h.reads found own spells mem

end BeanStream
