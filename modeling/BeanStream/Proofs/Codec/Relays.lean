import BeanStream.Proofs.Codec.Plain

/-!
# Codecs that pass failures on

A codec **relays** failures if it ends with the failure of a nested write as soon as there is one,
and makes up none of its own. That is how a codec is written which does not look at failures at
all. A codec that relays leaves the properties of nested beans to the writes of their values.

A codec that **propagates** failures does the same with them. It may write the properties of nested
beans itself, but it leaves the values inside of its value to the pass: it does not run the codecs
of other types on them.

The codecs of the library relay and propagate, since they make no nested writes (`relays_builtin`,
`propagates_builtin`).
-/

namespace BeanStream

open Wire

/-- A script that ends with the failure of a nested write as soon as there is one. -/
inductive Script.Relays : Script → Prop
  | done : Relays .done
  | fail {reason} (own : ∀ source, reason ≠ .nested source) : Relays (.fail reason)
  | write {p next} (goesOn : ∀ r, Relays (next r)) : Relays (.write p next)
  | tree {t next} (goesOn : ∀ r, Relays (next r)) : Relays (.tree t next)
  | value {v next} (goesOn : Relays (next (.ok ())))
      (relays : ∀ source, next (.error source) = .fail (.nested source)) : Relays (.value v next)
  | property {name v kind next} (goesOn : ∀ written, Relays (next (.ok written)))
      (relays : ∀ source, next (.error source) = .fail (.nested source)) :
      Relays (.property name v kind next)
  | name {name next} (goesOn : Relays (next (.ok ())))
      (relays : ∀ source, next (.error source) = .fail (.nested source)) : Relays (.name name next)
  | framed {frame body next} (inside : Relays body) (goesOn : Relays (next (.ok ())))
      (relays : ∀ reason, next (.error reason) = .fail reason) : Relays (.framed frame body next)
  | reencode {v next} (goesOn : Relays (next (.ok ())))
      (relays : ∀ reason, next (.error reason) = .fail reason) : Relays (.reencode v next)
  | context {next} (goesOn : ∀ trace settings, Relays (next trace settings)) :
      Relays (.context next)
  | knows {type next} (goesOn : ∀ known, Relays (next known)) : Relays (.knows type next)

/-- A codec relays, whatever it writes. -/
def CodecRegistry.Relays (r : CodecRegistry) : Prop :=
  ∀ {type e}, r.get? type = some e → ∀ v, (e.codec v).Relays

/-- A single item. -/
theorem Script.relays_item (p : Primitive) : (item p).Relays :=
  .write fun
    | .ok _ => .done
    | .error _ => .fail nofun

/-- The codecs of the library make no nested writes. -/
theorem CodecRegistry.relays_builtin : builtin.Relays := by
  intro type e h v
  obtain ⟨t, -, -, codec⟩ := exists_scalar_of_builtin h
  rw [codec]
  rcases v with s | _ | _ | _ | _ | _ | _ | _ | _ | _ | _ | _ | _
  · change s.script.Relays
    rcases s.script_cases with ⟨script, -⟩ | ⟨p, script, -⟩ | ⟨bs, script⟩ <;> rw [script]
    · exact .done
    · exact Script.relays_item p
    · exact .fail nofun
  all_goals exact .fail nofun

/-- A script that ends with the failure of a nested write as soon as there is one, and makes its
nested writes through the pass. -/
inductive Script.Propagates : Script → Prop
  | done : Propagates .done
  | fail {reason} (own : ∀ source, reason ≠ .nested source) : Propagates (.fail reason)
  | write {p next} (goesOn : ∀ r, Propagates (next r)) : Propagates (.write p next)
  | tree {t next} (goesOn : ∀ r, Propagates (next r)) : Propagates (.tree t next)
  | value {v next} (goesOn : Propagates (next (.ok ())))
      (relays : ∀ source, next (.error source) = .fail (.nested source)) :
      Propagates (.value v next)
  | bean {v next} (goesOn : Propagates (next (.ok ())))
      (relays : ∀ source, next (.error source) = .fail (.nested source)) :
      Propagates (.bean v next)
  | property {name v kind next} (goesOn : ∀ written, Propagates (next (.ok written)))
      (relays : ∀ source, next (.error source) = .fail (.nested source)) :
      Propagates (.property name v kind next)
  | name {name next} (goesOn : Propagates (next (.ok ())))
      (relays : ∀ source, next (.error source) = .fail (.nested source)) :
      Propagates (.name name next)
  | framed {frame body next} (inside : Propagates body) (goesOn : Propagates (next (.ok ())))
      (relays : ∀ reason, next (.error reason) = .fail reason) :
      Propagates (.framed frame body next)
  | context {next} (goesOn : ∀ trace settings, Propagates (next trace settings)) :
      Propagates (.context next)
  | knows {type next} (goesOn : ∀ known, Propagates (next known)) : Propagates (.knows type next)

/-- A script that only writes has no failures of nested writes to pass on. -/
theorem Script.Plain.propagates {s : Script} (h : s.Plain) : s.Propagates := by
  induction h with
  | done => exact .done
  | fail own => exact .fail own
  | @write p next _ relays ih =>
    refine .write fun answer => ?_
    rcases answer with source | ⟨⟩
    · rw [relays]
      exact .fail nofun
    · exact ih
  | @tree t next _ _ _ ih fails =>
    refine .tree fun answer => ?_
    rcases answer with reason | ⟨⟩
    · exact fails reason
    · exact ih

namespace CodecRegistry

/-- A codec propagates, whatever it writes. -/
def Propagates (r : CodecRegistry) : Prop :=
  ∀ {type e}, r.get? type = some e → ∀ v, (e.codec v).Propagates

theorem propagates_builtin : builtin.Propagates := fun found v =>
  (plain_builtin found v).propagates

/-- Codecs that propagate stay such when a type gets another one. -/
theorem Propagates.register {r : CodecRegistry} (h : r.Propagates) (type : TypeId) {codec : Codec}
    (propagates : ∀ v, (codec v).Propagates) : (r.register type codec).2.Propagates := by
  intro type' e found v
  rcases codec_of_get?_register found with rfl | found
  · exact propagates v
  · exact h found v

end CodecRegistry

end BeanStream
