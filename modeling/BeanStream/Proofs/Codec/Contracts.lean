import BeanStream.Proofs.Codec.Hands
import BeanStream.Proofs.Codec.Registrations
import BeanStream.Proofs.Store.Typing

/-!
# What is asked of a codec

A codec is written for the values of one type, and what it does is its own business as long as it is
given one of them that is not deferred (`Value.Suits`). Given such a value, it has to hand on typed
values, and leave it to the pass to find the codecs for them (`Codec.Fits`). Nothing at all is asked
of what it does with other values.

A failure that tells of a value of the wrong type is a **mismatch**. A codec is **honest** if it
fails with one only after it was told of one (`Codec.Honest`).

The codecs of the library fit and are honest (`Codec.fits_library`), and so is one that writes its
values as trees (`Codec.fits_treeScript`).
-/

namespace BeanStream

variable {L : Layout}

/-! ### Mismatches -/

mutual

/-- Whether a failure tells of a value that came to a codec or accessor of another type. -/
def WriteError.isMismatch : WriteError → Bool
  | .fieldAccess _ _ _ => true
  | .codec _ _ source => source.isMismatch
  | .unwrap _ _ | .missingCodec _ _ | .unknownBean _ | .emptyPropertyName _ | .tooDeep _ _
  | .io _ _ => false

/-- Whether a failure of a codec tells of a value that came to a codec or accessor of another
type. -/
def CodecError.isMismatch : CodecError → Bool
  | .wrongType _ _ => true
  | .nested source => source.isMismatch
  | .custom _ | .invalidPath _ | .io _ | .other _ => false

end

theorem WriteError.isMismatch_ofCodec (trace : Trace) (typePath : String) (source : CodecError) :
    (ofCodec trace typePath source).isMismatch = source.isMismatch := by
  cases source <;> rfl

/-- An answer is no failure of the kind `bad`. -/
def Avoids {ε α : Type} (bad : ε → Bool) (answer : Except ε α) : Prop :=
  ∀ e, answer = .error e → bad e = false

/-! ### Contracts -/

namespace Script

/-- A script leaves it to the pass to find a codec for a value. -/
def Direct : Script → Prop
  | .done | .fail _ => True
  | .write _ next => ∀ answer, Direct (next answer)
  | .tree _ next => ∀ answer, Direct (next answer)
  | .value _ next => ∀ answer, Direct (next answer)
  | .bean _ next => ∀ answer, Direct (next answer)
  | .property _ _ _ next => ∀ answer, Direct (next answer)
  | .name _ next => ∀ answer, Direct (next answer)
  | .framed _ body next => Direct body ∧ ∀ answer, Direct (next answer)
  | .reencode _ _ => False
  | .context next => ∀ trace settings, Direct (next trace settings)
  | .knows _ next => ∀ known, Direct (next known)

/-- A script fails with a mismatch only after it was told of one. -/
def Honest : Script → Prop
  | .done => True
  | .fail reason => reason.isMismatch = false
  | .write _ next => ∀ answer, Honest (next answer)
  | .tree _ next => ∀ answer, Honest (next answer)
  | .value _ next => ∀ answer, Avoids WriteError.isMismatch answer → Honest (next answer)
  | .bean _ next => ∀ answer, Avoids WriteError.isMismatch answer → Honest (next answer)
  | .property _ _ _ next => ∀ answer, Avoids WriteError.isMismatch answer → Honest (next answer)
  | .name _ next => ∀ answer, Avoids WriteError.isMismatch answer → Honest (next answer)
  | .framed _ body next =>
    Honest body ∧ ∀ answer, Avoids CodecError.isMismatch answer → Honest (next answer)
  | .reencode _ next => ∀ answer, Avoids CodecError.isMismatch answer → Honest (next answer)
  | .context next => ∀ trace settings, Honest (next trace settings)
  | .knows _ next => ∀ known, Honest (next known)

theorem Flat.direct {s : Script} (h : s.Flat) : s.Direct := by
  induction h with
  | done | fail => trivial
  | write _ ih | tree _ ih | name _ ih | context _ ih | knows _ ih => exact ih
  | framed _ _ inside ih => exact ⟨inside, ih⟩

theorem honest_item (p : Wire.Primitive) : (item p).Honest := by
  intro answer
  rcases answer with source | ⟨⟩
  · rfl
  · trivial

end Script

/-- A typed value that is of this very type, and not deferred. -/
structure Value.Suits (L : Layout) (type : TypeId) (v : Value) : Prop where
  typeId_eq : v.typeId = type
  plain : v.deferred? = none
  typed : v.Typed L

/-- What a codec of a type does with a value that suits it: it hands on typed values, for which it
leaves the codecs to the pass. -/
structure Codec.Fits (L : Layout) (type : TypeId) (codec : Codec) : Prop where
  direct : ∀ {v}, v.Suits L type → (codec v).Direct
  typed : ∀ {v w}, v.Suits L type → (codec v).Hands w → w.Typed L

/-- Given a value that suits it, a codec makes no mismatch up. -/
def Codec.Honest (L : Layout) (type : TypeId) (codec : Codec) : Prop :=
  ∀ {v}, v.Suits L type → (codec v).Honest

namespace Codec

/-- Codecs that make no nested writes fit. -/
theorem fits_of_flat {type : TypeId} {codec : Codec}
    (flat : ∀ v, v.Suits L type → (codec v).Flat) : Fits L type codec where
  direct suits := (flat _ suits).direct
  typed suits hands := absurd hands ((flat _ suits).not_hands _)

/-- A codec that writes its values as trees fits every type, and is honest. -/
theorem fits_treeScript (type : TypeId) :
    Fits L type Value.treeScript ∧ Honest L type Value.treeScript := by
  refine ⟨fits_of_flat fun v _ => v.plain_treeScript.flat, fun _ answer => ?_⟩
  rcases answer with (source | message | _) | ⟨⟩ <;> trivial

/-- The codecs of the library fit, and are honest. -/
theorem fits_library {reg : TypeId × Codec} (h : reg ∈ CodecRegistry.library) :
    Fits L reg.1 reg.2 ∧ Honest L reg.1 reg.2 := by
  obtain ⟨t, -, rfl⟩ := List.mem_map.1 h
  have scripts {v : Value} (suits : v.Suits L (.scalar t)) :
      (Value.scalarScript t v).Flat ∧ (Value.scalarScript t v).Honest := by
    obtain ⟨s, rfl⟩ := suits.typed.exists_scalar suits.typeId_eq
    change s.script.Flat ∧ s.script.Honest
    rcases s.script_cases with ⟨script, -⟩ | ⟨p, script, -⟩ | ⟨bs, script⟩ <;> rw [script]
    · exact ⟨.done, trivial⟩
    · exact ⟨Script.flat_item p, Script.honest_item p⟩
    · exact ⟨.fail _, rfl⟩
  exact ⟨fits_of_flat fun v suits => (scripts suits).1, fun suits => (scripts suits).2⟩

end Codec

/-! ### Registries -/

/-- An entry that does the same as `e` with the values that suit it, and anything with others. -/
structure Entry.Same (L : Layout) (e e' : Entry) : Prop where
  tag : e'.tag = e.tag
  type : e'.type = e.type
  codec : ∀ {v}, v.Suits L e.type → e'.codec v = e.codec v

namespace CodecRegistry

variable {r : CodecRegistry} {type : TypeId} {e : Entry}

/-- Types have the same tags, and their codecs do the same with values that suit them. -/
def SameFor (L : Layout) (r r' : CodecRegistry) : Prop :=
  ∀ type, Option.Rel (Entry.Same L) (r.get? type) (r'.get? type)

theorem SameFor.refl (r : CodecRegistry) : r.SameFor L r := by
  intro type
  rcases r.get? type with _ | e
  · exact .none
  · exact .some ⟨rfl, rfl, fun _ => rfl⟩

/-- An entry was there before, or its codec is one that was registered for the type. -/
theorem mem_of_registerAll {regs : List (TypeId × Codec)}
    (h : (r.registerAll regs).get? type = some e) :
    r.get? type = some e ∨ (type, e.codec) ∈ regs := by
  induction regs generalizing r with
  | nil => exact .inl h
  | cons reg regs ih =>
    rcases ih h with given | mem
    · rw [get?_register] at given
      split at given
      · rename_i same
        have own : e.codec = reg.2 := by
          rcases known : r.get? reg.1 with _ | e' <;> rw [known] at given <;> cases given <;> rfl
        exact .inr (List.mem_cons.2 (.inl (Prod.ext same own)))
      · exact .inl given
    · exact .inr (List.mem_cons_of_mem reg mem)

end CodecRegistry

end BeanStream
