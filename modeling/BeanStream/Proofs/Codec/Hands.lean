import BeanStream.Proofs.Codec.Flat
import BeanStream.Proofs.Codec.Plain

/-!
# What codecs hand on

A codec may hand values to the pass that runs it: to be written with their tags, as beans, as
properties or by other codecs. A codec that is flat **hands nothing on** (`Flat.not_hands`), and a
codec that only writes is flat (`Plain.flat`).
-/

namespace BeanStream

namespace Script

/-- A script hands the value `w` to the pass, if its operations come to what leads it there. -/
def Hands (w : Value) : Script → Prop
  | .done | .fail _ => False
  | .write _ next => ∃ answer, Hands w (next answer)
  | .tree _ next => ∃ answer, Hands w (next answer)
  | .value v next => v = some w ∨ ∃ answer, Hands w (next answer)
  | .bean v next => v = w ∨ ∃ answer, Hands w (next answer)
  | .property _ v _ next => v = some w ∨ ∃ answer, Hands w (next answer)
  | .name _ next => ∃ answer, Hands w (next answer)
  | .framed _ body next => Hands w body ∨ ∃ answer, Hands w (next answer)
  | .reencode v next => v = w ∨ ∃ answer, Hands w (next answer)
  | .context next => ∃ trace settings, Hands w (next trace settings)
  | .knows _ next => ∃ known, Hands w (next known)

theorem Flat.not_hands {s : Script} (h : s.Flat) (w : Value) : ¬ s.Hands w := by
  induction h with
  | done | fail => exact not_false
  | write _ ih | tree _ ih | name _ ih | knows _ ih =>
    rintro ⟨answer, hands⟩
    exact ih answer hands
  | framed _ _ inside ih =>
    rintro (hands | ⟨answer, hands⟩)
    · exact inside hands
    · exact ih answer hands
  | context _ ih =>
    rintro ⟨trace, settings, hands⟩
    exact ih trace settings hands

/-- A script that only writes is flat. -/
theorem Plain.flat {s : Script} (h : s.Plain) : s.Flat := by
  induction h with
  | done => exact .done
  | fail => exact .fail _
  | @write p next _ relays ih =>
    refine .write fun answer => ?_
    rcases answer with source | ⟨⟩
    · rw [relays]
      exact .fail _
    · exact ih
  | @tree t next _ _ _ ih fails =>
    refine .tree fun answer => ?_
    rcases answer with reason | ⟨⟩
    · exact fails reason
    · exact ih

end Script

/-- The codec of the type of `v` hands `w` on when it writes `v`. -/
def CodecRegistry.Hands (r : CodecRegistry) (v w : Value) : Prop :=
  ∃ e, r.get? v.typeId = some e ∧ (e.codec v).Hands w

theorem CodecRegistry.Flat.not_hands {r : CodecRegistry} (h : r.Flat) (v w : Value) :
    ¬ r.Hands v w := by
  rintro ⟨e, found, hands⟩
  exact (h found v).not_hands w hands

/-- Codecs that only write are flat. -/
theorem CodecRegistry.Plain.flat {r : CodecRegistry} (h : r.Plain) : r.Flat :=
  fun found v => (h found v).flat

end BeanStream
