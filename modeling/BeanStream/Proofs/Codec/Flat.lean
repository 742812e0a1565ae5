import BeanStream.Proofs.Codec.Tags
import BeanStream.Proofs.Reading.Layout

/-!
# Codecs that make no nested writes

A codec is **flat** if it writes items, trees and names only, and leaves the values inside of its
value alone. Only the writes of beans and of sequences lead to further writes then.

The codecs of the library are flat (`flat_builtin`).
-/

namespace BeanStream

open Wire

/-- A script without nested writes. -/
inductive Script.Flat : Script → Prop
  | done : Flat .done
  | fail (reason) : Flat (.fail reason)
  | write {p next} (goesOn : ∀ r, Flat (next r)) : Flat (.write p next)
  | tree {t next} (goesOn : ∀ r, Flat (next r)) : Flat (.tree t next)
  | name {name next} (goesOn : ∀ r, Flat (next r)) : Flat (.name name next)
  | framed {frame body next} (inside : Flat body) (goesOn : ∀ r, Flat (next r)) :
      Flat (.framed frame body next)
  | context {next} (goesOn : ∀ trace settings, Flat (next trace settings)) : Flat (.context next)
  | knows {type next} (goesOn : ∀ known, Flat (next known)) : Flat (.knows type next)

/-- A codec is flat, whatever it writes. -/
def CodecRegistry.Flat (r : CodecRegistry) : Prop :=
  ∀ {type e}, r.get? type = some e → ∀ v, (e.codec v).Flat

/-- A single item. -/
theorem Script.flat_item (p : Primitive) : (item p).Flat :=
  .write fun
    | .ok _ => .done
    | .error _ => .fail _

/-- The codecs of the library make no nested writes. -/
theorem CodecRegistry.flat_builtin : builtin.Flat := by
  intro type e h v
  obtain ⟨t, -, -, codec⟩ := exists_scalar_of_builtin h
  rw [codec]
  cases v with
  | scalar s =>
    change s.script.Flat
    rcases s.script_cases with ⟨script, -⟩ | ⟨p, script, -⟩ | ⟨bs, script⟩ <;> rw [script]
    · exact .done
    · exact Script.flat_item p
    · exact .fail _
  | _ => exact .fail _

end BeanStream
