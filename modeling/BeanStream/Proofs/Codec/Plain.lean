import BeanStream.Proofs.Codec.Tags
import BeanStream.Proofs.Pass.Meets
import BeanStream.Proofs.Reading.Layout
import BeanStream.Proofs.Tree.Preorder

/-!
# Codecs that only write

A codec is **plain** if it writes items and trees, ends with the failure of the output as soon as
there is one, and has no failures of nested writes to tell of. The codecs of the library are plain
(`plain_builtin`), and so is one that writes its values as trees (`Value.plain_treeScript`); a
registry of plain codecs stays one when it is given more of them (`Plain.register`).

Main fact: whatever the pass, a plain codec writes one and the same row of pieces for a value, and
ends in one and the same way after that (`Plain.exists_pieces`).
-/

namespace BeanStream

open Wire Encoder

/-! ### Scripts -/

/-- A script that only writes. -/
inductive Script.Plain : Script → Prop
  | done : Plain .done
  | fail {reason} (own : ∀ source, reason ≠ .nested source) : Plain (.fail reason)
  | write {p next} (goesOn : Plain (next (.ok ())))
      (relays : ∀ source, next (.error source) = .fail (.io source)) : Plain (.write p next)
  | tree {t next} (goesOn : Plain (next (.ok ())))
      (relays : ∀ source, next (.error (.io source)) = .fail (.io source))
      (fails : ∀ reason, Plain (next (.error reason))) : Plain (.tree t next)

/-- A codec is plain, whatever it writes. -/
def CodecRegistry.Plain (r : CodecRegistry) : Prop :=
  ∀ {type e}, r.get? type = some e → ∀ v, (e.codec v).Plain

namespace Script

variable {ω : Type} [Output ω]

/-- What becomes of a row of pieces and what follows it. -/
def endingOf (pieces : List (List UInt8)) (ending : Except CodecError Unit) (m : Machine ω) :
    Outcome CodecError Unit ω :=
  match writePieces pieces m.encoder with
  | .ok _ encoder => .ok ending { m with encoder }
  | .error source encoder => .ok (.error (.io source)) { m with encoder }

theorem endingOf_append (pieces more : List (List UInt8)) (ending : Except CodecError Unit)
    (m : Machine ω) :
    endingOf (pieces ++ more) ending m =
      match writePieces pieces m.encoder with
      | .ok _ encoder => endingOf more ending { m with encoder }
      | .error source encoder => .ok (.error (.io source)) { m with encoder } := by
  rw [endingOf, writePieces_append]
  rcases writePieces pieces m.encoder with ⟨⟨⟩, encoder⟩ | ⟨source, encoder⟩ <;> rfl

/-- In every pass, over every output, the script writes these pieces, and ends in this way. -/
def Performs (s : Script) (pieces : List (List UInt8)) (ending : Except CodecError Unit) : Prop :=
  ∀ {ω : Type} [Output ω] (env : Env) (below : Nested ω) (m : Machine ω),
    (Pass.run env below s).run m = endingOf pieces ending m

/-- A plain script writes the same pieces in every pass, and ends in the same way after them. -/
theorem Plain.exists_pieces {s : Script} (h : s.Plain) :
    ∃ pieces ending, (∀ source, ending ≠ .error (.nested source)) ∧ s.Performs pieces ending := by
  induction h with
  | done => exact ⟨[], .ok (), nofun, fun _ _ _ => rfl⟩
  | @fail reason own =>
    refine ⟨[], .error reason, ?_, fun _ _ _ => rfl⟩
    intro source h
    exact own source (Except.error.inj h)
  | @write p next goesOn relays ih =>
    obtain ⟨pieces, ending, own, hrun⟩ := ih
    refine ⟨p.pieces ++ pieces, ending, own, fun env below m => ?_⟩
    rw [Pass.run, Pass.run_outcome_bind, endingOf_append]
    simp only [Pass.onEncoder, ExceptT.run, writes_write p m.encoder]
    rcases writePieces p.pieces m.encoder with ⟨⟨⟩, encoder⟩ | ⟨source, encoder⟩
    · exact hrun env below _
    · simp only [Outcome.resume, id, relays]
      rfl
  | @tree t next goesOn relays fails ih fails_ih =>
    obtain ⟨written, outcome, hwrites⟩ := t.exists_writes
    -- what follows the tree depends on how the tree ends, which is known before
    have hnext : ∃ pieces ending, (∀ source, ending ≠ .error (.nested source)) ∧
        (next outcome).Performs pieces ending := by
      cases outcome with
      | ok _ => exact ih
      | error reason => exact fails_ih reason
    obtain ⟨pieces, ending, own, hrun⟩ := hnext
    refine ⟨written ++ pieces, ending, own, fun env below m => ?_⟩
    rw [Pass.run, Pass.run_outcome_bind, endingOf_append]
    simp only [Pass.onEncoder, ExceptT.run, hwrites _ m.encoder]
    rcases writePieces written m.encoder with ⟨⟨⟩, encoder⟩ | ⟨source, encoder⟩
    · cases outcome with
      | ok _ => exact hrun env below _
      | error reason => exact hrun env below _
    · simp only [Outcome.resume, relays]
      rfl

/-- A single item. -/
theorem plain_item (p : Primitive) : (item p).Plain := .write .done fun _ => rfl

end Script

/-- What becomes of a value of this type path, whose codec writes a row of pieces and ends in this
way behind them. -/
def Pass.payloadEnding {ω : Type} [Output ω] (typePath : String) (pieces : List (List UInt8))
    (ending : Except CodecError Unit) (m : Machine ω) : Outcome WriteError Unit ω :=
  match writePieces pieces m.encoder with
  | .error source encoder => .ok (.error (.codec m.trace typePath (.io source))) { m with encoder }
  | .ok _ encoder =>
    match ending with
    | .ok _ => .ok (.ok ()) { m with encoder }
    | .error reason => .ok (.error (.codec m.trace typePath reason)) { m with encoder }

theorem Pass.run_writePayload_codec {ω : Type} [Output ω] {env : Env} {below : Nested ω}
    {e : Entry} {v : Value} (own : v.typeId = e.type) {pieces : List (List UInt8)}
    {ending : Except CodecError Unit}
    (notNested : ∀ source, ending ≠ .error (.nested source)) {m : Machine ω}
    (run : (Pass.run env below (e.codec v)).run m = Script.endingOf pieces ending m) :
    (writePayload env below (.codec e v)).run m =
      payloadEnding (v.typePath env.decls) pieces ending m := by
  rw [writePayload, run_outcome_bind, encode, if_pos own, run, Script.endingOf, payloadEnding]
  rcases writePieces pieces m.encoder with ⟨⟨⟩, encoder⟩ | ⟨source, encoder⟩
  · rcases ending with reason | ⟨⟩
    · rcases reason with _ | _ | _ | _ | source | _
      case nested => exact absurd rfl (notNested source)
      all_goals rfl
    · rfl
  · rfl

/-- A codec that is not that of the type of the value writes nothing. -/
theorem Pass.run_writePayload_wrongType {ω : Type} [Output ω] {env : Env} {below : Nested ω}
    {e : Entry} {v : Value} (foreign : v.typeId ≠ e.type) (m : Machine ω) :
    (writePayload env below (.codec e v)).run m = payloadEnding (v.typePath env.decls) []
      (.error (.wrongType e.type.name (v.typePath env.decls))) m := by
  rw [writePayload, run_outcome_bind, encode, if_neg foreign]
  rfl

/-! ### Registries -/

/-- Writing a value as a tree is plain. -/
theorem Value.plain_treeScript (v : Value) : v.treeScript.Plain := by
  refine .tree .done (fun _ => rfl) fun reason => ?_
  cases reason with
  | io source => exact .fail nofun
  | custom message => exact .fail nofun
  | unknownLength => exact .fail nofun

namespace CodecRegistry

/-- The codecs of the library only write. -/
theorem plain_builtin : builtin.Plain := by
  intro type e h v
  obtain ⟨t, -, -, codec⟩ := exists_scalar_of_builtin h
  rw [codec]
  cases v with
  | scalar s =>
    change s.script.Plain
    rcases s.script_cases with ⟨script, -⟩ | ⟨p, script, -⟩ | ⟨bs, script⟩ <;> rw [script]
    · exact .done
    · exact Script.plain_item p
    · exact .fail nofun
  | _ => exact .fail nofun

/-- A registry of plain codecs stays one when a type gets a plain codec. -/
theorem Plain.register {r : CodecRegistry} (h : r.Plain) (type : TypeId) {codec : Codec}
    (plain : ∀ v, (codec v).Plain) : (r.register type codec).2.Plain := by
  intro type' e he v
  rcases codec_of_get?_register he with rfl | he
  · exact plain v
  · exact h he v

end CodecRegistry

end BeanStream
