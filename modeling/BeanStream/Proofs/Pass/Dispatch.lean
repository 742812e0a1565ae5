import BeanStream.Proofs.Bean.Accessors
import BeanStream.Proofs.Codec.Contracts
import BeanStream.Proofs.Pass.Ends

/-!
# Values come to the codecs and accessors of their types

A codec is made for the values of one type, and so are the accessors of a descriptor. A pass finds
them by the type of a value, in tables that were filled at different times: the codecs, the
registrations of bean types, and the writers that were made over these. What is found would fail on
a value of another type; but it is never given one, as long as the values keep to a layout of their
types (`Machine.Typed`).

That something is never done is told by **comparing two passes**: one as it is, and one in which
codecs do anything with values that do not suit them, and what is not sound is written in any way
(`Nested.Follows`). Each operation does the same in both, and leaves a typed machine (`Tallies`).

Main fact: the two passes are the same, no failure is a mismatch unless a codec makes one up, and
whenever a writer is found for a value, it has access to its fields and conventions
(`Call.dispatches`).
-/

namespace BeanStream

open Wire

variable {ω : Type}

/-! ### What fits a layout -/

/-- The contents of the store are typed, and the beans have come about by requests that fit. -/
structure Machine.Typed (L : Layout) (m : Machine ω) : Prop where
  store : m.store.Typed L
  beans : m.beans.Fitting L

/-- Only the store and the beans matter. -/
theorem Machine.Typed.of_eq {L : Layout} {m m' : Machine ω} (h : m.Typed L)
    (store : m'.store = m.store) (beans : m'.beans = m.beans) : m'.Typed L :=
  ⟨store ▸ h.store, beans ▸ h.beans⟩

theorem Machine.Typed.enter {L : Layout} {m : Machine ω} (h : m.Typed L) (f : Frame) :
    (m.enter f).Typed L := h.of_eq rfl rfl

/-- Codecs are found under their own types and fit them, and so do the declarations. -/
structure Env.Fits (L : Layout) (env : Env) : Prop where
  keyed : ∀ {type e}, env.codecs.get? type = some e → e.type = type
  codecs : ∀ {type e}, env.codecs.get? type = some e → Codec.Fits L type e.codec
  decls : env.decls.Fits L

/-- An action that gives a value to a codec or a descriptor which is made for it. -/
def Action.Sound (L : Layout) : Action → Prop
  | .codec e v => v.Suits L e.type
  | .bean d v => d.Accesses v
  | .null | .sequence _ => True

/-- Writes, level upon level, that are those of a pass as far as sound actions go. What they do with
others is left open. -/
structure Nested.Follows [Output ω] (L : Layout) (env : Env) (writes : Nat → Nested ω) : Prop where
  start : (writes 0).writeWith = (Nested.ofDepth env 0).writeWith
  step : ∀ depth {a}, a.Sound L →
    (writes (depth + 1)).writeWith a = Pass.writeWith env (writes depth) a

/-- How two passes go on with one value, each over its own codecs: the actions are sound. -/
inductive Action.Paired (L : Layout) (env : Env) (codecs : CodecRegistry) : Action → Action → Prop
  | null : Paired L env codecs .null .null
  | codec {e e' v} (found : env.codecs.get? v.typeId = some e) (same : e.Same L e')
      (suits : v.Suits L v.typeId) : Paired L env codecs (.codec e v) (.codec e' v)
  | bean {d v} (accesses : d.Accesses v) (typed : v.Typed L) :
      Paired L env codecs (.bean d v) (.bean d v)
  | sequence {items} (typed : ∀ v ∈ items, v.Typed L) :
      Paired L env codecs (.sequence items) (.sequence items)

/-- The writes of a pass follow it. -/
theorem Nested.follows_ofDepth [Output ω] (L : Layout) (env : Env) :
    Follows L env (ofDepth (ω := ω) env) where
  start := rfl
  step _ _ _ := rfl

theorem Action.Paired.sound {L : Layout} {env : Env} {codecs : CodecRegistry} {a a' : Action}
    (fits : env.Fits L) (paired : Paired L env codecs a a') : a'.Sound L := by
  cases paired with
  | @codec e e' v found same suits =>
    have own : e'.type = v.typeId := same.type.trans (fits.keyed found)
    rw [Sound, own]
    exact suits
  | bean accesses _ => exact accesses
  | null | sequence => trivial

namespace Pass

variable {ε δ α β : Type} {L : Layout} {p : Prop} {bad : ε → Bool} {m : Machine ω} {P : α → Prop}

/-! ### Two passes, side by side -/

/-- Run on `m`, the computation `y` does the same as `x`. If they return, the machine that is left
is typed, and a value satisfies `P`; a failure is not of the kind `bad`, provided that `p`
holds. -/
structure Tallies (L : Layout) (p : Prop) (bad : ε → Bool) (x y : AttemptTo ω ε α) (m : Machine ω)
    (P : α → Prop) : Prop where
  same : y.run m = x.run m
  meets : Meets x m
    { done := fun a m' => m'.Typed L ∧ P a
      failed := fun e m' => m'.Typed L ∧ (p → bad e = false)
      aborted := fun _ _ => True }

namespace Tallies

variable {x y : AttemptTo ω ε α}

theorem bind {f g : α → AttemptTo ω ε β} {R : β → Prop} (first : Tallies L p bad x y m P)
    (next : ∀ a m', m'.Typed L → P a → Tallies L p bad (f a) (g a) m' R) :
    Tallies L p bad (x >>= f) (y >>= g) m R := by
  constructor
  · rw [run_bind, run_bind, first.same]
    refine Outcome.andThen_congr fun a m' run => ?_
    obtain ⟨typed, hP⟩ := first.meets.done run
    exact (next a m' typed hP).same
  · refine meets_bind.2 (first.meets.imp ?_ (fun _ _ => id) fun _ _ => id)
    rintro a m' ⟨typed, hP⟩
    exact (next a m' typed hP).meets

/-- A failure is answered like a value, and it is of no other kind than before. -/
theorem outcome {bad' : δ → Bool} (h : Tallies L p bad x y m P) :
    Tallies L p bad' (Pass.outcome x) (Pass.outcome y) m (fun answer => p → Avoids bad answer) := by
  constructor
  · simp only [Pass.outcome, ExceptT.run_lift, Functor.map, EStateM.map, h.same]
  · refine meets_outcome.2 (h.meets.imp ?_ ?_ fun _ _ => id)
    · rintro a m' ⟨typed, -⟩
      refine ⟨typed, fun _ e failed => ?_⟩
      cases failed
    · rintro e m' ⟨typed, clear⟩
      refine ⟨typed, fun hp e' failed => ?_⟩
      cases failed
      exact clear hp

theorem framed {f : Frame} (h : Tallies L p bad x y (m.enter f) P) :
    Tallies L p bad (Pass.framed f x) (Pass.framed f y) m P := by
  constructor
  · rw [run_framed, run_framed, h.same]
  · refine meets_framed.2 (h.meets.imp ?_ ?_ fun _ _ => id)
    · rintro a m' ⟨typed, hP⟩
      exact ⟨typed.of_eq rfl rfl, hP⟩
    · rintro e m' ⟨typed, clear⟩
      exact ⟨typed.of_eq rfl rfl, clear⟩

theorem discard (h : Tallies L p bad x y m P) :
    Tallies L p bad (Functor.discard x) (Functor.discard y) m (fun _ => True) := by
  rw [discard_eq_bind, discard_eq_bind]
  exact h.bind fun _ m' typed _ => ⟨rfl, typed, trivial⟩

end Tallies

theorem tallies_pure {a : α} (typed : m.Typed L) (h : P a) :
    Tallies L p bad (pure a) (pure a) m P := ⟨rfl, typed, h⟩

theorem tallies_throw {e : ε} (typed : m.Typed L) (clear : p → bad e = false) :
    Tallies L p bad (throw e) (throw e) m P := ⟨rfl, typed, clear⟩

theorem tallies_failAt {reason : Trace → ε} (typed : m.Typed L)
    (clear : p → bad (reason m.trace) = false) :
    Tallies L p bad (failAt reason) (failAt reason) m P :=
  ⟨rfl, (meets_failAt reason).2 ⟨typed, clear⟩⟩

theorem tallies_trace (typed : m.Typed L) :
    Tallies L p bad (liftM Pass.trace) (liftM Pass.trace) m (fun _ => True) :=
  ⟨rfl, meets_trace.2 ⟨typed, trivial⟩⟩

theorem tallies_log {line : LogLine} (typed : m.Typed L) :
    Tallies L p bad (liftM (log line)) (liftM (log line)) m (fun _ => True) :=
  ⟨rfl, (meets_log line).2 ⟨typed.of_eq rfl rfl, trivial⟩⟩

theorem tallies_get (typed : m.Typed L) :
    Tallies L p bad (getThe (Machine ω)) (getThe (Machine ω)) m (Machine.Typed L) :=
  ⟨rfl, meets_get.2 ⟨typed, typed⟩⟩

/-- No failure of the output counts. -/
theorem tallies_onEncoder {x : EStateM ε ω Unit} (typed : m.Typed L) :
    Tallies L p (fun _ => false) (onEncoder x) (onEncoder x) m (fun _ => True) := by
  refine ⟨rfl, meets_onEncoder.2 ?_⟩
  rcases x m.encoder with ⟨⟨⟩, encoder⟩ | ⟨reason, encoder⟩
  · exact ⟨typed.of_eq rfl rfl, trivial⟩
  · exact ⟨typed.of_eq rfl rfl, fun _ => rfl⟩

theorem tallies_emit [Output ω] {item : Primitive} (typed : m.Typed L) :
    Tallies L p WriteError.isMismatch (emit item) (emit item) m (fun _ => True) := by
  refine ⟨rfl, (meets_emit item).2 ?_⟩
  rcases Encoder.write item m.encoder with ⟨⟨⟩, encoder⟩ | ⟨source, encoder⟩
  · exact ⟨typed.of_eq rfl rfl, trivial⟩
  · exact ⟨typed.of_eq rfl rfl, fun _ => rfl⟩

/-- What is left after unwrapping a typed value is typed and not deferred. -/
theorem tallies_unwrap {env : Env} {frame : List Frame} {v : Option Value} (typed : m.Typed L)
    (own : ∀ u, v = some u → u.Typed L) :
    Tallies L p WriteError.isMismatch (unwrap env frame v) (unwrap env frame v) m
      (fun w => ∀ u, w = some u → u.Typed L ∧ u.deferred? = none) := by
  refine ⟨rfl, (meets_unwrap env frame v).2 ?_⟩
  rcases run : (Value.unwrap env.decls v).run m.store with ⟨source | w, store⟩ | ⟨reason, store⟩
  · exact ⟨⟨(Value.unwrap_typed typed.store own run).1, typed.beans⟩, fun _ => rfl⟩
  · obtain ⟨left, reached⟩ := Value.unwrap_typed typed.store own run
    refine ⟨⟨left, typed.beans⟩, ?_⟩
    rintro u rfl
    exact ⟨reached u rfl, Value.plain_of_unwrapWithin run⟩
  · trivial

section Dispatch

variable {env : Env} {codecs : CodecRegistry} {below below' : Nested ω}
  (fits : env.Fits L) (same : env.codecs.SameFor L codecs)

include fits

/-- The writer that is found for a type has access to the typed values of this type. -/
theorem tallies_writer? {type : TypeId} (typed : m.Typed L) :
    Tallies L p bad (liftM (writer? env type)) (liftM (writer? { env with codecs } type)) m
      (fun d => ∀ d', d = some d' → ∀ v : Value, v.typeId = type → v.Typed L → d'.Accesses v) := by
  refine ⟨rfl, (meets_writer? env type).2 ?_⟩
  have left := typed.beans.writer? fits.decls type
  rcases found : Beans.writer? env.decls type m.beans with ⟨d, beans⟩ | ⟨reason, beans⟩
  · rw [found] at left
    refine ⟨⟨typed.store, left⟩, ?_⟩
    rintro d' rfl v rfl own
    exact typed.beans.accesses fits.decls own (congrArg answer found)
  · trivial

include same

/-- Both passes go on in the same way with a typed value that is not deferred. -/
theorem tallies_actionFor {w : Option Value} {f g : Option Action → AttemptTo ω ε β} {R : β → Prop}
    (typed : m.Typed L) (own : ∀ u, w = some u → u.Typed L ∧ u.deferred? = none)
    (next : ∀ a a' m', m'.Typed L → Option.Rel (Action.Paired L env codecs) a a' →
      Tallies L p bad (f a) (g a') m' R) :
    Tallies L p bad (liftM (actionFor env w) >>= f)
      (liftM (actionFor { env with codecs } w) >>= g) m R := by
  rcases w with _ | v
  · exact next _ _ m typed (.some .null)
  obtain ⟨own, plain⟩ := own v rfl
  have entries := same v.typeId
  rcases found : env.codecs.get? v.typeId with _ | e <;>
    rcases found' : codecs.get? v.typeId with _ | e' <;> rw [found, found'] at entries <;>
    cases entries
  · simp only [actionFor, found, found', liftM_bind, bind_assoc]
    refine (tallies_writer? fits typed).bind fun d m' typed' accesses => ?_
    rcases d with _ | d
    · refine next _ _ m' typed' ?_
      rcases list : v.items? with _ | items
      · exact .none
      · obtain ⟨type, rfl⟩ := Value.eq_sequence_of_items? list
        exact .some (.sequence (Value.allTyped_iff.1 own.2.2))
    · exact next _ _ m' typed' (.some (.bean (accesses d rfl v rfl own) own))
  · simp only [actionFor, found, found']
    exact next _ _ m typed (.some (.codec found ‹_› ⟨rfl, plain, own⟩))

end Dispatch

end Pass

/-! ### Operations, over writes that do the same -/

/-- Of two levels, each over its own codecs, the writes do the same. -/
def Nested.Tallies (L : Layout) (p : Prop) (env : Env) (codecs : CodecRegistry)
    (below below' : Nested ω) : Prop :=
  ∀ a a' m, a.Paired L env codecs a' → m.Typed L →
    Pass.Tallies L p WriteError.isMismatch (below.writeWith a) (below'.writeWith a') m fun _ => True

namespace Pass

section Operations

variable {L : Layout} {p : Prop} {m : Machine ω} {env : Env} {codecs : CodecRegistry}
  {below below' : Nested ω} (fits : env.Fits L) (same : env.codecs.SameFor L codecs)
  (h : below.Tallies L p env codecs below')

include fits same h

theorem tallies_writeValue {v : Option Value} (typed : m.Typed L)
    (own : ∀ u, v = some u → u.Typed L) :
    Tallies L p WriteError.isMismatch (writeValue env below v)
      (writeValue { env with codecs } below' v) m fun _ => True := by
  refine (tallies_unwrap typed own).bind fun w m₁ typed₁ own₁ => ?_
  refine tallies_actionFor fits same typed₁ own₁ fun a a' m₂ typed₂ paired => ?_
  cases paired with
  | none => exact tallies_failAt typed₂ fun _ => rfl
  | some paired => exact h _ _ _ paired typed₂

theorem tallies_writeElements {index : Nat} {vs : List Value} (typed : m.Typed L)
    (own : ∀ v ∈ vs, v.Typed L) :
    Tallies L p WriteError.isMismatch (writeElements env below index vs)
      (writeElements { env with codecs } below' index vs) m fun _ => True := by
  induction vs generalizing index m with
  | nil => exact tallies_pure typed trivial
  | cons v vs ih =>
    have head : ∀ u, some v = some u → u.Typed L := by
      rintro u ⟨⟩
      exact own v (List.mem_cons_self ..)
    have first := tallies_writeValue fits same h (typed.enter (.element index)) head
    exact first.framed.bind fun _ m₁ typed₁ _ =>
      ih typed₁ fun w mem => own w (List.mem_cons_of_mem v mem)

variable [Output ω]

theorem tallies_writeResolvedProperty {kind : PropertyKind} {name : String} {w : Option Value}
    (typed : m.Typed L) (own : ∀ u, w = some u → u.Typed L ∧ u.deferred? = none) :
    Tallies L p WriteError.isMismatch (writeResolvedProperty env below kind name w)
      (writeResolvedProperty { env with codecs } below' kind name w) m fun _ => True := by
  refine Tallies.framed ?_
  refine tallies_actionFor fits same (typed.enter _) own fun a a' m₁ typed₁ paired => ?_
  cases paired with
  | none =>
    dsimp only [omitProperty]
    split
    · exact (tallies_trace typed₁).bind fun _ _ typed₂ _ => (tallies_log typed₂).bind
        fun _ _ typed₃ _ => tallies_pure typed₃ trivial
    · exact tallies_failAt typed₁ fun _ => rfl
  | some paired =>
    refine (tallies_emit typed₁).bind fun _ m₂ typed₂ _ => ?_
    refine (h _ _ _ paired typed₂).bind fun _ m₃ typed₃ _ => ?_
    exact (tallies_trace typed₃).bind fun _ _ typed₄ _ => (tallies_log typed₄).bind
      fun _ _ typed₅ _ => tallies_pure typed₅ trivial

theorem tallies_writeNextProperty {name : String} {v : Option Value} {kind : PropertyKind}
    (typed : m.Typed L) (own : ∀ u, v = some u → u.Typed L) :
    Tallies L p WriteError.isMismatch (writeNextProperty env below name v kind)
      (writeNextProperty { env with codecs } below' name v kind) m fun _ => True := by
  rw [writeNextProperty, writeNextProperty]
  split
  · exact tallies_failAt typed fun _ => rfl
  · exact (tallies_unwrap typed own).bind fun w m₁ typed₁ own₁ =>
      tallies_writeResolvedProperty fits same h typed₁ own₁

/-- A field is read, and so is the convention that stands in for it. -/
theorem tallies_writeField {d : Descriptor} {v : Value} {f : Field} (accesses : d.Accesses v)
    (own : v.Typed L) (mem : f ∈ d.fields) (typed : m.Typed L) :
    Tallies L p WriteError.isMismatch (writeField env below d v (d.conventionsOf v) f)
      (writeField { env with codecs } below' d v (d.conventionsOf v) f) m fun _ => True := by
  obtain ⟨raw, read⟩ := accesses.read f mem
  have part : m.store.Part env.decls v raw := d.part_of_read read
  have rawTyped : ∀ u, some raw = some u → u.Typed L := by
    rintro u ⟨⟩
    exact part.typed typed.store own
  rw [writeField, writeField, read]
  rcases brings : d.conventionsOf v with _ | mapping
  · exact (tallies_writeNextProperty fits same h typed rawTyped).discard
  · refine (tallies_unwrap typed rawTyped).bind fun content m₁ typed₁ own₁ => ?_
    rcases content with _ | content
    · refine (tallies_get typed₁).bind fun m₂ m₃ typed₃ typed₂ => ?_
      refine (tallies_writeNextProperty fits same h typed₃ fun u found => ?_).discard
      exact typed₂.store.convention found
    · exact (tallies_writeNextProperty fits same h typed₁ fun u found => (own₁ u found).1).discard

theorem tallies_writeFields {d : Descriptor} {v : Value} {fs : List Field} (accesses : d.Accesses v)
    (own : v.Typed L) (among : fs ⊆ d.fields) (typed : m.Typed L) :
    Tallies L p WriteError.isMismatch (writeFields env below d v (d.conventionsOf v) fs)
      (writeFields { env with codecs } below' d v (d.conventionsOf v) fs) m fun _ => True := by
  induction fs generalizing m with
  | nil => exact tallies_pure typed trivial
  | cons f fs ih =>
    have first := tallies_writeField fits same h accesses own (among (List.mem_cons_self ..)) typed
    exact first.bind fun _ m₁ typed₁ _ =>
      ih (fun g mem => among (List.mem_cons_of_mem f mem)) typed₁

theorem tallies_writeFieldsOf {d : Descriptor} {v : Value} (accesses : d.Accesses v)
    (own : v.Typed L) (typed : m.Typed L) :
    Tallies L p WriteError.isMismatch (writeFieldsOf env below d v)
      (writeFieldsOf { env with codecs } below' d v) m fun _ => True := by
  refine (tallies_trace typed).bind fun t m₁ typed₁ _ => ?_
  split
  · exact tallies_failAt typed₁ fun _ => rfl
  · have fields := tallies_writeFields fits same h accesses own (List.Subset.refl _)
      (typed₁.enter (.bean d.path))
    exact Tallies.framed (fields.bind fun _ _ typed₂ _ => tallies_emit typed₂)

theorem tallies_writeBean {v : Value} (own : v.Typed L) (typed : m.Typed L) :
    Tallies L p WriteError.isMismatch (writeBean env below v)
      (writeBean { env with codecs } below' v) m fun _ => True := by
  refine (tallies_writer? fits typed).bind fun d m₁ typed₁ accesses => ?_
  rcases d with _ | d
  · exact tallies_throw typed₁ fun _ => rfl
  · exact tallies_writeFieldsOf fits same h (accesses d rfl v rfl own) own typed₁

/-- A script that keeps to its contract does the same over both. -/
theorem tallies_run {s : Script} (direct : s.Direct) (hands : ∀ w, s.Hands w → w.Typed L)
    (honest : p → s.Honest) (typed : m.Typed L) :
    Tallies L p CodecError.isMismatch (run env below s) (run { env with codecs } below' s) m
      fun _ => True := by
  induction s generalizing m with
  | done => exact tallies_pure typed trivial
  | fail reason => exact tallies_throw typed honest
  | write item next ih =>
    refine (tallies_onEncoder typed).outcome.bind fun answer m₁ typed₁ _ => ?_
    exact ih answer (direct answer) (fun w more => hands w ⟨answer, more⟩)
      (fun hp => honest hp answer) typed₁
  | tree t next ih =>
    refine (tallies_onEncoder typed).outcome.bind fun answer m₁ typed₁ _ => ?_
    exact ih answer (direct answer) (fun w more => hands w ⟨answer, more⟩)
      (fun hp => honest hp answer) typed₁
  | value v next ih =>
    have own (u : Value) (found : v = some u) : u.Typed L := hands u (.inl found)
    refine (tallies_writeValue fits same h typed own).outcome.bind fun answer m₁ typed₁ clear => ?_
    exact ih answer (direct answer) (fun w more => hands w (.inr ⟨answer, more⟩))
      (fun hp => honest hp answer (clear hp)) typed₁
  | bean v next ih =>
    have own : v.Typed L := hands v (.inl rfl)
    refine (tallies_writeBean fits same h own typed).outcome.bind fun answer m₁ typed₁ clear => ?_
    exact ih answer (direct answer) (fun w more => hands w (.inr ⟨answer, more⟩))
      (fun hp => honest hp answer (clear hp)) typed₁
  | property name v kind next ih =>
    have own (u : Value) (found : v = some u) : u.Typed L := hands u (.inl found)
    refine (tallies_writeNextProperty fits same h typed own).outcome.bind
      fun answer m₁ typed₁ clear => ?_
    exact ih answer (direct answer) (fun w more => hands w (.inr ⟨answer, more⟩))
      (fun hp => honest hp answer (clear hp)) typed₁
  | name name next ih =>
    refine (tallies_emit typed).outcome.bind fun answer m₁ typed₁ clear => ?_
    exact ih answer (direct answer) (fun w more => hands w ⟨answer, more⟩)
      (fun hp => honest hp answer (clear hp)) typed₁
  | framed f body next body_ih ih =>
    have inside := body_ih direct.1 (fun w more => hands w (.inl more)) (fun hp => (honest hp).1)
      (typed.enter f)
    refine inside.framed.outcome.bind fun answer m₁ typed₁ clear => ?_
    exact ih answer (direct.2 answer) (fun w more => hands w (.inr ⟨answer, more⟩))
      (fun hp => (honest hp).2 answer (clear hp)) typed₁
  | reencode v next ih => exact direct.elim
  | context next ih =>
    refine (tallies_trace typed).bind fun t m₁ typed₁ _ => ?_
    exact ih t env.settings (direct t _) (fun w more => hands w ⟨t, _, more⟩)
      (fun hp => honest hp t _) typed₁
  | knows type next ih =>
    refine (tallies_writer? fits typed).bind fun d m₁ typed₁ _ => ?_
    exact ih d.isSome (direct _) (fun w more => hands w ⟨_, more⟩) (fun hp => honest hp _) typed₁

/-- A codec is given a value that suits it. -/
theorem tallies_encode {e e' : Entry} {v : Value} (found : env.codecs.get? v.typeId = some e)
    (alike : e.Same L e') (suits : v.Suits L v.typeId)
    (honest : p → Codec.Honest L v.typeId e.codec) (typed : m.Typed L) :
    Tallies L p CodecError.isMismatch (encode env below e v)
      (encode { env with codecs } below' e' v) m fun _ => True := by
  have key : e.type = v.typeId := fits.keyed found
  have contract := fits.codecs found
  rw [encode, encode, if_pos key.symm, if_pos (key.symm.trans alike.type.symm),
    alike.codec (key.symm ▸ suits)]
  exact tallies_run fits same h (contract.direct suits) (fun _ => contract.typed suits)
    (fun hp => honest hp suits) typed

theorem tallies_writeWith
    (honest : p → ∀ {type e}, env.codecs.get? type = some e → Codec.Honest L type e.codec)
    {a a' : Action} (paired : a.Paired L env codecs a') (typed : m.Typed L) :
    Tallies L p WriteError.isMismatch (writeWith env below a)
      (writeWith { env with codecs } below' a') m fun _ => True := by
  have tag : a'.tag = a.tag := by
    cases paired with
    | codec _ alike => exact alike.tag
    | null | bean | sequence => rfl
  rw [writeWith, writeWith, tag]
  refine (tallies_emit typed).bind fun _ m₁ typed₁ _ => ?_
  cases paired with
  | null => exact tallies_pure typed₁ trivial
  | @codec e e' v found alike suits =>
    have encoded := tallies_encode fits same h found alike suits (fun hp => honest hp found) typed₁
    refine encoded.outcome.bind fun answer m₂ typed₂ clear => ?_
    rcases answer with reason | ⟨⟩
    · refine tallies_failAt typed₂ fun hp => ?_
      rw [WriteError.isMismatch_ofCodec]
      exact clear hp reason rfl
    · exact tallies_pure typed₂ trivial
  | bean accesses own =>
    exact (tallies_emit typed₁).bind fun _ m₂ typed₂ _ =>
      tallies_writeFieldsOf fits same h accesses own typed₂
  | sequence own =>
    exact (tallies_emit typed₁).bind fun _ m₂ typed₂ _ =>
      tallies_writeElements fits same h typed₂ own

end Operations

/-- The writes of a pass tally with writes that follow it. -/
theorem tallies_ofDepth [Output ω] {L : Layout} {p : Prop} {env : Env} {codecs : CodecRegistry}
    {writes : Nat → Nested ω} (fits : env.Fits L) (same : env.codecs.SameFor L codecs)
    (follows : Nested.Follows L { env with codecs } writes)
    (honest : p → ∀ {type e}, env.codecs.get? type = some e → Codec.Honest L type e.codec)
    (depth : Nat) :
    (Nested.ofDepth env depth : Nested ω).Tallies L p env codecs (writes depth) := by
  induction depth with
  | zero =>
    intro a a' m _ _
    rw [follows.start]
    exact ⟨rfl, (meets_abort _).2 trivial⟩
  | succ depth ih =>
    intro a a' m paired typed
    rw [follows.step depth (paired.sound fits)]
    exact tallies_writeWith fits same ih honest paired typed

end Pass

/-! ### Calls -/

namespace Call

open Pass

variable [Output ω] {L : Layout} {env : Env} {c : Call} {m : Machine ω}

theorem tallies_run {p : Prop} {codecs : CodecRegistry} {writes : Nat → Nested ω}
    (fits : env.Fits L) (same : env.codecs.SameFor L codecs)
    (follows : Nested.Follows L { env with codecs } writes)
    (honest : p → ∀ {type e}, env.codecs.get? type = some e → Codec.Honest L type e.codec)
    (typed : m.Typed L) (own : ∀ v, c.subject = some v → v.Typed L) (depth : Nat) :
    Tallies L p WriteError.isMismatch (c.run env (.ofDepth env depth))
      (c.run { env with codecs } (writes depth)) m fun _ => True := by
  have below := tallies_ofDepth fits same follows honest depth
  cases c with
  | value v => exact tallies_writeValue fits same below typed own
  | property name v kind => exact tallies_writeNextProperty fits same below typed own
  | bean v => exact tallies_writeBean fits same below (own v rfl) typed

/-- What is certain of a call on a typed machine about a typed value, when these codecs were
registered. -/
structure Dispatches (L : Layout) (env : Env) (regs : List (TypeId × Codec)) (depth : Nat)
    (c : Call) (m : Machine ω) : Prop where
  /-- The codec that is found for a type was registered for this type. -/
  registered {type : TypeId} {e : Entry} (found : env.codecs.get? type = some e) :
    e.type = type ∧ (type, e.codec) ∈ CodecRegistry.library ++ regs
  /-- Nothing but sound actions is ever come to: neither what codecs would do with values that do
  not suit them, nor how other actions would be written, makes a difference. -/
  sound {codecs : CodecRegistry} (same : env.codecs.SameFor L codecs) {writes : Nat → Nested ω}
    (follows : Nested.Follows L { env with codecs } writes) :
    (c.run { env with codecs } (writes depth)).run m = (c.run env (.ofDepth env depth)).run m
  /-- No failure is a mismatch, unless a codec makes one up. -/
  clear (honest : ∀ reg ∈ regs, Codec.Honest L reg.1 reg.2) {e : WriteError} {m' : Machine ω}
    (failed : (c.run env (.ofDepth env depth)).run m = .ok (.error e) m') : e.isMismatch = false
  /-- The machine that is left is typed, -/
  left {answer : Except WriteError c.Answer} {m' : Machine ω}
    (returned : (c.run env (.ofDepth env depth)).run m = .ok answer m') : m'.Typed L
  /-- and in every such machine, the writer that is found for the type of a typed value has access
  to this value. -/
  accesses {m' : Machine ω} (typed : m'.Typed L) {v : Value} (own : v.Typed L) {d : Descriptor}
    (found : answer (Beans.writer? env.decls v.typeId m'.beans) = .ok (some d)) : d.Accesses v

/-- The codecs of an environment that were registered, in an empty registry or in that of the
library. -/
theorem registered_of_start {regs : List (TypeId × Codec)}
    (start : env.codecs = CodecRegistry.empty.registerAll regs ∨
      env.codecs = CodecRegistry.builtin.registerAll regs) {type : TypeId} {e : Entry}
    (found : env.codecs.get? type = some e) :
    e.type = type ∧ (type, e.codec) ∈ CodecRegistry.library ++ regs := by
  have given (all : List (TypeId × Codec)) (h : env.codecs = CodecRegistry.empty.registerAll all) :
      e.type = type ∧ (type, e.codec) ∈ all := by
    have numbered := CodecRegistry.numbered_registerAll CodecRegistry.numbered_empty all
    rw [h] at found
    refine ⟨numbered.keyed found, ?_⟩
    rcases CodecRegistry.mem_of_registerAll found with none | mem
    · cases none
    · exact mem
  rcases start with start | start
  · obtain ⟨type_eq, mem⟩ := given regs start
    exact ⟨type_eq, List.mem_append_right _ mem⟩
  · rw [CodecRegistry.builtin_eq_registerAll, ← CodecRegistry.registerAll_append] at start
    exact given (CodecRegistry.library ++ regs) start

/-- Values come to the codecs and accessors of their own types only. -/
theorem dispatches {regs : List (TypeId × Codec)}
    (start : env.codecs = CodecRegistry.empty.registerAll regs ∨
      env.codecs = CodecRegistry.builtin.registerAll regs)
    (codecs : ∀ reg ∈ regs, Codec.Fits L reg.1 reg.2) (decls : env.decls.Fits L)
    (typed : m.Typed L) (own : ∀ v, c.subject = some v → v.Typed L) (depth : Nat) :
    c.Dispatches L env regs depth m := by
  have registered {type : TypeId} {e : Entry} (found : env.codecs.get? type = some e) :=
    registered_of_start start found
  have fits : env.Fits L := by
    refine ⟨fun found => (registered found).1, fun found => ?_, decls⟩
    rcases List.mem_append.1 (registered found).2 with mem | mem
    · exact (Codec.fits_library mem).1
    · exact codecs _ mem
  have honest (own : ∀ reg ∈ regs, Codec.Honest L reg.1 reg.2) {type : TypeId} {e : Entry}
      (found : env.codecs.get? type = some e) : Codec.Honest L type e.codec := by
    rcases List.mem_append.1 (registered found).2 with mem | mem
    · exact (Codec.fits_library mem).2
    · exact own _ mem
  have tallies {codecs : CodecRegistry} (same : env.codecs.SameFor L codecs)
      {writes : Nat → Nested ω} (follows : Nested.Follows L { env with codecs } writes) :=
    tallies_run fits same follows honest typed own depth
  have self := tallies (.refl _) (Nested.follows_ofDepth L env)
  constructor
  case registered => exact registered
  case sound => exact fun same writes follows => (tallies same follows).same
  case clear => exact fun clear e m' failed => (self.meets.failed failed).2 clear
  case left =>
    rintro (e | a) m' returned
    · exact (self.meets.failed returned).1
    · exact (self.meets.done returned).1
  case accesses => exact fun typed v own d found => typed.beans.accesses decls own found

end Call

namespace Link

/-- A codec that leaves the value inside of its value to the pass. -/
def inside : Codec
  | .custom _ _ inner => .value inner .ofWrite
  | _ => .done

/-- It fits every type. -/
theorem fits_inside {L : Layout} (type : TypeId) : Codec.Fits L type inside := by
  constructor
  · intro v _
    cases v with
    | custom name data inner =>
      intro answer
      rcases answer with e | ⟨⟩ <;> trivial
    | _ => trivial
  · intro v w suits hands
    cases v with
    | custom name data inner =>
      rcases hands with rfl | ⟨e | ⟨⟩, hands⟩
      · exact suits.typed.2
      · cases hands
      · cases hands
    | _ => cases hands

/-- The layout of links. -/
def layout : Layout where
  slots type := if type = Link.type then some 2 else none
  library other := if_neg fun same => by cases same ▸ other

end Link

/-- A link to one that is boxed, in a value with a codec of its own. -/
theorem Call.dispatches_link :
    let L : Layout := Link.layout
    let regs : List (TypeId × Codec) := [(.named "demo::Box", Link.inside)]
    let env := { Link.env with codecs := CodecRegistry.builtin.registerAll regs }
    let boxed : Value := .custom "demo::Box" "" (some (Link.link none [98]))
    (Call.bean (Link.link (some boxed) [97])).Dispatches L env regs 4 Link.machine := by
  intro L regs env boxed
  have codecs : ∀ reg ∈ regs, Codec.Fits L reg.1 reg.2 := by
    intro reg mem
    obtain rfl := List.mem_singleton.1 mem
    exact Link.fits_inside _
  have decls : env.decls.Fits L := by
    intro type decl found _
    have found := (Table.get?_set _ Link.type type _).symm.trans found
    split at found
    · rename_i own
      cases found
      exact ⟨2, if_pos own, Nat.le_refl 2⟩
    · cases found
  have beans : Link.machine.beans.Fitting L := by
    refine ⟨[.register Link.env.decls Link.type], fun q mem => ?_, rfl⟩
    obtain rfl := List.mem_singleton.1 mem
    trivial
  refine Call.dispatches (.inr rfl) codecs decls ⟨Store.typed_empty L, beans⟩ ?_ 4
  rintro v ⟨⟩
  exact ⟨rfl, ⟨rfl, ⟨rfl, trivial, trivial, trivial⟩⟩, trivial, trivial⟩

end BeanStream
