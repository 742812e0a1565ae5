import BeanStream.Proofs.Pass.Meets
import BeanStream.Proofs.Reading.Grammar

/-!
# What a value resolves to

The tree that a value stands for, told without mentioning output, tags or failures. What the
answer depends on is the **memory** of a pass: the store, which unwrapping changes, and the
writers of bean types made so far.

A value is unwrapped first (`Memory.Unwraps`), and then there is at most one way to write it
(`Memory.Chooses`). The value of a **field** is its own one; where that is absent, and the bean
brings conventions, it is the convention value (`Memory.Effective`). A bean resolves to the row of
its fields in order, without those for which there is no way to write them.

Main fact: a value resolves to **one tree only** (`Resolves.unique`).
-/

namespace BeanStream

/-- What a pass remembers between values. -/
structure Memory where
  store : Store
  beans : Beans

/-- What a machine remembers. -/
def Machine.memory {ω : Type} (m : Machine ω) : Memory := { store := m.store, beans := m.beans }

@[simp] theorem Machine.memory_enter {ω : Type} (f : Frame) (m : Machine ω) :
    (m.enter f).memory = m.memory := rfl

@[simp] theorem Machine.memory_leave {ω : Type} (m : Machine ω) : m.leave.memory = m.memory := rfl

namespace Memory

variable (env : Env)

/-- Unwrapped in `c`, the value `v` is `w`, and `c'` is remembered afterwards. -/
def Unwraps (c : Memory) (v w : Option Value) (c' : Memory) : Prop :=
  (Value.unwrap env.decls v).run c.store = .ok (.ok w) c'.store ∧ c'.beans = c.beans

/-- The way to write a value that is not deferred, if there is one: the first that applies. -/
inductive Chooses : Memory → Option Value → Option Action → Memory → Prop
  /-- Absence. -/
  | null (c) : Chooses c none (some .null) c
  /-- A codec. -/
  | codec {c v e} : env.codecs.get? v.typeId = some e → Chooses c (some v) (some (.codec e v)) c
  /-- A bean. -/
  | bean {c v d beans} : env.codecs.get? v.typeId = none →
      Beans.writer? env.decls v.typeId c.beans = .ok (some d) beans →
      Chooses c (some v) (some (.bean d v)) { c with beans }
  /-- A sequence. -/
  | sequence {c v items beans} : env.codecs.get? v.typeId = none →
      Beans.writer? env.decls v.typeId c.beans = .ok none beans → v.items? = some items →
      Chooses c (some v) (some (.sequence items)) { c with beans }
  /-- No way. -/
  | nothing {c v beans} : env.codecs.get? v.typeId = none →
      Beans.writer? env.decls v.typeId c.beans = .ok none beans → v.items? = none →
      Chooses c (some v) none { c with beans }

/-- The value of a field of an instance of a bean. -/
inductive Effective : Memory → Descriptor → Value → Field → Option Value → Memory → Prop
  /-- Its own value. -/
  | own {c d v f raw content c'} : d.read f v = some raw →
      c.Unwraps env (some raw) (some content) c' → Effective c d v f (some content) c'
  /-- Absence, of a bean that brings no conventions. -/
  | absent {c d v f raw c'} : d.read f v = some raw → c.Unwraps env (some raw) none c' →
      d.conventionsOf v = none → Effective c d v f none c'
  /-- The convention value in place of an absent one. -/
  | convention {c d v f raw c₁ mapping w c'} : d.read f v = some raw →
      c.Unwraps env (some raw) none c₁ → d.conventionsOf v = some mapping →
      c₁.Unwraps env (c₁.store.conventionValue mapping f.name) w c' → Effective c d v f w c'

end Memory

mutual

/-- What is written by an action stands for this value. -/
inductive Resolves (env : Env) : Memory → Action → Node → Memory → Prop
  | null (c) : Resolves env c .null .null c
  | codec (c e s) : Resolves env c (.codec e (.scalar s)) (.scalar s) c
  | bean {c d v ps c'} : FieldsResolve env d v d.fields c ps c' →
      Resolves env c (.bean d v) (.bean d.path ps) c'
  | sequence {c vs ns c'} : RowResolves env c vs ns c' →
      Resolves env c (.sequence vs) (.sequence ns) c'

/-- The elements of a sequence stand for these values. -/
inductive RowResolves (env : Env) : Memory → List Value → List Node → Memory → Prop
  | nil (c) : RowResolves env c [] [] c
  | cons {c v w c₁ a c₂ n c₃ vs ns c'} : c.Unwraps env (some v) w c₁ →
      c₁.Chooses env w (some a) c₂ → Resolves env c₂ a n c₃ → RowResolves env c₃ vs ns c' →
      RowResolves env c (v :: vs) (n :: ns) c'

/-- The fields of an instance `v` of a bean stand for these properties. -/
inductive FieldsResolve (env : Env) :
    Descriptor → Value → List Field → Memory → List (String × Node) → Memory → Prop
  | nil (d v c) : FieldsResolve env d v [] c [] c
  /-- A field that there is no way to write is left out. -/
  | omitted {d v c f w c₁ c₂ fs ps c'} : c.Effective env d v f w c₁ → c₁.Chooses env w none c₂ →
      FieldsResolve env d v fs c₂ ps c' → FieldsResolve env d v (f :: fs) c ps c'
  | written {d v c f w c₁ a c₂ n c₃ fs ps c'} : c.Effective env d v f w c₁ →
      c₁.Chooses env w (some a) c₂ → Resolves env c₂ a n c₃ → FieldsResolve env d v fs c₃ ps c' →
      FieldsResolve env d v (f :: fs) c ((f.name, n) :: ps) c'

end

/-! ### Values resolve in one way only -/

section Unique

variable {env : Env} {c c₁ c₂ : Memory}

/-- A value unwraps to one value only. -/
theorem Memory.Unwraps.unique {v w₁ w₂ : Option Value} (h₁ : c.Unwraps env v w₁ c₁)
    (h₂ : c.Unwraps env v w₂ c₂) : w₁ = w₂ ∧ c₁ = c₂ := by
  rcases c₁ with ⟨store₁, beans₁⟩
  rcases c₂ with ⟨store₂, beans₂⟩
  obtain ⟨run₁, rfl⟩ := h₁
  obtain ⟨run₂, rfl⟩ := h₂
  have same := run₁.symm.trans run₂
  cases same
  exact ⟨rfl, rfl⟩

/-- There is one way to write a value only. -/
theorem Memory.Chooses.unique {v : Option Value} {a₁ a₂ : Option Action}
    (h₁ : c.Chooses env v a₁ c₁) (h₂ : c.Chooses env v a₂ c₂) : a₁ = a₂ ∧ c₁ = c₂ := by
  cases h₁ <;> cases h₂ <;> simp_all

/-- A field has one value only. -/
theorem Memory.Effective.unique {d : Descriptor} {v : Value} {f : Field} {w₁ w₂ : Option Value}
    (h₁ : c.Effective env d v f w₁ c₁) (h₂ : c.Effective env d v f w₂ c₂) :
    w₁ = w₂ ∧ c₁ = c₂ := by
  cases h₁ with
  | own read₁ unwraps₁ =>
    cases h₂ with
    | own read₂ unwraps₂ =>
      cases read₁.symm.trans read₂
      exact unwraps₁.unique unwraps₂
    | absent read₂ unwraps₂ | convention read₂ unwraps₂ =>
      cases read₁.symm.trans read₂
      cases (unwraps₁.unique unwraps₂).1
  | absent read₁ unwraps₁ brings₁ =>
    cases h₂ with
    | own read₂ unwraps₂ =>
      cases read₁.symm.trans read₂
      cases (unwraps₁.unique unwraps₂).1
    | absent read₂ unwraps₂ =>
      cases read₁.symm.trans read₂
      exact unwraps₁.unique unwraps₂
    | convention _ _ brings₂ => cases brings₁.symm.trans brings₂
  | convention read₁ unwraps₁ brings₁ last₁ =>
    cases h₂ with
    | own read₂ unwraps₂ =>
      cases read₁.symm.trans read₂
      cases (unwraps₁.unique unwraps₂).1
    | absent _ _ brings₂ => cases brings₁.symm.trans brings₂
    | convention read₂ unwraps₂ brings₂ last₂ =>
      cases read₁.symm.trans read₂
      cases brings₁.symm.trans brings₂
      obtain ⟨-, rfl⟩ := unwraps₁.unique unwraps₂
      exact last₁.unique last₂

/-- What a bean stands for. -/
theorem resolves_bean_iff {d : Descriptor} {v : Value} {n : Node} :
    Resolves env c (.bean d v) n c₁ ↔
      ∃ ps, n = .bean d.path ps ∧ FieldsResolve env d v d.fields c ps c₁ := by
  constructor
  · rintro ⟨⟩
    exact ⟨_, rfl, ‹_›⟩
  · rintro ⟨ps, rfl, fields⟩
    exact .bean fields

/-- What a sequence stands for. -/
theorem resolves_sequence_iff {vs : List Value} {n : Node} :
    Resolves env c (.sequence vs) n c₁ ↔
      ∃ ns, n = .sequence ns ∧ RowResolves env c vs ns c₁ := by
  constructor
  · rintro ⟨⟩
    exact ⟨_, rfl, ‹_›⟩
  · rintro ⟨ns, rfl, row⟩
    exact .sequence row

/-- What one more element stands for. -/
theorem rowResolves_cons_iff {v : Value} {vs : List Value} {ns : List Node} :
    RowResolves env c (v :: vs) ns c₁ ↔
      ∃ w m₁ a m₂ n m₃ ns', ns = n :: ns' ∧ c.Unwraps env (some v) w m₁ ∧
        m₁.Chooses env w (some a) m₂ ∧ Resolves env m₂ a n m₃ ∧ RowResolves env m₃ vs ns' c₁ := by
  constructor
  · rintro ⟨⟩
    exact ⟨_, _, _, _, _, _, _, rfl, ‹_›, ‹_›, ‹_›, ‹_›⟩
  · rintro ⟨w, m₁, a, m₂, n, m₃, ns', rfl, unwraps, chooses, first, others⟩
    exact .cons unwraps chooses first others

/-- What one more field stands for: nothing, where there is no way to write it. -/
theorem fieldsResolve_cons_iff {d : Descriptor} {v : Value} {f : Field} {fs : List Field}
    {ps : List (String × Node)} :
    FieldsResolve env d v (f :: fs) c ps c₁ ↔
      ∃ w m₁ a m₂, c.Effective env d v f w m₁ ∧ m₁.Chooses env w a m₂ ∧
        match a with
        | none => FieldsResolve env d v fs m₂ ps c₁
        | some a => ∃ n m₃ ps', ps = (f.name, n) :: ps' ∧ Resolves env m₂ a n m₃ ∧
            FieldsResolve env d v fs m₃ ps' c₁ := by
  constructor
  · rintro (_ | ⟨effective, chooses, others⟩ | ⟨effective, chooses, first, others⟩)
    · exact ⟨_, _, none, _, effective, chooses, others⟩
    · exact ⟨_, _, some _, _, effective, chooses, _, _, _, rfl, first, others⟩
  · rintro ⟨w, m₁, _ | a, m₂, effective, chooses, others⟩
    · exact .omitted effective chooses others
    · obtain ⟨n, m₃, ps', rfl, first, others⟩ := others
      exact .written effective chooses first others

/-- What is written by an action stands for one value only. -/
theorem Resolves.unique {a : Action} {n₁ n₂ : Node} (h₁ : Resolves env c a n₁ c₁)
    (h₂ : Resolves env c a n₂ c₂) : n₁ = n₂ ∧ c₁ = c₂ := by
  -- the induction is on the first derivation, over values, rows and fields at once
  refine @Resolves.rec env
    (fun c a n₁ c₁ _ => ∀ n₂ c₂, Resolves env c a n₂ c₂ → n₁ = n₂ ∧ c₁ = c₂)
    (fun c vs ns₁ c₁ _ => ∀ ns₂ c₂, RowResolves env c vs ns₂ c₂ → ns₁ = ns₂ ∧ c₁ = c₂)
    (fun d v fs c ps₁ c₁ _ => ∀ ps₂ c₂, FieldsResolve env d v fs c ps₂ c₂ → ps₁ = ps₂ ∧ c₁ = c₂)
    ?null ?codec ?bean ?sequence ?nil ?cons ?none ?omitted ?written c a n₁ c₁ h₁ n₂ c₂ h₂
  case null =>
    rintro c _ _ ⟨⟩
    exact ⟨rfl, rfl⟩
  case codec =>
    rintro c e s _ _ ⟨⟩
    exact ⟨rfl, rfl⟩
  case bean =>
    intro c d v ps₁ c₁ _ ih n₂ c₂ h₂
    obtain ⟨ps₂, rfl, fields₂⟩ := resolves_bean_iff.1 h₂
    obtain ⟨rfl, rfl⟩ := ih _ _ fields₂
    exact ⟨rfl, rfl⟩
  case sequence =>
    intro c vs ns₁ c₁ _ ih n₂ c₂ h₂
    obtain ⟨ns₂, rfl, row₂⟩ := resolves_sequence_iff.1 h₂
    obtain ⟨rfl, rfl⟩ := ih _ _ row₂
    exact ⟨rfl, rfl⟩
  case nil =>
    rintro c _ _ ⟨⟩
    exact ⟨rfl, rfl⟩
  case cons =>
    intro c v w c₁ a c₂ n c₃ vs ns c' unwraps₁ chooses₁ _ _ first others ns₂ c'' h₂
    obtain ⟨w₂, m₁, a₂, m₂, n₂, m₃, ns', rfl, unwraps₂, chooses₂, first₂, others₂⟩ :=
      rowResolves_cons_iff.1 h₂
    obtain ⟨rfl, rfl⟩ := unwraps₁.unique unwraps₂
    obtain ⟨same, rfl⟩ := chooses₁.unique chooses₂
    cases same
    obtain ⟨rfl, rfl⟩ := first _ _ first₂
    obtain ⟨rfl, rfl⟩ := others _ _ others₂
    exact ⟨rfl, rfl⟩
  case none =>
    rintro d v c _ _ ⟨⟩
    exact ⟨rfl, rfl⟩
  case omitted =>
    intro d v c f w c₁ c₂ fs ps c' effective₁ chooses₁ _ others ps₂ c'' h₂
    obtain ⟨w₂, m₁, a, m₂, effective₂, chooses₂, others₂⟩ := fieldsResolve_cons_iff.1 h₂
    obtain ⟨rfl, rfl⟩ := effective₁.unique effective₂
    obtain ⟨rfl, rfl⟩ := chooses₁.unique chooses₂
    exact others _ _ others₂
  case written =>
    intro d v c f w c₁ a c₂ n c₃ fs ps c' effective₁ chooses₁ _ _ first others ps₂ c'' h₂
    obtain ⟨w₂, m₁, a₂, m₂, effective₂, chooses₂, others₂⟩ := fieldsResolve_cons_iff.1 h₂
    obtain ⟨rfl, rfl⟩ := effective₁.unique effective₂
    obtain ⟨rfl, rfl⟩ := chooses₁.unique chooses₂
    obtain ⟨n₂, m₃, ps', rfl, first₂, others₂⟩ := others₂
    obtain ⟨rfl, rfl⟩ := first _ _ first₂
    obtain ⟨rfl, rfl⟩ := others _ _ others₂
    exact ⟨rfl, rfl⟩

end Unique

/-! ### The operations of a pass -/

namespace Value

/-- A value that is not deferred is not changed by unwrapping, and neither is the store. -/
theorem unwrap_of_plain {decls : Declarations} {v : Value} (h : v.deferred? = none) (s : Store) :
    (unwrap decls (some v)).run s = .ok (.ok (some v)) s := by
  rw [unwrap, maxUnwrapDepth, unwrapWithin, h]
  rfl

/-- What is left after unwrapping is not deferred. -/
theorem plain_of_unwrapWithin {decls : Declarations} {budget : Nat} {met : List Nat}
    {v : Option Value} {w : Value} {s s' : Store}
    (h : (unwrapWithin decls budget met v).run s = .ok (.ok (some w)) s') :
    w.deferred? = none := by
  -- an answer is given where a value is met that is not deferred
  induction budget generalizing met v s with
  | zero =>
    rcases v with _ | v
    · cases h
    · rw [unwrapWithin] at h
      split at h
      · cases h
        assumption
      · cases h
  | succ budget ih =>
    rcases v with _ | v
    · cases h
    · rw [unwrapWithin] at h
      split at h
      · cases h
        assumption
      · rename_i d _
        split at h
        · cases h
        · rw [ExceptT.run_bind] at h
          change EStateM.bind _ _ _ = _ at h
          rw [EStateM.bind] at h
          rcases hd : (d.resolve decls).run s with ⟨e | step, s₁⟩ | ⟨reason, s₁⟩ <;> rw [hd] at h
          · cases h
          · exact ih h
          · cases h

end Value

/-- What is left after unwrapping is not deferred. -/
theorem Memory.Unwraps.plain {env : Env} {c c' : Memory} {v : Option Value} {w : Value}
    (h : c.Unwraps env v (some w) c') : w.deferred? = none :=
  Value.plain_of_unwrapWithin h.1

/-- A value that is not deferred is left as it is. -/
theorem Memory.unwraps_self {env : Env} {c : Memory} {v : Value} (h : v.deferred? = none) :
    c.Unwraps env (some v) (some v) c :=
  ⟨Value.unwrap_of_plain h c.store, rfl⟩

/-- The entry of an action is the one that the registry has for the type of the value. -/
def Action.Known (env : Env) : Action → Prop
  | .codec e v => env.codecs.get? v.typeId = some e
  | _ => True

/-- A way to write a value that was chosen is known. -/
theorem Memory.Chooses.known {env : Env} {c c' : Memory} {v : Option Value} {a : Action}
    (h : c.Chooses env v (some a) c') : a.Known env := by
  cases h with
  | null => trivial
  | codec h => exact h
  | bean => trivial
  | sequence => trivial

namespace Pass

variable {ω : Type}

/-- Looking for a way to write a value finds the one that there is, and changes nothing but the
beans. -/
theorem actionFor_spec (env : Env) (v : Option Value) (m : Machine ω) :
    match actionFor env v m with
    | .ok a m' => m.memory.Chooses env v a m'.memory ∧ m' = { m with beans := m'.beans }
    | .error _ m' => m' = { m with beans := m'.beans } := by
  rcases v with _ | v
  · exact ⟨.null _, rfl⟩
  rcases codec : env.codecs.get? v.typeId with _ | e
  · rw [actionFor_of_no_codec codec, writer?, onBeans]
    rcases writer : Beans.writer? env.decls v.typeId m.beans with
      ⟨_ | d, beans⟩ | ⟨reason, beans⟩
    · rcases items : v.items? with _ | vs
      · exact ⟨.nothing codec writer items, rfl⟩
      · exact ⟨.sequence codec writer items, rfl⟩
    · exact ⟨.bean codec writer, rfl⟩
    · rfl
  · rw [actionFor_of_codec codec]
    exact ⟨.codec codec, rfl⟩

/-- The way to write a value that there is, is found, and nothing but the beans is changed. -/
theorem actionFor_of_chooses {env : Env} {v : Option Value} {a : Option Action} {m : Machine ω}
    {c' : Memory} (h : m.memory.Chooses env v a c') :
    actionFor env v m = .ok a { m with beans := c'.beans } ∧
      c' = { m.memory with beans := c'.beans } := by
  cases h with
  | null => exact ⟨rfl, rfl⟩
  | codec found => exact ⟨actionFor_of_codec found m, rfl⟩
  | bean missing writer =>
    have asked : Beans.writer? env.decls _ m.beans = _ := writer
    rw [actionFor_of_no_codec missing, writer?, onBeans, asked]
    exact ⟨rfl, rfl⟩
  | sequence missing writer items | nothing missing writer items =>
    have asked : Beans.writer? env.decls _ m.beans = _ := writer
    rw [actionFor_of_no_codec missing, writer?, onBeans, asked]
    dsimp only
    rw [items]
    exact ⟨rfl, rfl⟩

/-- A way that was found is known. -/
theorem known_of_actionFor {ε : Type} {env : Env} {v : Option Value} {a : Action}
    {m m' : Machine ω}
    (h : (liftM (actionFor env v) : AttemptTo ω ε _).run m = .ok (.ok (some a)) m') :
    a.Known env := by
  have spec := actionFor_spec env v m
  have known : Meets (liftM (actionFor env v) : AttemptTo ω ε _) m
      ⟨fun a' _ => ∀ a, a' = some a → a.Known env, fun _ _ => True, fun _ _ => True⟩ := by
    refine meets_lift.2 ?_
    rcases found : actionFor env v m with ⟨a', m''⟩ | ⟨reason, m''⟩
    · rw [found] at spec
      rintro a rfl
      exact spec.1.known
    · trivial
  exact known.done h a rfl

end Pass

/-! ### A bean type to try facts about passes on -/

namespace Link

/-- The type of the links of a chain: the next one, and a name. -/
def type : TypeId := .named "Link"

/-- The codecs of the library, and the declaration of the bean type. -/
def env : Env where
  codecs := .builtin
  decls := Table.empty.set type { path := "demo::Link", fields := ["next", "name"] }

/-- The bean type is registered, and nothing is written yet. -/
def machine : Machine where
  beans := { registry := (BeanRegistry.register env.decls type {}).2 }

/-- A link. -/
def link (next : Option Value) (name : List UInt8) : Value :=
  .bean type [.optional type next, .scalar (.path name)] 0

end Link

end BeanStream
