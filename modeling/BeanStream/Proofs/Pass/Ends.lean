import BeanStream.Proofs.Pass.Depth
import BeanStream.Proofs.Pass.Descent

/-!
# Which passes end

Beans are entered up to the limit on nesting, and on a chain of containers each is met once. Nothing
limits how deeply **lists** are nested: every element of a list is unwrapped anew. So a pass ends
exactly if the elements that it enters are nested up to some number only. That is so whenever **no
list contains itself** through containers alone, whatever other cycles the object graph has
(`Call.ends_iff`); and a property that holds a list with the property in it is written without end
(`Call.endless_property`).
-/

namespace BeanStream

open Relation Wire Pass

/-- Whether a frame is an element. -/
def Frame.isElement : Frame → Bool
  | .element _ => true
  | _ => false

namespace Trace

/-- How many elements are being written. -/
def elementDepth (t : Trace) : Nat := t.countP Frame.isElement

@[simp] theorem elementDepth_element (index : Nat) (t : Trace) :
    elementDepth (.element index :: t) = elementDepth t + 1 :=
  List.countP_cons_of_pos rfl

@[simp] theorem elementDepth_property (kind : PropertyKind) (name : String) (t : Trace) :
    elementDepth (.property kind name :: t) = elementDepth t :=
  List.countP_cons_of_neg (by simp [Frame.isElement])

@[simp] theorem elementDepth_bean (path : String) (t : Trace) :
    elementDepth (.bean path :: t) = elementDepth t :=
  List.countP_cons_of_neg (by simp [Frame.isElement])

end Trace

/-! ### How far a pass may descend -/

namespace Descends

variable {env : Env} {s : Store} {a : Action} {t t' : Trace} {k : Nat}

/-- Every level is a bean or an element. -/
theorem depth_eq (h : Descends env s a t k t') :
    t'.beanDepth + t'.elementDepth = t.beanDepth + t.elementDepth + k := by
  induction h with
  | here a t => rfl
  | field f _ _ _ _ ih =>
    simp only [Trace.beanDepth_property, Trace.beanDepth_bean, Trace.elementDepth_property,
      Trace.elementDepth_bean] at ih
    omega
  | element index _ _ _ ih =>
    simp only [Trace.beanDepth_element, Trace.elementDepth_element] at ih
    omega

/-- Beans are nested up to the limit. -/
theorem beanDepth_le (h : Descends env s a t k t') :
    t'.beanDepth ≤ max t.beanDepth env.settings.maxDepth := by
  -- a bean is entered below the limit only, and an element leaves the number of beans alone
  induction h with
  | here a t => exact Nat.le_max_left _ _
  | field f within _ _ _ ih =>
    simp only [Trace.beanDepth_property, Trace.beanDepth_bean] at ih
    omega
  | element index _ _ _ ih =>
    simp only [Trace.beanDepth_element] at ih
    exact ih

end Descends

/-- Where `a` is written as a part of `root`: the lists `outer` have been entered since the last
bean was, one within the other and none of them twice. -/
structure Inside (env : Env) (s : Store) (root : Value) (a : Action) (outer : List (List Value)) :
    Prop where
  part : ∃ u, ReflTransGen (s.Part env.decls) root u ∧ s.LeadsTo env (some u) a
  spelled : outer ⊆ root.lists ++ s.lists
  once : outer.Nodup
  within : ∀ items, a = .sequence items → ∀ o ∈ outer, TransGen (s.Within env.decls) items o

/-- No list that is a part of `root` contains itself through containers alone. -/
def Store.Acyclic (decls : Declarations) (s : Store) (root : Value) : Prop :=
  ∀ {type items}, ReflTransGen (s.Part decls) root (.sequence type items) →
    ¬ TransGen (s.Within decls) items items

namespace Inside

variable {env : Env} {s : Store} {root : Value} {a : Action} {outer : List (List Value)}

/-- What is written first is inside of no list. -/
theorem start {u : Value} (part : ReflTransGen (s.Part env.decls) root u)
    (leads : s.LeadsTo env (some u) a) : Inside env s root a [] where
  part := ⟨u, part, leads⟩
  spelled := List.nil_subset _
  once := List.nodup_nil
  within _ _ _ none := nomatch none

theorem length_le (h : Inside env s root a outer) :
    outer.length ≤ (root.lists ++ s.lists).length :=
  h.once.length_le_of_subset h.spelled

/-- In a bean, lists may be entered again. -/
theorem field {d : Descriptor} {v u : Value} (h : Inside env s root (.bean d v) outer)
    (part : s.Part env.decls v u) (leads : s.LeadsTo env (some u) a) : Inside env s root a [] := by
  obtain ⟨w, parts, bean⟩ := h.part
  cases bean with
  | bean _ exposes =>
    exact start ((parts.trans (Store.parts_of_exposed exposes)).tail part) leads

/-- A list that does not contain itself has not been entered before. -/
theorem element {items : List Value} {u : Value} (acyclic : s.Acyclic env.decls root)
    (h : Inside env s root (.sequence items) outer) (mem : u ∈ items)
    (leads : s.LeadsTo env (some u) a) : Inside env s root a (items :: outer) := by
  obtain ⟨w, parts, list⟩ := h.part
  cases list with
  | @sequence _ type _ exposes =>
    have parts : ReflTransGen (s.Part env.decls) root (.sequence type items) :=
      parts.trans (Store.parts_of_exposed exposes)
    have fresh : items ∉ outer := fun again => acyclic parts (h.within items rfl items again)
    refine ⟨⟨u, parts.tail (.element mem), leads⟩, ?_, ?_, ?_⟩
    · exact List.cons_subset.2 ⟨Store.mem_lists_of_parts parts, h.spelled⟩
    · exact List.nodup_cons.2 ⟨fresh, h.once⟩
    -- a list that an element is unwrapped to is within this one, and so within all the others
    · rintro inner rfl o entered
      cases leads with
      | @sequence _ type _ exposes =>
        have direct : s.Within env.decls inner items := ⟨u, mem, type, exposes⟩
        rcases List.mem_cons.1 entered with rfl | entered
        · exact .single direct
        · exact .head direct (h.within items rfl o entered)

/-- So lists are entered as often as there are some, for each bean. -/
theorem le (acyclic : s.Acyclic env.decls root) {t t' : Trace} {k : Nat}
    (h : Inside env s root a outer) (descends : Descends env s a t k t') :
    k + outer.length ≤ (env.settings.maxDepth - t.beanDepth) *
      ((root.lists ++ s.lists).length + 1) + (root.lists ++ s.lists).length := by
  induction descends generalizing outer with
  | here a t =>
    have entered := h.length_le
    omega
  | @field d v u a k t' t f within part leads _ ih =>
    -- within the bean all lists may be entered again, but one bean less
    have inner := ih (h.field part leads)
    have entered := h.length_le
    simp only [Trace.beanDepth_property, Trace.beanDepth_bean] at inner
    have more : env.settings.maxDepth - t.beanDepth =
        env.settings.maxDepth - (t.beanDepth + 1) + 1 := by omega
    rw [more, Nat.add_mul]
    simp only [List.length_nil] at inner
    omega
  | element index mem leads _ ih =>
    -- one list more has been entered since the last bean was
    have inner := ih (h.element acyclic mem leads)
    simp only [Trace.beanDepth_element, List.length_cons] at inner
    omega

end Inside

/-! ### Calls -/

namespace Call

variable {ω : Type} [Output ω] {env : Env} {c : Call} {m : Machine ω}

/-- The value that a call is about. -/
def subject : Call → Option Value
  | .value v | .property _ v _ => v
  | .bean v => some v

/-- A call **ends** if it comes to the same at every depth that is great enough: it returns, unless
something panics. -/
def Ends (env : Env) (c : Call) (m : Machine ω) : Prop :=
  ∃ depth outcome, (∀ depth' ≥ depth, (c.run env (.ofDepth env depth')).run m = outcome) ∧
    ∀ reason m', outcome = .error reason m' → reason = .panic

/-- A call that runs out of depth has descended as many levels as it was given. -/
theorem keeps_run (flat : env.codecs.Flat) (unshared : m.store.Unshared) (depth : Nat) :
    Keeps env.decls m.store (c.run env (.ofDepth env depth)) m (fun _ => True) fun t' =>
      ∃ a t k, m.store.LeadsTo env c.subject a ∧ Descends env m.store a t k t' ∧
        (k = depth ∨ k = depth + 1) ∧
        t.beanDepth = m.trace.beanDepth ∧ t.elementDepth = m.trace.elementDepth := by
  cases c with
  | value v =>
    refine keeps_writeValue unshared (.refl _) fun a m₁ leads trace later => ?_
    refine (keeps_ofDepth flat unshared depth leads later).imp (fun _ => id) fun t' descends => ?_
    exact ⟨a, m₁.trace, depth, leads, descends, .inl rfl, trace ▸ rfl, trace ▸ rfl⟩
  | property name v kind =>
    refine keeps_writeNextProperty unshared (.refl _) fun a m₁ leads trace later => ?_
    refine (keeps_ofDepth flat unshared depth leads later).imp (fun _ => id) fun t' descends => ?_
    exact ⟨a, m₁.trace, depth, leads, descends, .inl rfl, by simp [trace], by simp [trace]⟩
  | bean v =>
    refine (keeps_writer? (.refl _)).bind fun d m₁ trace₁ later₁ _ => ?_
    rcases d with _ | d
    · exact keeps_throw
    refine keeps_writeFieldsOf unshared later₁ fun within f u part a m₂ leads trace₂ later₂ => ?_
    refine (keeps_ofDepth flat unshared depth leads later₂).imp (fun _ => id) fun t' descends => ?_
    refine ⟨.bean d v, m₁.trace, depth + 1, .bean d .refl, ?_, .inr rfl, trace₁ ▸ rfl,
      trace₁ ▸ rfl⟩
    exact .field f within part leads (trace₂ ▸ descends)

/-- It is enough that some depth is not run out of. -/
theorem ends_of_enough (flat : env.codecs.Flat) (unshared : m.store.Unshared) (depth : Nat)
    (enough : ∀ m', (c.run env (.ofDepth env depth)).run m ≠ .error .overflow m') :
    c.Ends env m := by
  refine ⟨depth, _, fun depth' deeper => run_of_le enough deeper, fun reason m' aborted => ?_⟩
  rcases (keeps_run flat unshared depth).aborted aborted with panic | ⟨rfl, -⟩
  · exact panic
  · exact absurd aborted (enough m')

/-- A call about an object graph in which no list contains itself ends. -/
theorem ends_of_acyclic (flat : env.codecs.Flat) (unshared : m.store.Unshared)
    (acyclic : ∀ v, c.subject = some v → m.store.Acyclic env.decls v) : c.Ends env m := by
  -- the lists that a call may enter: those of the value that it is about, and of the store
  let count := (Value.listsOf? c.subject ++ m.store.lists).length
  refine ends_of_enough flat unshared (env.settings.maxDepth * (count + 1) + count + 1)
    fun m' deep => ?_
  rcases (keeps_run flat unshared _).aborted deep with
    ⟨⟨⟩⟩ | ⟨-, a, t, k, leads, descends, levels, -⟩
  rcases subject : c.subject with _ | v
  -- absence leads nowhere
  · rw [subject] at leads
    cases leads
    cases descends
    omega
  · rw [subject] at leads
    have bound := (Inside.start .refl leads).le (acyclic v subject) descends
    have length : count = (v.lists ++ m.store.lists).length := by
      simp only [count, subject]
      rfl
    rw [← length] at bound
    have fewer := Nat.mul_le_mul_right (count + 1)
      (Nat.sub_le env.settings.maxDepth (Trace.beanDepth t))
    simp only [List.length_nil] at bound
    omega

/-- A call ends **exactly if** the elements that it enters are nested up to some number only. It
does whenever no list contains itself through containers alone, whatever else does. -/
theorem ends_iff (flat : env.codecs.Flat) (unshared : m.store.Unshared) :
    (c.Ends env m ↔ ∃ n, ∀ depth m',
      (c.run env (.ofDepth env depth)).run m = .error .overflow m' →
        m'.trace.elementDepth ≤ n) ∧
      ((∀ v, c.subject = some v → m.store.Acyclic env.decls v) → c.Ends env m) := by
  refine ⟨⟨?_, ?_⟩, ends_of_acyclic flat unshared⟩
  -- a depth that is run out of is less than enough, and all of it is beans and elements
  · rintro ⟨enough, outcome, same, panics⟩
    refine ⟨m.trace.beanDepth + m.trace.elementDepth + enough, fun depth m' deep => ?_⟩
    have less : depth < enough := by
      by_contra more
      cases panics .overflow m' ((same depth (Nat.le_of_not_lt more)).symm.trans deep)
    rcases (keeps_run flat unshared depth).aborted deep with
      ⟨⟨⟩⟩ | ⟨-, a, t, k, -, descends, levels, beans, elements⟩
    have sum := descends.depth_eq
    omega
  -- beans are limited anyway, so a depth beyond both bounds cannot be run out of
  · rintro ⟨n, bounded⟩
    refine ends_of_enough flat unshared (max m.trace.beanDepth env.settings.maxDepth + n + 1)
      fun m' deep => ?_
    have nested := bounded _ m' deep
    rcases (keeps_run flat unshared _).aborted deep with
      ⟨⟨⟩⟩ | ⟨-, a, t, k, -, descends, levels, beans, elements⟩
    have sum := descends.depth_eq
    have limit := descends.beanDepth_le
    omega

/-- A chain that is closed through a property: the link that the property holds leads back to the
property. No list is in sight, so the limit on beans ends it. -/
theorem ends_iff_link :
    let cell : Value := .property 0
    let store : Store :=
      { properties := Table.empty.set 0 (some (Link.link (some cell) [97])) }
    (Call.value (some cell)).Ends Link.env { Link.machine with store } := by
  intro cell store
  refine (ends_iff CodecRegistry.flat_builtin ?_).2 fun v subject => ?_
  · rintro cell owner ⟨⟩
  · cases subject
    intro type items parts
    have listed := Store.mem_lists_of_parts parts
    cases listed

end Call

/-! ### A call that does not end -/

namespace Pass

variable {ω : Type} [Output ω] {env : Env} {type : TypeId} {items : List Value} {m : Machine ω}

/-- Unwrapped, the first element of a list is the list itself, and nothing keeps it from being
written. -/
structure Endless (env : Env) (type : TypeId) (items : List Value) (m : Machine ω) : Prop where
  reliable : Output.Reliable m.encoder
  again : ∃ v vs, items = v :: vs ∧ (Value.unwrap env.decls (some v)).run m.store =
    .ok (.ok (some (.sequence type items))) m.store
  codec : env.codecs.get? type = none
  bean : Beans.writer? env.decls type m.beans = .ok none m.beans

/-- Writing an item does not change this. -/
theorem Endless.emit {E : Ending WriteError Unit ω} (h : Endless env type items m) (p : Primitive)
    (next : ∀ m', Endless env type items m' → E.done () m') : Meets (emit p) m E := by
  refine (meets_emit p).2 ?_
  obtain ⟨encoder, taken, -, reliable⟩ := Encoder.exists_write h.reliable p
  rw [taken]
  exact next _ ⟨reliable, h.again, h.codec, h.bean⟩

/-- To write what unwraps to the list is to write the list. -/
theorem Endless.writeValue {below : Nested ω} {u : Option Value} {E : Ending WriteError Unit ω}
    (h : Endless env type items m)
    (unwrapped : (Value.unwrap env.decls u).run m.store =
      .ok (.ok (some (.sequence type items))) m.store)
    (next : Meets (below.writeWith (.sequence items)) m E) :
    Meets (writeValue env below u) m E := by
  have found : actionFor env (some (.sequence type items)) m = .ok (some (.sequence items)) m := by
    simp only [actionFor, Value.typeId, h.codec, writer?, onBeans, bind, EStateM.bind, h.bean]
    rfl
  have kept : { m with store := m.store } = m := rfl
  refine meets_bind.2 ((meets_unwrap env [] u).2 ?_)
  rw [unwrapped]
  refine meets_bind.2 (meets_lift.2 ?_)
  rw [kept, found]
  exact next

/-- The list is written again and again, one level deeper each time. -/
theorem overflow_of_endless (h : Endless env type items m) (depth : Nat) :
    Meets ((Nested.ofDepth env depth).writeWith (.sequence items)) m
      ⟨fun _ _ => False, fun _ _ => False, fun reason _ => reason = .overflow⟩ := by
  induction depth generalizing m with
  | zero => rfl
  | succ depth ih =>
    -- the tag and the count are written, and then the first element
    refine meets_bind.2 (h.emit _ fun m₁ h₁ => ?_)
    refine meets_bind.2 (h₁.emit _ fun m₂ h₂ => ?_)
    obtain ⟨v, vs, rfl, again⟩ := h₂.again
    have h₃ : Endless env type (v :: vs) (m₂.enter (.element 0)) :=
      ⟨h₂.reliable, h₂.again, h₂.codec, h₂.bean⟩
    refine meets_bind.2 (meets_framed.2 (h₃.writeValue again ?_))
    exact Meets.imp (ih h₃) (fun _ _ => False.elim) (fun _ _ => False.elim) fun _ _ => id

end Pass

/-- A property that holds a list with the property in it is written without end. -/
theorem Call.endless_property :
    let cell : Value := .property 0
    let store : Store :=
      { properties := Table.empty.set 0 (some (.sequence (.list .shared) [.shared cell])) }
    ¬ (Call.value (some cell)).Ends Link.env { Link.machine with store } := by
  rintro cell store ⟨depth, outcome, same, panics⟩
  have endless : Endless Link.env (.list .shared) [.shared cell] { Link.machine with store } :=
    { reliable := Encoder.reliable ⟨rfl, nofun⟩
      again := ⟨_, _, rfl, rfl⟩
      codec := Option.isNone_iff_eq_none.1 (by decide +kernel)
      bean := rfl }
  have overflows : Meets ((Call.value (some cell)).run Link.env (.ofDepth Link.env depth))
      { Link.machine with store }
      ⟨fun _ _ => False, fun _ _ => False, fun reason _ => reason = .overflow⟩ :=
    endless.writeValue rfl (overflow_of_endless endless depth)
  rcases run : ((Call.value (some cell)).run Link.env (.ofDepth Link.env depth)).run
    { Link.machine with store } with ⟨e | a, m'⟩ | ⟨reason, m'⟩
  · exact overflows.failed run
  · exact overflows.done run
  · have overflow := overflows.aborted run
    have panic := panics reason m' ((same depth (Nat.le_refl _)).symm.trans run)
    cases overflow.symm.trans panic

end BeanStream
