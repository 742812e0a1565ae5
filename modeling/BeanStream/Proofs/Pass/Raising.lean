import BeanStream.Proofs.Pass.Moments
import BeanStream.Proofs.Pass.Truncation

/-!
# Passes under a higher limit on nesting

A pass, and the same pass under a limit that is **at least as high** (`raising`), are the same pass
until the lower limit is exceeded. This ends the pass under the lower limit, as every failure for
too deep a nesting does, and all that the other one does from there on is behind what both have
done.

Main fact: a pass that does not fail for too deep a nesting **comes to the same under the higher
limit**. If it does, there are as many beans on the trace that it tells as the limit allows, and
what it wrote and logged is a first part of what the other pass writes and logs (`Call.run_raised`).
-/

namespace BeanStream

open Wire Encoder Pass

/-- The settings with another limit on nesting. -/
def Settings.withMaxDepth (settings : Settings) (limit : Nat) : Settings :=
  { settings with maxDepth := limit }

/-- Failures that do not come from the limit. -/
theorem Reason.isTooDeep_toError (r : Reason) (t : Trace) : (r.toError t).isTooDeep = false := by
  cases r <;> rfl

/-- What was written and logged by the one machine is a first part of what the other one has. -/
structure Machine.Before (m m' : Machine) : Prop where
  written : m.written <+: m'.written
  logs : m.logs <+: m'.logs

namespace Machine.Before

variable {m m' m'' : Machine}

theorem refl (m : Machine) : m.Before m := ⟨List.prefix_rfl, List.prefix_rfl⟩

theorem advances {env : Env} (h : m.Before m') (later : m'.Advances env m'') : m.Before m'' :=
  ⟨h.written.trans later.written, h.logs.trans later.prefix_logs⟩

theorem shows (h : m.Before m') (same : m'.Shows m'') : m.Before m'' :=
  ⟨same.written ▸ h.written, same.logs ▸ h.logs⟩

end Machine.Before

/-- A failure for too deep a nesting under the limit, with as many beans on the trace as the limit
allows. -/
def WriteError.TooDeepAt (limit : Nat) (e : WriteError) : Prop :=
  ∃ t, e = .tooDeep t limit ∧ t.beanDepth = limit

/-- A pass, and the same one under a limit that is at least as high. -/
def raising (env : Env) {limit : Nat} (higher : env.settings.maxDepth ≤ limit) :
    Coupling env (env.settings.withMaxDepth limit) where
  sim m m' := m = m' ∧ m.trace.beanDepth ≤ env.settings.maxDepth
  fails e e' := e = e' ∧ e.isTooDeep = false
  first e m m' := e.TooDeepAt env.settings.maxDepth ∧ m.Before m'
  second _ _ _ := False
  fits _ := True
  entering {m m'} h f within := by
    obtain ⟨rfl, bounded⟩ := h
    refine ⟨rfl, ?_⟩
    rcases bean : f.isBean with _ | _
    · have same : (m.enter f).trace.beanDepth = m.trace.beanDepth :=
        List.countP_cons_of_neg (by simp [bean])
      exact same ▸ bounded
    · have more : (m.enter f).trace.beanDepth = m.trace.beanDepth + 1 :=
        List.countP_cons_of_pos bean
      exact more ▸ within bean
  leaving {m m'} h _ := by
    obtain ⟨rfl, bounded⟩ := h
    exact ⟨rfl, Nat.le_trans ((List.tail_sublist _).countP_le) bounded⟩
  fails_at {m m'} h r := by
    obtain ⟨rfl, -⟩ := h
    exact ⟨rfl, r.isTooDeep_toError _⟩
  tooDeep {m m'} h deep := by
    obtain ⟨rfl, bounded⟩ := h
    exact .inr ⟨⟨m.trace, rfl, Nat.le_antisymm bounded deep⟩, .refl m⟩
  within {m m'} h deep := by
    obtain ⟨rfl, -⟩ := h
    exact Nat.le_trans higher deep
  logging {m m'} h typePath := by
    obtain ⟨rfl, bounded⟩ := h
    exact ⟨rfl, bounded⟩
  omitting {m m'} h typePath := by
    obtain ⟨rfl, bounded⟩ := h
    dsimp only [Settings.withMaxDepth]
    rcases env.settings.missing
    · exact ⟨rfl, bounded⟩
    · trivial
  writing {m m'} h pieces := by
    obtain ⟨rfl, bounded⟩ := h
    rcases writePieces pieces m.encoder with ⟨⟨⟩, e⟩ | ⟨source, e⟩
    · exact ⟨rfl, bounded⟩
    · exact ⟨rfl, rfl, bounded⟩
  unwrapping {m m'} h v _ := by
    obtain ⟨rfl, bounded⟩ := h
    exact .of_self (fun s => ⟨rfl, bounded⟩) _
  asking {m m'} h type := by
    obtain ⟨rfl, bounded⟩ := h
    exact .of_self (fun b => ⟨rfl, bounded⟩) _
  convention {m m'} h mapping name := by
    obtain ⟨rfl, -⟩ := h
    rfl
  fits_unwrap _ _ _ _ _ _ := trivial
  fits_item _ _ _ _ _ := trivial
  fits_field _ _ _ _ := trivial
  fits_convention _ _ _ _ _ _ _ _ _ := trivial
  first_advances h later := ⟨h.1, h.2.advances later⟩
  first_leave h := ⟨h.1, h.2.written, h.2.logs⟩
  second_advances h _ := h
  second_leave h := h

namespace Call

variable {env : Env} {c : Call} {limit : Nat}

/-- Under a limit that is at least as high, the same call on the same machine comes to the same, or
the limit was exceeded. -/
theorem run_raising (plain : env.codecs.Plain) (higher : env.settings.maxDepth ≤ limit)
    {m : Machine} (root : m.trace.beanDepth ≤ env.settings.maxDepth) (depth : Nat) :
    let raised := env.under (env.settings.withMaxDepth limit)
    let r := (c.run env (.ofDepth env depth)).run m
    let r' := (c.run raised (.ofDepth raised depth)).run m
    (r = r' ∧ ∀ e m₁, r = .ok (.error e) m₁ → e.isTooDeep = false) ∨
      ∃ e m₁, r = .ok (.error e) m₁ ∧ e.TooDeepAt env.settings.maxDepth ∧
        m₁.Before (aftermath r') := by
  intro raised r r'
  have below := (raising env higher).below_ofDepth plain depth
  have related : (raising env higher).Rel r r' :=
    Coupling.run_call below (c := c) (fun _ _ => trivial) ⟨rfl, root⟩
  clear_value r r'
  cases related with
  | together h =>
    refine .inl ?_
    cases h with
    | done a sim =>
      obtain ⟨rfl, -⟩ := sim
      exact ⟨rfl, nofun⟩
    | failed fails sim =>
      obtain ⟨rfl, -⟩ := sim
      obtain ⟨rfl, other⟩ := fails
      refine ⟨rfl, ?_⟩
      rintro e m₁ ⟨⟩
      exact other
    | aborted reason sim =>
      obtain ⟨rfl, -⟩ := sim
      exact ⟨rfl, nofun⟩
  | first h => exact .inr ⟨_, _, rfl, h.1, h.2⟩
  | second h => exact h.elim

/-- Over pure values, a call that ends does so whatever happened to the memory before. -/
theorem Ends.since {origin memory memory' : Memory} {m : Machine}
    (h : c.Ends env (m.holding memory)) (since : origin.Since env.decls memory)
    (since' : origin.Since env.decls memory')
    (pure : ∀ v, c.subject = some v → origin.store.Pure env.decls env.codecs v) :
    c.Ends env (m.holding memory') := by
  obtain ⟨depth, outcome, same, panics⟩ := h
  have alike := run_since since since' pure depth m
  rw [same depth (Nat.le_refl depth)] at alike
  have ended {reason m'} (aborted : (c.run env (.ofDepth env depth)).run (m.holding memory') =
      .error reason m') : reason = .panic := by
    rw [aborted] at alike
    cases alike with
    | error _ left => exact panics reason _ rfl
  refine ⟨depth, _, fun depth' deeper => run_of_le (fun m' overflow => ?_) deeper, fun _ _ => ended⟩
  cases ended overflow

/-- A call over pure values, compared to the same call under a limit that is at least as high,
whatever happened to the memory before. The second one may be given more levels to go. Both end if
no list contains itself. -/
theorem run_raised (plain : env.codecs.Plain) {origin memory memory' : Memory}
    (since : origin.Since env.decls memory) (since' : origin.Since env.decls memory')
    (pure : ∀ v, c.subject = some v → origin.store.Pure env.decls env.codecs v)
    (higher : env.settings.maxDepth ≤ limit) {m : Machine}
    (root : m.trace.beanDepth ≤ env.settings.maxDepth) {depth depth' : Nat}
    (deeper : depth ≤ depth') :
    let raised := env.under (env.settings.withMaxDepth limit)
    let x := c.run env (.ofDepth env depth)
    let low := x.run (m.holding memory)
    let high := (c.run raised (.ofDepth raised depth')).run (m.holding memory')
    ((∀ m₁, low ≠ .error .overflow m₁) →
        (∀ e m₁, low = .ok (.error e) m₁ → e.isTooDeep = false) → Alike Machine.Shows low high) ∧
      (∀ e m₁, low = .ok (.error e) m₁ → e.isTooDeep = true →
        e.TooDeepAt env.settings.maxDepth ∧ m₁.Before (aftermath high)) ∧
      Orderly (fun f => f.isBean = false) env.settings.maxDepth x ∧
      (∀ m₁, Moment (fun f => f.isBean = false) env.settings.maxDepth x (m.holding memory) m₁ →
        m₁.trace.beanDepth ≤ env.settings.maxDepth) ∧
      (memory.store.Unshared →
        (∀ v, c.subject = some v → memory.store.Acyclic env.decls v) →
        c.Ends env (m.holding memory) ∧ c.Ends raised (m.holding memory')) := by
  intro raised x low high
  have beside : Alike Machine.Same ((c.run raised (.ofDepth raised depth')).run (m.holding memory))
      high := @run_since _ _ raised origin memory memory' since since' c pure depth' m
  have again : Alike Machine.Shows _ high := beside.imp fun _ _ left => left.shows
  have same (enough : ∀ m₁, low ≠ .error .overflow m₁) :
      (c.run env (.ofDepth env depth')).run (m.holding memory) = low := run_of_le enough deeper
  have split := run_raising (c := c) plain higher (m := m.holding memory) root depth'
  have orderly : Orderly (fun f => f.isBean = false) env.settings.maxDepth x :=
    orderly_run (fun _ other => other) (plain.frames _) c depth
  refine ⟨?within, ?tooDeep, orderly, ?moments, ?ends⟩
  case within =>
    intro enough within
    rw [same enough] at split
    rcases split with ⟨alike, -⟩ | ⟨e, m₁, failed, ⟨t, rfl, -⟩, -⟩
    · rw [alike]
      exact again
    · cases within _ m₁ failed
  case tooDeep =>
    intro e m₁ failed tooDeep
    have enough : ∀ m₁, low ≠ .error .overflow m₁ := by
      intro m₂ overflow
      cases failed.symm.trans overflow
    rw [same enough] at split
    rcases split with ⟨-, within⟩ | ⟨e', m₁', failed', exceeds, before⟩
    · cases tooDeep.symm.trans (within e m₁ failed)
    · cases failed.symm.trans failed'
      exact ⟨exceeds, before.shows again.left⟩
  case moments =>
    intro m₁ moment
    exact Nat.le_trans (moment.grown.beanDepth_le fun _ other => other)
      (Nat.max_le.2 ⟨root, Nat.le_refl _⟩)
  case ends =>
    intro unshared acyclic
    have ends : c.Ends raised (m.holding memory) := ends_of_acyclic plain.flat unshared acyclic
    exact ⟨ends_of_acyclic plain.flat unshared acyclic, ends.since since since' pure⟩

/-- A chain of two links. Under a limit of one it is cut off at the second link, and under the
limits two and five it is written alike. -/
theorem run_raised_link :
    let c := Call.bean (Link.link (some (Link.link none [98])) [97])
    let env (limit : Nat) := Link.env.under (Link.env.settings.withMaxDepth limit)
    let pass (limit : Nat) := (c.run (env limit) (.ofDepth (env limit) 3)).run Link.machine
    (∃ e m₁, pass 1 = .ok (.error e) m₁ ∧ e.TooDeepAt 1 ∧ m₁.Before (aftermath (pass 2))) ∧
      Outcome.isDone (pass 2) = true ∧ Alike Machine.Shows (pass 2) (pass 5) := by
  intro c env pass
  have flat : Link.env.codecs.Flat := CodecRegistry.flat_builtin
  have bare : Link.machine.store.mapping 0 = .empty := rfl
  have second : Link.machine.store.Pure Link.env.decls Link.env.codecs (Link.link none [98]) := by
    refine Link.pure_link flat bare ?_ [98]
    rintro u ⟨⟩
  have pure : ∀ v, c.subject = some v →
      Link.machine.memory.store.Pure Link.env.decls Link.env.codecs v := by
    rintro v ⟨⟩
    refine Link.pure_link flat bare ?_ [97]
    rintro u ⟨⟩
    exact second
  have done : Outcome.isDone (pass 2) = true := by decide +kernel
  obtain ⟨a, m₂, run₂⟩ := Outcome.exists_of_isDone done
  refine ⟨?_, done, ?_⟩
  · have failed : Outcome.isFailed (pass 1) = true := by decide +kernel
    obtain ⟨e, m₁, run₁⟩ := Outcome.exists_of_isFailed failed
    have tooDeep : e.isTooDeep = true := by
      have kind : Outcome.isCutOff (pass 1) = true := by decide +kernel
      rw [run₁] at kind
      exact kind
    obtain ⟨-, cut, -⟩ := @Call.run_raised (env 1) c 2 CodecRegistry.plain_builtin _ _ _ .refl .refl
      pure (Nat.le_succ 1) Link.machine (Nat.zero_le 1) 3 3 (Nat.le_refl 3)
    exact ⟨e, m₁, run₁, cut e m₁ run₁ tooDeep⟩
  · obtain ⟨alike, -⟩ := @Call.run_raised (env 2) c 5 CodecRegistry.plain_builtin _ _ _ .refl .refl
      pure (Nat.le_add_right 2 3) Link.machine (Nat.zero_le 2) 3 3 (Nat.le_refl 3)
    refine alike (fun m₁ overflow => ?_) fun e m₁ failed => ?_
    · cases run₂.symm.trans overflow
    · cases run₂.symm.trans failed

end Call

end BeanStream
