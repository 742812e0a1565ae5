import BeanStream.Proofs.Pass.Truncation

/-!
# Leaving properties out

Under the lenient policy, a property whose value cannot be written is left out with a warning;
under the strict one, the pass fails there. Up to the first warning the two policies make no
difference.

Main fact: if the lenient pass warns of nothing, **both passes come to the same**. Else the strict
one fails with what the first warning says, at the point where the lenient one has logged it
(`Call.run_strict`). What had been written at that point is told by outputs that are limited: the
lenient pass comes to a warning exactly if there is room for what the strict pass has written.
-/

namespace BeanStream

open Wire Encoder Pass Relation Machine

/-- Where a list is cut at the first member that satisfies `p`, this is at one place only. -/
private theorem first_unique {α : Type} {p : α → Bool} {before before' after after' : List α}
    {a a' : α} (h : ∀ b ∈ before, p b = false) (h' : ∀ b ∈ before', p b = false)
    (here : p a = true) (here' : p a' = true)
    (same : before ++ a :: after = before' ++ a' :: after') : before = before' ∧ a = a' := by
  -- what stands in front of the first one is what a scan for it passes over
  have scanned {front more : List α} {b : α} (h : ∀ c ∈ front, p c = false) (here : p b = true) :
      (front ++ b :: more).takeWhile (!p ·) = front := by
    have passed : ∀ c ∈ front, (!p c) = true := fun c mem => by rw [h c mem, Bool.not_false]
    have stopped : (b :: more).takeWhile (!p ·) = [] := by simp [here]
    rw [List.takeWhile_append_of_pos passed, stopped, List.append_nil]
  obtain rfl : before = before' := by
    rw [← scanned h here, same, scanned h' here']
  have rest : a :: after = a' :: after' := List.append_cancel_left same
  exact ⟨rfl, (List.cons.inj rest).1⟩

namespace Call

variable {env : Env} {c : Call} {m : Machine}

/-- Over the same memory, a strict call logs no omission. Either the lenient one logs none, too, and
they come to the same, or the strict one stops at the first omission. -/
theorem run_lenient (plain : env.codecs.Plain) (c : Call) (depth : Nat)
    (unlimited : m.encoder.sink.Unlimited) :
    let strict := env.under (env.settings.withMissing .fail)
    let warned := (c.run env (.ofDepth env depth)).run m
    let failed := (c.run strict (.ofDepth strict depth)).run m
    ∃ lines kept, (aftermath warned).logs = m.logs ++ lines ∧
      (∀ line ∈ kept, line.isOmission = false) ∧
      (lines = kept ∧ Alike Shows warned failed ∨
        ∃ t typePath more m₁, lines = kept ++ .omitted t typePath :: more ∧
          failed = .ok (.error (.missingCodec t typePath)) m₁ ∧ m₁.logs = m.logs ++ kept ∧
          (aftermath warned).Omits none t typePath m₁) := by
  intro strict warned failed
  obtain ⟨lines, logged, -⟩ := ((c.proceeds_run env depth).advances m).logs
  obtain ⟨kept, logged', none_omitted⟩ := ((c.proceeds_run strict depth).advances m).logs
  refine ⟨lines, kept, logged, none_omitted rfl, ?_⟩
  have start : m.Widened none m.encoder.sink.fullError m :=
    ⟨⟨rfl, rfl, rfl⟩, rfl, unlimited.limit, unlimited.chunk, rfl, nofun, unlimited⟩
  rcases run_widened plain (.inr rfl) start c depth with alike | truncated | omitted
  · have logs : (aftermath warned).logs = (aftermath failed).logs := alike.left.logs
    rw [logged, logged'] at logs
    exact .inl ⟨List.append_cancel_left logs, alike.imp fun _ _ left => left.toShows⟩
  · obtain ⟨e, m₁, -, -, truncated⟩ := truncated
    obtain ⟨n, limit, -⟩ := truncated.written
    cases limit
  · obtain ⟨-, -, t, typePath, m₁, stopped, omits⟩ := omitted
    have front : m₁.logs = m.logs ++ kept := by
      rw [stopped] at logged'
      exact logged'
    obtain ⟨more, found⟩ := omits.logs
    rw [logged, front, List.append_assoc, List.append_assoc] at found
    exact .inr ⟨t, typePath, more, m₁, (List.append_cancel_left found).symm, stopped, front, omits⟩

/-- The lenient call warns where the strict one fails: exactly if its output has room for what the
strict one has written. -/
private theorem warns_iff (plain : env.codecs.Plain) (lenient : env.settings.missing = .warn)
    {depth : Nat} (unlimited : m.encoder.sink.Unlimited) {t : Trace} {typePath : String}
    {m₁ : Machine}
    (failed : (c.run (env.under (env.settings.withMissing .fail))
      (.ofDepth (env.under (env.settings.withMissing .fail)) depth)).run m =
        .ok (.error (.missingCodec t typePath)) m₁)
    (omits : (aftermath ((c.run env (.ofDepth env depth)).run m)).Omits none t typePath m₁)
    (n : Nat) {chunk : Option Nat} (positive : chunk ≠ some 0) (whenFull : Option IoError) :
    m₁.logs ++ [.omitted t typePath] <+:
        (aftermath ((c.run env (.ofDepth env depth)).run (m.narrowed n chunk whenFull))).logs ↔
      m₁.written.length ≤ m.written.length + n := by
  have start := widened_narrowed unlimited n positive whenFull
  rcases run_widened plain (.inl rfl) start c depth with alike | truncated | ⟨-, strict, -⟩
  -- there is room for all that the lenient call writes
  · refine iff_of_true ?_ (Nat.le_trans omits.written.length_le ?_)
    · rw [alike.left.logs]
      exact omits.logs
    · have held := alike.left.held _ rfl
      rw [alike.left.written] at held
      exact held
  · obtain ⟨e, s, stopped, blames, -⟩ := truncated
    have notMissing : e ≠ .missingCodec t typePath := by
      rintro rfl
      cases blames
    rw [stopped]
    rcases run_widened plain (.inr rfl) start c depth with alike | cut | ⟨-, -, omitted⟩
    · rw [stopped, failed] at alike
      have same : e = .missingCodec t typePath := Except.error.inj (Except.ok.inj alike.answer_eq)
      exact absurd same notMissing
    -- there was no room for all that the strict call has written
    · obtain ⟨e', s', stopped', -, cut⟩ := cut
      rw [stopped] at stopped'
      cases stopped'
      rw [failed] at cut
      obtain ⟨k, limit, less, -⟩ := cut.written
      cases limit
      refine iff_of_false (fun warned => ?_) (Nat.not_le.2 less)
      have longer := (warned.trans cut.logs).length_le
      rw [List.length_append, List.length_singleton] at longer
      exact absurd longer (Nat.not_succ_le_self _)
    · obtain ⟨t', typePath', s', failed', omits'⟩ := omitted
      rw [failed] at failed'
      cases failed'
      rw [stopped] at omits'
      exact iff_of_true omits'.logs (omits'.held _ rfl)
  · rw [lenient] at strict
    cases strict

end Call

/-- A call over pure values under the lenient policy, compared to the same call under the strict
one, whatever happened to the memory before. -/
theorem Call.run_strict {env : Env} (lenient : env.settings.missing = .warn)
    (plain : env.codecs.Plain) {origin memory memory' : Memory}
    (since : origin.Since env.decls memory) (since' : origin.Since env.decls memory')
    {c : Call} (pure : ∀ v, c.subject = some v → origin.store.Pure env.decls env.codecs v)
    (depth : Nat) {m : Machine} (unlimited : m.encoder.sink.Unlimited) :
    let strict := env.under (env.settings.withMissing .fail)
    let warned := (c.run env (.ofDepth env depth)).run (m.holding memory)
    let failed := (c.run strict (.ofDepth strict depth)).run (m.holding memory')
    ∃ lines, (aftermath warned).logs = m.logs ++ lines ∧
      ((∀ line ∈ lines, line.isOmission = false) → Alike Shows warned failed) ∧
      ∀ before t typePath after, lines = before ++ .omitted t typePath :: after →
        (∀ line ∈ before, line.isOmission = false) →
        ∃ m₁, failed = .ok (.error (.missingCodec t typePath)) m₁ ∧
          (LogLine.omitted t typePath).text =
            "WARN " ++ (WriteError.missingCodec t typePath).message ∧
          m₁.logs = m.logs ++ before ∧
          m₁.written <+: (aftermath warned).written ∧
          ∀ n chunk whenFull, chunk ≠ some 0 →
            let stopped := (c.run env (.ofDepth env depth)).run
              ((m.narrowed n chunk whenFull).holding memory)
            (m.logs ++ before ++ [.omitted t typePath] <+: (aftermath stopped).logs ↔
              m₁.written.length ≤ m.written.length + n) := by
  intro strict warned failed
  -- the strict call over the memory of the lenient one
  let nearby := (c.run strict (.ofDepth strict depth)).run (m.holding memory)
  have again : Alike Same nearby failed := @run_since _ _ strict _ _ _ since since' c pure depth m
  obtain ⟨lines, kept, logged, none_omitted, beside⟩ :=
    @run_lenient env (m.holding memory) plain c depth unlimited
  refine ⟨lines, logged, ?_⟩
  have here (t : Trace) (typePath : String) (front more : List LogLine) :
      LogLine.omitted t typePath ∈ front ++ .omitted t typePath :: more :=
    List.mem_append_right front (List.mem_cons_self ..)
  rcases beside with ⟨rfl, alike⟩ | ⟨t, typePath, more, m₁, rfl, stopped, front, omits⟩
  · refine ⟨fun _ => ?_, fun before t typePath after split _ => ?_⟩
    · exact alike.trans (again.imp fun _ _ left => left.shows) fun _ _ _ => Shows.trans
    · cases none_omitted _ (split ▸ here t typePath before after)
  · refine ⟨fun none => ?_, fun before t' typePath' after split none_before => ?_⟩
    · cases none _ (here t typePath kept more)
    · obtain ⟨rfl, same⟩ := first_unique none_omitted none_before rfl rfl split
      obtain ⟨rfl, rfl⟩ := LogLine.omitted.inj same
      obtain ⟨m₂, failed', left⟩ :
          ∃ m₂, failed = .ok (.error (.missingCodec t typePath)) m₂ ∧ m₁.Same m₂ := by
        clear_value failed
        change nearby = _ at stopped
        rw [stopped] at again
        cases again with
        | ok _ left => exact ⟨_, rfl, left⟩
      refine ⟨m₂, failed', rfl, left.logs ▸ front, ?_, fun n chunk whenFull positive => ?_⟩
      · rw [← left.shows.written]
        exact omits.written
      · have warns := @warns_iff env c (m.holding memory) plain lenient depth unlimited t typePath
          m₁ stopped omits n chunk positive whenFull
        rw [front, left.shows.written] at warns
        exact warns

/-- A chain whose second link has a next one that cannot be written. The strict call fails there,
within the second link. -/
theorem Call.run_strict_link :
    let odd : Value := .custom "demo::Odd" "" none
    let c := Call.bean (Link.link (some (Link.link (some odd) [98])) [97])
    let strict := Link.env.under (Link.env.settings.withMissing .fail)
    let warned := (c.run Link.env (.ofDepth Link.env 3)).run Link.machine
    let failed := (c.run strict (.ofDepth strict 3)).run Link.machine
    let link : Trace := [.property .field "next", .bean "demo::Link"]
    ∃ m₁, failed = .ok (.error (.missingCodec (link ++ link) "demo::Odd")) m₁ ∧ m₁.logs = [] ∧
      m₁.written <+: (aftermath warned).written := by
  intro odd c strict warned failed link
  have flat : Link.env.codecs.Flat := CodecRegistry.flat_builtin
  have pure : ∀ v, c.subject = some v →
      Link.machine.memory.store.Pure Link.env.decls Link.env.codecs v := by
    rintro v ⟨⟩
    refine Link.pure_link flat rfl ?_ [97]
    rintro u ⟨⟩
    refine Link.pure_link flat rfl ?_ [98]
    rintro u ⟨⟩
    refine (Store.pure_iff flat).2 ⟨trivial, fun w part => ?_⟩
    change Store.Part _ _ (.custom "demo::Odd" "" none) w at part
    cases part with
    | exposed exposes => cases exposes
  obtain ⟨lines, logged, -, first⟩ := Call.run_strict (m := Link.machine) rfl
    CodecRegistry.plain_builtin .refl .refl pure 3 ⟨rfl, nofun⟩
  have split : lines = [] ++ .omitted (link ++ link) "demo::Odd" :: lines.tail := by
    have computed : (aftermath warned).logs =
        .omitted (link ++ link) "demo::Odd" :: (aftermath warned).logs.tail := by decide +kernel
    have same : (aftermath warned).logs = lines := logged
    rw [same] at computed
    exact computed
  obtain ⟨m₁, stopped, -, logs, written, -⟩ :=
    first [] _ _ _ split fun line none => absurd none List.not_mem_nil
  exact ⟨m₁, stopped, logs, written⟩

end BeanStream
