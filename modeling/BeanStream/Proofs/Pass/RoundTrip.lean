import BeanStream.Proofs.Pass.Output

/-!
# Bean streams read back

With the codecs of the library, a pass over a bean that succeeds writes a bean stream which reads
back as **what the bean resolves to**, whatever follows it (`read_of_writeBean`). No stream that was
written to its end is the beginning of another.

Of a pass that fails, the reader finds that the **bytes end too soon**, unless the output had taken
all of the empty name that ends the stream, and failed nevertheless
(`short_of_writeBean_error_iff`). An output that fails only where it has left something out does not
do that; over one that fails when it is given no bytes, a bean that was written completely is
reported as a failure (`complete_of_writeBean_error`), since the empty name is a length and a piece
without bytes.

Neither depends on the registry, the settings or the depth, and both are about every output.
-/

namespace BeanStream

open Wire Reading

/-- What a bean resolves to: its fields, by the writer of its type. -/
def BeanResolves (env : Env) (c : Memory) (v : Value) (ps : List (String × Node))
    (c' : Memory) : Prop :=
  ∃ d beans, Beans.writer? env.decls v.typeId c.beans = .ok (some d) beans ∧
    FieldsResolve env d v d.fields { c with beans } ps c'

/-- A bean resolves to one row of properties only. -/
theorem BeanResolves.unique {env : Env} {c c₁ c₂ : Memory} {v : Value}
    {ps₁ ps₂ : List (String × Node)} (h₁ : BeanResolves env c v ps₁ c₁)
    (h₂ : BeanResolves env c v ps₂ c₂) : ps₁ = ps₂ := by
  obtain ⟨d₁, beans₁, writer₁, fields₁⟩ := h₁
  obtain ⟨d₂, beans₂, writer₂, fields₂⟩ := h₂
  cases writer₁.symm.trans writer₂
  -- as nested beans, the two would stand for one value
  have same := ((Resolves.bean fields₁).unique (.bean fields₂)).1
  exact (Node.bean.inj same).2

namespace Pass

variable {ω : Type} [Output ω] {env : Env} {depth : Nat} {v : Value} {m m' : Machine ω}

/-- What is added by a pass over a bean that succeeds is its stream. -/
theorem adds_writeBean (codecs : env.codecs = .builtin) (depth : Nat) (v : Value)
    (m : Machine ω) :
    Adds (writeBean env (.ofDepth env depth) v) m
      (fun _ bs c => ∃ ps, IsStream layouts bs ps ∧ BeanResolves env m.memory v ps c)
      fun _ => True := by
  refine Adds.bind (adds_writer? (R := fun d bs c => bs = [] ∧ ∃ beans,
    Beans.writer? env.decls v.typeId m.beans = .ok d beans ∧ c = { m.memory with beans })
    fun d beans writer => ⟨rfl, beans, writer, rfl⟩) ?_
  rintro d _ m₁ ⟨rfl, beans, writer, same⟩
  rcases d with _ | d
  · exact adds_throw trivial
  · refine (adds_writeFieldsOf (sound_ofDepth codecs depth) d v).imp ?_ fun _ _ => trivial
    rintro _ bs c ⟨ps, isStream, fields⟩
    exact ⟨ps, isStream, d, beans, writer, same ▸ fields⟩

/-- A bean that was written reads back as what it resolves to, whatever follows it, and no stream
of a bean begins with the whole stream of another one. -/
theorem read_of_writeBean (codecs : env.codecs = .builtin)
    (h : (writeBean env (.ofDepth env depth) v).run m = .ok (.ok ()) m') :
    ∃ bs ps, m'.written = m.written ++ bs ∧
      BeanResolves env m.memory v ps m'.memory ∧
      (∀ ps' c', BeanResolves env m.memory v ps' c' → ps' = ps) ∧
      (∀ suffix, beanStream (bs ++ suffix) = .ok (ps, suffix)) ∧
      ∀ (ω₂ : Type) [Output ω₂] (env₂ : Env) depth₂ v₂ (m₂ m₂' : Machine ω₂) bs₂,
        env₂.codecs = .builtin →
        (writeBean env₂ (.ofDepth env₂ depth₂) v₂).run m₂ = .ok (.ok ()) m₂' →
        m₂'.written = m₂.written ++ bs₂ → bs <+: bs₂ → bs₂ = bs := by
  obtain ⟨bs, written, ps, isStream, resolves⟩ := (adds_writeBean codecs depth v m).done h
  refine ⟨bs, ps, written, resolves, fun ps' c' other => other.unique resolves, isStream.read, ?_⟩
  rintro ω₂ _ env₂ depth₂ v₂ m₂ m₂' _ codecs₂ h₂ written₂ ⟨more, rfl⟩
  obtain ⟨bs₂, written₂', ps₂, isStream₂, -⟩ := (adds_writeBean codecs₂ depth₂ v₂ m₂).done h₂
  -- the longer stream is read to its end, but so is its beginning
  have same : bs ++ more = bs₂ := List.append_cancel_left (written₂.symm.trans written₂')
  have longer := isStream₂.read []
  rw [← same, List.append_nil, isStream.read more] at longer
  have nothing : more = [] := congrArg Prod.snd (Except.ok.inj longer)
  rw [nothing, List.append_nil]

/-- A chain of two links reads back. -/
theorem read_of_writeBean_link :
    ∃ m', (writeBean Link.env (.ofDepth Link.env 2)
        (Link.link (some (Link.link none [98])) [97])).run Link.machine = .ok (.ok ()) m' ∧
      ∃ bs ps, m'.written = bs ∧ ∀ suffix, beanStream (bs ++ suffix) = .ok (ps, suffix) := by
  obtain ⟨⟨⟩, m', done⟩ := Outcome.exists_of_isDone (r := (writeBean Link.env (.ofDepth Link.env 2)
    (Link.link (some (Link.link none [98])) [97])).run Link.machine) (by decide +kernel)
  obtain ⟨bs, ps, written, -, -, reads, -⟩ := read_of_writeBean rfl done
  exact ⟨m', done, bs, ps, written, reads⟩

/-! ### Passes that fail -/

/-- The fields of a bean are written, and all bytes of the empty name behind them. -/
def FieldsClosed (env : Env) (below : Nested ω) (d : Descriptor) (v : Value) (m m' : Machine ω) :
    Prop :=
  ∃ m₁,
    (writeFields env below d v (d.conventionsOf v) d.fields).run (m.enter (.bean d.path)) =
      .ok (.ok ()) m₁ ∧
    m'.written = m₁.written ++ (Primitive.string "").encoding

/-- A bean is written to its end, by the writer of its type. -/
def Closed (env : Env) (below : Nested ω) (v : Value) (m m' : Machine ω) : Prop :=
  ∃ d beans, Beans.writer? env.decls v.typeId m.beans = .ok (some d) beans ∧
    FieldsClosed env below d v { m with beans } m'

/-- What is added by properties that fail: a stream that ends too soon, or a whole one, behind
which the output failed. -/
theorem meets_writeFieldsOf_failed {below : Nested ω} (sound : below.Sound env) (d : Descriptor)
    (v : Value) (m : Machine ω) :
    Meets (writeFieldsOf env below d v) m
      { done := fun _ _ => True
        failed := fun e m' => ∃ bs, m'.written = m.written ++ bs ∧
          (EndsInStream layouts bs ∧ ¬ FieldsClosed env below d v m m' ∨
            ∃ ps, IsStream layouts bs ps ∧ FieldsClosed env below d v m m' ∧
              (∃ trace source, e = .io trace source) ∧ ¬ Output.FailsShort ω)
        aborted := fun _ _ => True } := by
  have fields := adds_writeFields sound (m := m.enter (.bean d.path)) d v d.fields
  rw [writeFieldsOf]
  refine meets_bind.2 (meets_trace.2 ?_)
  dsimp only
  split
  · refine (meets_failAt _).2 ⟨[], (List.append_nil _).symm, .inl ⟨endsInStream_nil, ?_⟩⟩
    -- nothing is added, not even an empty name
    rintro ⟨m₁, done, all⟩
    obtain ⟨front, written, -⟩ := fields.done done
    have nothing : m.written = m.written ++ (front ++ (Primitive.string "").encoding) := by
      rw [← List.append_assoc]
      exact all.trans (congrArg (· ++ _) written)
    have empty := List.append_right_eq_self.1 nothing.symm
    exact encoding_string_ne_nil "" (List.append_eq_nil_iff.1 empty).2
  refine meets_framed.2 (meets_bind.2 ?_)
  unfold Meets
  rcases body : (writeFields env below d v (d.conventionsOf v) d.fields).run
    (m.enter (.bean d.path)) with ⟨e | ⟨⟩, m₁⟩ | ⟨reason, m₁⟩
  -- a field fails
  · obtain ⟨bs, written, short⟩ := fields.failed body
    refine ⟨bs, written, .inl ⟨short, ?_⟩⟩
    rintro ⟨m₂, done, -⟩
    cases body.symm.trans done
  -- the fields are written: the empty name fails
  · obtain ⟨front, written, ps, isRecords, -⟩ := fields.done body
    refine (meets_emit _).2 ?_
    rcases closing : Encoder.write (.string "") m₁.encoder with ⟨⟨⟩, encoder⟩ | ⟨source, encoder⟩
    · trivial
    obtain ⟨part, first, added⟩ := Encoder.write_error closing
    refine ⟨front ++ part, ?_, ?_⟩
    · rw [← List.append_assoc]
      exact added.trans (congrArg (· ++ part) written)
    rcases eq_or_cut first with rfl | cut
    · refine .inr ⟨ps, isRecords.isStream, ⟨m₁, body, added⟩, ⟨m₁.trace, source, rfl⟩, ?_⟩
      intro failsShort
      obtain ⟨part, cut, less⟩ := Encoder.exists_cut_of_writePieces failsShort closing
      exact cut.ne (List.append_cancel_left (less.symm.trans added))
    · refine .inl ⟨isRecords.incomplete (endsInStream_of_cut cut), ?_⟩
      rintro ⟨m₂, done, all⟩
      cases body.symm.trans done
      exact cut.ne (List.append_cancel_left (added.symm.trans all))
  · trivial

/-- What is added by a pass over a bean that fails: a stream that ends too soon, or a whole one,
behind which the output failed. -/
theorem meets_writeBean_failed (codecs : env.codecs = .builtin) (depth : Nat) (v : Value)
    (m : Machine ω) :
    Meets (writeBean env (.ofDepth env depth) v) m
      { done := fun _ _ => True
        failed := fun e m' => ∃ bs, m'.written = m.written ++ bs ∧
          (EndsInStream layouts bs ∧ ¬ Closed env (.ofDepth env depth) v m m' ∨
            ∃ ps, IsStream layouts bs ps ∧ Closed env (.ofDepth env depth) v m m' ∧
              (∃ trace source, e = .io trace source) ∧ ¬ Output.FailsShort ω)
        aborted := fun _ _ => True } := by
  refine meets_bind.2 ((meets_writer? env v.typeId).2 ?_)
  rcases writer : Beans.writer? env.decls v.typeId m.beans with ⟨d, beans⟩ | ⟨reason, beans⟩
  · rcases d with _ | d
    · refine Exists.intro [] ⟨(List.append_nil _).symm, .inl ⟨endsInStream_nil, ?_⟩⟩
      rintro ⟨d, beans₂, found, -⟩
      cases writer.symm.trans found
    · have closed (m' : Machine ω) : Closed env (.ofDepth env depth) v m m' ↔
          FieldsClosed env (.ofDepth env depth) d v { m with beans } m' := by
        constructor
        · rintro ⟨d₂, beans₂, found, fieldsClosed⟩
          cases writer.symm.trans found
          exact fieldsClosed
        · exact fun fieldsClosed => ⟨d, beans, writer, fieldsClosed⟩
      simp only [closed]
      exact meets_writeFieldsOf_failed (sound_ofDepth codecs depth) d v _
  · trivial

/-- What a failed pass over a bean added to the output is a bean stream that **ends too soon**,
unless the fields and all bytes of the empty name were written. Then it is a whole stream, and the
output failed behind its last byte, which an output that fails only where it has left something out
does not do. -/
theorem short_of_writeBean_error_iff (codecs : env.codecs = .builtin) {e : WriteError}
    (h : (writeBean env (.ofDepth env depth) v).run m = .ok (.error e) m') :
    ∃ bs, m'.written = m.written ++ bs ∧
      (beanStream bs = .error .short ↔ ¬ Closed env (.ofDepth env depth) v m m') ∧
      (Closed env (.ofDepth env depth) v m m' →
        ∃ ps trace source, beanStream bs = .ok (ps, []) ∧ e = .io trace source) ∧
      (Output.FailsShort ω → beanStream bs = .error .short) := by
  obtain ⟨bs, written, ⟨short, unclosed⟩ | ⟨ps, isStream, closed, ⟨trace, source, io⟩, behind⟩⟩ :=
    (meets_writeBean_failed codecs depth v m).failed h
  · have ends : beanStream bs = .error .short := short.read
    exact ⟨bs, written, iff_of_true ends unclosed, fun closed => absurd closed unclosed,
      fun _ => ends⟩
  · have whole : beanStream bs = .ok (ps, []) := by
      have read := isStream.read []
      rwa [List.append_nil] at read
    refine ⟨bs, written, iff_of_false ?_ (not_not_intro closed),
      fun _ => ⟨ps, trace, source, whole, io⟩, fun failsShort => absurd failsShort behind⟩
    rw [whole]
    nofun

/-- The first link has a name that is no text; the second one is written to its end by then. -/
theorem short_of_writeBean_error_iff_link :
    ∃ e m', (writeBean Link.env (.ofDepth Link.env 2)
        (Link.link (some (Link.link none [98])) [255])).run Link.machine = .ok (.error e) m' ∧
      beanStream m'.written = .error .short := by
  obtain ⟨e, m', failed⟩ := Outcome.exists_of_isFailed (r := (writeBean Link.env
    (.ofDepth Link.env 2) (Link.link (some (Link.link none [98])) [255])).run Link.machine)
    (by decide +kernel)
  obtain ⟨bs, written, -, -, short⟩ := short_of_writeBean_error_iff rfl failed
  have all : m'.written = bs := written
  exact ⟨e, m', failed, all ▸ short Encoder.failsShort⟩

end Pass

namespace Wire

/-- An output that takes all bytes, and fails when it is given none. -/
structure BytesOnly where
  /-- The bytes that reached the output. -/
  held : List UInt8 := []

instance : Output BytesOnly where
  writeRaw bs o := if bs = [] then .error .writeZero o else .ok () { held := o.held ++ bs }
  written := BytesOnly.held
  written_ok {bs o o'} h := by
    split at h
    · cases h
    · cases h
      rfl
  written_error {bs o o' failure} h := by
    split at h
    · cases h
      exact ⟨[], List.nil_prefix, (List.append_nil _).symm⟩
    · cases h

end Wire

/-- A link that was written to its end, and reported as a failure: its last item is the empty name,
which ends with a piece without bytes. -/
theorem Pass.complete_of_writeBean_error :
    ∃ e m', (writeBean Link.env (.ofDepth Link.env 1) (Link.link none [97])).run
        { beans := Link.machine.beans, encoder := ({} : BytesOnly) } = .ok (.error e) m' ∧
      ∃ ps, beanStream m'.written = .ok (ps, []) := by
  obtain ⟨e, m', failed⟩ := Outcome.exists_of_isFailed
    (r := (writeBean Link.env (.ofDepth Link.env 1) (Link.link none [97])).run
      { beans := Link.machine.beans, encoder := ({} : BytesOnly) }) (by decide +kernel)
  have written : (match (writeBean Link.env (.ofDepth Link.env 1) (Link.link none [97])).run
      { beans := Link.machine.beans, encoder := ({} : BytesOnly) } with
      | .ok _ m' | .error _ m' => m'.written) =
        [4, 110, 101, 120, 116, 0, 4, 110, 97, 109, 101, 28, 1, 97, 0] := by decide +kernel
  rw [failed] at written
  have read : beanStream m'.written = beanStream _ := congrArg beanStream written
  exact ⟨e, m', failed, [("next", .null), ("name", .scalar (.path [97]))], read.trans rfl⟩

end BeanStream
