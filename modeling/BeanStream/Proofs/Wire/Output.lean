import BeanStream.Wire.Encoder

/-!
# What reaches the output

Writing an item either succeeds, and then **all of its form** is added to the output, or it
fails, and then **a first part of it** is added (`write_ok`, `write_error`). Whether something is
left out by a write that fails is up to the output (`Output.FailsShort`); over a sink, it is
(`Encoder.failsShort`). Nothing that was written before is ever changed.
-/

namespace BeanStream

/-- `bs` is a first part of `cs`, but not all of it. -/
def Cut (bs cs : List UInt8) : Prop := ∃ rest, rest ≠ [] ∧ bs ++ rest = cs

/-- Nothing is a first part of something. -/
theorem Cut.nil {cs : List UInt8} (h : cs ≠ []) : Cut [] cs := ⟨cs, h, rfl⟩

/-- What stands in front of both does not matter. -/
theorem Cut.append_left {bs cs : List UInt8} (h : Cut bs cs) (front : List UInt8) :
    Cut (front ++ bs) (front ++ cs) := by
  obtain ⟨rest, hrest, rfl⟩ := h
  exact ⟨rest, hrest, List.append_assoc front bs rest⟩

/-- A first part of something is a first part of more. -/
theorem Cut.append_right {bs cs : List UInt8} (h : Cut bs cs) (more : List UInt8) :
    Cut bs (cs ++ more) := by
  obtain ⟨rest, hrest, rfl⟩ := h
  exact ⟨rest ++ more, by simp [hrest], (List.append_assoc bs rest more).symm⟩

/-- Something is left out. -/
theorem Cut.ne {bs cs : List UInt8} (h : Cut bs cs) : bs ≠ cs := by
  obtain ⟨rest, hrest, rfl⟩ := h
  exact fun all => hrest (List.append_right_eq_self.1 all.symm)

/-- A first part that is not all. -/
theorem Cut.of_prefix {bs cs : List UInt8} (h : bs <+: cs) (less : bs ≠ cs) : Cut bs cs := by
  obtain ⟨rest, rfl⟩ := h
  refine ⟨rest, fun nothing => less ?_, rfl⟩
  rw [nothing, List.append_nil]

/-- A first part is all, or not all. -/
theorem eq_or_cut {bs cs : List UInt8} (h : bs <+: cs) : bs = cs ∨ Cut bs cs :=
  (Decidable.em (bs = cs)).imp_right (Cut.of_prefix h)

namespace Sink

/-- A call takes something if there is room for something. -/
theorem share_pos {s : Sink} {bs : List UInt8} (chunk : s.chunk ≠ some 0) (offered : bs ≠ [])
    (room : s.room ≠ some 0) : 0 < s.share bs := by
  have hlen : 0 < bs.length := List.length_pos_iff.2 offered
  have hchunk : 0 < (s.chunk.map (min bs.length)).getD bs.length := by
    cases hc : s.chunk with
    | none => exact hlen
    | some c =>
      have hc0 : c ≠ 0 := fun h0 => chunk (h0 ▸ hc)
      simp only [Option.map_some, Option.getD_some]
      omega
  unfold share
  cases hr : s.room with
  | none => exact hchunk
  | some r =>
    have hr0 : r ≠ 0 := fun h0 => room (h0 ▸ hr)
    simp only [Option.map_some, Option.getD_some]
    omega

/-- A sink that takes some of whatever it is offered. -/
structure Unlimited (s : Sink) : Prop where
  limit : s.limit = none
  chunk : s.chunk ≠ some 0

theorem Unlimited.share_pos {s : Sink} (h : s.Unlimited) {bs : List UInt8} (some_left : bs ≠ []) :
    0 < s.share bs := by
  refine Sink.share_pos h.chunk some_left ?_
  rw [Sink.room, h.limit]
  nofun

/-- A sink without limits takes everything. -/
theorem Unlimited.writeAll {s : Sink} (h : s.Unlimited) (bs : List UInt8) :
    ∃ s' : Sink, s.writeAll bs = (.ok (), s') ∧ s'.Unlimited := by
  fun_induction Sink.writeAll s bs with
  | case1 s => exact ⟨s, rfl, h⟩
  | case2 s bs some_left failure full room => simp [Sink.room, h.limit] at room
  | case3 s bs some_left none_taken =>
    exact absurd none_taken (Nat.ne_of_gt (h.share_pos some_left))
  | case4 s bs some_left _ _ ih => exact ih ⟨h.limit, h.chunk⟩

end Sink

namespace Wire

/-- The output takes whatever it is given, now and later. -/
def Output.Reliable {ω : Type} [Output ω] (o : ω) : Prop :=
  ∀ pieces : List (List UInt8), ∃ o', pieces.forM Output.writeRaw o = .ok () o'

/-- The output fails only where it has left something out. -/
def Output.FailsShort (ω : Type) [Output ω] : Prop :=
  ∀ ⦃bs : List UInt8⦄ ⦃o o' : ω⦄ ⦃failure : IoError⦄,
    Output.writeRaw bs o = .error failure o' → Output.written o' ≠ Output.written o ++ bs

namespace Encoder

/-- A sink that does not take all that it is offered holds less. -/
theorem failsShort : Output.FailsShort Encoder := by
  intro bs e e' failure h all
  have spec := writePiece_spec bs e
  rw [show writePiece bs e = _ from h] at spec
  obtain ⟨n, less, front⟩ := spec
  have same : bs.take n = bs := List.append_cancel_left (front.symm.trans all)
  have length := congrArg List.length same
  rw [List.length_take] at length
  omega

section Pieces

variable {ω : Type} [Output ω]

/-- Writes pieces, up to the first that fails. -/
def writePieces (pieces : List (List UInt8)) : EStateM IoError ω Unit :=
  pieces.forM Output.writeRaw

theorem writePieces_nil (o : ω) : writePieces [] o = .ok () o := rfl

theorem writePieces_cons (bs : List UInt8) (pieces : List (List UInt8)) (o : ω) :
    writePieces (bs :: pieces) o =
      match Output.writeRaw bs o with
      | .ok _ o₁ => writePieces pieces o₁
      | .error failure o₁ => .error failure o₁ := by
  change EStateM.bind _ _ o = _
  rw [EStateM.bind]
  rcases Output.writeRaw bs o with ⟨⟨⟩, o₁⟩ | ⟨failure, o₁⟩ <;> rfl

theorem writePieces_append (pieces more : List (List UInt8)) (o : ω) :
    writePieces (pieces ++ more) o =
      match writePieces pieces o with
      | .ok _ o₁ => writePieces more o₁
      | .error failure o₁ => .error failure o₁ := by
  induction pieces generalizing o with
  | nil => rfl
  | cons bs pieces ih =>
    rw [List.cons_append, writePieces_cons, writePieces_cons]
    rcases Output.writeRaw bs o with ⟨⟨⟩, o₁⟩ | ⟨failure, o₁⟩
    · exact ih o₁
    · rfl

/-- Pieces that were written are in the output, one behind the other. -/
theorem written_of_writePieces {pieces : List (List UInt8)} {o o' : ω}
    (h : writePieces pieces o = .ok () o') :
    Output.written o' = Output.written o ++ pieces.flatten := by
  induction pieces generalizing o with
  | nil =>
    cases h
    exact (List.append_nil _).symm
  | cons bs pieces ih =>
    rw [writePieces_cons] at h
    rcases first : Output.writeRaw bs o with ⟨⟨⟩, o₁⟩ | ⟨failure, o₁⟩ <;> rw [first] at h
    · rw [ih h, Output.written_ok first, List.append_assoc, List.flatten_cons]
    · cases h

/-- Pieces that were not written have one that failed, behind others that were. -/
theorem exists_failed_of_writePieces {pieces : List (List UInt8)} {o o' : ω} {failure : IoError}
    (h : writePieces pieces o = .error failure o') :
    ∃ front bs back o₁, pieces = front ++ bs :: back ∧ writePieces front o = .ok () o₁ ∧
      Output.writeRaw bs o₁ = .error failure o' := by
  induction pieces generalizing o with
  | nil => cases h
  | cons bs pieces ih =>
    rw [writePieces_cons] at h
    rcases first : Output.writeRaw bs o with ⟨⟨⟩, o₁⟩ | ⟨failure₁, o₁⟩ <;> rw [first] at h
    · obtain ⟨front, bs', back, o₂, rfl, written, failed⟩ := ih h
      refine ⟨bs :: front, bs', back, o₂, rfl, ?_, failed⟩
      rw [writePieces_cons, first]
      exact written
    · cases h
      exact ⟨[], bs, pieces, o, rfl, rfl, first⟩

/-- Of pieces that were not written, a first part is in the output. -/
theorem exists_prefix_of_writePieces {pieces : List (List UInt8)} {o o' : ω} {failure : IoError}
    (h : writePieces pieces o = .error failure o') :
    ∃ part, part <+: pieces.flatten ∧ Output.written o' = Output.written o ++ part := by
  obtain ⟨front, bs, back, o₁, rfl, written, failed⟩ := exists_failed_of_writePieces h
  obtain ⟨part, first, added⟩ := Output.written_error failed
  refine ⟨front.flatten ++ part, ?_, ?_⟩
  · rw [List.flatten_append, List.flatten_cons]
    exact (List.prefix_append_right_inj _).2 (first.trans (List.prefix_append bs _))
  · rw [added, written_of_writePieces written, List.append_assoc]

/-- Of pieces that were not written, something is left out, if the output fails short. -/
theorem exists_cut_of_writePieces (short : Output.FailsShort ω) {pieces : List (List UInt8)}
    {o o' : ω} {failure : IoError} (h : writePieces pieces o = .error failure o') :
    ∃ part, Cut part pieces.flatten ∧ Output.written o' = Output.written o ++ part := by
  obtain ⟨front, bs, back, o₁, rfl, written, failed⟩ := exists_failed_of_writePieces h
  obtain ⟨part, first, added⟩ := Output.written_error failed
  have less : part ≠ bs := fun all => short failed (all ▸ added)
  refine ⟨front.flatten ++ part, ?_, ?_⟩
  · rw [List.flatten_append, List.flatten_cons]
    exact ((Cut.of_prefix first less).append_right _).append_left _
  · rw [added, written_of_writePieces written, List.append_assoc]

/-- Whatever becomes of pieces, the output goes on from where it was. -/
theorem prefix_writePieces (pieces : List (List UInt8)) (o : ω) :
    match writePieces pieces o with
    | .ok _ o' | .error _ o' => Output.written o <+: Output.written o' := by
  rcases h : writePieces pieces o with ⟨⟨⟩, o'⟩ | ⟨failure, o'⟩
  · exact ⟨_, (written_of_writePieces h).symm⟩
  · obtain ⟨part, -, added⟩ := exists_prefix_of_writePieces h
    exact ⟨part, added.symm⟩

/-- An item that was written is in the output with all of its form. -/
theorem write_ok {p : Primitive} {o o' : ω} (h : write p o = .ok () o') :
    Output.written o' = Output.written o ++ p.encoding := written_of_writePieces h

/-- Of an item that was not written, a first part is in the output. -/
theorem write_error {p : Primitive} {o o' : ω} {failure : IoError}
    (h : write p o = .error failure o') :
    ∃ part, part <+: p.encoding ∧ Output.written o' = Output.written o ++ part :=
  exists_prefix_of_writePieces h

/-- A reliable output takes all pieces, and stays reliable. -/
theorem exists_writePieces {o : ω} (reliable : Output.Reliable o) (pieces : List (List UInt8)) :
    ∃ o', writePieces pieces o = .ok () o' ∧
      Output.written o' = Output.written o ++ pieces.flatten ∧ Output.Reliable o' := by
  obtain ⟨o', done⟩ := reliable pieces
  refine ⟨o', done, written_of_writePieces done, fun more => ?_⟩
  -- what comes later is a later part of a longer row
  obtain ⟨o₁, all⟩ := reliable (pieces ++ more)
  have rest := writePieces_append pieces more o
  rw [show writePieces pieces o = _ from done] at rest
  exact ⟨o₁, rest.symm.trans all⟩

/-- A reliable output takes every item, and stays reliable. -/
theorem exists_write {o : ω} (reliable : Output.Reliable o) (p : Primitive) :
    ∃ o', write p o = .ok () o' ∧ Output.written o' = Output.written o ++ p.encoding ∧
      Output.Reliable o' := exists_writePieces reliable p.pieces

end Pieces

/-- An encoder over a sink without limits is reliable. -/
theorem reliable {e : Encoder} (h : e.sink.Unlimited) : Output.Reliable e := by
  intro pieces
  change ∃ e', writePieces pieces e = .ok () e'
  induction pieces generalizing e with
  | nil => exact ⟨e, rfl⟩
  | cons bs pieces ih =>
    obtain ⟨sink, taken, unlimited⟩ := h.writeAll bs
    obtain ⟨e', written⟩ := ih (e := { sink, position := e.position + bs.length }) unlimited
    refine ⟨e', ?_⟩
    rw [writePieces_cons, writeRaw_eq, writePiece, taken]
    exact written

end Encoder

end Wire

end BeanStream
