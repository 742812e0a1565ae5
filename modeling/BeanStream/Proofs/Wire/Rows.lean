import BeanStream.Proofs.Wire.Output
import BeanStream.Wire.Decoder

/-!
# Rows of items read back

Nothing stands between the items of a row, and nothing tells where one of them ends. It is the
layouts that tell a reader, one after the other, how much to take (`Layout.readAll`); an item that
was misjudged by a single byte would shift all that follow.

Main fact: what was written for **any row of items** reads back as these items, and what follows
the row is left as it is (`Encoder.readAll_of_forM_write`).
-/

namespace BeanStream.Wire

-- Powers of numbers are those of the core library, whatever else is imported.
attribute [local instance (2000)] instPowNat

instance : DecidablePred Primitive.Sized
  | .len n => inferInstanceAs (Decidable (n < 2 ^ 64))
  | .bytes bs => inferInstanceAs (Decidable (bs.length < 2 ^ 64))
  | .string s => inferInstanceAs (Decidable ((Text.bytes s).length < 2 ^ 64))
  | .raw _ | .u8 _ | .bool _ | .tag _ | .u64 _ | .i64 _ | .u128 _ | .i128 _ | .f32 _ | .f64 _ =>
    inferInstanceAs (Decidable True)

/-- The items of a row of layouts, one after the other, and the bytes after the last one. -/
def Layout.readAll : List Layout → List UInt8 → Option (List Primitive × List UInt8)
  | [], bs => some ([], bs)
  | l :: ls, bs => do
    let (p, bs) ← l.read bs
    let (ps, bs) ← readAll ls bs
    return (p :: ps, bs)

/-- The forms of a row of items read back as the row, whatever follows. -/
theorem Layout.readAll_encodings_append {ps : List Primitive} (sized : ∀ p ∈ ps, p.Sized)
    (rest : List UInt8) :
    readAll (ps.map Primitive.layout) (ps.flatMap Primitive.encoding ++ rest) =
      some (ps, rest) := by
  -- behind the first item stand the others, and then the rest
  induction ps with
  | nil => rfl
  | cons p ps ih =>
    obtain ⟨first, others⟩ := List.forall_mem_cons.1 sized
    have head : p.layout.read (p.encoding ++ (ps.flatMap Primitive.encoding ++ rest)) =
        some (p, ps.flatMap Primitive.encoding ++ rest) := read_encoding_append first _
    rw [List.map_cons, List.flatMap_cons, List.append_assoc, readAll, head]
    change (readAll (ps.map Primitive.layout) _).bind _ = _
    rw [ih others]
    rfl

namespace Encoder

section Rows

variable {ω : Type} [Output ω]

/-- Writing a row of items is writing the first one, and the others if that succeeded. -/
private theorem forM_write_cons (p : Primitive) (ps : List Primitive) (o : ω) :
    (p :: ps).forM write o =
      match write p o with
      | .ok _ o₁ => ps.forM write o₁
      | .error failure o₁ => .error failure o₁ := by
  change EStateM.bind _ _ o = _
  rw [EStateM.bind]
  rcases write p o with ⟨⟨⟩, o₁⟩ | ⟨failure, o₁⟩ <;> rfl

/-- A row of items that was written is in the output with all of its forms. -/
theorem written_of_forM_write {ps : List Primitive} {o o' : ω} (h : ps.forM write o = .ok () o') :
    Output.written o' = Output.written o ++ ps.flatMap Primitive.encoding := by
  induction ps generalizing o with
  | nil =>
    cases h
    exact (List.append_nil _).symm
  | cons p ps ih =>
    rw [forM_write_cons] at h
    rcases first : write p o with ⟨⟨⟩, o₁⟩ | ⟨failure, o₁⟩ <;> rw [first] at h
    · rw [ih h, write_ok first, List.append_assoc, List.flatMap_cons]
    · cases h

/-- A reliable output takes every row of items. -/
theorem exists_forM_write {o : ω} (reliable : Output.Reliable o) (ps : List Primitive) :
    ∃ o', ps.forM write o = .ok () o' := by
  induction ps generalizing o with
  | nil => exact ⟨o, rfl⟩
  | cons p ps ih =>
    obtain ⟨o₁, first, -, still⟩ := exists_write reliable p
    obtain ⟨o', others⟩ := ih still
    refine ⟨o', ?_⟩
    rw [forM_write_cons, first]
    exact others

end Rows

/-- A row of items can be written to every sink that takes what it is offered, and wherever it was
written, the bytes that it added read back as the row: no read fails, every item is the one that was
written, and what follows is left as it is. -/
theorem readAll_of_forM_write {ps : List Primitive} (sized : ∀ p ∈ ps, p.Sized) (e : Encoder) :
    (e.sink.Unlimited → ∃ e', ps.forM write e = .ok () e') ∧
      ∀ e', ps.forM write e = .ok () e' → ∃ added, e'.written = e.written ++ added ∧
        ∀ rest, Layout.readAll (ps.map Primitive.layout) (added ++ rest) = some (ps, rest) := by
  refine ⟨fun unlimited => exists_forM_write (reliable unlimited) ps, fun e' done => ?_⟩
  exact ⟨_, written_of_forM_write done, Layout.readAll_encodings_append sized⟩

/-- Items of every kind, with the numbers at the ends of their ranges. -/
theorem readAll_of_forM_write_extremes :
    let ps : List Primitive :=
      [.raw [255, 128], .u8 0, .bool true, .tag (.allOnes 32), .u64 (.allOnes 64),
        .i64 (.intMin 64), .i64 (.intMax 64), .len 300, .f64 (.allOnes 64), .bytes [0, 7],
        .string "jar", .string ""]
    ∃ e', ps.forM write ({} : Encoder) = .ok () e' ∧ ∀ rest,
      Layout.readAll (ps.map Primitive.layout) (e'.written ++ rest) = some (ps, rest) := by
  intro ps
  have sized : ∀ p ∈ ps, p.Sized := by decide +kernel
  obtain ⟨writable, readable⟩ := readAll_of_forM_write sized {}
  obtain ⟨e', done⟩ := writable ⟨rfl, nofun⟩
  obtain ⟨added, written, reads⟩ := readable e' done
  have all : e'.written = added := written.trans (List.nil_append added)
  exact ⟨e', done, fun rest => all ▸ reads rest⟩

end Encoder

end BeanStream.Wire
