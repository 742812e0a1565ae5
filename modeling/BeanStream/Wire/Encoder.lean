import BeanStream.Sink
import BeanStream.Wire.Primitive

/-!
# Outputs and encoders

An **output** takes bytes as they are (`Output.writeRaw`), with a state and failures of its own; an
item is written to it piece by piece, and a failed piece ends its item. What has reached an output
is **only ever added to**: by all the bytes of a write that succeeds, and by a first part of those
of one that fails. Nothing is said of when it fails: it may fail although it took all the bytes, and
it may fail where there are none.

An **encoder** is an output over a sink that counts what it wrote. Its **position** is the total
length of the pieces that were written completely; a piece that fails in the middle may leave bytes
in the sink that the position does not count.
-/

namespace BeanStream.Wire

/-- Something that bytes are written to. -/
class Output (ω : Type) where
  /-- Writes bytes as they are. -/
  writeRaw : List UInt8 → EStateM IoError ω Unit
  /-- The bytes that reached the output. -/
  written : ω → List UInt8
  /-- A write that succeeds adds all its bytes. -/
  written_ok {bs : List UInt8} {o o' : ω} :
    writeRaw bs o = .ok () o' → written o' = written o ++ bs
  /-- A write that fails adds a first part of its bytes. -/
  written_error {bs : List UInt8} {o o' : ω} {failure : IoError} :
    writeRaw bs o = .error failure o' → ∃ part, part <+: bs ∧ written o' = written o ++ part

/-- A writer of primitive items. -/
structure Encoder where
  /-- Where the bytes go. -/
  sink : Sink := {}
  /-- The total length of the pieces written completely. -/
  position : Nat := 0

namespace Encoder

/-- Writes one piece. -/
def writePiece (bs : List UInt8) : EStateM IoError Encoder Unit := fun e =>
  match e.sink.writeAll bs with
  | (.ok _, sink) => .ok () { sink, position := e.position + bs.length }
  | (.error failure, sink) => .error failure { e with sink }

/-- The bytes that reached the sink. -/
def written (e : Encoder) : List UInt8 := e.sink.written

/-- An empty piece changes nothing and cannot fail. -/
@[simp] theorem writePiece_nil (e : Encoder) : writePiece [] e = .ok () e := by
  simp [writePiece]

/-- A piece is taken as a whole, or not as a whole. -/
theorem writePiece_spec (bs : List UInt8) (e : Encoder) :
    match writePiece bs e with
    | .ok _ e' => e'.written = e.written ++ bs
    | .error _ e' => ∃ n < bs.length, e'.written = e.written ++ bs.take n := by
  have taken := e.sink.writeAll_spec bs
  rw [writePiece]
  rcases hw : e.sink.writeAll bs with ⟨failure | ⟨⟩, sink⟩ <;> rw [hw] at taken <;> exact taken

instance : Output Encoder where
  writeRaw := writePiece
  written := written
  written_ok {bs e e'} h := by
    have spec := writePiece_spec bs e
    rwa [h] at spec
  written_error {bs e e' failure} h := by
    have spec := writePiece_spec bs e
    rw [h] at spec
    obtain ⟨n, -, front⟩ := spec
    exact ⟨bs.take n, List.take_prefix n bs, front⟩

theorem writeRaw_eq (bs : List UInt8) (e : Encoder) : Output.writeRaw bs e = writePiece bs e := rfl

/-- Writes the pieces of an item to an output, up to the first that fails. -/
def write {ω : Type} [Output ω] (p : Primitive) : EStateM IoError ω Unit :=
  p.pieces.forM Output.writeRaw

end Encoder

end BeanStream.Wire
