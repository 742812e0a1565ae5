import BeanStream.Codec.Builtin

/-!
# Codec registries

The codecs by the exact type of the values they write. Each type that gets a codec gets the
**next tag** with it, and keeps the tag when it gets another codec (`register_tag_of_entry`).
The first tags stand for absence, beans and sequences, which need no codec; some more are
reserved.
-/

namespace BeanStream

namespace Tag

/-- Absence, without payload. -/
def null : Nat := 0

/-- A nested bean: its type path, then its properties. -/
def bean : Nat := 1

/-- A sequence: its length, then each element with its tag. -/
def sequence : Nat := 2

/-- The tag of the first codec. -/
def firstCodec : Nat := 8

end Tag

/-- A codec: what it does to write a value of its type. -/
abbrev Codec := Value → Script

/-- A registered codec. -/
structure Entry where
  tag : Nat
  type : TypeId
  codec : Codec

/-- An entry as a record. -/
def Entry.debug (e : Entry) : String :=
  Text.partialRecord "CodecEntry" [("tag", toString e.tag), ("type_path", Text.quote e.type.name)]

/-- The codecs by type. -/
structure CodecRegistry where
  entries : TypeMap Entry := .empty
  /-- The tag of the next type that gets a codec. -/
  nextTag : Nat := Tag.firstCodec

namespace CodecRegistry

/-- The entry of a type. -/
def get? (r : CodecRegistry) (type : TypeId) : Option Entry := r.entries.get? type

/-- Whether a type has a codec. -/
def contains (r : CodecRegistry) (type : TypeId) : Bool := r.entries.contains type

/-- How many types have a codec. -/
def size (r : CodecRegistry) : Nat := r.entries.size

/-- The entry with a tag. -/
def withTag? (r : CodecRegistry) (tag : Nat) : Option Entry :=
  r.entries.values.find? (·.tag = tag)

/-- Gives a type a codec, in place of an earlier one. The answer is the tag of the type. -/
def register (r : CodecRegistry) (type : TypeId) (codec : Codec) : Nat × CodecRegistry :=
  match r.get? type with
  | some e => (e.tag, { r with entries := r.entries.set type { e with codec } })
  | none =>
    (r.nextTag, {
      entries := r.entries.set type { tag := r.nextTag, type, codec }
      nextTag := r.nextTag + 1 })

/-- No type has a codec. -/
def empty : CodecRegistry := {}

/-- The scalar types have their codecs. -/
def builtin : CodecRegistry :=
  ScalarType.all.foldl (fun r t => (r.register (.scalar t) (Value.scalarScript t)).2) empty

/-- The entries, in the order of their tags. -/
def sorted (r : CodecRegistry) : List Entry := r.entries.values.mergeSort (·.tag ≤ ·.tag)

/-- The entries as a list of records. -/
def debug (r : CodecRegistry) : String := Text.listing (r.sorted.map Entry.debug)

/-- A type that has a tag keeps it. -/
theorem register_tag_of_entry {r : CodecRegistry} {type : TypeId} {e : Entry}
    (h : r.get? type = some e) (codec : Codec) : (r.register type codec).1 = e.tag := by
  simp [register, h]

/-- A type without an entry gets the next tag. -/
theorem register_tag_of_none {r : CodecRegistry} {type : TypeId}
    (h : r.get? type = none) (codec : Codec) : (r.register type codec).1 = r.nextTag := by
  simp [register, h]

end CodecRegistry

end BeanStream
