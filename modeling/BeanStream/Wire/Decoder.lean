import BeanStream.Wire.Primitive

/-!
# Reading primitive items

A **layout** says which kind of item comes next; reading it from the front of a byte string
yields the item and the bytes after it, or nothing if the bytes are no such item. Reading
undoes writing: for every item, reading its layout from its form **returns the item and
leaves exactly what follows** (`read_encoding_append`).
-/

namespace BeanStream.Wire

-- Powers of numbers are those of the core library, whatever else is imported.
attribute [local instance (2000)] instPowNat

/-- A kind of item, with all that has to be known to read one. -/
inductive Layout where
  /-- This many bytes as they are. -/
  | raw (n : Nat)
  | u8
  | bool
  | tag
  | u64
  | i64
  | u128
  | i128
  | f32
  | f64
  | len
  | bytes
  | string
  deriving DecidableEq

/-- The first `n` bytes and the rest, if there are that many. -/
def split? (n : Nat) (bs : List UInt8) : Option (List UInt8 × List UInt8) :=
  if n ≤ bs.length then some (bs.take n, bs.drop n) else none

/-- The front of a concatenation splits off. -/
@[simp] theorem split?_append (front rest : List UInt8) :
    split? front.length (front ++ rest) = some (front, rest) := by
  simp [split?]

namespace Layout

/-- A fixed number of bytes, least significant first. -/
private def readWord (n : Nat) (bs : List UInt8) : Option (Nat × List UInt8) :=
  (split? n bs).map fun (front, rest) => (ofLittleEndian front, rest)

/-- A byte string led by its length. -/
private def readCounted (bs : List UInt8) : Option (List UInt8 × List UInt8) := do
  let (n, rest) ← Varint.read bs
  split? n.toNat rest

/-- The item of a layout at the front of a byte string, and the bytes after it. A truth value
is a byte `0` or `1`, and a text has to be well formed. -/
def read (l : Layout) (bs : List UInt8) : Option (Primitive × List UInt8) :=
  match l with
  | .raw n => (split? n bs).map fun (front, rest) => (.raw front, rest)
  | .u8 =>
    match bs with
    | [] => none
    | b :: rest => some (.u8 b, rest)
  | .bool =>
    match bs with
    | [] => none
    | b :: rest =>
      if b = 0 then some (.bool false, rest)
      else if b = 1 then some (.bool true, rest)
      else none
  | .tag => (Varint.read bs).map fun (v, rest) => (.tag (v.setWidth 32), rest)
  | .u64 => (Varint.read bs).map fun (v, rest) => (.u64 v, rest)
  | .i64 => (Varint.read bs).map fun (v, rest) =>
    (.i64 (BitVec.ofInt 64 (unfoldSign v.toNat)), rest)
  | .u128 => (readWord 16 bs).map fun (v, rest) => (.u128 (BitVec.ofNat 128 v), rest)
  | .i128 => (readWord 16 bs).map fun (v, rest) => (.i128 (BitVec.ofNat 128 v), rest)
  | .f32 => (readWord 4 bs).map fun (v, rest) => (.f32 (BitVec.ofNat 32 v), rest)
  | .f64 => (readWord 8 bs).map fun (v, rest) => (.f64 (BitVec.ofNat 64 v), rest)
  | .len => (Varint.read bs).map fun (v, rest) => (.len v.toNat, rest)
  | .bytes => (readCounted bs).map fun (front, rest) => (.bytes front, rest)
  | .string => do
    let (front, rest) ← readCounted bs
    let s ← Text.ofBytes? front
    some (.string s, rest)

end Layout

/-- The layout that an item is read with. -/
def Primitive.layout : Primitive → Layout
  | .raw bs => .raw bs.length
  | .u8 _ => .u8
  | .bool _ => .bool
  | .tag _ => .tag
  | .u64 _ => .u64
  | .i64 _ => .i64
  | .u128 _ => .u128
  | .i128 _ => .i128
  | .f32 _ => .f32
  | .f64 _ => .f64
  | .len _ => .len
  | .bytes _ => .bytes
  | .string _ => .string

/-- Every length that an item announces is a 64-bit word. -/
def Primitive.Sized : Primitive → Prop
  | .len n => n < 2 ^ (64 : Nat)
  | .bytes bs => bs.length < 2 ^ (64 : Nat)
  | .string s => (Text.bytes s).length < 2 ^ (64 : Nat)
  | _ => True

/-! ### Reading undoes writing -/

private theorem toNat_word {n : Nat} (h : n < 2 ^ (64 : Nat)) : (BitVec.ofNat 64 n).toNat = n := by
  rw [BitVec.toNat_ofNat, Nat.mod_eq_of_lt h]

private theorem read_encode_lt {n : Nat} (h : n < 2 ^ (64 : Nat)) (rest : List UInt8) :
    Varint.read (Varint.encode n ++ rest) = some (BitVec.ofNat 64 n, rest) := by
  have read := Varint.read_encode_append (BitVec.ofNat 64 n) rest
  rwa [toNat_word h] at read

private theorem readCounted_append {bs : List UInt8} (h : bs.length < 2 ^ (64 : Nat))
    (rest : List UInt8) :
    Layout.readCounted (Varint.encode bs.length ++ (bs ++ rest)) = some (bs, rest) := by
  simp only [Layout.readCounted, read_encode_lt h, Option.bind_eq_bind, Option.bind_some,
    toNat_word h, split?_append]

private theorem readWord_append {n width : Nat} (hn : 2 ^ width = 256 ^ n) (v : BitVec width)
    (rest : List UInt8) :
    Layout.readWord n (littleEndian n v.toNat ++ rest) = some (v.toNat, rest) := by
  have front := split?_append (littleEndian n v.toNat) rest
  rw [length_littleEndian] at front
  have small : v.toNat < 256 ^ n := hn ▸ v.isLt
  simp only [Layout.readWord, front, Option.map_some, ofLittleEndian_littleEndian,
    Nat.mod_eq_of_lt small]

private theorem encoding_of_counted {p : Primitive} {front bs : List UInt8}
    (h : p.pieces = [front, bs]) (rest : List UInt8) :
    p.encoding ++ rest = front ++ (bs ++ rest) := by
  simp [Primitive.encoding, h]

/-- Reading the layout of an item from its form returns the item and leaves what follows. -/
theorem read_encoding_append {p : Primitive} (h : p.Sized) (rest : List UInt8) :
    p.layout.read (p.encoding ++ rest) = some (p, rest) := by
  cases p with
  | raw bs =>
    rw [Primitive.encoding_of_pieces rfl]
    simp only [Primitive.layout, Layout.read, split?_append, Option.map_some]
  | u8 b =>
    rw [Primitive.encoding_of_pieces rfl]
    rfl
  | bool b =>
    rw [Primitive.encoding_of_pieces rfl]
    cases b <;> rfl
  | tag t =>
    have ht : t.toNat < 2 ^ 64 := Nat.lt_trans t.isLt (by decide)
    rw [Primitive.encoding_of_pieces rfl]
    simp only [Primitive.layout, Layout.read, read_encode_lt ht, Option.map_some,
      BitVec.ofNat_toNat, BitVec.setWidth_setWidth_of_le t (by decide : 32 ≤ 64),
      BitVec.setWidth_eq]
  | u64 v =>
    rw [Primitive.encoding_of_pieces rfl]
    simp only [Primitive.layout, Layout.read, Varint.read_encode_append, Option.map_some]
  | i64 v =>
    rw [Primitive.encoding_of_pieces rfl]
    simp only [Primitive.layout, Layout.read, read_encode_lt (foldSign_lt v), Option.map_some,
      toNat_word (foldSign_lt v), unfoldSign_foldSign, BitVec.ofInt_toInt]
  | u128 v =>
    rw [Primitive.encoding_of_pieces rfl]
    simp only [Primitive.layout, Layout.read, readWord_append (by decide : 2 ^ 128 = 256 ^ 16),
      Option.map_some, BitVec.ofNat_toNat, BitVec.setWidth_eq]
  | i128 v =>
    rw [Primitive.encoding_of_pieces rfl]
    simp only [Primitive.layout, Layout.read, readWord_append (by decide : 2 ^ 128 = 256 ^ 16),
      Option.map_some, BitVec.ofNat_toNat, BitVec.setWidth_eq]
  | f32 bits =>
    rw [Primitive.encoding_of_pieces rfl]
    simp only [Primitive.layout, Layout.read, readWord_append (by decide : 2 ^ 32 = 256 ^ 4),
      Option.map_some, BitVec.ofNat_toNat, BitVec.setWidth_eq]
  | f64 bits =>
    rw [Primitive.encoding_of_pieces rfl]
    simp only [Primitive.layout, Layout.read, readWord_append (by decide : 2 ^ 64 = 256 ^ 8),
      Option.map_some, BitVec.ofNat_toNat, BitVec.setWidth_eq]
  | len n =>
    have hn : n < 2 ^ 64 := h
    rw [Primitive.encoding_of_pieces rfl]
    simp only [Primitive.layout, Layout.read, read_encode_lt hn, Option.map_some, toNat_word hn]
  | bytes bs =>
    have hbs : bs.length < 2 ^ 64 := h
    rw [encoding_of_counted rfl]
    simp only [Primitive.layout, Layout.read, readCounted_append hbs, Option.map_some]
  | string s =>
    have hs : (Text.bytes s).length < 2 ^ 64 := h
    rw [encoding_of_counted rfl]
    simp only [Primitive.layout, Layout.read, readCounted_append hs, Option.bind_eq_bind,
      Option.bind_some, Text.ofBytes?_bytes]

end BeanStream.Wire
