import BeanStream.Text.Utf8
import BeanStream.Wire.Varint

/-!
# Primitive items

The items of which every stream is made: raw bytes, truth values, tags, words, floating-point
numbers by their bits, lengths, and byte strings and texts led by their length.

An item is written in one or two **pieces** (`Primitive.pieces`): a length and the bytes it
announces are two pieces, all else is one. The pieces are what a failing sink cuts between;
their concatenation (`Primitive.encoding`) is the form of the item.
-/

namespace BeanStream.Wire

-- Powers of numbers are those of the core library, whatever else is imported.
attribute [local instance (2000)] instPowNat

/-- An item of a stream. -/
inductive Primitive where
  /-- Bytes as they are. -/
  | raw (bs : List UInt8)
  /-- One byte. -/
  | u8 (b : UInt8)
  /-- A truth value, one byte. -/
  | bool (b : Bool)
  /-- The tag in front of a payload. -/
  | tag (t : BitVec 32)
  /-- An unsigned word, in groups of seven bits. -/
  | u64 (v : BitVec 64)
  /-- A signed word, folded, in groups of seven bits. -/
  | i64 (v : BitVec 64)
  /-- An unsigned double word, sixteen bytes. -/
  | u128 (v : BitVec 128)
  /-- A signed double word, sixteen bytes. -/
  | i128 (v : BitVec 128)
  /-- A floating-point number of four bytes, by its bits. -/
  | f32 (bits : BitVec 32)
  /-- A floating-point number of eight bytes, by its bits. -/
  | f64 (bits : BitVec 64)
  /-- A count of things that follow. -/
  | len (n : Nat)
  /-- A byte string, led by its length. -/
  | bytes (bs : List UInt8)
  /-- A text, led by the length of its UTF-8 form. -/
  | string (s : String)
  deriving DecidableEq

/-- The low `n` bytes of a number, least significant first. -/
def littleEndian : (n : Nat) → Nat → List UInt8
  | 0, _ => []
  | n + 1, v => UInt8.ofNat (v % 256) :: littleEndian n (v / 256)

/-- The number whose bytes are given, least significant first. -/
def ofLittleEndian : List UInt8 → Nat
  | [] => 0
  | b :: bs => b.toNat + 256 * ofLittleEndian bs

@[simp] theorem length_littleEndian (n v : Nat) : (littleEndian n v).length = n := by
  induction n generalizing v with
  | zero => rfl
  | succ n ih => simp [littleEndian, ih]

/-- The low bytes of a number make up the number modulo their weight. -/
theorem ofLittleEndian_littleEndian (n v : Nat) :
    ofLittleEndian (littleEndian n v) = v % 256 ^ n := by
  induction n generalizing v with
  | zero => simp [littleEndian, ofLittleEndian, Nat.mod_one]
  | succ n ih =>
    have hb : (UInt8.ofNat (v % 256)).toNat = v % 256 := by simp
    rw [littleEndian, ofLittleEndian, ih, hb, Nat.pow_succ, Nat.mul_comm (256 ^ n),
      Nat.mod_mul]

/-- A number is below the weight of the byte that would follow its last one. -/
theorem ofLittleEndian_lt (bs : List UInt8) : ofLittleEndian bs < 256 ^ bs.length := by
  induction bs with
  | nil => exact Nat.one_pos
  | cons b bs ih =>
    have hb : b.toNat < 256 := b.toNat_lt
    rw [ofLittleEndian, List.length_cons, Nat.pow_succ]
    omega

namespace Primitive

/-- The pieces in which an item is written. -/
def pieces : Primitive → List (List UInt8)
  | .raw bs => [bs]
  | .u8 b => [[b]]
  | .bool b => [[if b then 1 else 0]]
  | .tag t => [Varint.encode t.toNat]
  | .u64 v => [Varint.encode v.toNat]
  | .i64 v => [Varint.encode (foldSign v.toInt)]
  | .u128 v => [littleEndian 16 v.toNat]
  | .i128 v => [littleEndian 16 v.toNat]
  | .f32 bits => [littleEndian 4 bits.toNat]
  | .f64 bits => [littleEndian 8 bits.toNat]
  | .len n => [Varint.encode n]
  | .bytes bs => [Varint.encode bs.length, bs]
  | .string s => [Varint.encode (Text.bytes s).length, Text.bytes s]

/-- The form of an item: its pieces in a row. -/
def encoding (p : Primitive) : List UInt8 := p.pieces.flatten

/-- An item that is one piece. -/
theorem encoding_of_pieces {p : Primitive} {piece : List UInt8} (h : p.pieces = [piece]) :
    p.encoding = piece := by
  rw [encoding, h, List.flatten_singleton]

end Primitive

end BeanStream.Wire
