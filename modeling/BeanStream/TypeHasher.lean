import BeanStream.Text.Utf8
import BeanStream.Wire.Primitive

/-!
# Hashing types

Types already come as well-mixed words, so hashing one hands its word through. A byte string
is folded in **from its last byte to its first**, each step rotating the state by one byte;
up to eight bytes this is the little-endian number of the bytes.

Main facts: a word **replaces** the state (`write_word`), and byte strings fold in **in
reverse order of writing** (`writeBytes_append`).
-/

namespace BeanStream

/-- The state of a hasher. -/
structure TypeHasher where
  /-- The hash so far. -/
  state : BitVec 64 := 0
  deriving DecidableEq

/-- Something to hash. -/
inductive HashInput where
  /-- Bytes as they are. -/
  | bytes (bs : List UInt8)
  /-- A 64-bit word. -/
  | word (v : BitVec 64)
  /-- A number by its low `n` bytes in the order of the platform, which is least significant first
  here. -/
  | number (n v : Nat)
  /-- A text, closed by a byte that no text holds. -/
  | text (s : String)

namespace TypeHasher

/-- Folds one byte in. -/
def writeByte (h : TypeHasher) (b : UInt8) : TypeHasher :=
  ⟨h.state.rotateLeft 8 + b.toBitVec.setWidth 64⟩

/-- Folds a byte string in, its last byte first. -/
def writeBytes (h : TypeHasher) (bs : List UInt8) : TypeHasher :=
  bs.reverse.foldl writeByte h

/-- Hashes one input. -/
def write (h : TypeHasher) : HashInput → TypeHasher
  | .bytes bs => h.writeBytes bs
  | .word v => ⟨v⟩
  | .number n v => h.writeBytes (Wire.littleEndian n v)
  | .text s => (h.writeBytes (Text.bytes s)).writeBytes [0xFF]

/-- The hash of what was written. -/
def finish (h : TypeHasher) : BitVec 64 := h.state

/-- A word replaces whatever was written before it. -/
@[simp] theorem write_word (h : TypeHasher) (v : BitVec 64) : (h.write (.word v)).finish = v :=
  rfl

/-- Writing one byte string after another is writing the second in front of the first. -/
theorem writeBytes_append (h : TypeHasher) (xs ys : List UInt8) :
    (h.writeBytes xs).writeBytes ys = h.writeBytes (ys ++ xs) := by
  simp [writeBytes]

end TypeHasher

end BeanStream
