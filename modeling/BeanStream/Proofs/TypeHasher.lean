import BeanStream.TypeHasher
import Mathlib.Algebra.Group.Nat.Defs

/-!
# Hashes of numbers

Hashing turns words of 64 bits, which brings their high bits around to the low end, and adds to
them, which may carry beyond the top. Neither happens while **up to eight bytes** are folded into a
fresh hasher: the state is then the number of at most seven bytes, so its top byte is zero, turning
it is multiplying it by 256 (`toNat_rotateLeft_eight`), and the next byte falls on eight zero bits
(`exact_writeBytes`).

Main fact: **numbers hash to themselves, whatever their width** (`hashes_numbers_alike`), so a
number has one hash however many bytes it is written with.
-/

namespace BeanStream.TypeHasher

open Wire

-- Powers of numbers are those of the core library, whatever else is imported.
attribute [local instance (2000)] instPowNat

/-- A byte is folded into the state as into a number without bounds: turning the state multiplies
it, since none of the bits that come around is set, and the sum fits into the word. -/
structure Exact (h : TypeHasher) (b : UInt8) : Prop where
  turned : (h.state.rotateLeft 8).toNat = 256 * h.state.toNat
  added : (h.state.rotateLeft 8).toNat + b.toNat < 2 ^ 64

/-! ### Folding one byte in -/

/-- Turning a word whose top byte is zero multiplies it by 256. -/
theorem toNat_rotateLeft_eight {w : BitVec 64} (small : w.toNat < 2 ^ 56) :
    (w.rotateLeft 8).toNat = 256 * w.toNat := by
  have around : w.toNat >>> 56 = 0 := by
    rw [Nat.shiftRight_eq_div_pow, Nat.div_eq_of_lt small]
  have shifted : w.toNat <<< 8 = 256 * w.toNat := by
    rw [Nat.shiftLeft_eq, Nat.mul_comm]
  have fits : 256 * w.toNat < 2 ^ 64 := by omega
  calc (w.rotateLeft 8).toNat
      = w.toNat <<< 8 % 2 ^ 64 ||| w.toNat >>> 56 := BitVec.toNat_rotateLeft
    _ = 256 * w.toNat := by rw [around, Nat.or_zero, shifted, Nat.mod_eq_of_lt fits]

/-- While the top byte of the state is zero, there is room for another byte. -/
theorem exact_of_lt {h : TypeHasher} (small : h.state.toNat < 2 ^ 56) (b : UInt8) : h.Exact b := by
  have turned : (h.state.rotateLeft 8).toNat = 256 * h.state.toNat := toNat_rotateLeft_eight small
  have hb : b.toNat < 256 := b.toNat_lt
  exact ⟨turned, by omega⟩

/-- A byte for which there is room becomes the lowest one of the state. -/
theorem Exact.toNat_writeByte {h : TypeHasher} {b : UInt8} (exact : h.Exact b) :
    (h.writeByte b).finish.toNat = b.toNat + 256 * h.finish.toNat := by
  have widened : (b.toBitVec.setWidth 64).toNat = b.toNat := by
    have hb : b.toNat < 256 := b.toNat_lt
    rw [BitVec.toNat_setWidth, UInt8.toNat_toBitVec]
    exact Nat.mod_eq_of_lt (by omega)
  have fits : (h.state.rotateLeft 8).toNat + (b.toBitVec.setWidth 64).toNat < 2 ^ 64 := by
    rw [widened]
    exact exact.added
  calc (h.writeByte b).finish.toNat
      = (h.state.rotateLeft 8).toNat + (b.toBitVec.setWidth 64).toNat :=
        BitVec.toNat_add_of_lt fits
    _ = b.toNat + 256 * h.finish.toNat := by rw [exact.turned, widened, Nat.add_comm]; rfl

/-! ### Folding byte strings in -/

/-- The first byte of a byte string is folded in last. -/
theorem writeBytes_cons (h : TypeHasher) (b : UInt8) (bs : List UInt8) :
    h.writeBytes (b :: bs) = (h.writeBytes bs).writeByte b := by
  simp [writeBytes]

/-- The number of at most seven bytes leaves the top byte of a word free. -/
private theorem ofLittleEndian_lt_of_length_lt {bs : List UInt8} (short : bs.length < 8) :
    ofLittleEndian bs < 2 ^ 56 :=
  calc ofLittleEndian bs
      < 256 ^ bs.length := ofLittleEndian_lt bs
    _ ≤ 256 ^ 7 := Nat.pow_le_pow_right (by decide) (by omega)

/-- Up to eight bytes leave their number in a fresh hasher. -/
theorem toNat_writeBytes {bs : List UInt8} (short : bs.length ≤ 8) :
    (({} : TypeHasher).writeBytes bs).finish.toNat = ofLittleEndian bs := by
  -- the bytes behind the first one have left their number, which is small enough for one byte more
  induction bs with
  | nil => rfl
  | cons b bs ih =>
    rw [List.length_cons] at short
    have number : (({} : TypeHasher).writeBytes bs).finish.toNat = ofLittleEndian bs :=
      ih (by omega)
    have small : (({} : TypeHasher).writeBytes bs).state.toNat < 2 ^ 56 :=
      number ▸ ofLittleEndian_lt_of_length_lt (by omega)
    rw [writeBytes_cons, (exact_of_lt small b).toNat_writeByte, number, ofLittleEndian]

/-- Behind at most seven bytes there is room for another one. -/
theorem exact_writeBytes {bs : List UInt8} (short : bs.length < 8) (b : UInt8) :
    (({} : TypeHasher).writeBytes bs).Exact b := by
  have number : (({} : TypeHasher).writeBytes bs).finish.toNat = ofLittleEndian bs :=
    toNat_writeBytes (by omega)
  exact exact_of_lt (number ▸ ofLittleEndian_lt_of_length_lt short) b

/-! ### Numbers -/

/-- A number that is written with enough bytes, but no more than eight, hashes to itself. -/
theorem toNat_write_number {n v : Nat} (narrow : n ≤ 8) (fits : v < 256 ^ n) :
    (({} : TypeHasher).write (.number n v)).finish.toNat = v := by
  have short : (littleEndian n v).length ≤ 8 := by
    rw [length_littleEndian]
    exact narrow
  calc (({} : TypeHasher).write (.number n v)).finish.toNat
      = ofLittleEndian (littleEndian n v) := toNat_writeBytes short
    _ = v := by rw [ofLittleEndian_littleEndian, Nat.mod_eq_of_lt fits]

/-- Up to eight bytes hash to their number, and at no moment of folding them in is anything lost; so
a number of any width up to eight bytes hashes as the word with that number does. Whatever state a
hasher is in, one byte string after another is folded in like the second in front of the first, and
a word leaves nothing of what was written before it. -/
theorem hashes_numbers_alike :
    (∀ bs : List UInt8, bs.length ≤ 8 →
      (({} : TypeHasher).write (.bytes bs)).finish.toNat = ofLittleEndian bs ∧
      ∀ done b left, bs.reverse = done ++ b :: left → (done.foldl writeByte {}).Exact b) ∧
    (∀ n v : Nat, n ≤ 8 → v < 256 ^ n →
      (({} : TypeHasher).write (.number n v)).finish.toNat = v ∧
      ({} : TypeHasher).write (.number n v) = ({} : TypeHasher).write (.word (BitVec.ofNat 64 v))) ∧
    (∀ (h : TypeHasher) (xs ys : List UInt8),
      (h.write (.bytes xs)).write (.bytes ys) = h.write (.bytes (ys ++ xs))) ∧
    ∀ (h : TypeHasher) (inputs : List HashInput) (x : BitVec 64),
      ((inputs.foldl write h).write (.word x)).finish = x := by
  refine ⟨fun bs short => ⟨toNat_writeBytes short, fun done b left moment => ?_⟩,
    fun n v narrow fits => ?_, writeBytes_append, fun h inputs x => write_word _ x⟩
  · -- the bytes that came in so far are the last ones of the string
    have folded : done.foldl writeByte {} = ({} : TypeHasher).writeBytes done.reverse := by
      rw [writeBytes, List.reverse_reverse]
    have lengths : bs.length = done.length + (left.length + 1) := by
      rw [← List.length_reverse, moment, List.length_append, List.length_cons]
    rw [folded]
    exact exact_writeBytes (by rw [List.length_reverse]; omega) b
  · have number := toNat_write_number narrow fits
    refine ⟨number, ?_⟩
    have word : (({} : TypeHasher).write (.number n v)).finish = BitVec.ofNat 64 v := by
      simpa using congrArg (BitVec.ofNat 64) number
    exact congrArg TypeHasher.mk word

/-- The number 10 has one hash, written with four bytes or as a word; and eight bytes that are all
`0xFF` still lose nothing. -/
theorem hashes_numbers_alike_extremes :
    ({} : TypeHasher).write (.number 4 10) = ({} : TypeHasher).write (.word 10) ∧
    (({} : TypeHasher).write (.bytes (List.replicate 8 0xFF))).finish.toNat = 2 ^ 64 - 1 ∧
    (List.foldl writeByte {} (List.replicate 7 0xFF)).Exact 0xFF := by
  obtain ⟨strings, numbers, -, -⟩ := hashes_numbers_alike
  obtain ⟨full, lossless⟩ := strings (List.replicate 8 0xFF) (by decide)
  obtain ⟨-, ten⟩ := numbers 4 10 (by decide) (by decide)
  exact ⟨ten, full, lossless (List.replicate 7 0xFF) 0xFF [] (by decide)⟩

end BeanStream.TypeHasher
