import BeanStream.Codec.Builtin
import BeanStream.Proofs.Reading.Reader

/-!
# Layouts of the scalar types

How the payload of each scalar type is read back. Numbers are read in their **canonical** form
only: a word that stands for no number of the type is malformed, and so is a code point that is
no character.

The codec of a scalar type writes nothing, one item, or fails; what it writes **reads back as the
scalar** (`Scalar.script_cases`).
-/

namespace BeanStream.Reading

open Wire

-- Powers of numbers are those of the core library, whatever else is imported.
attribute [local instance (2000)] instPowNat

/-- An integer that is written as a word, folded if the type is signed. -/
def integer (k : IntKind) : Reader Scalar :=
  Reader.number.decode fun n =>
    let v : Int := if k.signed then unfoldSign n else n
    if k.toInt (BitVec.ofInt k.width v) = v then some (.int k (BitVec.ofInt k.width v)) else none

/-- A number of `n` bytes, least significant first. -/
def word (n width : Nat) : Reader (BitVec width) :=
  (fun bs => BitVec.ofNat width (ofLittleEndian bs)) <$> Reader.take n

/-- The payload of a scalar type. -/
def scalar : ScalarType → Reader Scalar
  | .unit => return .unit
  | .bool => Reader.byte.decode fun b =>
    if b = 0 then some (.bool false) else if b = 1 then some (.bool true) else none
  | .char => Reader.number.decode fun n =>
    if (Char.ofNat n).toNat = n then some (.char (Char.ofNat n)) else none
  | .int .i128 => Scalar.int .i128 <$> word 16 128
  | .int .u128 => Scalar.int .u128 <$> word 16 128
  | .int k => integer k
  | .f32 => Scalar.f32 <$> word 4 32
  | .f64 => Scalar.f64 <$> word 8 64
  | .string => Scalar.string <$> Reader.text
  | .str => Scalar.str <$> Reader.text
  | .cow => Scalar.cow <$> Reader.text
  | .path => (fun s => .path (Text.bytes s)) <$> Reader.text

/-! ### Layouts are steady -/

private theorem steady_integer (k : IntKind) : Steady (integer k) := Steady.number.decode _

private theorem steady_word (n width : Nat) : Steady (word n width) := (Steady.take n).map _

/-- A layout is read by looking at its own bytes only. -/
theorem steady_scalar (t : ScalarType) : Steady (scalar t) := by
  cases t with
  | unit => exact .pure _
  | bool => exact Steady.byte.decode _
  | char => exact Steady.number.decode _
  | int k =>
    cases k with
    | i128 => exact (steady_word 16 128).map _
    | u128 => exact (steady_word 16 128).map _
    | _ => exact steady_integer _
  | f32 => exact (steady_word 4 32).map _
  | f64 => exact (steady_word 8 64).map _
  | _ => exact Steady.text.map _

/-- Where nothing was written, a layout has not begun, or was that of the unit value. -/
theorem scalar_nil (t : ScalarType) :
    Starves (scalar t) [] ∨ ∃ s, Reads (scalar t) [] s := by
  cases t with
  | unit => exact .inr ⟨.unit, .pure _⟩
  | int k => cases k <;> exact .inl rfl
  | _ => exact .inl rfl

/-! ### Scalars read back -/

private theorem reads_word {n width : Nat} (hn : 2 ^ width = 256 ^ n) (v : BitVec width) :
    Reads (word n width) (littleEndian n v.toNat) v := by
  have front := Reads.take (littleEndian n v.toNat)
  rw [length_littleEndian] at front
  have small : v.toNat % 256 ^ n = v.toNat := Nat.mod_eq_of_lt (hn ▸ v.isLt)
  have back := front.map fun bs => BitVec.ofNat width (ofLittleEndian bs)
  rwa [ofLittleEndian_littleEndian, small, BitVec.ofNat_toNat, BitVec.setWidth_eq] at back

private theorem reads_signed {k : IntKind} (signed : k.signed = true) (small : k.width ≤ 64)
    (bits : BitVec k.width) :
    Reads (integer k) (Primitive.i64 (bits.signExtend 64)).encoding (.int k bits) := by
  rw [Primitive.encoding_of_pieces rfl, BitVec.toInt_signExtend_of_le small]
  refine (Reads.number _).decode ?_
  simp only [signed, if_true, unfoldSign_foldSign, BitVec.ofInt_toInt, IntKind.toInt]

private theorem reads_unsigned {k : IntKind} (unsigned : k.signed = false) (small : k.width ≤ 64)
    (bits : BitVec k.width) :
    Reads (integer k) (Primitive.u64 (bits.setWidth 64)).encoding (.int k bits) := by
  have fits : bits.toNat < 2 ^ 64 :=
    Nat.lt_of_lt_of_le bits.isLt (Nat.pow_le_pow_right (by decide) small)
  rw [Primitive.encoding_of_pieces rfl, BitVec.toNat_setWidth, Nat.mod_eq_of_lt fits]
  refine (Reads.number _).decode ?_
  simp only [unsigned, Bool.false_eq_true, if_false, BitVec.ofInt_natCast, BitVec.ofNat_toNat,
    BitVec.setWidth_eq, IntKind.toInt, if_true]

private theorem reads_char (c : Char) :
    Reads (scalar .char) (Primitive.u64 (BitVec.ofNat 64 c.toNat)).encoding (.char c) := by
  have fits : c.toNat < 2 ^ 64 := Nat.lt_trans c.val.toNat_lt (by decide)
  rw [Primitive.encoding_of_pieces rfl, BitVec.toNat_ofNat, Nat.mod_eq_of_lt fits]
  refine (Reads.number _).decode ?_
  simp only [Char.ofNat_toNat, if_true]

private theorem reads_bool (b : Bool) :
    Reads (scalar .bool) (Primitive.bool b).encoding (.bool b) := by
  rw [Primitive.encoding_of_pieces rfl]
  refine (Reads.byte _).decode ?_
  cases b <;> rfl

end BeanStream.Reading

namespace BeanStream

open Wire Reading

/-- The codec of a scalar writes nothing, or one item, and what it writes reads back as the
scalar; or it fails, on a path that is no text. -/
theorem Scalar.script_cases (s : Scalar) :
    (s.script = .done ∧ Reads (scalar s.type) [] s) ∨
      (∃ p, s.script = .item p ∧ Reads (scalar s.type) p.encoding s) ∨
      ∃ bs, s.script = .fail (.invalidPath bs) := by
  cases s with
  | unit => exact .inl ⟨rfl, .pure _⟩
  | bool b => exact .inr (.inl ⟨_, rfl, reads_bool b⟩)
  | char c => exact .inr (.inl ⟨_, rfl, reads_char c⟩)
  | int k bits =>
    refine .inr (.inl ?_)
    cases k with
    | i128 => exact ⟨.i128 bits, rfl, (reads_word (n := 16) (by decide) bits).map _⟩
    | u128 => exact ⟨.u128 bits, rfl, (reads_word (n := 16) (by decide) bits).map _⟩
    | i8 | i16 | i32 | i64 | isize => exact ⟨_, rfl, reads_signed rfl (by decide) bits⟩
    | u8 | u16 | u32 | u64 | usize => exact ⟨_, rfl, reads_unsigned rfl (by decide) bits⟩
  | f32 bits => exact .inr (.inl ⟨.f32 bits, rfl, (reads_word (n := 4) (by decide) bits).map _⟩)
  | f64 bits => exact .inr (.inl ⟨.f64 bits, rfl, (reads_word (n := 8) (by decide) bits).map _⟩)
  | string t => exact .inr (.inl ⟨.string t, rfl, (Reads.text t).map _⟩)
  | str t => exact .inr (.inl ⟨.string t, rfl, (Reads.text t).map _⟩)
  | cow t => exact .inr (.inl ⟨.string t, rfl, (Reads.text t).map _⟩)
  | path bs =>
    rcases h : Text.ofBytes? bs with _ | t
    · refine .inr (.inr ⟨bs, ?_⟩)
      simp only [Scalar.script, h]
    · refine .inr (.inl ⟨.string t, ?_, ?_⟩)
      · simp only [Scalar.script, h]
      · rw [Text.ofBytes?_eq_some_iff.1 h]
        exact (Reads.text t).map _

end BeanStream
