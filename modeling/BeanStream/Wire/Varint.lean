/-!
# Variable-length integers

A natural number in groups of seven bits, least significant group first. Every byte but the
last has its high bit set. Signed integers are folded onto the naturals first, small
magnitudes to small numbers, so that they stay short too.

Main facts: **writing then reading is the identity** on 64-bit words
(`read_encode_append`), and **folding is invertible** (`unfoldSign_foldSign`).
-/

namespace BeanStream.Wire

-- Powers of numbers are those of the core library, whatever else is imported.
attribute [local instance (2000)] instPowNat

namespace Varint

/-- The groups of a natural number, least significant first. -/
def encode (n : Nat) : List UInt8 :=
  if n < 128 then [UInt8.ofNat n] else UInt8.ofNat (n % 128 + 128) :: encode (n / 128)
termination_by n
decreasing_by omega

/-- At most this many groups make up a number. -/
def maxGroups : Nat := 10

/-- The number that the groups at the front of a byte string make up, with the bytes after
them: at most `fuel` groups, the first of them weighing `2 ^ shift`. -/
def readGroups : (fuel shift : Nat) → List UInt8 → Option (Nat × List UInt8)
  | 0, _, _ => none
  | _ + 1, _, [] => none
  | fuel + 1, shift, b :: bs =>
    if b.toNat < 128 then some (b.toNat * 2 ^ shift, bs)
    else (readGroups fuel (shift + 7) bs).map fun (n, rest) =>
      (b.toNat % 128 * 2 ^ shift + n, rest)

/-- Reads one 64-bit word. What the groups hold above the 64th bit is dropped. `none` if the
bytes end within a number, or ten groups do not end it. -/
def read (bs : List UInt8) : Option (BitVec 64 × List UInt8) :=
  (readGroups maxGroups 0 bs).map fun (n, rest) => (BitVec.ofNat 64 n, rest)

/-- One step of `encode` on a number of several groups. -/
theorem encode_of_ge {n : Nat} (h : 128 ≤ n) :
    encode n = UInt8.ofNat (n % 128 + 128) :: encode (n / 128) := by
  rw [encode, if_neg (by omega)]

/-- A number of one group. -/
theorem encode_of_lt {n : Nat} (h : n < 128) : encode n = [UInt8.ofNat n] := by
  rw [encode, if_pos h]

/-- There is at least one group. -/
theorem encode_ne_nil (n : Nat) : encode n ≠ [] := by
  rw [encode]
  split <;> simp

/-- Groups read back as the number they were made of, given fuel for all of them. -/
theorem readGroups_encode_append (fuel n shift : Nat) (rest : List UInt8)
    (h : n < 128 ^ (fuel + 1)) :
    readGroups (fuel + 1) shift (encode n ++ rest) = some (n * 2 ^ shift, rest) := by
  induction fuel generalizing n shift with
  | zero =>
    have hn : n < 128 := by simpa using h
    have hb : (UInt8.ofNat n).toNat = n := by simp; omega
    rw [encode_of_lt hn, List.singleton_append, readGroups, hb, if_pos hn]
  | succ fuel ih =>
    by_cases hn : n < 128
    · have hb : (UInt8.ofNat n).toNat = n := by simp; omega
      rw [encode_of_lt hn, List.singleton_append, readGroups, hb, if_pos hn]
    · have hb : (UInt8.ofNat (n % 128 + 128)).toNat = n % 128 + 128 := by simp; omega
      have hd : n / 128 < 128 ^ (fuel + 1) := by
        rw [Nat.div_lt_iff_lt_mul (by omega)]
        simpa [Nat.pow_succ] using h
      rw [encode_of_ge (by omega), List.cons_append, readGroups, hb, if_neg (by omega),
        ih _ _ hd]
      simp only [Option.map_some, Option.some.injEq, Prod.mk.injEq, and_true]
      have hp : 2 ^ (shift + 7) = 128 * 2 ^ shift := by rw [Nat.pow_add]; omega
      have hm : (n % 128 + 128) % 128 = n % 128 := by omega
      rw [hp, hm, ← Nat.mul_assoc, ← Nat.add_mul]
      congr 1
      omega

/-- Writing then reading a 64-bit word is the identity, whatever follows. -/
theorem read_encode_append (v : BitVec 64) (rest : List UInt8) :
    read (encode v.toNat ++ rest) = some (v, rest) := by
  have h : v.toNat < 128 ^ (9 + 1) := Nat.lt_trans v.isLt (by decide)
  simp [read, maxGroups, readGroups_encode_append 9 v.toNat 0 rest h]

end Varint

/-! ### Signed integers -/

/-- Folds a signed integer onto the naturals: `0, -1, 1, -2, 2, ...` become
`0, 1, 2, 3, 4, ...`. -/
def foldSign (v : Int) : Nat := if 0 ≤ v then (2 * v).toNat else (-2 * v - 1).toNat

/-- The signed integer that was folded. -/
def unfoldSign (n : Nat) : Int := if n % 2 = 0 then (n / 2 : Nat) else -((n / 2 : Nat) : Int) - 1

/-- Folding is invertible. -/
@[simp] theorem unfoldSign_foldSign (v : Int) : unfoldSign (foldSign v) = v := by
  unfold unfoldSign foldSign
  split <;> split <;> omega

/-- A word of 64 bits folds onto a word of 64 bits. -/
theorem foldSign_lt (v : BitVec 64) : foldSign v.toInt < 2 ^ (64 : Nat) := by
  have h1 := BitVec.le_toInt v
  have h2 := BitVec.toInt_lt (x := v)
  unfold foldSign
  split <;> omega

end BeanStream.Wire
