/-!
# Text as bytes

The encoded form of a text and its two readings. `bytes` and `ofBytes?` are inverse to each
other: **every text reads back** (`ofBytes?_bytes`) and **only encoded forms are read**
(`ofBytes?_eq_some_iff`). `lossy` reads any byte string, for display only: every maximal
ill-formed part of it becomes one replacement character.
-/

namespace BeanStream.Text

-- Powers of numbers are those of the core library, whatever else is imported.
attribute [local instance (2000)] instPowNat

/-! ### The exact reading -/

/-- The UTF-8 form of a text. -/
def bytes (s : String) : List UInt8 := s.toByteArray.data.toList

/-- The text whose UTF-8 form is given, if there is one. -/
def ofBytes? (bs : List UInt8) : Option String := String.fromUTF8? ⟨bs.toArray⟩

/-- Every text reads back. -/
@[simp] theorem ofBytes?_bytes (s : String) : ofBytes? (bytes s) = some s := by
  simp [ofBytes?, bytes, String.fromUTF8?, s.isValidUTF8, String.fromUTF8]

/-- The reading accepts exactly the encoded forms. -/
theorem ofBytes?_eq_some_iff {bs : List UInt8} {s : String} :
    ofBytes? bs = some s ↔ bs = bytes s := by
  constructor
  · intro h
    simp only [ofBytes?, String.fromUTF8?] at h
    split at h
    · obtain rfl := Option.some.inj h
      simp [bytes, String.fromUTF8]
    · cases h
  · rintro rfl
    exact ofBytes?_bytes s

/-- The empty text is the only one with an empty form. -/
@[simp] theorem bytes_eq_nil_iff {s : String} : bytes s = [] ↔ s = "" := by
  constructor
  · intro h
    have : ofBytes? (bytes s) = ofBytes? (bytes "") := by rw [h]; rfl
    simpa using this
  · rintro rfl
    rfl

/-! ### The lossy reading -/

/-- The replacement character. -/
def replacement : Char := Char.ofNat 0xFFFD

/-- The closed range of second bytes that may follow a leading byte, with the number of bytes
of the whole sequence. `none` for a byte that leads no sequence of several bytes. -/
private def leading (b : UInt8) : Option (UInt8 × UInt8 × Nat) :=
  if b < 0xC2 then none
  else if b < 0xE0 then some (0x80, 0xBF, 2)
  else if b = 0xE0 then some (0xA0, 0xBF, 3)
  else if b = 0xED then some (0x80, 0x9F, 3)
  else if b < 0xF0 then some (0x80, 0xBF, 3)
  else if b = 0xF0 then some (0x90, 0xBF, 4)
  else if b < 0xF4 then some (0x80, 0xBF, 4)
  else if b = 0xF4 then some (0x80, 0x8F, 4)
  else none

/-- The continuation bytes at the front of a byte string, at most `n` of them. -/
private def continuation (n : Nat) (bs : List UInt8) : List UInt8 :=
  (bs.take n).takeWhile fun b => 0x80 ≤ b && b < 0xC0

/-- The payload bits of a leading byte of a sequence of `size` bytes. -/
private def leadingBits (b : UInt8) (size : Nat) : Nat :=
  b.toNat % 2 ^ (7 - size)

/-- The first character of the lossy reading of `b :: bs`, and how many bytes of `bs` belong
to it. -/
private def lossyHead (b : UInt8) (bs : List UInt8) : Char × Nat :=
  if b < 0x80 then (Char.ofNat b.toNat, 0)
  else
    match leading b, bs with
    | some (low, high, size), second :: rest =>
      if low ≤ second && second ≤ high then
        let more := continuation (size - 2) rest
        if more.length = size - 2 then
          let value := (second :: more).foldl (fun n c => n * 64 + c.toNat % 64)
            (leadingBits b size)
          (Char.ofNat value, size - 1)
        else (replacement, more.length + 1)
      else (replacement, 0)
    | _, _ => (replacement, 0)

/-- The characters of the lossy reading. -/
private def lossyChars : List UInt8 → List Char
  | [] => []
  | b :: bs => (lossyHead b bs).1 :: lossyChars (bs.drop (lossyHead b bs).2)
termination_by bs => bs.length
decreasing_by
  rw [List.length_drop]
  exact Nat.lt_succ_of_le (Nat.sub_le _ _)

/-- The display text of any byte string. -/
def lossy (bs : List UInt8) : String := String.ofList (lossyChars bs)

end BeanStream.Text
