import BeanStream.Proofs.Wire.Output
import BeanStream.Wire.Primitive

/-!
# Readers of byte strings

A reader takes what it needs from the front of a byte string. It can fail in two ways: the bytes
**end too soon**, or they are **malformed**, whatever may follow.

What is said of a reader is about the bytes it takes: it `Reads` a value from a byte string if it
takes exactly these bytes, no matter what follows, and it `Starves` on a byte string if it would
need more. Both put together along with the readers (`Reads.bind`, `Reads.bind_starves`,
`Starves.bind`).

A reader is `Steady` if bytes that follow do not change an answer it gave without them. A steady
reader **starves on every part of a form that it reads** (`Steady.starves_of_reads`).
-/

namespace BeanStream.Reading

open Wire

/-- Why bytes were not read. -/
inductive Fault where
  /-- The bytes end too soon. -/
  | short
  /-- The bytes are no such thing, whatever follows. -/
  | malformed
  deriving DecidableEq

/-- Reads from the front of a byte string. -/
abbrev Reader := StateT (List UInt8) (Except Fault)

namespace Reader

/-- One byte. -/
def byte : Reader UInt8
  | [] => .error .short
  | b :: bs => .ok (b, bs)

/-- This many bytes as they are. -/
def take (n : Nat) : Reader (List UInt8) := fun bs =>
  if n ≤ bs.length then .ok (bs.take n, bs.drop n) else .error .short

/-- A natural number in groups of seven bits. -/
def number : Reader Nat
  | [] => .error .short
  | b :: bs =>
    if b.toNat < 128 then .ok (b.toNat, bs)
    else
      match number bs with
      | .ok (n, rest) => .ok (b.toNat % 128 + 128 * n, rest)
      | .error fault => .error fault

/-- Bytes that are no such thing. -/
def reject {α : Type} : Reader α := fun _ => .error .malformed

/-- What `meaning` makes of what was read, if anything. -/
def decode {α β : Type} (r : Reader α) (meaning : α → Option β) : Reader β := do
  match meaning (← r) with
  | some b => return b
  | none => reject

/-- A byte string led by its length. -/
def counted : Reader (List UInt8) := do take (← number)

/-- A text led by its length. -/
def text : Reader String := counted.decode Text.ofBytes?

/-- What `r` reads, this many times. -/
def repeated {α : Type} (r : Reader α) : (count : Nat) → Reader (List α)
  | 0 => return []
  | count + 1 => do
    let a ← r
    let as ← r.repeated count
    return a :: as

end Reader

variable {α β : Type} {r : Reader α} {f : α → Reader β}

private theorem run_bind (bs : List UInt8) :
    (r >>= f).run bs = match r.run bs with
      | .ok (a, rest) => (f a).run rest
      | .error fault => .error fault := by
  rw [StateT.run_bind]
  rcases r.run bs with fault | ⟨a, rest⟩ <;> rfl

/-! ### Reading and starving -/

/-- From `bs`, whatever follows, the reader takes exactly `bs` and answers `a`. -/
def Reads (r : Reader α) (bs : List UInt8) (a : α) : Prop :=
  ∀ rest, r.run (bs ++ rest) = .ok (a, rest)

/-- On `bs`, the reader runs out of bytes. -/
def Starves (r : Reader α) (bs : List UInt8) : Prop := r.run bs = .error .short

theorem Reads.pure (a : α) : Reads (Pure.pure a) [] a := fun _ => rfl

/-- What is read by one reader after another. -/
theorem Reads.bind {bs cs : List UInt8} {a : α} {b : β} (first : Reads r bs a)
    (next : Reads (f a) cs b) : Reads (r >>= f) (bs ++ cs) b := by
  intro rest
  rw [run_bind, List.append_assoc, first]
  exact next rest

/-- A reader starves if what follows it does. -/
theorem Reads.bind_starves {bs cs : List UInt8} {a : α} (first : Reads r bs a)
    (next : Starves (f a) cs) : Starves (r >>= f) (bs ++ cs) := by
  rw [Starves, run_bind, first]
  exact next

/-- A reader starves if its beginning does. -/
theorem Starves.bind {bs : List UInt8} (first : Starves r bs) : Starves (r >>= f) bs := by
  rw [Starves, run_bind, first]

theorem Reads.decode {bs : List UInt8} {a : α} {b : β} {meaning : α → Option β}
    (first : Reads r bs a) (h : meaning a = some b) : Reads (r.decode meaning) bs b := by
  rw [← List.append_nil bs]
  refine first.bind ?_
  rw [h]
  exact .pure b

theorem Reads.map {bs : List UInt8} {a : α} (first : Reads r bs a) (g : α → β) :
    Reads (g <$> r) bs (g a) := by
  rw [← List.append_nil bs, ← bind_pure_comp]
  exact first.bind (.pure (g a))

theorem Reads.repeated_nil : Reads (r.repeated 0) [] [] := .pure []

theorem Reads.repeated_cons {n : Nat} {bs cs : List UInt8} {a : α} {as : List α}
    (first : Reads r bs a) (others : Reads (r.repeated n) cs as) :
    Reads (r.repeated (n + 1)) (bs ++ cs) (a :: as) := by
  have last : Reads (r.repeated n >>= fun as => Pure.pure (a :: as)) (cs ++ []) (a :: as) :=
    others.bind (.pure _)
  rw [List.append_nil] at last
  exact first.bind last

/-! ### Steady readers -/

/-- Bytes that follow do not change an answer that was given without them. -/
def Steady (r : Reader α) : Prop :=
  ∀ bs more, match r.run bs with
    | .ok (a, rest) => r.run (bs ++ more) = .ok (a, rest ++ more)
    | .error .malformed => r.run (bs ++ more) = .error .malformed
    | .error .short => True

/-- A part of a form that is read is not enough. -/
theorem Steady.starves_of_reads (steady : Steady r) {bs cs : List UInt8} {a : α}
    (h : Reads r cs a) (cut : Cut bs cs) : Starves r bs := by
  obtain ⟨more, hmore, rfl⟩ := cut
  have whole := h []
  rw [List.append_nil] at whole
  -- an answer given without `more` would be the answer to the whole form, which takes `more` too
  have kept := steady bs more
  rw [Starves]
  rcases hr : r.run bs with (_ | _) | ⟨b, rest⟩ <;> simp only [hr, whole] at kept
  · rfl
  · cases kept
  · have nothing : [] = rest ++ more := congrArg Prod.snd (Except.ok.inj kept)
    exact absurd (List.append_eq_nil_iff.1 nothing.symm).2 hmore

theorem Steady.pure (a : α) : Steady (Pure.pure a : Reader α) := fun _ _ => rfl

theorem Steady.reject : Steady (Reader.reject : Reader α) := fun _ _ => rfl

theorem Steady.bind (first : Steady r) (next : ∀ a, Steady (f a)) : Steady (r >>= f) := by
  intro bs more
  rw [run_bind, run_bind]
  have kept := first bs more
  rcases hr : r.run bs with (_ | _) | ⟨a, rest⟩ <;> simp only [hr] at kept
  · trivial
  · simp only [kept]
  · simp only [kept]
    exact next a rest more

theorem Steady.decode (first : Steady r) (meaning : α → Option β) :
    Steady (r.decode meaning) := by
  refine first.bind fun a => ?_
  rcases meaning a with _ | b
  · exact .reject
  · exact .pure b

theorem Steady.map (first : Steady r) (g : α → β) : Steady (g <$> r) := by
  rw [← bind_pure_comp]
  exact first.bind fun a => .pure (g a)

theorem Steady.byte : Steady Reader.byte
  | [], _ => trivial
  | _ :: _, _ => rfl

theorem Steady.take (n : Nat) : Steady (Reader.take n) := by
  intro bs more
  by_cases h : n ≤ bs.length
  · have longer : n ≤ (bs ++ more).length := by
      rw [List.length_append]
      omega
    have front : (bs ++ more).take n = bs.take n := List.take_append_of_le_length h
    have back : (bs ++ more).drop n = bs.drop n ++ more := List.drop_append_of_le_length h
    simp only [StateT.run, Reader.take, if_pos h, if_pos longer, front, back]
  · simp only [StateT.run, Reader.take, if_neg h]

theorem Steady.number : Steady Reader.number := by
  intro bs more
  induction bs with
  | nil => trivial
  | cons b bs ih =>
    simp only [StateT.run, List.cons_append, Reader.number] at ih ⊢
    by_cases last : b.toNat < 128
    · simp only [if_pos last]
    · simp only [if_neg last]
      rcases hr : Reader.number bs with (_ | _) | ⟨n, rest⟩ <;> simp only [hr] at ih
      · trivial
      · simp only [ih]
      · simp only [ih]

theorem Steady.counted : Steady Reader.counted := Steady.number.bind Steady.take

theorem Steady.text : Steady Reader.text := Steady.counted.decode Text.ofBytes?

/-! ### What is read from the forms of items -/

theorem Reads.byte (b : UInt8) : Reads Reader.byte [b] b := fun _ => rfl

theorem Reads.take (bs : List UInt8) : Reads (Reader.take bs.length) bs bs := by
  intro rest
  simp [StateT.run, Reader.take]

/-- A number reads back from its groups. -/
theorem Reads.number (n : Nat) : Reads Reader.number (Varint.encode n) n := by
  intro rest
  change Reader.number (Varint.encode n ++ rest) = .ok (n, rest)
  -- the groups behind the first one are those of a smaller number
  induction n using Nat.strongRecOn with
  | ind n ih =>
    by_cases small : n < 128
    · have hb : (UInt8.ofNat n).toNat = n := by simp; omega
      rw [Varint.encode_of_lt small, List.singleton_append, Reader.number, hb, if_pos small]
    · have hb : (UInt8.ofNat (n % 128 + 128)).toNat = n % 128 + 128 := by simp; omega
      rw [Varint.encode_of_ge (by omega), List.cons_append, Reader.number, hb,
        if_neg (by omega), ih (n / 128) (by omega)]
      have whole : (n % 128 + 128) % 128 + 128 * (n / 128) = n := by omega
      simp only [whole]

theorem Reads.counted (bs : List UInt8) :
    Reads Reader.counted (Varint.encode bs.length ++ bs) bs :=
  (Reads.number bs.length).bind (.take bs)

/-- A text reads back. -/
theorem Reads.text (s : String) : Reads Reader.text (Primitive.string s).encoding s := by
  have form : (Primitive.string s).encoding
      = Varint.encode (Text.bytes s).length ++ Text.bytes s := by
    simp [Primitive.encoding, Primitive.pieces]
  rw [form]
  exact (Reads.counted (Text.bytes s)).decode (Text.ofBytes?_bytes s)

/-- A count reads back. -/
theorem Reads.len (n : Nat) : Reads Reader.number (Primitive.len n).encoding n := by
  have form : (Primitive.len n).encoding = Varint.encode n := by
    simp [Primitive.encoding, Primitive.pieces]
  rw [form]
  exact .number n

/-- A tag reads back. -/
theorem Reads.tag (t : BitVec 32) : Reads Reader.number (Primitive.tag t).encoding t.toNat := by
  have form : (Primitive.tag t).encoding = Varint.encode t.toNat := by
    simp [Primitive.encoding, Primitive.pieces]
  rw [form]
  exact .number t.toNat

/-- No item that starts with a number has an empty form. -/
theorem encoding_tag_ne_nil (t : BitVec 32) : (Primitive.tag t).encoding ≠ [] := by
  simp [Primitive.encoding, Primitive.pieces, Varint.encode_ne_nil]

end BeanStream.Reading
