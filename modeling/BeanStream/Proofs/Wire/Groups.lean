import BeanStream.Wire.Varint
import Mathlib.Algebra.BigOperators.Intervals
import Mathlib.Algebra.BigOperators.Ring.Finset
import Mathlib.Data.Nat.Bitwise

/-!
# Which bytes are a number

A number is written in groups of seven bits. All bytes of it but the last have their high bit set
(`IsGroups`), and what they make up is `weigh`. Not every row of groups is the form of a number: a
last group without bits pads a shorter form, and bits of a tenth group above the lowest one do not
fit into a word and are dropped.

Reader and writer are also given as they run over 64-bit words (`gather`, `fill`): a shift by the
width of the word or more, and a byte behind the end of the buffer, are failures there.

Main fact: the bytes that are read, what they are read as, and which of them are **the one form**
that the number is written in, which is also the shortest one (`read_exactly`).
-/

namespace BeanStream.Wire.Varint

-- Powers of numbers are those of the core library, whatever else is imported.
attribute [local instance (2000)] instPowNat

/-- The bytes are the groups of one number: all but the last have their high bit set. -/
inductive IsGroups : List UInt8 → Prop
  | last {b : UInt8} (h : b.toNat < 128) : IsGroups [b]
  | more {b : UInt8} {bs : List UInt8} (h : 128 ≤ b.toNat) (others : IsGroups bs) :
      IsGroups (b :: bs)

/-- What groups make up, the first of them weighing least. -/
def weigh : List UInt8 → Nat
  | [] => 0
  | b :: bs => b.toNat % 128 + 128 * weigh bs

/-- A last group weighs what it is. -/
theorem weigh_singleton {b : UInt8} (h : b.toNat < 128) : weigh [b] = b.toNat := by
  simp only [weigh]
  omega

/-- The groups behind the first one stand seven bits further up. -/
theorem weigh_cons_shift (b : UInt8) (bs : List UInt8) (shift : Nat) :
    weigh (b :: bs) * 2 ^ shift = b.toNat % 128 * 2 ^ shift + weigh bs * 2 ^ (shift + 7) := by
  have hpow : 2 ^ (shift + 7) = 128 * 2 ^ shift := by rw [Nat.pow_add, Nat.mul_comm]
  rw [weigh, hpow, Nat.add_mul, Nat.mul_comm 128 (weigh bs), Nat.mul_assoc]

/-- Each group weighs 128 times what the one before it weighs. -/
theorem weigh_take_eq_sum (bs : List UInt8) (k : Nat) :
    weigh (bs.take k) = ∑ i ∈ Finset.range k, (bs.getD i 0).toNat % 128 * 2 ^ (7 * i) := by
  induction bs generalizing k with
  | nil => simp [weigh]
  | cons b bs ih =>
    cases k with
    | zero => simp [weigh]
    | succ k =>
      have shifted (i : Nat) : (bs.getD i 0).toNat % 128 * 2 ^ (7 * (i + 1)) =
          128 * ((bs.getD i 0).toNat % 128 * 2 ^ (7 * i)) := by
        have hpow : 2 ^ (7 * (i + 1)) = 128 * 2 ^ (7 * i) := by
          rw [Nat.mul_add, Nat.pow_add, Nat.mul_comm]
        rw [hpow, Nat.mul_left_comm]
      rw [List.take_succ_cons, weigh, ih, Finset.sum_range_succ', Finset.mul_sum]
      simp only [List.getD_cons_succ, List.getD_cons_zero, shifted, Nat.mul_zero, Nat.pow_zero,
        Nat.mul_one]
      exact Nat.add_comm _ _

namespace IsGroups

variable {bs : List UInt8}

theorem length_pos (h : IsGroups bs) : 0 < bs.length := by
  cases h with
  | last => exact Nat.one_pos
  | more => exact Nat.succ_pos _

/-- The last group decides how much all of them weigh, up to the groups before it. -/
theorem exists_last (h : IsGroups bs) : ∃ b, bs.getLast? = some b ∧
    b.toNat * 128 ^ (bs.length - 1) ≤ weigh bs ∧
    weigh bs < (b.toNat + 1) * 128 ^ (bs.length - 1) := by
  induction h with
  | @last b h =>
    refine ⟨b, rfl, ?_, ?_⟩ <;> simp [weigh_singleton h]
  | @more b bs h others ih =>
    obtain ⟨c, hlast, hle, hlt⟩ := ih
    have hlen := others.length_pos
    obtain ⟨k, hk⟩ : ∃ k, bs.length = k + 1 := ⟨bs.length - 1, by omega⟩
    have hcons : (b :: bs).getLast? = some c := by
      rw [List.getLast?_cons, hlast]
      rfl
    refine ⟨c, hcons, ?_, ?_⟩
    · rw [hk, Nat.add_sub_cancel] at hle
      rw [List.length_cons, hk, Nat.add_sub_cancel, Nat.pow_succ, weigh]
      calc c.toNat * (128 ^ k * 128) = c.toNat * 128 ^ k * 128 := (Nat.mul_assoc ..).symm
        _ ≤ weigh bs * 128 := Nat.mul_le_mul_right 128 hle
        _ ≤ b.toNat % 128 + 128 * weigh bs := by omega
    · rw [hk, Nat.add_sub_cancel] at hlt
      rw [List.length_cons, hk, Nat.add_sub_cancel, Nat.pow_succ, weigh]
      calc b.toNat % 128 + 128 * weigh bs < (weigh bs + 1) * 128 := by omega
        _ ≤ (c.toNat + 1) * 128 ^ k * 128 := Nat.mul_le_mul_right 128 hlt
        _ = (c.toNat + 1) * (128 ^ k * 128) := Nat.mul_assoc ..

/-- Groups weigh less than one more group would. -/
theorem weigh_lt (h : IsGroups bs) : weigh bs < 128 ^ bs.length := by
  induction h with
  | @last b h =>
    rw [weigh_singleton h, List.length_singleton]
    exact h
  | @more b bs h others ih =>
    rw [weigh, List.length_cons, Nat.pow_succ]
    omega

end IsGroups

/-! ### The groups of a number -/

/-- A number of one group more is written in one byte more. -/
theorem length_encode_le {n k : Nat} (h : n < 128 ^ (k + 1)) : (encode n).length ≤ k + 1 := by
  induction k generalizing n with
  | zero =>
    have hn : n < 128 := by simpa using h
    rw [encode_of_lt hn]
    exact Nat.le_refl 1
  | succ k ih =>
    by_cases hn : n < 128
    · rw [encode_of_lt hn, List.length_singleton]
      omega
    · have hd : n / 128 < 128 ^ (k + 1) := by
        rw [Nat.div_lt_iff_lt_mul (by omega)]
        simpa [Nat.pow_succ] using h
      rw [encode_of_ge (by omega), List.length_cons]
      exact Nat.succ_le_succ (ih hd)

/-- What is written are groups, and they make up the number. -/
theorem isGroups_encode (n : Nat) : IsGroups (encode n) ∧ weigh (encode n) = n := by
  induction n using Nat.strongRecOn with
  | ind n ih =>
    by_cases hn : n < 128
    · have hb : (UInt8.ofNat n).toNat = n := by simp; omega
      rw [encode_of_lt hn]
      have small : (UInt8.ofNat n).toNat < 128 := by omega
      exact ⟨.last small, (weigh_singleton small).trans hb⟩
    · have hb : (UInt8.ofNat (n % 128 + 128)).toNat = n % 128 + 128 := by simp; omega
      obtain ⟨groups, made⟩ := ih (n / 128) (by omega)
      rw [encode_of_ge (by omega)]
      refine ⟨.more (by omega) groups, ?_⟩
      simp only [weigh, hb, made]
      omega

/-- Groups are **tight** if no shorter ones make up the same number. -/
def Tight (bs : List UInt8) : Prop := bs.length = 1 ∨ bs.getLast? ≠ some 0

/-- A number is written in tight groups. -/
theorem tight_encode (n : Nat) : Tight (encode n) := by
  induction n using Nat.strongRecOn with
  | ind n ih =>
    by_cases hn : n < 128
    · rw [encode_of_lt hn]
      exact .inl rfl
    · refine .inr ?_
      rw [encode_of_ge (by omega), List.getLast?_cons]
      rcases ih (n / 128) (by omega) with single | nonzero
      -- the only group behind this one has bits, since there is something left
      · have hd : n / 128 < 128 := by
          have hlt := (isGroups_encode (n / 128)).1.weigh_lt
          rwa [(isGroups_encode (n / 128)).2, single, Nat.pow_one] at hlt
        have hb : (UInt8.ofNat (n / 128)).toNat = n / 128 := by simp; omega
        rw [encode_of_lt hd]
        intro zero
        have none_left : n / 128 = 0 := hb.symm.trans (congrArg UInt8.toNat (Option.some.inj zero))
        omega
      · intro zero
        obtain ⟨b, hlast⟩ := Option.ne_none_iff_exists'.1
          (mt List.getLast?_eq_none_iff.1 (encode_ne_nil (n / 128)))
        rw [hlast] at nonzero zero
        exact nonzero zero

/-- Tight groups are what the number they make up is written in. -/
theorem encode_weigh {bs : List UInt8} (groups : IsGroups bs) (tight : Tight bs) :
    encode (weigh bs) = bs := by
  induction groups with
  | @last b h =>
    rw [weigh_singleton h, encode_of_lt h, UInt8.ofNat_toNat]
  | @more b bs h others ih =>
    obtain ⟨c, hlast, hle, -⟩ := others.exists_last
    have hcons : (b :: bs).getLast? = some c := by
      rw [List.getLast?_cons, hlast]
      rfl
    have hlen := others.length_pos
    have hc : c ≠ 0 := by
      rcases tight with single | nonzero
      · rw [List.length_cons] at single
        omega
      · exact fun zero => nonzero (zero ▸ hcons)
    have hpos : 0 < weigh bs := by
      have hc' : 0 < c.toNat := Nat.pos_of_ne_zero fun zero => hc (UInt8.toNat_inj.1 zero)
      have hpow : 0 < 128 ^ (bs.length - 1) := Nat.pow_pos (by decide)
      exact Nat.lt_of_lt_of_le (Nat.mul_pos hc' hpow) hle
    have hrest : encode (weigh bs) = bs := by
      refine ih (.inr ?_)
      rw [hlast]
      exact fun zero => hc (Option.some.inj zero)
    have hb := b.toNat_lt
    have hfirst : (b.toNat % 128 + 128 * weigh bs) % 128 + 128 = b.toNat := by omega
    have hothers : (b.toNat % 128 + 128 * weigh bs) / 128 = weigh bs := by omega
    rw [weigh, encode_of_ge (by omega), hfirst, hothers, hrest, UInt8.ofNat_toNat]

/-! ### The reader -/

/-- Groups that stand in front are read. -/
theorem IsGroups.readGroups_append {front : List UInt8} (h : IsGroups front) {fuel : Nat}
    (hlen : front.length ≤ fuel) (shift : Nat) (rest : List UInt8) :
    readGroups fuel shift (front ++ rest) = some (weigh front * 2 ^ shift, rest) := by
  induction h generalizing fuel shift with
  | @last b h =>
    obtain ⟨fuel, rfl⟩ : ∃ k, fuel = k + 1 := Nat.exists_eq_add_of_le' hlen
    rw [List.singleton_append, readGroups, if_pos h, weigh_singleton h]
  | @more b bs h others ih =>
    obtain ⟨fuel, rfl⟩ := Nat.exists_eq_add_of_le' (Nat.le_of_add_left_le hlen)
    have found := ih (Nat.le_of_succ_le_succ hlen) (shift + 7)
    rw [List.cons_append, readGroups, if_neg (by omega), found, Option.map_some, weigh_cons_shift]

/-- What is read are groups that stand in front. -/
theorem exists_of_readGroups {fuel shift n : Nat} {bs rest : List UInt8}
    (h : readGroups fuel shift bs = some (n, rest)) : ∃ front, bs = front ++ rest ∧
      IsGroups front ∧ front.length ≤ fuel ∧ n = weigh front * 2 ^ shift := by
  induction fuel generalizing shift n bs with
  | zero => cases h
  | succ fuel ih =>
    cases bs with
    | nil => cases h
    | cons b bs =>
      rw [readGroups] at h
      by_cases hb : b.toNat < 128
      · rw [if_pos hb] at h
        obtain ⟨rfl, rfl⟩ := Prod.mk.inj (Option.some.inj h)
        refine ⟨[b], rfl, .last hb, Nat.succ_le_succ (Nat.zero_le fuel), ?_⟩
        rw [weigh_singleton hb]
      · rw [if_neg hb] at h
        obtain ⟨⟨m, rest'⟩, read, pair⟩ := Option.map_eq_some_iff.1 h
        obtain ⟨rfl, rfl⟩ := Prod.mk.inj pair
        obtain ⟨front, rfl, groups, hlen, rfl⟩ := ih read
        refine ⟨b :: front, rfl, .more (Nat.le_of_not_lt hb) groups, Nat.succ_le_succ hlen, ?_⟩
        rw [weigh_cons_shift]

/-- Which groups are read, and as what. -/
theorem readGroups_eq_some_iff {fuel shift n : Nat} {bs rest : List UInt8} :
    readGroups fuel shift bs = some (n, rest) ↔ ∃ front, bs = front ++ rest ∧ IsGroups front ∧
      front.length ≤ fuel ∧ n = weigh front * 2 ^ shift := by
  refine ⟨exists_of_readGroups, ?_⟩
  rintro ⟨front, rfl, groups, hlen, rfl⟩
  exact groups.readGroups_append hlen shift rest

/-- Which bytes are read, and as what: up to ten groups, modulo the size of a word. -/
theorem read_eq_some_iff {v : BitVec 64} {bs rest : List UInt8} :
    read bs = some (v, rest) ↔ ∃ front, bs = front ++ rest ∧ IsGroups front ∧
      front.length ≤ maxGroups ∧ v = BitVec.ofNat 64 (weigh front) := by
  rw [read, Option.map_eq_some_iff]
  constructor
  · rintro ⟨⟨n, rest'⟩, found, pair⟩
    obtain ⟨rfl, rfl⟩ := Prod.mk.inj pair
    obtain ⟨front, split, groups, hlen, rfl⟩ := readGroups_eq_some_iff.1 found
    exact ⟨front, split, groups, hlen, by rw [Nat.pow_zero, Nat.mul_one]⟩
  · rintro ⟨front, split, groups, hlen, rfl⟩
    refine ⟨(weigh front, rest), readGroups_eq_some_iff.2 ⟨front, split, groups, hlen, ?_⟩, rfl⟩
    rw [Nat.pow_zero, Nat.mul_one]

/-- Groups that end at index `k`, which is the first byte without its high bit. -/
theorem isGroups_take {bs : List UInt8} {k : Nat} (hk : k < bs.length)
    (last : bs[k].toNat < 128) (before : ∀ i (hi : i < k), 128 ≤ bs[i].toNat) :
    IsGroups (bs.take (k + 1)) := by
  induction bs generalizing k with
  | nil => cases hk
  | cons b bs ih =>
    cases k with
    | zero => exact .last last
    | succ k =>
      refine .more (before 0 (Nat.succ_pos k)) (ih (Nat.lt_of_succ_lt_succ hk) last fun i hi => ?_)
      exact before (i + 1) (Nat.succ_lt_succ hi)

/-- The last group is the one without its high bit. -/
theorem IsGroups.last_lt {bs : List UInt8} (h : IsGroups bs) (hk : bs.length - 1 < bs.length) :
    bs[bs.length - 1].toNat < 128 := by
  induction h with
  | last h => exact h
  | @more b bs h others ih =>
    have hlen := others.length_pos
    have inner := ih (by omega)
    obtain ⟨k, hk⟩ : ∃ k, bs.length = k + 1 := ⟨bs.length - 1, by omega⟩
    simp only [hk, Nat.add_sub_cancel] at inner
    simpa only [List.length_cons, Nat.add_sub_cancel, hk, List.getElem_cons_succ] using inner

/-- A number is read exactly if one of the first ten bytes ends it. -/
theorem isSome_read_iff {bs : List UInt8} :
    (read bs).isSome ↔ ∃ k < maxGroups, ∃ hk : k < bs.length, bs[k].toNat < 128 := by
  constructor
  · intro found
    obtain ⟨⟨v, rest⟩, found⟩ := Option.isSome_iff_exists.1 found
    obtain ⟨front, rfl, groups, hlen, -⟩ := read_eq_some_iff.1 found
    have hpos := groups.length_pos
    have hk : front.length - 1 < front.length := by omega
    refine ⟨front.length - 1, by omega, by rw [List.length_append]; omega, ?_⟩
    rw [List.getElem_append_left hk]
    exact groups.last_lt hk
  · rintro ⟨k, few, hk, ends⟩
    -- the first one of the bytes that could end a number does
    induction k using Nat.strongRecOn with
    | ind k ih =>
      by_cases earlier : ∃ i, ∃ hi : i < k, bs[i].toNat < 128
      · obtain ⟨i, hi, sooner⟩ := earlier
        exact ih i hi (Nat.lt_trans hi few) (Nat.lt_trans hi hk) sooner
      · have groups := isGroups_take hk ends fun i hi => by
          by_contra sooner
          exact earlier ⟨i, hi, by omega⟩
        have hlen : (bs.take (k + 1)).length ≤ maxGroups := by
          rw [List.length_take]
          omega
        rw [read_eq_some_iff.2 ⟨_, (List.take_append_drop (k + 1) bs).symm, groups, hlen, rfl⟩]
        rfl

/-! ### Over words -/

/-- The writer over words: a buffer of `room` bytes is filled with groups, until nothing is left.
`none` if the buffer ends before. -/
def fill : (room : Nat) → BitVec 64 → Option (List UInt8)
  | 0, _ => none
  | room + 1, v =>
    let group := UInt8.ofNat (v &&& 0x7F).toNat
    let left := v >>> 7
    if left = 0 then some [group] else (fill room left).map ((group ||| 0x80) :: ·)

/-- The reader over words: each group is shifted to its place and added to `found`. `none` if the
bytes end within the number, or a group would be shifted out of the word. -/
def gather : (found : BitVec 64) → (shift : Nat) → List UInt8 → Option (BitVec 64 × List UInt8)
  | _, _, [] => none
  | found, shift, b :: bs =>
    if 64 ≤ shift then none
    else
      let found := found ||| BitVec.ofNat 64 (b &&& 0x7F).toNat <<< shift
      if b &&& 0x80 = 0 then some (found, bs) else gather found (shift + 7) bs

private theorem toNat_and_low (b : UInt8) : (b &&& 0x7F).toNat = b.toNat % 128 := by
  rw [UInt8.toNat_and]
  exact Nat.and_two_pow_sub_one_eq_mod b.toNat 7

private theorem and_high_eq_zero_iff (b : UInt8) : b &&& 0x80 = 0 ↔ b.toNat < 128 := by
  have hb := b.toNat_lt
  have hand : (b &&& 0x80).toNat = b.toNat / 128 % 2 * 128 := by
    rw [UInt8.toNat_and]
    have hbit := Nat.and_two_pow b.toNat 7
    rw [Nat.toNat_testBit] at hbit
    exact hbit
  rw [← UInt8.toNat_inj, hand, UInt8.toNat_zero]
  omega

private theorem or_high {n : Nat} (h : n < 128) :
    UInt8.ofNat n ||| 0x80 = UInt8.ofNat (n + 128) := by
  have hor : 2 ^ 7 * 1 + n = 2 ^ 7 * 1 ||| n := Nat.two_pow_add_eq_or_of_lt h 1
  have hn : (UInt8.ofNat n).toNat = n := by simp; omega
  have hsum : (UInt8.ofNat (n + 128)).toNat = n + 128 := by simp; omega
  rw [← UInt8.toNat_inj, UInt8.toNat_or, hn, hsum, Nat.or_comm]
  exact hor.symm.trans (Nat.add_comm 128 n)

/-- A buffer that has room for all groups of a word is filled with them. -/
theorem fill_eq {room : Nat} {v : BitVec 64} (h : v.toNat < 128 ^ (room + 1)) :
    fill (room + 1) v = some (encode v.toNat) := by
  have hgroup (v : BitVec 64) : (v &&& 0x7F).toNat = v.toNat % 128 := by
    rw [BitVec.toNat_and]
    exact Nat.and_two_pow_sub_one_eq_mod v.toNat 7
  have hleft (v : BitVec 64) : (v >>> 7).toNat = v.toNat / 128 := by
    rw [BitVec.toNat_ushiftRight, Nat.shiftRight_eq_div_pow]
  -- nothing is left exactly where the number is one group
  have hzero (v : BitVec 64) : v >>> 7 = 0 ↔ v.toNat < 128 := by
    rw [← BitVec.toNat_inj, hleft]
    change v.toNat / 128 = 0 ↔ v.toNat < 128
    omega
  induction room generalizing v with
  | zero =>
    have hv : v.toNat < 128 := by simpa using h
    rw [fill, if_pos ((hzero v).2 hv), hgroup, encode_of_lt hv, Nat.mod_eq_of_lt hv]
  | succ room ih =>
    by_cases hv : v.toNat < 128
    · rw [fill, if_pos ((hzero v).2 hv), hgroup, encode_of_lt hv, Nat.mod_eq_of_lt hv]
    · have hd : (v >>> 7).toNat < 128 ^ (room + 1) := by
        rw [hleft, Nat.div_lt_iff_lt_mul (by omega)]
        simpa [Nat.pow_succ] using h
      have hge : 128 ≤ v.toNat := Nat.le_of_not_lt hv
      rw [fill, if_neg (mt (hzero v).1 hv), ih hd, hgroup, hleft, encode_of_ge hge,
        Option.map_some, or_high (Nat.mod_lt _ (by decide))]

/-- A group is added where there are no bits yet; what does not fit into the word is dropped. -/
private theorem toNat_or_shiftLeft {found : BitVec 64} {shift g : Nat} (hs : shift < 64)
    (hg : g < 128) (h : found.toNat < 2 ^ shift) :
    (found ||| BitVec.ofNat 64 g <<< shift).toNat = found.toNat + g * 2 ^ shift % 2 ^ 64 := by
  obtain ⟨k, hk⟩ : ∃ k, 64 = shift + k := ⟨64 - shift, by omega⟩
  have hplaced : g * 2 ^ shift % 2 ^ 64 = 2 ^ shift * (g % 2 ^ k) := by
    rw [hk, Nat.pow_add, Nat.mul_comm g, Nat.mul_mod_mul_left]
  have hword : g < 2 ^ 64 := Nat.lt_trans hg (by decide)
  rw [BitVec.toNat_or, BitVec.toNat_shiftLeft, BitVec.toNat_ofNat, Nat.mod_eq_of_lt hword,
    Nat.shiftLeft_eq, hplaced, Nat.or_comm, ← Nat.two_pow_add_eq_or_of_lt h, Nat.add_comm]

/-- What was found with one more group is less than a further group weighs, and makes up the same
words as the number that the group is added to. -/
private theorem found_with_group {i g : Nat} (hi : i < 10) (hg : g < 128) {found : BitVec 64}
    (h : found.toNat < 2 ^ (7 * i)) :
    (found ||| BitVec.ofNat 64 g <<< (7 * i)).toNat < 2 ^ (7 * (i + 1)) ∧
      ∀ n, BitVec.ofNat 64 ((found ||| BitVec.ofNat 64 g <<< (7 * i)).toNat + n) =
        BitVec.ofNat 64 (found.toNat + (g * 2 ^ (7 * i) + n)) := by
  have hadded := toNat_or_shiftLeft (by omega : 7 * i < 64) hg h
  refine ⟨?_, fun n => ?_⟩
  · have hpow : 2 ^ (7 * (i + 1)) = 128 * 2 ^ (7 * i) := by
      rw [Nat.mul_add, Nat.pow_add, Nat.mul_comm]
    have hmod := Nat.mod_le (g * 2 ^ (7 * i)) (2 ^ 64)
    have hmul := Nat.mul_le_mul_right (2 ^ (7 * i)) (Nat.le_of_lt_succ hg)
    rw [hadded, hpow]
    omega
  · apply BitVec.eq_of_toNat_eq
    rw [BitVec.toNat_ofNat, BitVec.toNat_ofNat, hadded]
    omega

/-- From the group with index `i` on, both readers find the same. -/
private theorem gather_eq {i : Nat} (hi : i ≤ maxGroups) {found : BitVec 64}
    (h : found.toNat < 2 ^ (7 * i)) (bs : List UInt8) :
    gather found (7 * i) bs = (readGroups (maxGroups - i) (7 * i) bs).map fun (n, rest) =>
      (BitVec.ofNat 64 (found.toNat + n), rest) := by
  induction bs generalizing i found with
  | nil =>
    rw [gather]
    cases maxGroups - i <;> rfl
  | cons b bs ih =>
    by_cases hlast : i = maxGroups
    · rw [hlast, gather, if_pos (by decide), Nat.sub_self]
      rfl
    · have hi' : i < 10 := Nat.lt_of_le_of_ne hi hlast
      have hg : b.toNat % 128 < 128 := Nat.mod_lt _ (by decide)
      have hfuel : maxGroups - i = maxGroups - (i + 1) + 1 := by
        rw [maxGroups]
        omega
      obtain ⟨hless, hsame⟩ := found_with_group hi' hg h
      rw [gather, if_neg (by omega), toNat_and_low, hfuel, readGroups]
      by_cases hb : b.toNat < 128
      · rw [if_pos ((and_high_eq_zero_iff b).2 hb), if_pos hb, Option.map_some]
        have hend := hsame 0
        rw [Nat.add_zero, Nat.add_zero, BitVec.ofNat_toNat, BitVec.setWidth_eq,
          Nat.mod_eq_of_lt hb] at hend
        rw [Nat.mod_eq_of_lt hb, hend]
      · have hnext : 7 * i + 7 = 7 * (i + 1) := rfl
        rw [if_neg (mt (and_high_eq_zero_iff b).1 hb), if_neg hb, hnext,
          ih hi' hless, Option.map_map]
        congr 1
        funext pair
        simp only [Function.comp_apply, hsame]

/-- The reader over words finds the same. -/
theorem gather_zero_eq_read (bs : List UInt8) : gather 0 0 bs = read bs := by
  have nothing : (0 : BitVec 64).toNat < 2 ^ (7 * 0) := by decide
  have same := gather_eq (Nat.zero_le maxGroups) nothing bs
  rw [Nat.mul_zero] at same
  rw [same, read]
  congr 1
  funext pair
  simp

/-! ### The one form of a number -/

/-- A number that is read was written in these bytes exactly if no group is there in vain and no bit
of the tenth group is dropped. -/
theorem encode_eq_iff {v : BitVec 64} {front : List UInt8} (groups : IsGroups front)
    (few : front.length ≤ maxGroups) (made : v = BitVec.ofNat 64 (weigh front)) :
    encode v.toNat = front ↔
      Tight front ∧ (front.length = maxGroups → front.getLast? = some 1) := by
  obtain ⟨b, hlast, hle, hlt⟩ := groups.exists_last
  have hv : v.toNat = weigh front % 2 ^ 64 := by rw [made, BitVec.toNat_ofNat]
  constructor
  · intro written
    have tight : Tight front := written ▸ tight_encode v.toNat
    refine ⟨tight, fun full => ?_⟩
    have hweigh : weigh front = v.toNat := by
      rw [← written]
      exact (isGroups_encode v.toNat).2
    have hbits : b.toNat * 128 ^ 9 < 2 ^ 64 := by
      rw [full, hweigh] at hle
      exact Nat.lt_of_le_of_lt hle v.isLt
    have hb : b ≠ 0 := by
      rintro rfl
      rcases tight with single | nonzero
      · rw [single] at full
        cases full
      · exact nonzero hlast
    have hpos : b.toNat ≠ 0 := fun zero => hb (UInt8.toNat_inj.1 zero)
    have hone : b = 1 := UInt8.toNat_inj.1 (by change b.toNat = 1; omega)
    rw [hlast, hone]
  · rintro ⟨tight, tenth⟩
    have fits : weigh front < 2 ^ 64 := by
      by_cases full : front.length = maxGroups
      · rw [tenth full] at hlast
        cases hlast
        rw [full] at hlt
        exact Nat.lt_of_lt_of_le hlt (by decide)
      · have fewer : front.length ≤ 9 := Nat.le_of_lt_succ (Nat.lt_of_le_of_ne few full)
        have hpow := Nat.pow_le_pow_right (by decide : 0 < 128) fewer
        exact Nat.lt_of_lt_of_le groups.weigh_lt (Nat.le_trans hpow (by decide))
    rw [hv, Nat.mod_eq_of_lt fits]
    exact encode_weigh groups tight

/-- No bytes that are read as a number are fewer than those it is written in. -/
theorem length_encode_le_of_read {v : BitVec 64} {front : List UInt8} (groups : IsGroups front)
    (made : v = BitVec.ofNat 64 (weigh front)) :
    (encode v.toNat).length ≤ front.length := by
  have hpos := groups.length_pos
  obtain ⟨k, hk⟩ : ∃ k, front.length = k + 1 := ⟨front.length - 1, by omega⟩
  have hweigh := groups.weigh_lt
  have hv : v.toNat ≤ weigh front := by
    rw [made, BitVec.toNat_ofNat]
    exact Nat.mod_le _ _
  rw [hk] at hweigh ⊢
  exact length_encode_le (Nat.lt_of_le_of_lt hv hweigh)

/-- Which bytes are read, and as what; which bytes a word is written in; and which of the bytes that
are read as a word are the ones it is written in. -/
theorem read_exactly :
    (∀ bs, gather 0 0 bs = read bs ∧
      ((read bs).isSome ↔ ∃ k < 10, ∃ hk : k < bs.length, bs[k].toNat < 128) ∧
      ∀ k (hk : k < bs.length), k < 10 → bs[k].toNat < 128 →
        (∀ i (hi : i < k), 128 ≤ bs[i].toNat) →
        read bs = some (BitVec.ofNat 64
          (∑ i ∈ Finset.range (k + 1), (bs.getD i 0).toNat % 128 * 2 ^ (7 * i)),
          bs.drop (k + 1))) ∧
    (∀ v : BitVec 64, fill 10 v = some (encode v.toNat) ∧
      1 ≤ (encode v.toNat).length ∧ (encode v.toNat).length ≤ 10 ∧
      (∀ rest, read (encode v.toNat ++ rest) = some (v, rest)) ∧
      ∀ bs rest, read bs = some (v, rest) → (encode v.toNat).length ≤ bs.length) ∧
    ∀ (v : BitVec 64) (front rest : List UInt8), read (front ++ rest) = some (v, rest) →
      (encode v.toNat = front ↔
        (front.length = 1 ∨ front.getLast? ≠ some 0) ∧
          (front.length = 10 → front.getLast? = some 1)) := by
  refine ⟨fun bs => ⟨gather_zero_eq_read bs, isSome_read_iff, fun k hk few ends before => ?_⟩,
    fun v => ⟨?_, ?_, ?_, read_encode_append v, fun bs rest found => ?_⟩,
    fun v front rest found => ?_⟩
  · have hlen : (bs.take (k + 1)).length ≤ maxGroups := by
      rw [List.length_take]
      exact Nat.le_trans (Nat.min_le_left _ _) few
    rw [← weigh_take_eq_sum]
    exact read_eq_some_iff.2 ⟨_, (List.take_append_drop (k + 1) bs).symm,
      isGroups_take hk ends before, hlen, rfl⟩
  · exact fill_eq (Nat.lt_trans v.isLt (by decide))
  · exact (isGroups_encode v.toNat).1.length_pos
  · exact length_encode_le (Nat.lt_trans v.isLt (by decide))
  · obtain ⟨front, rfl, groups, -, made⟩ := read_eq_some_iff.1 found
    rw [List.length_append]
    exact Nat.le_trans (length_encode_le_of_read groups made) (Nat.le_add_right _ _)
  · obtain ⟨front', same, groups, few, made⟩ := read_eq_some_iff.1 found
    obtain rfl : front = front' := List.append_cancel_right same
    exact encode_eq_iff groups few made

/-- One is also read from two bytes, but it is not written in them. -/
theorem read_exactly_padded : read [0x81, 0x00] = some (1, []) ∧ encode 1 ≠ [0x81, 0x00] := by
  have found : read ([0x81, 0x00] ++ []) = some (1, []) := by decide +kernel
  refine ⟨found, fun written => ?_⟩
  obtain ⟨single | nonzero, -⟩ := (read_exactly.2.2 1 [0x81, 0x00] [] found).1 written
  · cases single
  · exact nonzero rfl

end BeanStream.Wire.Varint
