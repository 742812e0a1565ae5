import BeanStream.Proofs.Wire.Output

/-!
# Pieces and the room for them

What a sink makes of a row of pieces depends on nothing but the **room** it has: if all of them
fit, they are written (`Encoder.writePieces_of_fits`); else the sink is filled up with the front of
what it was offered, and fails (`Encoder.writePieces_of_full`). In how many calls the sink takes
the bytes makes no difference.

A computation on an output **writes** a row of pieces if it does nothing else than that, and then
ends in one and the same way whenever all of them were written (`Encoder.Writes`).
-/

namespace BeanStream

namespace Sink

/-- Why a sink without room does not take more. -/
def fullError (s : Sink) : IoError := s.whenFull.getD .writeZero

/-- The sink after it took all of `bs`. -/
def extend (s : Sink) (bs : List UInt8) : Sink := { s with written := s.written ++ bs }

/-- There is room for `n` bytes. -/
def Fits (s : Sink) (n : Nat) : Prop := ∀ room, s.room = some room → n ≤ room

@[simp] theorem room_extend (s : Sink) (bs : List UInt8) :
    (s.extend bs).room = s.room.map (· - bs.length) := by
  unfold room extend
  cases s.limit with
  | none => rfl
  | some limit =>
    have h : limit - (s.written.length + bs.length) = limit - s.written.length - bs.length := by
      omega
    simpa using h

@[simp] theorem extend_nil (s : Sink) : s.extend [] = s := by
  simp [extend]

theorem extend_extend (s : Sink) (bs cs : List UInt8) :
    (s.extend bs).extend cs = s.extend (bs ++ cs) := by
  simp [extend, List.append_assoc]

/-- There is room for that many bytes, or for less. -/
theorem fits_or_less (s : Sink) (n : Nat) : s.Fits n ∨ ∃ room, s.room = some room ∧ room < n := by
  unfold Fits
  cases s.room with
  | none => exact .inl nofun
  | some room =>
    by_cases hle : n ≤ room
    · exact .inl fun _ h => Option.some.inj h ▸ hle
    · exact .inr ⟨room, rfl, by omega⟩

/-- With a part of the bytes taken, there is room for the others. -/
theorem fits_extend_iff {s : Sink} {bs : List UInt8} {n : Nat} (h : s.Fits bs.length) :
    (s.extend bs).Fits n ↔ s.Fits (bs.length + n) := by
  unfold Fits at h ⊢
  rw [room_extend]
  cases hroom : s.room with
  | none => simp
  | some room =>
    have hle := h room hroom
    simp only [Option.map_some, Option.some.injEq, forall_eq']
    omega

/-- A call takes no more than there is room for. -/
theorem fits_share (s : Sink) (bs : List UInt8) : s.Fits (s.share bs) := by
  intro room hroom
  simp only [share, hroom, Option.map_some, Option.getD_some]
  exact Nat.min_le_right _ _

/-- What fits is written. -/
theorem writeAll_of_fits {s : Sink} {bs : List UInt8} (chunk : s.chunk ≠ some 0)
    (fits : s.Fits bs.length) : s.writeAll bs = (.ok (), s.extend bs) := by
  -- call by call: what is left fits into the room that is left
  fun_induction writeAll s bs with
  | case1 s => rw [extend_nil]
  | case2 s bs offered failure hfull hroom =>
    have hle := fits 0 hroom
    exact absurd (List.length_eq_zero_iff.1 (by omega)) offered
  | case3 s bs offered none_taken hfull =>
    have hroom : s.room ≠ some 0 := by
      intro h0
      have hle := fits 0 h0
      exact offered (List.length_eq_zero_iff.1 (by omega))
    exact absurd none_taken (Nat.ne_of_gt (share_pos chunk offered hroom))
  | case4 s bs offered taken hfull ih =>
    have hshare := s.share_le bs
    have htake : s.take (s.share bs) bs = s.extend (bs.take (s.share bs)) := rfl
    have hlen : (bs.take (s.share bs)).length = s.share bs := by
      rw [List.length_take]
      omega
    have hfits : (s.take (s.share bs) bs).Fits (bs.drop (s.share bs)).length := by
      have hfront : s.Fits (bs.take (s.share bs)).length := by
        rw [hlen]
        exact s.fits_share bs
      rw [htake, fits_extend_iff hfront, hlen, List.length_drop]
      have hsum : s.share bs + (bs.length - s.share bs) = bs.length := by omega
      rw [hsum]
      exact fits
    rw [ih chunk hfits, htake, extend_extend, List.take_append_drop]

/-- A sink that has less room than that is filled up. -/
theorem writeAll_of_full {s : Sink} {bs : List UInt8} {n : Nat} (chunk : s.chunk ≠ some 0)
    (room : s.room = some n) (less : n < bs.length) :
    s.writeAll bs = (.error s.fullError, s.extend (bs.take n)) := by
  fun_induction writeAll s bs generalizing n with
  | case1 s => simp at less
  | case2 s bs offered failure hfull hroom =>
    have hn : n = 0 := by simpa [room] using hroom
    rw [hn, List.take_zero, extend_nil, fullError, hfull]
    rfl
  | case3 s bs offered none_taken hfull =>
    have hn : n = 0 := by
      refine Nat.eq_zero_of_not_pos fun hn => ?_
      have hroom : s.room ≠ some 0 := by
        rw [room]
        simpa using Nat.ne_of_gt hn
      exact Nat.ne_of_gt (share_pos chunk offered hroom) none_taken
    subst hn
    have hnone : s.whenFull = none := by
      cases hw : s.whenFull with
      | none => rfl
      | some failure => exact (hfull failure room hw).elim
    rw [List.take_zero, extend_nil, fullError, hnone]
    rfl
  | case4 s bs offered taken hfull ih =>
    have hshare := s.share_le bs
    have hfits := s.fits_share bs n room
    have htake : s.take (s.share bs) bs = s.extend (bs.take (s.share bs)) := rfl
    have hlen : (bs.take (s.share bs)).length = s.share bs := by
      rw [List.length_take]
      omega
    have hroom : (s.take (s.share bs) bs).room = some (n - s.share bs) := by
      rw [htake, room_extend, room, hlen]
      rfl
    have hless : n - s.share bs < (bs.drop (s.share bs)).length := by
      rw [List.length_drop]
      omega
    have hfront : bs.take (s.share bs) ++ (bs.drop (s.share bs)).take (n - s.share bs)
        = bs.take n := by
      rw [← List.take_add]
      congr 1
      omega
    rw [ih chunk hroom hless, htake, extend_extend, hfront]
    rfl

/-- What may become of an attempt to write `bs` in calls each of which takes as much as it likes,
but something, as long as there is room. A sink without room fails. -/
inductive Takes : Sink → List UInt8 → Except IoError Unit × Sink → Prop
  | nothing (s) : Takes s [] (.ok (), s)
  | call {s bs n r} (something : 0 < n) (offered : n ≤ bs.length) (room : s.Fits n)
      (others : Takes (s.take n bs) (bs.drop n) r) : Takes s bs r
  | full {s bs} (offered : bs ≠ []) (room : s.room = some 0) : Takes s bs (.error s.fullError, s)

/-- In how many calls a sink takes the bytes makes no difference. -/
theorem writeAll_of_takes {s : Sink} {bs : List UInt8} {r : Except IoError Unit × Sink}
    (chunk : s.chunk ≠ some 0) (h : s.Takes bs r) : s.writeAll bs = r := by
  induction h with
  | nothing s => exact writeAll_nil s
  | @call s bs n r something offered hroom _ ih =>
    rw [← ih chunk]
    have htake : s.take n bs = s.extend (bs.take n) := rfl
    have hlen : (bs.take n).length = n := by
      rw [List.length_take]
      omega
    have hfront : s.Fits (bs.take n).length := hlen.symm ▸ hroom
    have hsum : n + (bs.drop n).length = bs.length := by
      rw [List.length_drop]
      omega
    rcases s.fits_or_less bs.length with hfits | ⟨k, hk, hless⟩
    · have hothers : (s.extend (bs.take n)).Fits (bs.drop n).length := by
        rw [fits_extend_iff hfront, hlen, hsum]
        exact hfits
      have hwritten : (s.extend (bs.take n)).writeAll (bs.drop n) = _ :=
        writeAll_of_fits chunk hothers
      rw [htake, writeAll_of_fits chunk hfits, hwritten, extend_extend, List.take_append_drop]
    · have hnk : n ≤ k := hroom k hk
      have hleft : (s.extend (bs.take n)).room = some (k - n) := by
        rw [room_extend, hk, hlen]
        rfl
      have hfull : (s.extend (bs.take n)).writeAll (bs.drop n) = _ :=
        writeAll_of_full chunk hleft (by omega)
      have hsame : bs.take n ++ (bs.drop n).take (k - n) = bs.take k := by
        rw [← List.take_add]
        congr 1
        omega
      rw [htake, writeAll_of_full chunk hk hless, hfull, extend_extend, hsame]
      rfl
  | @full s bs offered hroom =>
    have hpos : 0 < bs.length := List.length_pos_iff.2 offered
    rw [writeAll_of_full chunk hroom hpos, List.take_zero, extend_nil]

end Sink

namespace Wire.Encoder

/-- Pieces that fit are written. -/
theorem writePieces_of_fits {e : Encoder} {pieces : List (List UInt8)}
    (chunk : e.sink.chunk ≠ some 0) (fits : e.sink.Fits pieces.flatten.length) :
    ∃ position, writePieces pieces e =
      .ok () { sink := e.sink.extend pieces.flatten, position } := by
  induction pieces generalizing e with
  | nil =>
    refine ⟨e.position, ?_⟩
    rw [writePieces_nil, List.flatten_nil, Sink.extend_nil]
  | cons bs pieces ih =>
    rw [List.flatten_cons, List.length_append] at fits
    have hfirst : e.sink.Fits bs.length := fun room hroom => by
      have hle := fits room hroom
      omega
    have hothers : (e.sink.extend bs).Fits pieces.flatten.length :=
      (Sink.fits_extend_iff hfirst).2 fits
    obtain ⟨position, hwritten⟩ := ih
      (e := { sink := e.sink.extend bs, position := e.position + bs.length }) chunk hothers
    refine ⟨position, ?_⟩
    rw [writePieces_cons, writeRaw_eq, writePiece, Sink.writeAll_of_fits chunk hfirst,
      List.flatten_cons, ← Sink.extend_extend]
    exact hwritten

/-- Where the pieces do not fit, the front of them fills the sink up. -/
theorem writePieces_of_full {e : Encoder} {pieces : List (List UInt8)} {n : Nat}
    (chunk : e.sink.chunk ≠ some 0) (room : e.sink.room = some n)
    (less : n < pieces.flatten.length) :
    ∃ position, writePieces pieces e =
      .error e.sink.fullError { sink := e.sink.extend (pieces.flatten.take n), position } := by
  induction pieces generalizing e n with
  | nil => simp at less
  | cons bs pieces ih =>
    rw [List.flatten_cons, List.length_append] at less
    by_cases hfits : bs.length ≤ n
    -- the first piece is written, and the others find less room
    · have hfirst : e.sink.Fits bs.length := fun room' hroom' => by
        rw [room] at hroom'
        cases hroom'
        exact hfits
      have hroom : (e.sink.extend bs).room = some (n - bs.length) := by
        rw [Sink.room_extend, room]
        rfl
      obtain ⟨position, hfull⟩ := ih
        (e := { sink := e.sink.extend bs, position := e.position + bs.length })
        (n := n - bs.length) chunk hroom (by omega)
      refine ⟨position, ?_⟩
      have hfront : (bs ++ pieces.flatten).take n = bs ++ pieces.flatten.take (n - bs.length) := by
        rw [List.take_append, List.take_of_length_le hfits]
      rw [writePieces_cons, writeRaw_eq, writePiece, Sink.writeAll_of_fits chunk hfirst,
        List.flatten_cons, hfront, ← Sink.extend_extend]
      exact hfull
    · have hfront : (bs ++ pieces.flatten).take n = bs.take n := by
        rw [List.take_append_of_le_length (by omega)]
      refine ⟨e.position, ?_⟩
      rw [writePieces_cons, writeRaw_eq, writePiece, Sink.writeAll_of_full chunk room (by omega),
        List.flatten_cons, hfront]

section Writes

variable {ω ε : Type} [Output ω]

/-- A computation on an output that writes these pieces, and ends in this way after that. -/
def Writes (ofIo : IoError → ε) (x : EStateM ε ω Unit)
    (pieces : List (List UInt8)) (ending : Except ε Unit) : Prop :=
  ∀ e, x e =
    match writePieces pieces e with
    | .error source e' => .error (ofIo source) e'
    | .ok _ e' =>
      match ending with
      | .ok _ => .ok () e'
      | .error reason => .error reason e'

namespace Writes

variable {ofIo : IoError → ε} {x y : EStateM ε ω Unit}
  {pieces more : List (List UInt8)} {ending : Except ε Unit} {reason : ε}

theorem pure : Writes ofIo (Pure.pure () : EStateM ε ω Unit) [] (.ok ()) := fun _ => rfl

theorem throw : Writes ofIo (MonadExcept.throw reason : EStateM ε ω Unit) [] (.error reason) :=
  fun _ => rfl

/-- What comes second is written behind what comes first. -/
theorem bind (first : Writes ofIo x pieces (.ok ())) (second : Writes ofIo y more ending) :
    Writes ofIo (x >>= fun _ => y) (pieces ++ more) ending := by
  intro e
  change EStateM.bind _ _ e = _
  rw [EStateM.bind, first e, writePieces_append]
  rcases writePieces pieces e with ⟨⟨⟩, e₁⟩ | ⟨source, e₁⟩
  · exact second e₁
  · rfl

/-- What fails in the first place does not come to a second one. -/
theorem bind_error (first : Writes ofIo x pieces (.error reason)) :
    Writes ofIo (x >>= fun _ => y) pieces (.error reason) := by
  intro e
  change EStateM.bind _ _ e = _
  rw [EStateM.bind, first e]
  rcases writePieces pieces e with ⟨⟨⟩, e₁⟩ | ⟨source, e₁⟩ <;> rfl

end Writes

/-- An item is written as its pieces. -/
theorem writes_write (p : Primitive) : Writes (ω := ω) id (write p) p.pieces (.ok ()) := by
  intro o
  change writePieces p.pieces o = _
  rcases writePieces p.pieces o with ⟨⟨⟩, o₁⟩ | ⟨source, o₁⟩ <;> rfl

end Writes

end Wire.Encoder

end BeanStream
