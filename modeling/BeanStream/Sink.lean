/-!
# Sinks

A sink is where written bytes end up. It may take the bytes of one call only in part (`chunk`),
may be able to hold only so many bytes in total (`limit`), and answers a write that finds it
**full** either by taking nothing or by a failure of its own. Writing a whole byte string
repeats single calls until everything is taken; a call that takes nothing ends the attempt.

Main facts: an empty write **never reaches the sink** (`writeAll_nil`), and a sink **never
loses** what it holds: it takes all that it is offered, or a first part of it that is not all
(`writeAll_spec`).
-/

namespace BeanStream

/-- Why bytes could not be written. -/
inductive IoError where
  /-- The sink took none of the bytes that were left. -/
  | writeZero
  /-- The sink failed by itself. -/
  | other (message : String)
  deriving DecidableEq

/-- The name of a failure. -/
def IoError.name : IoError → String
  | .writeZero => "WriteZero"
  | .other _ => "Other"

/-- The text of a failure. -/
def IoError.message : IoError → String
  | .writeZero => "failed to write whole buffer"
  | .other message => message

/-- A destination of bytes, with what it holds so far. -/
structure Sink where
  /-- The bytes taken so far. -/
  written : List UInt8 := []
  /-- How many bytes one call takes at most. -/
  chunk : Option Nat := none
  /-- How many bytes the sink takes in total. -/
  limit : Option Nat := none
  /-- What a full sink answers; without it, it takes nothing. -/
  whenFull : Option IoError := none
  /-- What a flush answers; without it, it succeeds. -/
  onFlush : Option IoError := none

namespace Sink

/-- How many more bytes fit, `none` for any number. -/
def room (s : Sink) : Option Nat := s.limit.map (· - s.written.length)

/-- How many bytes of `bs` one call takes while there is room. -/
def share (s : Sink) (bs : List UInt8) : Nat :=
  let n := (s.chunk.map (min bs.length)).getD bs.length
  (s.room.map (min n)).getD n

private theorem limited_le (limit : Option Nat) (n : Nat) :
    (limit.map (min n)).getD n ≤ n := by
  cases limit with
  | none => exact Nat.le_refl n
  | some m => exact Nat.min_le_left n m

/-- The share of a call never exceeds what was offered. -/
theorem share_le (s : Sink) (bs : List UInt8) : s.share bs ≤ bs.length :=
  Nat.le_trans (limited_le s.room _) (limited_le s.chunk _)

/-- The sink after it took the first `n` bytes of `bs`. -/
def take (s : Sink) (n : Nat) (bs : List UInt8) : Sink :=
  { s with written := s.written ++ bs.take n }

/-- The bytes of `bs`, taken call by call. The count of calls is bounded by the count of
bytes, since a call that takes nothing ends the attempt. -/
def writeAll (s : Sink) (bs : List UInt8) : Except IoError Unit × Sink :=
  if bs = [] then (.ok (), s)
  else
    match s.room, s.whenFull with
    | some 0, some failure => (.error failure, s)
    | _, _ =>
      if s.share bs = 0 then (.error .writeZero, s)
      else writeAll (s.take (s.share bs) bs) (bs.drop (s.share bs))
termination_by bs.length
decreasing_by
  have := s.share_le bs
  simp
  omega

/-- Passes on everything the sink buffers. -/
def flush (s : Sink) : Except IoError Unit :=
  match s.onFlush with
  | none => .ok ()
  | some failure => .error failure

/-- An empty write never reaches the sink. -/
@[simp] theorem writeAll_nil (s : Sink) : s.writeAll [] = (.ok (), s) := by
  rw [writeAll]
  simp

/-- A sink takes all that it is offered, or answers that it did not. -/
theorem writeAll_spec (s : Sink) (bs : List UInt8) :
    match s.writeAll bs with
    | (.ok _, s') => s'.written = s.written ++ bs
    | (.error _, s') => ∃ n < bs.length, s'.written = s.written ++ bs.take n := by
  have some_left {bs : List UInt8} (h : bs ≠ []) : 0 < bs.length := List.length_pos_iff.2 h
  -- over the shares that the sink takes, one after the other
  fun_induction writeAll s bs with
  | case1 s => simp
  | case2 s bs h failure => exact ⟨0, some_left h, by simp⟩
  | case3 s bs h _ _ => exact ⟨0, some_left h, by simp⟩
  | case4 s bs h _ _ ih =>
    have front : (s.take (s.share bs) bs).written = s.written ++ bs.take (s.share bs) := rfl
    rcases hw : (s.take (s.share bs) bs).writeAll (bs.drop (s.share bs)) with ⟨failure | ⟨⟩, s'⟩
    · simp only [hw] at ih ⊢
      obtain ⟨n, hn, hs⟩ := ih
      rw [List.length_drop] at hn
      refine ⟨s.share bs + n, by omega, ?_⟩
      rw [hs, front, List.append_assoc, List.take_add]
    · simp only [hw] at ih ⊢
      rw [ih, front, List.append_assoc, List.take_append_drop]

end Sink

end BeanStream
