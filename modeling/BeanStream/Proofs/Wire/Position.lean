import BeanStream.Proofs.Result
import BeanStream.Proofs.Wire.Pieces

/-!
# The position of an encoder

An encoder may be used on after a write through it failed. A `Ledger` is an encoder with an account
of every attempt to write a piece: what was offered, how much of it was taken, and whether the
attempt succeeded.

Main fact: the position is the total length of **the pieces that were written completely**. While
all were, that is what the sink holds; from the first one on that was not, nothing reaches the sink
any more, and the position stays behind the limit of the sink by what was taken of that piece. The
sink holds **the front of all that was to be written**, wherever it was cut
(`Ledger.position_accounted`).
-/

namespace BeanStream.Wire

/-- An attempt to write a piece. -/
structure RawWrite where
  offered : List UInt8
  /-- How many bytes of it reached the sink. -/
  taken : Nat
  completed : Bool

/-- An attempt of which nothing reached the sink. Only where nothing was offered, it succeeded. -/
def RawWrite.Idle (r : RawWrite) : Prop := r.taken = 0 ∧ (r.completed = true → r.offered = [])

/-- An encoder, with the attempts to write a piece through it, in order. -/
structure Ledger where
  encoder : Encoder
  raws : List RawWrite := []

namespace Ledger

/-- Writes one piece (`Encoder.writePiece`), and enters the attempt. -/
def writePiece (bs : List UInt8) : EStateM IoError Ledger Unit := fun l =>
  let entered (e : Encoder) (completed : Bool) : Ledger :=
    { encoder := e
      raws := l.raws ++ [⟨bs, e.written.length - l.encoder.written.length, completed⟩] }
  match Encoder.writePiece bs l.encoder with
  | .ok _ e => .ok () (entered e true)
  | .error failure e => .error failure (entered e false)

/-- The encoder is left as it is without the account. -/
theorem encoder_writePiece (bs : List UInt8) (l : Ledger) :
    match writePiece bs l with
    | .ok _ l' => Encoder.writePiece bs l.encoder = .ok () l'.encoder
    | .error failure l' => Encoder.writePiece bs l.encoder = .error failure l'.encoder := by
  rw [writePiece]
  rcases Encoder.writePiece bs l.encoder with ⟨⟨⟩, e⟩ | ⟨failure, e⟩ <;> rfl

/-- An encoder with an account is an output like the encoder. -/
instance : Output Ledger where
  writeRaw := writePiece
  written l := l.encoder.written
  written_ok {bs l l'} h := by
    have entered := encoder_writePiece bs l
    rw [h] at entered
    exact Output.written_ok (ω := Encoder) entered
  written_error {bs l l' failure} h := by
    have entered := encoder_writePiece bs l
    rw [h] at entered
    exact Output.written_error (ω := Encoder) entered

theorem writeRaw_eq (bs : List UInt8) (l : Ledger) : Output.writeRaw bs l = writePiece bs l := rfl

/-- Writes an item (`Encoder.write`). -/
def write (p : Primitive) : EStateM IoError Ledger Unit := Encoder.write p

/-- Writes items, each of them whatever became of those before. -/
def writeEach (ps : List Primitive) (l : Ledger) : Ledger :=
  ps.foldl (fun l p => aftermath (write p l)) l

/-- The total length of the pieces that were written completely. -/
def completed (l : Ledger) : Nat := ((l.raws.filter (·.completed)).flatMap (·.offered)).length

theorem writeEach_cons (p : Primitive) (ps : List Primitive) (l : Ledger) :
    l.writeEach (p :: ps) = (aftermath (write p l)).writeEach ps := rfl

/-! ### The account changes nothing -/

theorem encoder_write (p : Primitive) (l : Ledger) :
    (aftermath (write p l)).encoder = aftermath (Encoder.write p l.encoder) := by
  change (aftermath (Encoder.writePieces p.pieces l)).encoder =
    aftermath (Encoder.writePieces p.pieces l.encoder)
  induction p.pieces generalizing l with
  | nil => rfl
  | cons bs pieces ih =>
    have first := encoder_writePiece bs l
    rw [Encoder.writePieces_cons, Encoder.writePieces_cons, writeRaw_eq, Encoder.writeRaw_eq]
    rcases h : writePiece bs l with ⟨⟨⟩, l₁⟩ | ⟨failure, l₁⟩
    · rw [h] at first
      simp only [first]
      exact ih l₁
    · rw [h] at first
      simp only [first]
      rfl

theorem encoder_writeEach (ps : List Primitive) (l : Ledger) :
    (l.writeEach ps).encoder =
      ps.foldl (fun e p => aftermath (Encoder.write p e)) l.encoder := by
  induction ps generalizing l with
  | nil => rfl
  | cons p ps ih => rw [writeEach_cons, ih, encoder_write, List.foldl_cons]

/-! ### What an attempt does to every ledger -/

/-- What every attempt at a piece keeps, any row of items keeps. -/
theorem writeEach_induction {P : Ledger → Prop}
    (step : ∀ bs l, P l → P (aftermath (writePiece bs l))) (ps : List Primitive) {l : Ledger}
    (h : P l) : P (l.writeEach ps) := by
  have item (pieces : List (List UInt8)) (l : Ledger) (h : P l) :
      P (aftermath (Encoder.writePieces pieces l)) := by
    induction pieces generalizing l with
    | nil => exact h
    | cons bs pieces ih =>
      have first := step bs l h
      rw [Encoder.writePieces_cons, writeRaw_eq]
      rcases hp : writePiece bs l with ⟨⟨⟩, l₁⟩ | ⟨failure, l₁⟩ <;> rw [hp] at first
      · exact ih l₁ first
      · exact first
  induction ps generalizing l with
  | nil => exact h
  | cons p ps ih => exact ih (item p.pieces l h)

/-- The position is what was completed, whatever the sink does. -/
theorem position_writeEach (ps : List Primitive) {l : Ledger}
    (h : l.encoder.position = l.completed) :
    (l.writeEach ps).encoder.position = (l.writeEach ps).completed := by
  refine writeEach_induction (P := fun l => l.encoder.position = l.completed)
    (fun bs l h => ?_) ps h
  rw [writePiece, Encoder.writePiece]
  rcases l.encoder.sink.writeAll bs with ⟨failure | ⟨⟩, sink⟩
  · simpa [aftermath, completed] using h
  · simpa [aftermath, completed] using h

/-! ### Over a sink with a limit -/

/-- All that was offered has been written. -/
structure Clean (n : Nat) (l : Ledger) (offered : List UInt8) : Prop where
  chunk : l.encoder.sink.chunk ≠ some 0
  limit : l.encoder.sink.limit = some n
  completed : ∀ r ∈ l.raws, r.completed = true
  position : l.encoder.position = l.encoder.written.length
  written : l.encoder.written = offered
  held : offered.length ≤ n

/-- A piece was cut where the sink reached its limit. -/
structure Cut (n : Nat) (l : Ledger) : Prop where
  chunk : l.encoder.sink.chunk ≠ some 0
  limit : l.encoder.sink.limit = some n
  full : l.encoder.written.length = n
  first : ∃ before failed after, l.raws = before ++ failed :: after ∧
    (∀ r ∈ before, r.completed = true) ∧ failed.completed = false ∧
    failed.taken < failed.offered.length ∧ l.encoder.position + failed.taken = n ∧
    ∀ r ∈ after, r.Idle

/-- Since `l` was the ledger, nothing has come through. -/
structure Stuck (l l' : Ledger) : Prop where
  encoder : l'.encoder = l.encoder
  raws : ∃ more, l'.raws = l.raws ++ more ∧ ∀ r ∈ more, r.Idle

theorem Stuck.refl (l : Ledger) : l.Stuck l := ⟨rfl, [], (List.append_nil _).symm, nofun⟩

theorem Stuck.trans {l l' l'' : Ledger} (h : l.Stuck l') (h' : l'.Stuck l'') : l.Stuck l'' := by
  obtain ⟨more, hmore, idle⟩ := h.raws
  obtain ⟨more', hmore', idle'⟩ := h'.raws
  refine ⟨h'.encoder.trans h.encoder, more ++ more', ?_, fun r hr => ?_⟩
  · rw [hmore', hmore, List.append_assoc]
  · exact (List.mem_append.1 hr).elim (idle r) (idle' r)

/-- A cut stays where it is. -/
theorem Cut.stuck {n : Nat} {l l' : Ledger} (h : l.Cut n) (stuck : l.Stuck l') : l'.Cut n := by
  obtain ⟨before, failed, after, hraws, done, notDone, less, position, idle⟩ := h.first
  obtain ⟨more, hmore, idle'⟩ := stuck.raws
  refine ⟨stuck.encoder ▸ h.chunk, stuck.encoder ▸ h.limit, stuck.encoder ▸ h.full, before, failed,
    after ++ more, ?_, done, notDone, less, stuck.encoder ▸ position, fun r hr => ?_⟩
  · rw [hmore, hraws, List.append_assoc, List.cons_append]
  · exact (List.mem_append.1 hr).elim (idle r) (idle' r)

section Limited

variable {n : Nat} {l : Ledger} {bs offered : List UInt8}

/-- Behind a cut, no piece comes through. -/
theorem Cut.writePiece (h : l.Cut n) (bs : List UInt8) :
    l.Stuck (aftermath (writePiece bs l)) := by
  by_cases hbs : bs = []
  · rw [hbs, Ledger.writePiece, Encoder.writePiece_nil]
    exact ⟨rfl, _, rfl, fun r hr => by simp_all [RawWrite.Idle]⟩
  · have hroom : l.encoder.sink.room = some 0 := by
      have hfull : l.encoder.sink.written.length = n := h.full
      rw [Sink.room, h.limit, hfull, Option.map_some, Nat.sub_self]
    have hless : 0 < bs.length := List.length_pos_iff.2 hbs
    have hall := Sink.writeAll_of_full h.chunk hroom hless
    rw [List.take_zero, Sink.extend_nil] at hall
    rw [Ledger.writePiece, Encoder.writePiece, hall]
    exact ⟨rfl, _, rfl, fun r hr => by simp_all [RawWrite.Idle]⟩

/-- Neither does any row of items. -/
theorem Cut.writeEach (h : l.Cut n) (ps : List Primitive) : l.Stuck (l.writeEach ps) := by
  refine writeEach_induction (P := fun l' => l.Stuck l') (fun bs l' stuck => ?_) ps (.refl l)
  exact stuck.trans ((h.stuck stuck).writePiece bs)

/-- What the sink has room for before the limit. -/
theorem Clean.room (h : l.Clean n offered) :
    l.encoder.sink.room = some (n - offered.length) := by
  have hwritten : l.encoder.sink.written = offered := h.written
  rw [Sink.room, h.limit, hwritten]
  rfl

/-- A piece that there is room for is written. -/
theorem Clean.writePiece_of_fits (h : l.Clean n offered) {bs : List UInt8}
    (hfits : bs.length ≤ n - offered.length) :
    ∃ l', writePiece bs l = .ok () l' ∧ l'.Clean n (offered ++ bs) := by
  have hheld := h.held
  have fits : l.encoder.sink.Fits bs.length := fun room hr => by
    rw [h.room] at hr
    exact Option.some.inj hr ▸ hfits
  have hall : (l.encoder.sink.extend bs).written = offered ++ bs :=
    congrArg (· ++ bs) h.written
  rw [Ledger.writePiece, Encoder.writePiece, Sink.writeAll_of_fits h.chunk fits]
  refine ⟨_, rfl, h.chunk, h.limit, fun r hr => ?_, ?_, hall, ?_⟩
  · rcases List.mem_append.1 hr with hr | hr
    · exact h.completed r hr
    · rw [List.mem_singleton.1 hr]
  · change l.encoder.position + bs.length = (l.encoder.sink.extend bs).written.length
    rw [h.position, hall, h.written, List.length_append]
  · rw [List.length_append]
    omega

/-- A piece that there is no room for is cut at the limit. -/
theorem Clean.writePiece_of_full (h : l.Clean n offered) {bs : List UInt8}
    (full : n - offered.length < bs.length) :
    ∃ failure l', writePiece bs l = .error failure l' ∧ l'.Cut n ∧
      l'.encoder.written = (offered ++ bs).take n ∧ n < (offered ++ bs).length := by
  have hheld := h.held
  have hwritten : l.encoder.sink.written = offered := h.written
  have hall : (l.encoder.sink.extend (bs.take (n - offered.length))).written =
      (offered ++ bs).take n := by
    rw [Sink.extend, hwritten, List.take_append, List.take_of_length_le hheld]
  have hlen : ((offered ++ bs).take n).length = n := by
    rw [List.length_take, List.length_append]
    omega
  rw [Ledger.writePiece, Encoder.writePiece, Sink.writeAll_of_full h.chunk h.room full]
  refine ⟨_, _, rfl, ⟨h.chunk, h.limit, (congrArg List.length hall).trans hlen, l.raws, _, [], rfl,
    h.completed, rfl, ?_, ?_, List.forall_mem_nil _⟩, hall, ?_⟩
  -- of the piece that is cut, the sink took what it had room for
  · change (l.encoder.sink.extend _).written.length - l.encoder.written.length < bs.length
    rw [hall, hlen, h.written]
    omega
  · change l.encoder.position +
      ((l.encoder.sink.extend _).written.length - l.encoder.written.length) = n
    rw [hall, hlen, h.position, h.written]
    omega
  · rw [List.length_append]
    omega

/-- A piece is written, or cut at the limit of the sink. -/
theorem Clean.writePiece (h : l.Clean n offered) (bs : List UInt8) :
    (∃ l', writePiece bs l = .ok () l' ∧ l'.Clean n (offered ++ bs)) ∨
      ∃ failure l', writePiece bs l = .error failure l' ∧ l'.Cut n ∧
        l'.encoder.written = (offered ++ bs).take n ∧ n < (offered ++ bs).length := by
  by_cases hfits : bs.length ≤ n - offered.length
  · exact .inl (h.writePiece_of_fits hfits)
  · exact .inr (h.writePiece_of_full (Nat.lt_of_not_le hfits))

/-- An item is written, or cut at the limit of the sink. -/
theorem Clean.write (h : l.Clean n offered) (p : Primitive) :
    (aftermath (write p l)).Clean n (offered ++ p.encoding) ∨
      (aftermath (write p l)).Cut n ∧
        (aftermath (write p l)).encoder.written = (offered ++ p.encoding).take n ∧
        n < (offered ++ p.encoding).length := by
  change (aftermath (Encoder.writePieces p.pieces l)).Clean _ (_ ++ p.pieces.flatten) ∨
    (aftermath (Encoder.writePieces p.pieces l)).Cut n ∧
      (aftermath (Encoder.writePieces p.pieces l)).encoder.written =
        (offered ++ p.pieces.flatten).take n ∧ n < (offered ++ p.pieces.flatten).length
  induction p.pieces generalizing l offered with
  | nil =>
    rw [List.flatten_nil, List.append_nil]
    exact .inl h
  | cons bs pieces ih =>
    rw [Encoder.writePieces_cons, writeRaw_eq, List.flatten_cons, ← List.append_assoc]
    rcases h.writePiece bs with ⟨l₁, run, clean⟩ | ⟨failure, l₁, run, cut, written, more⟩
    · rw [run]
      exact ih clean
    -- the pieces behind the one that is cut are not attempted
    · rw [run]
      refine .inr ⟨cut, ?_, ?_⟩
      · rw [List.take_append_of_le_length (Nat.le_of_lt more)]
        exact written
      · rw [List.length_append]
        omega

/-- Items are written, or one of them is cut at the limit of the sink. -/
theorem Clean.writeEach (h : l.Clean n offered) (ps : List Primitive) :
    (l.writeEach ps).Clean n (offered ++ ps.flatMap Primitive.encoding) ∨
      (l.writeEach ps).Cut n ∧
        (l.writeEach ps).encoder.written =
          (offered ++ ps.flatMap Primitive.encoding).take n := by
  induction ps generalizing l offered with
  | nil =>
    rw [List.flatMap_nil, List.append_nil]
    exact .inl h
  | cons p ps ih =>
    rw [writeEach_cons, List.flatMap_cons, ← List.append_assoc]
    rcases h.write p with clean | ⟨cut, written, more⟩
    · exact ih clean
    · have stuck := cut.writeEach ps
      refine .inr ⟨cut.stuck stuck, ?_⟩
      rw [stuck.encoder, written, List.take_append_of_le_length (Nat.le_of_lt more)]

end Limited

/-- Writes through an encoder over a sink that takes up to `n` bytes, and some of them in each call
before that. The position is what was completed. As long as everything was, it is also what the sink
holds; else it stays behind `n` by what was taken of the first piece that failed, and whatever is
written later changes nothing. The sink holds the front of the forms of all items. In which portions
it takes the bytes makes no difference. -/
theorem position_accounted {s : Sink} (fresh : s.written = []) (chunk : s.chunk ≠ some 0) {n : Nat}
    (limit : s.limit = some n) (ps later : List Primitive) :
    let start : Ledger := { encoder := { sink := s } }
    let l := start.writeEach ps
    l.encoder = ps.foldl (fun e p => aftermath (Encoder.write p e)) start.encoder ∧
      l.encoder.position = l.completed ∧
      l.encoder.written = (ps.flatMap Primitive.encoding).take n ∧
      ((∀ r ∈ l.raws, r.completed = true) ∧ l.encoder.position = l.encoder.written.length ∨
        l.encoder.written.length = n ∧
        (∃ before failed after, l.raws = before ++ failed :: after ∧
          (∀ r ∈ before, r.completed = true) ∧ failed.completed = false ∧
          failed.taken < failed.offered.length ∧ l.encoder.position + failed.taken = n ∧
          ∀ r ∈ after, r.Idle) ∧
        (l.writeEach later).encoder = l.encoder ∧
        ∃ more, (l.writeEach later).raws = l.raws ++ more ∧ ∀ r ∈ more, r.Idle) ∧
      ∀ (t : Sink) bs r, t.chunk ≠ some 0 → t.Takes bs r → t.writeAll bs = r := by
  intro start l
  have clean : start.Clean n [] :=
    ⟨chunk, limit, nofun, (congrArg List.length fresh).symm, fresh, Nat.zero_le n⟩
  refine ⟨encoder_writeEach ps start, position_writeEach ps rfl, ?_, ?_,
    fun t bs r => Sink.writeAll_of_takes⟩
  · rcases clean.writeEach ps with kept | ⟨cut, written⟩
    · rw [kept.written, List.nil_append]
      exact (List.take_of_length_le kept.held).symm
    · exact written
  · rcases clean.writeEach ps with kept | ⟨cut, written⟩
    · exact .inl ⟨kept.completed, kept.position⟩
    · have stuck := cut.writeEach later
      exact .inr ⟨cut.full, cut.first, stuck.encoder, stuck.raws⟩

/-- A text is cut behind two of its letters by a sink that takes two bytes in a call and three in
total. Its length was counted, and nothing is written after that. -/
theorem position_accounted_cut :
    let s : Sink := { chunk := some 2, limit := some 3 }
    let l := ({ encoder := { sink := s } } : Ledger).writeEach [.string "jar"]
    s.written = [] ∧ s.chunk ≠ some 0 ∧ s.limit = some 3 ∧
      l.encoder.written = [3, 106, 97] ∧ l.encoder.position = 1 ∧
      (l.writeEach [.bytes [], .u8 7]).encoder = l.encoder := by
  intro s l
  have chunk : s.chunk ≠ some 0 := by decide
  have position : l.encoder.position = 1 := by decide +kernel
  have front : ([Primitive.string "jar"].flatMap Primitive.encoding).take 3 = [3, 106, 97] := by
    decide +kernel
  obtain ⟨-, -, written, clean | ⟨-, -, stuck, -⟩, -⟩ :=
    position_accounted (s := s) rfl chunk rfl [.string "jar"] [.bytes [], .u8 7]
  · have held : l.encoder.position = l.encoder.written.length := clean.2
    have length : l.encoder.written.length = 3 := congrArg List.length (written.trans front)
    rw [position, length] at held
    cases held
  · exact ⟨rfl, chunk, rfl, written.trans front, position, stuck⟩

end Ledger

end BeanStream.Wire
