import BeanStream.Proofs.Codec.Plain
import BeanStream.Proofs.Result

/-!
# Trees of a schema read back

Trees are written without any marks of their shape. What they can be read back by is a **schema**:
the shape that all values of a type have in common. A decoder that knows the schema, and nothing
else, takes what it needs from the front of a byte string (`Schema.read`).

A computation **conveys** a value to a reader if it writes what the reader reads back as the value,
whatever follows (`Conveys`). Conveying goes together along with what writes and what reads
(`Conveys.bind`), so it does along a schema.

Main fact: every tree of a schema is written, and conveyed to the decoder of the schema; so no two
trees of a schema have the same encoding, and none has one that another's begins with
(`Schema.decodable`).
-/

namespace BeanStream

open Wire Encoder Reading

/-! ### Schemas -/

mutual

/-- The shape of the values of a type. -/
inductive Schema where
  | bool
  | int (k : IntKind)
  | f32
  | f64
  | char
  | str
  | bytes
  | option (content : Schema)
  | unit
  | unitStruct
  | newtypeStruct (content : Schema)
  | tuple (items : List Schema)
  | tupleStruct (items : List Schema)
  | struct (fields : List Schema)
  | seq (item : Schema)
  | map (key value : Schema)
  /-- One of several variants, which are known by their place. -/
  | enum (variants : List Variant)

/-- The shape of a variant. -/
inductive Variant where
  | unit
  | newtype (content : Schema)
  | tuple (items : List Schema)
  | struct (fields : List Schema)

end

mutual

/-- A tree is a value of a schema. Sequences and maps announce their true length. -/
inductive Schema.Has : Schema → Tree → Prop
  | bool (b) : Has .bool (.bool b)
  | int (k bits) : Has (.int k) (.int k bits)
  | f32 (bits) : Has .f32 (.f32 bits)
  | f64 (bits) : Has .f64 (.f64 bits)
  | char (c) : Has .char (.char c)
  | str (s) : Has .str (.str s)
  | bytes (bs) : Has .bytes (.bytes bs)
  | none {schema} : Has (.option schema) .none
  | some {schema t} (content : Has schema t) : Has (.option schema) (.some t)
  | unit : Has .unit .unit
  | unitStruct : Has .unitStruct .unitStruct
  | newtypeStruct {schema t} (content : Has schema t) :
    Has (.newtypeStruct schema) (.newtypeStruct t)
  | tuple {schemas ts} (items : HasAll schemas ts) : Has (.tuple schemas) (.tuple ts)
  | tupleStruct {schemas ts} (items : HasAll schemas ts) :
    Has (.tupleStruct schemas) (.tupleStruct ts)
  | struct {schemas ts} (fields : HasAll schemas ts) : Has (.struct schemas) (.struct ts)
  | seq {schema ts} (items : ∀ t ∈ ts, Has schema t) :
    Has (.seq schema) (.seq (.some ts.length) ts)
  | map {key value entries} (keys : ∀ entry ∈ entries, Has key entry.1)
    (values : ∀ entry ∈ entries, Has value entry.2) :
    Has (.map key value) (.map (.some entries.length) entries)
  | unitVariant {variants} {index : BitVec 32} (place : variants[index.toNat]? = .some .unit) :
    Has (.enum variants) (.unitVariant index)
  | newtypeVariant {variants schema t} {index : BitVec 32}
    (place : variants[index.toNat]? = .some (.newtype schema)) (content : Has schema t) :
    Has (.enum variants) (.newtypeVariant index t)
  | tupleVariant {variants schemas ts} {index : BitVec 32}
    (place : variants[index.toNat]? = .some (.tuple schemas)) (items : HasAll schemas ts) :
    Has (.enum variants) (.tupleVariant index ts)
  | structVariant {variants schemas ts} {index : BitVec 32}
    (place : variants[index.toNat]? = .some (.struct schemas)) (fields : HasAll schemas ts) :
    Has (.enum variants) (.structVariant index ts)

/-- Trees are values of schemas, one of each. -/
inductive Schema.HasAll : List Schema → List Tree → Prop
  | nil : HasAll [] []
  | cons {schema schemas t ts} (first : Schema.Has schema t) (others : HasAll schemas ts) :
    HasAll (schema :: schemas) (t :: ts)

end

/-! ### Decoders -/

/-- What `r` reads, and then `r'`. -/
def Reading.Reader.pair {α β : Type} (r : Reader α) (r' : Reader β) : Reader (α × β) := do
  return (← r, ← r')

mutual

/-- Reads a tree of a schema. -/
def Schema.read : Schema → Reader Tree
  | .bool => Scalar.toTree <$> scalar .bool
  | .int k => Scalar.toTree <$> scalar (.int k)
  | .f32 => Scalar.toTree <$> scalar .f32
  | .f64 => Scalar.toTree <$> scalar .f64
  | .char => Scalar.toTree <$> scalar .char
  | .str => Scalar.toTree <$> scalar .str
  | .bytes => Tree.bytes <$> Reader.counted
  | .option content => do
    match ← Reader.byte with
    | 0 => return .none
    | 1 => Tree.some <$> content.read
    | _ => Reader.reject
  | .unit => return .unit
  | .unitStruct => return .unitStruct
  | .newtypeStruct content => Tree.newtypeStruct <$> content.read
  | .tuple items => Tree.tuple <$> Schema.readAll items
  | .tupleStruct items => Tree.tupleStruct <$> Schema.readAll items
  | .struct fields => Tree.struct <$> Schema.readAll fields
  | .seq item => do
    let n ← Reader.number
    Tree.seq (.some n) <$> item.read.repeated n
  | .map key value => do
    let n ← Reader.number
    Tree.map (.some n) <$> (Reader.pair key.read value.read).repeated n
  | .enum variants => do
    let n ← Reader.number
    Variant.readNth variants n (BitVec.ofNat 32 n)

/-- Reads trees, one of each of these schemas. -/
def Schema.readAll : List Schema → Reader (List Tree)
  | [] => return []
  | schema :: schemas => do return (← schema.read) :: (← Schema.readAll schemas)

/-- Reads what belongs to the variant in place `n` of these; it has the number `index`. -/
def Variant.readNth : List Variant → (n : Nat) → (index : BitVec 32) → Reader Tree
  | [], _, _ => Reader.reject
  | variant :: _, 0, index => variant.read index
  | _ :: variants, n + 1, index => Variant.readNth variants n index

/-- Reads what belongs to a variant with this number. -/
def Variant.read : Variant → (index : BitVec 32) → Reader Tree
  | .unit, index => return .unitVariant index
  | .newtype content, index => Tree.newtypeVariant index <$> content.read
  | .tuple items, index => Tree.tupleVariant index <$> Schema.readAll items
  | .struct fields, index => Tree.structVariant index <$> Schema.readAll fields

end

/-- A variant is found by its place. -/
theorem Variant.readNth_eq {variants : List Variant} {n : Nat} {variant : Variant}
    (place : variants[n]? = some variant) (index : BitVec 32) :
    Variant.readNth variants n index = variant.read index := by
  induction variants generalizing n with
  | nil => cases place
  | cons first variants ih =>
    cases n with
    | zero =>
      cases place
      rw [Variant.readNth]
    | succ n =>
      rw [Variant.readNth]
      exact ih place

theorem Variant.readNth_index {variants : List Variant} {index : BitVec 32} {variant : Variant}
    (place : variants[index.toNat]? = some variant) :
    Variant.readNth variants index.toNat (BitVec.ofNat 32 index.toNat) = variant.read index := by
  rw [Variant.readNth_eq place, BitVec.ofNat_toNat, BitVec.setWidth_eq]

/-! ### Writing and reading -/

/-- What `x` writes is read by `r` as `a`, whatever follows. -/
def Conveys {α : Type} (x : EStateM TreeError Encoder Unit) (r : Reader α) (a : α) : Prop :=
  ∃ pieces, Writes .io x pieces (.ok ()) ∧ Reads r pieces.flatten a

section Conveys

variable {α β : Type} {x y : EStateM TreeError Encoder Unit} {r : Reader α} {f : α → Reader β}
  {a : α} {b : β}

theorem Conveys.pure (a : α) : Conveys (Pure.pure ()) (Pure.pure a) a :=
  ⟨[], Writes.pure, .pure a⟩

theorem Conveys.bind (first : Conveys x r a) (next : Conveys y (f a) b) :
    Conveys (x >>= fun _ => y) (r >>= f) b := by
  obtain ⟨pieces, writes, reads⟩ := first
  obtain ⟨more, writes', reads'⟩ := next
  refine ⟨pieces ++ more, writes.bind writes', ?_⟩
  rw [List.flatten_append]
  exact reads.bind reads'

theorem Conveys.map (h : Conveys x r a) (g : α → β) : Conveys x (g <$> r) (g a) := by
  obtain ⟨pieces, writes, reads⟩ := h
  exact ⟨pieces, writes, reads.map g⟩

/-- What is read may need nothing more to be the answer. -/
theorem Conveys.answer (first : Conveys x r a) (h : f a = Pure.pure b) :
    Conveys x (r >>= f) b := by
  obtain ⟨pieces, writes, reads⟩ := first
  refine ⟨pieces, writes, ?_⟩
  rw [← List.append_nil pieces.flatten]
  exact reads.bind (h ▸ .pure b)

theorem conveys_emit {p : Primitive} (reads : Reads r p.encoding a) :
    Conveys (Tree.emit p) r a :=
  ⟨p.pieces, Tree.writes_emit p, reads⟩

end Conveys

/-- An announced length is a count. -/
theorem conveys_len (n : Nat) : Conveys (Tree.emitLen (.some n)) Reader.number n :=
  conveys_emit (.len n)

/-- A byte string is led by its length. -/
theorem conveys_bytes (bs : List UInt8) : Conveys (Tree.emit (.bytes bs)) Reader.counted bs := by
  have form : (Primitive.bytes bs).encoding = Varint.encode bs.length ++ bs := by
    simp [Primitive.encoding, Primitive.pieces]
  refine conveys_emit ?_
  rw [form]
  exact .counted bs

/-- The number of a variant is a count. -/
theorem conveys_index (index : BitVec 32) :
    Conveys (Tree.emitIndex index) Reader.number index.toNat := by
  have same : (index.setWidth 64).toNat = index.toNat := BitVec.toNat_setWidth_of_le (by decide)
  have form : (Primitive.u64 (index.setWidth 64)).encoding = Varint.encode index.toNat := by
    rw [Primitive.encoding, Primitive.pieces, List.flatten_singleton, same]
  refine conveys_emit ?_
  rw [form]
  exact .number index.toNat

/-- What a layout writes is read as the scalar. -/
theorem conveys_scalar {s : Scalar} {p : Primitive} (h : s.script = .item p) :
    Conveys (Tree.emit p) (Scalar.toTree <$> scalar s.type) s.toTree := by
  refine (conveys_emit (r := scalar s.type) (a := s) ?_).map Scalar.toTree
  rcases s.script_cases with ⟨done, -⟩ | ⟨p', item, reads⟩ | ⟨bs, fail⟩
  · cases h.symm.trans done
  · cases h.symm.trans item
    exact reads
  · cases h.symm.trans fail

/-- An integer is the same item in a tree as by itself. -/
theorem script_int (k : IntKind) (bits : BitVec k.width) :
    (Scalar.int k bits).script = .item (Tree.intItem k bits) := by
  cases k with
  | i128 => exact congrArg (fun bits => Script.item (.i128 bits)) (BitVec.setWidth_eq bits).symm
  | u128 => exact congrArg (fun bits => Script.item (.u128 bits)) (BitVec.setWidth_eq bits).symm
  | i8 | i16 | i32 | i64 | isize => rfl
  | u8 | u16 | u32 | u64 | usize =>
    simp only [Scalar.script, Tree.intItem, IntKind.toInt, IntKind.signed, Bool.false_eq_true,
      if_false, BitVec.ofInt_natCast, BitVec.ofNat_toNat]

/-- Parts that are conveyed one by one are conveyed as a row. -/
theorem conveys_items {r : Reader Tree} {ts : List Tree} (h : ∀ t ∈ ts, Conveys t.writeTo r t) :
    Conveys (Tree.writeItems ts) (r.repeated ts.length) ts := by
  induction ts with
  | nil =>
    rw [Tree.writeItems]
    exact .pure []
  | cons t ts ih =>
    rw [Tree.writeItems]
    exact (h t List.mem_cons_self).bind
      ((ih fun t' mem => h t' (List.mem_cons_of_mem t mem)).map (t :: ·))

/-- Entries whose keys and values are conveyed are conveyed as a row. -/
theorem conveys_entries {key value : Reader Tree} {entries : List (Tree × Tree)}
    (keys : ∀ entry ∈ entries, Conveys entry.1.writeTo key entry.1)
    (values : ∀ entry ∈ entries, Conveys entry.2.writeTo value entry.2) :
    Conveys (Tree.writeEntries entries)
      ((Reader.pair key value).repeated entries.length) entries := by
  induction entries with
  | nil =>
    rw [Tree.writeEntries]
    exact .pure []
  | cons entry entries ih =>
    have others := ih (fun entry' mem => keys entry' (List.mem_cons_of_mem entry mem))
      fun entry' mem => values entry' (List.mem_cons_of_mem entry mem)
    have first : Conveys (do entry.1.writeTo; entry.2.writeTo) (Reader.pair key value) entry :=
      (keys entry List.mem_cons_self).bind
        ((values entry List.mem_cons_self).map (entry.1, ·))
    rw [Tree.writeEntries, ← bind_assoc]
    exact first.bind (others.map (entry :: ·))

/-! ### Trees of a schema -/

mutual

/-- A tree of a schema is conveyed to the decoder of the schema. -/
theorem Schema.Has.conveys {schema : Schema} {t : Tree} :
    schema.Has t → Conveys t.writeTo schema.read t
  | .bool b => by
    rw [Tree.writeTo, Schema.read]
    exact conveys_scalar (s := .bool b) rfl
  | .int k bits => by
    rw [Tree.writeTo, Schema.read]
    exact conveys_scalar (script_int k bits)
  | .f32 bits => by
    rw [Tree.writeTo, Schema.read]
    exact conveys_scalar (s := .f32 bits) rfl
  | .f64 bits => by
    rw [Tree.writeTo, Schema.read]
    exact conveys_scalar (s := .f64 bits) rfl
  | .char c => by
    rw [Tree.writeTo, Schema.read]
    exact conveys_scalar (s := .char c) rfl
  | .str text => by
    rw [Tree.writeTo, Schema.read]
    exact conveys_scalar (s := .str text) rfl
  | .bytes bs => by
    rw [Tree.writeTo, Schema.read]
    exact (conveys_bytes bs).map Tree.bytes
  | .none => by
    rw [Tree.writeTo, Schema.read]
    exact (conveys_emit (a := 0) (.byte 0)).answer rfl
  | .some content => by
    rw [Tree.writeTo, Schema.read]
    refine (conveys_emit (a := 1) (.byte 1)).bind ?_
    exact (content.conveys).map Tree.some
  | .unit | .unitStruct => by
    rw [Tree.writeTo, Schema.read]
    exact .pure _
  | .newtypeStruct content => by
    rw [Tree.writeTo, Schema.read]
    exact (content.conveys).map Tree.newtypeStruct
  | .tuple items => by
    rw [Tree.writeTo, Schema.read]
    exact (items.conveys).map Tree.tuple
  | .tupleStruct items => by
    rw [Tree.writeTo, Schema.read]
    exact (items.conveys).map Tree.tupleStruct
  | .struct fields => by
    rw [Tree.writeTo, Schema.read]
    exact (fields.conveys).map Tree.struct
  | .seq items => by
    rw [Tree.writeTo, Schema.read]
    exact (conveys_len _).bind ((conveys_items fun t mem => (items t mem).conveys).map _)
  | .map keys values => by
    rw [Tree.writeTo, Schema.read]
    exact (conveys_len _).bind ((conveys_entries (fun entry mem => (keys entry mem).conveys)
      fun entry mem => (values entry mem).conveys).map _)
  | .unitVariant place => by
    rw [Tree.writeTo, Schema.read]
    refine (conveys_index _).answer ?_
    rw [Variant.readNth_index place, Variant.read]
  | .newtypeVariant place content => by
    rw [Tree.writeTo, Schema.read]
    refine (conveys_index _).bind ?_
    rw [Variant.readNth_index place, Variant.read]
    exact (content.conveys).map _
  | .tupleVariant place items => by
    rw [Tree.writeTo, Schema.read]
    refine (conveys_index _).bind ?_
    rw [Variant.readNth_index place, Variant.read]
    exact (items.conveys).map _
  | .structVariant place fields => by
    rw [Tree.writeTo, Schema.read]
    refine (conveys_index _).bind ?_
    rw [Variant.readNth_index place, Variant.read]
    exact (fields.conveys).map _

/-- Trees of schemas are conveyed to their decoders. -/
theorem Schema.HasAll.conveys {schemas : List Schema} {ts : List Tree} :
    Schema.HasAll schemas ts → Conveys (Tree.writeItems ts) (Schema.readAll schemas) ts
  | .nil => by
    rw [Tree.writeItems, Schema.readAll]
    exact .pure []
  | .cons first others => by
    rw [Tree.writeItems, Schema.readAll]
    exact (first.conveys).bind ((others.conveys).map (_ :: ·))

end

/-! ### What is certain of a schema -/

/-- What a tree leaves in an output without limits. -/
def Tree.encoding (t : Tree) : List UInt8 := (aftermath (t.writeTo ({} : Encoder))).written

/-- What is certain of the trees of a schema. -/
structure Schema.Decodable (schema : Schema) : Prop where
  /-- They are written wherever there is room for them, -/
  written {t : Tree} (h : schema.Has t) {e : Encoder} (chunk : e.sink.chunk ≠ some 0)
    (room : e.sink.Fits t.encoding.length) :
    ∃ e', t.writeTo e = .ok () e' ∧ e'.written = e.written ++ t.encoding
  /-- and the decoder of the schema reads them back, whatever follows. -/
  read {t : Tree} (h : schema.Has t) (suffix : List UInt8) :
    schema.read.run (t.encoding ++ suffix) = .ok (t, suffix)
  /-- No two of them are encoded alike, -/
  distinct {t t' : Tree} (h : schema.Has t) (h' : schema.Has t')
    (same : t.encoding = t'.encoding) : t = t'
  /-- and none is encoded as what another's encoding begins with. -/
  prefixFree {t t' : Tree} (h : schema.Has t) (h' : schema.Has t')
    (begins : t.encoding <+: t'.encoding) : t = t'

/-- A tree that is conveyed has an encoding, which is all that it writes anywhere. -/
theorem Conveys.encoding {t : Tree} {r : Reader Tree} (h : Conveys t.writeTo r t) :
    Reads r t.encoding t ∧ ∀ {e : Encoder}, e.sink.chunk ≠ some 0 →
      e.sink.Fits t.encoding.length →
        ∃ e', t.writeTo e = .ok () e' ∧ e'.written = e.written ++ t.encoding := by
  obtain ⟨pieces, writes, reads⟩ := h
  have written {e : Encoder} (chunk : e.sink.chunk ≠ some 0)
      (room : e.sink.Fits pieces.flatten.length) :
      ∃ e', t.writeTo e = .ok () e' ∧ e'.written = e.written ++ pieces.flatten := by
    obtain ⟨position, fits⟩ := writePieces_of_fits chunk room
    exact ⟨_, by rw [writes, fits], rfl⟩
  have encoding : t.encoding = pieces.flatten := by
    obtain ⟨e', ok, all⟩ := written (e := {}) nofun nofun
    rw [Tree.encoding, ok, aftermath, all]
    rfl
  rw [encoding]
  exact ⟨reads, written⟩

/-- The decoder of a schema reads back what the trees of the schema write. -/
theorem Schema.decodable (schema : Schema) : schema.Decodable := by
  have read {t : Tree} (h : schema.Has t) : Reads schema.read t.encoding t := h.conveys.encoding.1
  have prefixFree {t t' : Tree} (h : schema.Has t) (h' : schema.Has t')
      (begins : t.encoding <+: t'.encoding) : t = t' := by
    obtain ⟨suffix, whole⟩ := begins
    -- both are what the decoder reads from the longer encoding
    have first := read h suffix
    have second := read h' []
    rw [List.append_nil, ← whole, first] at second
    exact congrArg Prod.fst (Except.ok.inj second)
  exact {
    written := fun h => h.conveys.encoding.2
    read := fun h => read h
    distinct := fun h h' same => prefixFree h h' (same ▸ List.prefix_rfl)
    prefixFree }

/-- Two variants and an absent value, read back by place alone. -/
example :
    (Schema.struct [.seq (.enum [.unit, .struct [.bool]]), .option .bytes]).read.run
        [2, 0, 1, 1, 0, 7] =
      .ok (.struct [.seq (some 2) [.unitVariant 0, .structVariant 1 [.bool true]], .none], [7]) :=
  rfl

end BeanStream
