import BeanStream.Proofs.Codec.Tags
import BeanStream.Proofs.Reading.Layout

/-!
# The grammar of bean streams

A bean stream is a row of **properties**, ended by the empty name. A property is a name and a
value; a value is a tag and the payload that the tag asks for: nothing for absence, a type path
and a bean stream for a bean, a count and that many values for a sequence, and for the tag of a
codec what the codec writes. How the payloads of codecs are read is a parameter; those of the
library are read by the layouts of the scalar types (`layouts`).

`Reading.beanStream` reads by this grammar. Values are nested, and each level takes at least one
byte, so the length of the input bounds the levels; a reader for values is `Reads`-correct as soon
as its budget exceeds the bytes that it takes. The rules of the grammar are stated twice, for
forms that are complete (`IsNode`, `IsStream`) and for forms after which nothing more follows,
although a stream needs more (`EndsInNode`, `EndsInStream`).
-/

namespace BeanStream

open Wire

/-- A value, as the grammar sees it. -/
inductive Node where
  /-- Absence. -/
  | null
  /-- A value of a scalar type. -/
  | scalar (s : Scalar)
  /-- A bean, with its properties in order. -/
  | bean (path : String) (properties : List (String × Node))
  | sequence (items : List Node)

namespace Reading

/-- Properties up to the empty name, given how to read a value. -/
def properties (value : Reader Node) : (budget : Nat) → Reader (List (String × Node))
  | 0 => Reader.reject
  | budget + 1 => do
    let name ← Reader.text
    if name = "" then return []
    else
      let n ← value
      let ps ← properties value budget
      return (name, n) :: ps

/-- The payload that a tag asks for, given how to read those of codecs and the values inside. -/
def payload (payloads : Nat → Reader Node) (value : Reader Node) (budget tag : Nat) :
    Reader Node :=
  if tag = Tag.null then return .null
  else if tag = Tag.bean then do
    let path ← Reader.text
    return .bean path (← properties value budget)
  else if tag = Tag.sequence then do
    let count ← Reader.number
    return .sequence (← value.repeated count)
  else if tag < Tag.firstCodec then Reader.reject
  else payloads tag

/-- The payloads of the codecs of the library: the layouts of the scalar types. -/
def layouts (tag : Nat) : Reader Node :=
  match CodecRegistry.builtin.withTag? tag with
  | some { type := .scalar t, .. } => Node.scalar <$> scalar t
  | _ => Reader.reject

/-- A value with its tag, nested to less than `budget` levels, where `payloads` reads the payloads
of codecs. -/
def node (payloads : Nat → Reader Node) : (budget : Nat) → Reader Node
  | 0 => Reader.reject
  | budget + 1 => do payload payloads (node payloads budget) budget (← Reader.number)

/-- The bean stream at the front of a byte string, and the bytes after it, where `payloads` reads
the payloads of codecs. -/
def beanStreamWith (payloads : Nat → Reader Node) (bs : List UInt8) :
    Except Fault (List (String × Node) × List UInt8) :=
  (properties (node payloads (bs.length + 1)) (bs.length + 1)).run bs

/-- The bean stream at the front of a byte string, and the bytes after it. -/
def beanStream (bs : List UInt8) : Except Fault (List (String × Node) × List UInt8) :=
  beanStreamWith layouts bs

/-! ### Complete and incomplete forms -/

section Forms

variable (payloads : Nat → Reader Node)

/-- The bytes are those of a value. -/
def IsNode (bs : List UInt8) (n : Node) : Prop :=
  ∀ budget, bs.length < budget → Reads (node payloads budget) bs n

/-- The bytes are those of values in a row. -/
def IsRow (bs : List UInt8) (ns : List Node) : Prop :=
  ∀ budget, bs.length < budget → Reads ((node payloads budget).repeated ns.length) bs ns

/-- The bytes are those of a bean stream. -/
def IsStream (bs : List UInt8) (ps : List (String × Node)) : Prop :=
  ∀ levels budget, bs.length < levels → bs.length < budget →
    Reads (properties (node payloads levels) budget) bs ps

/-- The bytes end within a value, or right behind it. -/
def EndsInNode (bs : List UInt8) : Prop :=
  ∀ budget, bs.length < budget →
    Starves (node payloads budget) bs ∨ ∃ n, Reads (node payloads budget) bs n

/-- The bytes end within `count` values in a row, or right behind them. -/
def EndsInRow (count : Nat) (bs : List UInt8) : Prop :=
  ∀ budget, bs.length < budget → Starves ((node payloads budget).repeated count) bs ∨
    ∃ ns, Reads ((node payloads budget).repeated count) bs ns

/-- The bytes end within a bean stream. -/
def EndsInStream (bs : List UInt8) : Prop :=
  ∀ levels budget, bs.length < levels → bs.length < budget →
    Starves (properties (node payloads levels) budget) bs

/-- The bytes are those of properties in a row, **without** an end: put in front of a bean stream,
complete or not, they add properties to it. -/
structure IsRecords (bs : List UInt8) (ps : List (String × Node)) : Prop where
  complete : ∀ {more qs}, IsStream payloads more qs → IsStream payloads (bs ++ more) (ps ++ qs)
  incomplete : ∀ {more}, EndsInStream payloads more → EndsInStream payloads (bs ++ more)

end Forms

variable {payloads : Nat → Reader Node} {bs more front : List UInt8}

/-- A bean stream is read from the front of what it is followed by. -/
theorem IsStream.read {ps : List (String × Node)} (h : IsStream payloads bs ps)
    (suffix : List UInt8) : beanStreamWith payloads (bs ++ suffix) = .ok (ps, suffix) := by
  have enough : bs.length < (bs ++ suffix).length + 1 := by
    rw [List.length_append]
    omega
  exact h _ _ enough enough suffix

/-- Of a bean stream that ends too soon, the reader finds the end missing. -/
theorem EndsInStream.read (h : EndsInStream payloads bs) :
    beanStreamWith payloads bs = .error .short :=
  h _ _ (Nat.lt_succ_self _) (Nat.lt_succ_self _)

theorem encoding_string_ne_nil (s : String) : (Primitive.string s).encoding ≠ [] := by
  simp [Primitive.encoding, Primitive.pieces, Varint.encode_ne_nil]

/-! ### Values -/

section Values

variable {tag : BitVec 32}

theorem payload_bean {value : Reader Node} {budget : Nat} :
    payload payloads value budget Tag.bean = (do
      let path ← Reader.text
      return .bean path (← properties value budget)) := rfl

theorem payload_sequence {value : Reader Node} {budget : Nat} :
    payload payloads value budget Tag.sequence = (do
      let count ← Reader.number
      return .sequence (← value.repeated count)) := rfl

theorem payload_codec {value : Reader Node} {budget tag : Nat} (isCodec : Tag.firstCodec ≤ tag) :
    payload payloads value budget tag = payloads tag := by
  have null : tag ≠ Tag.null := by simp only [Tag.null, Tag.firstCodec] at isCodec ⊢; omega
  have bean : tag ≠ Tag.bean := by simp only [Tag.bean, Tag.firstCodec] at isCodec ⊢; omega
  have sequence : tag ≠ Tag.sequence := by
    simp only [Tag.sequence, Tag.firstCodec] at isCodec ⊢
    omega
  rw [payload, if_neg null, if_neg bean, if_neg sequence, if_neg (Nat.not_lt.2 isCodec)]

/-- A tag and its payload are a value. -/
theorem isNode_of_payload {n : Node}
    (h : ∀ budget, bs.length < budget →
      Reads (payload payloads (node payloads budget) budget tag.toNat) bs n) :
    IsNode payloads ((Primitive.tag tag).encoding ++ bs) n := by
  have first := List.length_pos_iff.2 (encoding_tag_ne_nil tag)
  rintro (_ | budget) enough
  · omega
  · rw [List.length_append] at enough
    exact (Reads.tag tag).bind (h budget (by omega))

/-- A tag, and a payload that ends too soon or right behind it. -/
theorem endsInNode_of_payload
    (h : ∀ budget, bs.length < budget →
      Starves (payload payloads (node payloads budget) budget tag.toNat) bs ∨
        ∃ n, Reads (payload payloads (node payloads budget) budget tag.toNat) bs n) :
    EndsInNode payloads ((Primitive.tag tag).encoding ++ bs) := by
  have first := List.length_pos_iff.2 (encoding_tag_ne_nil tag)
  rintro (_ | budget) enough
  · omega
  · rw [List.length_append] at enough
    rcases h budget (by omega) with short | ⟨n, complete⟩
    · exact .inl ((Reads.tag tag).bind_starves short)
    · exact .inr ⟨n, (Reads.tag tag).bind complete⟩

/-- A part of a tag ends within a value. -/
theorem endsInNode_of_cut (cut : Cut bs (Primitive.tag tag).encoding) :
    EndsInNode payloads bs := by
  rintro (_ | budget) enough
  · omega
  · exact .inl (Steady.number.starves_of_reads (Reads.tag tag) cut).bind

/-- Of nothing, no value is read. -/
theorem starves_node_nil {budget : Nat} (h : 0 < budget) : Starves (node payloads budget) [] := by
  obtain ⟨budget, rfl⟩ := Nat.exists_eq_succ_of_ne_zero (Nat.ne_of_gt h)
  exact (Steady.number.starves_of_reads (Reads.tag 0) (.nil (encoding_tag_ne_nil 0))).bind

/-- Where nothing was written, a value has not begun. -/
theorem endsInNode_nil : EndsInNode payloads [] :=
  fun _ enough => .inl (starves_node_nil enough)

/-- Absence. -/
theorem isNode_null (h : tag.toNat = Tag.null) :
    IsNode payloads ((Primitive.tag tag).encoding ++ []) .null := by
  refine isNode_of_payload fun budget _ => ?_
  rw [payload, if_pos h]
  exact .pure _

/-- The payload of a codec, behind the tag. -/
theorem isNode_codec {n : Node} (isCodec : Tag.firstCodec ≤ tag.toNat)
    (h : Reads (payloads tag.toNat) bs n) :
    IsNode payloads ((Primitive.tag tag).encoding ++ bs) n := by
  refine isNode_of_payload fun budget _ => ?_
  rw [payload_codec isCodec]
  exact h

/-- The payload of a codec that ends too soon, or right behind it. -/
theorem endsInNode_codec (isCodec : Tag.firstCodec ≤ tag.toNat)
    (h : Starves (payloads tag.toNat) bs ∨ ∃ n, Reads (payloads tag.toNat) bs n) :
    EndsInNode payloads ((Primitive.tag tag).encoding ++ bs) := by
  refine endsInNode_of_payload fun budget _ => ?_
  rw [payload_codec isCodec]
  exact h

/-! ### Beans -/

/-- A type path and a bean stream. -/
theorem isNode_bean {path : String} {ps : List (String × Node)} (htag : tag.toNat = Tag.bean)
    (h : IsStream payloads bs ps) :
    IsNode payloads ((Primitive.tag tag).encoding ++ ((Primitive.string path).encoding ++ bs))
      (.bean path ps) := by
  refine isNode_of_payload fun budget enough => ?_
  rw [List.length_append] at enough
  rw [htag, payload_bean]
  refine (Reads.text path).bind ?_
  exact (List.append_nil bs) ▸ (h budget budget (by omega) (by omega)).bind (.pure _)

/-- A type path, and a bean stream that ends too soon or right behind it. -/
theorem endsInNode_bean {path : String} (htag : tag.toNat = Tag.bean)
    (h : EndsInStream payloads bs ∨ ∃ ps, IsStream payloads bs ps) :
    EndsInNode payloads
      ((Primitive.tag tag).encoding ++ ((Primitive.string path).encoding ++ bs)) := by
  rcases h with short | ⟨ps, complete⟩
  · refine endsInNode_of_payload fun budget enough => ?_
    rw [List.length_append] at enough
    rw [htag, payload_bean]
    exact .inl ((Reads.text path).bind_starves (short budget budget (by omega) (by omega)).bind)
  · exact fun budget enough => .inr ⟨_, isNode_bean htag complete budget enough⟩

/-! ### Sequences -/

/-- No values in a row. -/
theorem isRow_nil : IsRow payloads [] [] := fun _ _ => .repeated_nil

/-- One more value in front of a row. -/
theorem IsRow.cons {n : Node} {ns : List Node} (first : IsNode payloads front n)
    (others : IsRow payloads bs ns) : IsRow payloads (front ++ bs) (n :: ns) := by
  intro budget enough
  rw [List.length_append] at enough
  exact .repeated_cons (first budget (by omega)) (others budget (by omega))

/-- The first value of a row, where nothing follows it. -/
theorem endsInRow_first {count : Nat} (first : EndsInNode payloads bs) :
    EndsInRow payloads (count + 1) bs := by
  intro budget enough
  rcases first budget enough with short | ⟨n, complete⟩
  · exact .inl short.bind
  · rw [← List.append_nil bs]
    cases count with
    | zero => exact .inr ⟨[n], complete.repeated_cons .repeated_nil⟩
    | succ count =>
      have others : Starves ((node payloads budget).repeated (count + 1)) [] :=
        (starves_node_nil (by omega)).bind
      exact .inl (complete.bind_starves others.bind)

/-- Where nothing was written, a row has not begun, or was that of no values. -/
theorem endsInRow_nil (count : Nat) : EndsInRow payloads count [] := by
  cases count with
  | zero => exact fun _ _ => .inr ⟨[], .repeated_nil⟩
  | succ count => exact endsInRow_first endsInNode_nil

/-- One more value in front of a row that ends. -/
theorem EndsInRow.cons {n : Node} {count : Nat} (first : IsNode payloads front n)
    (others : EndsInRow payloads count bs) : EndsInRow payloads (count + 1) (front ++ bs) := by
  intro budget enough
  rw [List.length_append] at enough
  have first := first budget (by omega)
  rcases others budget (by omega) with short | ⟨ns, complete⟩
  · exact .inl (first.bind_starves short.bind)
  · exact .inr ⟨n :: ns, first.repeated_cons complete⟩

/-- A count, and that many values. -/
theorem isNode_sequence {ns : List Node} (htag : tag.toNat = Tag.sequence)
    (h : IsRow payloads bs ns) :
    IsNode payloads
      ((Primitive.tag tag).encoding ++ ((Primitive.len ns.length).encoding ++ bs))
      (.sequence ns) := by
  refine isNode_of_payload fun budget enough => ?_
  rw [List.length_append] at enough
  rw [htag, payload_sequence]
  refine (Reads.len ns.length).bind ?_
  exact (List.append_nil bs) ▸ (h budget (by omega)).bind (.pure _)

/-- A count, and values that end too soon or right behind the last one. -/
theorem endsInNode_sequence {count : Nat} (htag : tag.toNat = Tag.sequence)
    (h : EndsInRow payloads count bs) :
    EndsInNode payloads
      ((Primitive.tag tag).encoding ++ ((Primitive.len count).encoding ++ bs)) := by
  refine endsInNode_of_payload fun budget enough => ?_
  rw [List.length_append] at enough
  rw [htag, payload_sequence]
  rcases h budget (by omega) with short | ⟨ns, complete⟩
  · exact .inl ((Reads.len count).bind_starves short.bind)
  · refine .inr ⟨.sequence ns, (Reads.len count).bind ?_⟩
    exact (List.append_nil bs) ▸ complete.bind (.pure _)

/-- A first part of a count. -/
theorem endsInNode_count {count : Nat} (htag : tag.toNat = Tag.sequence)
    (front : bs <+: (Primitive.len count).encoding) :
    EndsInNode payloads ((Primitive.tag tag).encoding ++ bs) := by
  rcases eq_or_cut front with rfl | cut
  · rw [← List.append_nil (Primitive.len count).encoding]
    exact endsInNode_sequence htag (endsInRow_nil count)
  · refine endsInNode_of_payload fun budget _ => ?_
    rw [htag, payload_sequence]
    exact .inl (Steady.number.starves_of_reads (Reads.len count) cut).bind

end Values

/-! ### Properties -/

section Properties

variable {name : String}

/-- The empty name is a bean stream without properties. -/
theorem isStream_end : IsStream payloads (Primitive.string "").encoding [] := by
  intro levels budget _ enough
  obtain ⟨budget, rfl⟩ := Nat.exists_eq_succ_of_ne_zero (Nat.ne_zero_of_lt enough)
  rw [← List.append_nil (Primitive.string "").encoding]
  exact (Reads.text "").bind (.pure [])

/-- A part of a name ends within a bean stream. -/
theorem endsInStream_of_cut (cut : Cut bs (Primitive.string name).encoding) :
    EndsInStream payloads bs := by
  rintro levels (_ | budget) - enough
  · omega
  · exact (Steady.text.starves_of_reads (Reads.text name) cut).bind

/-- Where nothing was written, a bean stream has not begun. -/
theorem endsInStream_nil : EndsInStream payloads [] :=
  endsInStream_of_cut (.nil (encoding_string_ne_nil ""))

/-- A name and a value, where nothing follows. -/
theorem endsInStream_value (hname : name ≠ "") (h : EndsInNode payloads bs) :
    EndsInStream payloads ((Primitive.string name).encoding ++ bs) := by
  have first := List.length_pos_iff.2 (encoding_string_ne_nil name)
  rintro levels (_ | budget) more enough
  · omega
  · rw [List.length_append] at more enough
    refine (Reads.text name).bind_starves ?_
    rw [if_neg hname]
    rcases h levels (by omega) with short | ⟨n, complete⟩
    · exact short.bind
    · have ends : EndsInStream payloads [] := endsInStream_nil
      have others := ends levels budget (by rw [List.length_nil]; omega)
        (by rw [List.length_nil]; omega)
      rw [← List.append_nil bs]
      exact complete.bind_starves others.bind

/-- A first part of a name that does not end the stream. -/
theorem endsInStream_name (hname : name ≠ "")
    (front : bs <+: (Primitive.string name).encoding) : EndsInStream payloads bs := by
  rcases eq_or_cut front with rfl | cut
  · rw [← List.append_nil (Primitive.string name).encoding]
    exact endsInStream_value hname endsInNode_nil
  · exact endsInStream_of_cut cut

/-- A first part of the empty name ends within a bean stream, or right behind it. -/
theorem endsInStream_or_isStream (front : bs <+: (Primitive.string "").encoding) :
    EndsInStream payloads bs ∨ bs = (Primitive.string "").encoding :=
  (eq_or_cut front).symm.imp_left endsInStream_of_cut

/-- A first part of a type path. -/
theorem endsInNode_path {path : String} {tag : BitVec 32} (htag : tag.toNat = Tag.bean)
    (front : bs <+: (Primitive.string path).encoding) :
    EndsInNode payloads ((Primitive.tag tag).encoding ++ bs) := by
  rcases eq_or_cut front with rfl | cut
  · rw [← List.append_nil (Primitive.string path).encoding]
    exact endsInNode_bean htag (.inl endsInStream_nil)
  · refine endsInNode_of_payload fun budget _ => ?_
    rw [htag, payload_bean]
    exact .inl (Steady.text.starves_of_reads (Reads.text path) cut).bind

/-- No properties. -/
theorem isRecords_nil : IsRecords payloads [] [] := ⟨id, id⟩

/-- Properties after properties. -/
theorem IsRecords.append {ps qs : List (String × Node)} (first : IsRecords payloads bs ps)
    (others : IsRecords payloads more qs) : IsRecords payloads (bs ++ more) (ps ++ qs) where
  complete h := by
    rw [List.append_assoc, List.append_assoc]
    exact first.complete (others.complete h)
  incomplete h := by
    rw [List.append_assoc]
    exact first.incomplete (others.incomplete h)

/-- A name and a value. -/
theorem isRecords_property {n : Node} (hname : name ≠ "") (h : IsNode payloads bs n) :
    IsRecords payloads ((Primitive.string name).encoding ++ bs) [(name, n)] where
  complete {more qs} others := by
    have first := List.length_pos_iff.2 (encoding_string_ne_nil name)
    rintro levels (_ | budget) less enough
    · omega
    · rw [List.length_append, List.length_append] at less enough
      rw [List.append_assoc]
      refine (Reads.text name).bind ?_
      rw [if_neg hname]
      refine (h levels (by omega)).bind ?_
      have behind := others levels budget (by omega) (by omega)
      exact (List.append_nil more) ▸ behind.bind (.pure _)
  incomplete {more} others := by
    have first := List.length_pos_iff.2 (encoding_string_ne_nil name)
    rintro levels (_ | budget) less enough
    · omega
    · rw [List.length_append, List.length_append] at less enough
      rw [List.append_assoc]
      refine (Reads.text name).bind_starves ?_
      rw [if_neg hname]
      exact (h levels (by omega)).bind_starves (others levels budget (by omega) (by omega)).bind

/-- Properties and the empty name are a bean stream. -/
theorem IsRecords.isStream {ps : List (String × Node)} (h : IsRecords payloads bs ps) :
    IsStream payloads (bs ++ (Primitive.string "").encoding) ps := by
  have whole := h.complete isStream_end
  rwa [List.append_nil] at whole

end Properties

/-! ### Scalars -/

/-- The layout of a scalar type is the payload of its codec. -/
theorem layouts_scalar {type : TypeId} {e : Entry} {t : ScalarType}
    (he : CodecRegistry.builtin.get? type = some e) (ht : e.type = .scalar t) :
    layouts e.tag = Node.scalar <$> scalar t := by
  have found := CodecRegistry.numbered_builtin.withTag?_tag he
  rcases e with ⟨n, _, codec⟩
  cases ht
  rw [layouts, found]

/-- The tags of the codecs of the library are those of codecs. -/
theorem firstCodec_le_tag {type : TypeId} {e : Entry}
    (he : CodecRegistry.builtin.get? type = some e) : Tag.firstCodec ≤ e.tag :=
  (CodecRegistry.numbered_builtin.range he).1

/-- The layout of a scalar type, behind the tag of its codec. -/
theorem isNode_scalar {type : TypeId} {e : Entry} {t : ScalarType} {s : Scalar} {tag : BitVec 32}
    (he : CodecRegistry.builtin.get? type = some e) (ht : e.type = .scalar t)
    (htag : tag.toNat = e.tag) (h : Reads (scalar t) bs s) :
    IsNode layouts ((Primitive.tag tag).encoding ++ bs) (.scalar s) := by
  refine isNode_codec (htag ▸ firstCodec_le_tag he) ?_
  rw [htag, layouts_scalar he ht]
  exact h.map _

/-- A layout that ends too soon, or right behind a scalar. -/
theorem endsInNode_scalar {type : TypeId} {e : Entry} {t : ScalarType} {tag : BitVec 32}
    (he : CodecRegistry.builtin.get? type = some e) (ht : e.type = .scalar t)
    (htag : tag.toNat = e.tag) (h : Starves (scalar t) bs ∨ ∃ s, Reads (scalar t) bs s) :
    EndsInNode layouts ((Primitive.tag tag).encoding ++ bs) := by
  refine endsInNode_codec (htag ▸ firstCodec_le_tag he) ?_
  rw [htag, layouts_scalar he ht]
  rcases h with short | ⟨s, complete⟩
  · rw [← bind_pure_comp]
    exact .inl short.bind
  · exact .inr ⟨.scalar s, complete.map _⟩

end Reading

end BeanStream
