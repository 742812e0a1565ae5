import BeanStream.Proofs.Pass.Logging
import BeanStream.Proofs.Reading.Payloads

/-!
# The log mirrors the stream

A complete tree reads back: by the grammar of bean streams, it is a value with **as many properties
as the tree has complete ones**, at any nesting (`Leaves.exists_node`). So are they counted by the
lines that the tree logs.

Main fact: whatever becomes of a call, the bytes and the lines that it adds are those of the
properties that it leaves. Each complete property is told of by one line, behind those of what is
inside of it, each one that was left out by one too, and **none that was broken off**; and a call
that succeeds has logged as many complete properties as its stream has (`Call.logs_mirror_stream`).
-/

namespace BeanStream

open Wire Reading

/-! ### Complete trees read back -/

theorem Node.recordsIn_append (ps qs : List (String × Node)) :
    recordsIn (ps ++ qs) = recordsIn ps + recordsIn qs := by
  induction ps with
  | nil => rw [recordsIn, Nat.zero_add]; rfl
  | cons p ps ih => rw [List.cons_append, recordsIn, recordsIn, ih, ← Nat.add_assoc]

section Complete

variable {env : Env} {payloads : Nat → Reader Node} {among : List (Nat × List UInt8)} {n : Nat}
  {c c' : Memory}

/-- Where a value is remembered behind a property, there is one deed. -/
theorem PropertyLeaves.exists_deed {kind : PropertyKind} {name : String}
    {IsValue : Option Value → Memory → Prop} {deeds : List Deed}
    (h : PropertyLeaves env n kind name IsValue deeds (some c')) :
    ∃ deed w c₁, deeds = [deed] ∧ name ≠ "" ∧ DeedLeaves env n kind name c₁ w deed (some c') := by
  cases h with
  | deed named _ leaves => exact ⟨_, _, _, rfl, named, leaves⟩

/-- The first deed of fields in a row is that of the first of them. -/
theorem FieldsLeave.exists_deed {d : Descriptor} {v : Value} {fs : List Field} {deed : Deed}
    {more : List Deed} (h : FieldsLeave env n c d v fs (deed :: more) (some c')) :
    ∃ name w c₁ c₂ fs', name ≠ "" ∧ DeedLeaves env n .field name c₁ w deed (some c₂) ∧
      FieldsLeave env n c₂ d v fs' more (some c') := by
  generalize row : deed :: more = deeds at h
  cases h with
  | nil => cases row
  | cons first others =>
    obtain ⟨_, w, c₁, rfl, named, leaves⟩ := first.exists_deed
    cases row
    exact ⟨_, w, c₁, _, _, named, leaves, others⟩

/-- The first imprint of elements in a row is that of the first of them. -/
theorem RowLeaves.exists_imprint {vs : List Value} {i : Imprint} {more : List Imprint}
    (h : RowLeaves env n c vs (i :: more) (some c')) :
    ∃ v vs' a c₁ c₂, vs = v :: vs' ∧ a.Known env ∧ Leaves env n c₁ a i (some c₂) ∧
      RowLeaves env n c₂ vs' more (some c') := by
  generalize row : i :: more = is at h
  cases h with
  | nil => cases row
  | cons first others =>
    cases first with
    | imprint _ chooses leaves =>
      cases row
      exact ⟨_, _, _, _, _, rfl, chooses.known, leaves, others⟩

theorem RowLeaves.eq_nil {vs : List Value} (h : RowLeaves env n c vs [] (some c')) : vs = [] := by
  generalize row : [] = is at h
  cases h with
  | nil => rfl
  | cons first others =>
    cases first with
    | imprint _ _ _ => cases row

mutual

/-- A complete imprint reads back. -/
theorem Leaves.exists_node (readBy : env.codecs.ReadBy payloads among) {n : Nat} {c c' : Memory}
    {a : Action} : (i : Imprint) → i.payloads ⊆ among → a.Known env →
      Leaves env n c a i (some c') →
      ∃ node, node.records = i.count Deed.isWritten ∧ IsNode payloads i.bytes node
  | .null, _, _, _ => by
    refine ⟨.null, rfl, ?_⟩
    rw [Imprint.bytes, ← List.append_nil (Tag.bytes _)]
    exact isNode_null rfl
  | .codec _ _, are, known, .codec type spells => by
    obtain ⟨node, leaf, reads⟩ := readBy.reads known type spells (are (List.mem_singleton_self _))
    obtain ⟨isCodec, fits⟩ := readBy.range known
    refine ⟨node, leaf, isNode_codec ?_ ?_⟩
    · rwa [BitVec.toNat_ofNat, Nat.mod_eq_of_lt fits]
    · rwa [BitVec.toNat_ofNat, Nat.mod_eq_of_lt fits]
  | .bean _ deeds _, are, _, .bean (.ended _ fields) => by
    obtain ⟨ps, records, isRecords⟩ := fields.exists_records readBy deeds are
    exact ⟨.bean _ ps, records, isNode_bean rfl isRecords.isStream⟩
  | .sequence _ is, are, _, .sequence row => by
    obtain ⟨ns, length, records, isRow⟩ := row.exists_row readBy is are
    refine ⟨.sequence ns, records, ?_⟩
    rw [Imprint.bytes, ← length]
    exact isNode_sequence rfl isRow

/-- A complete property reads back, and one that was left out is none. -/
theorem DeedLeaves.exists_records (readBy : env.codecs.ReadBy payloads among) {n : Nat}
    {c c' : Memory} {kind : PropertyKind} {name : String} {w : Option Value} (named : name ≠ "") :
    (deed : Deed) → deed.payloads ⊆ among → DeedLeaves env n kind name c w deed (some c') →
      ∃ ps, Node.recordsIn ps = deed.count Deed.isWritten ∧ IsRecords payloads deed.bytes ps
  | .omitted _ _ _, _, _ => ⟨[], rfl, isRecords_nil⟩
  | .written _ _ _ i, are, .written chooses leaves => by
    obtain ⟨node, records, isNode⟩ := leaves.exists_node readBy i are chooses.known
    refine ⟨[(name, node)], ?_, isRecords_property named isNode⟩
    rw [Node.recordsIn, records]
    rfl

theorem FieldsLeave.exists_records (readBy : env.codecs.ReadBy payloads among) {n : Nat}
    {c c' : Memory} {d : Descriptor} {v : Value} {fs : List Field} :
    (deeds : List Deed) → Deed.payloadsOf deeds ⊆ among →
      FieldsLeave env n c d v fs deeds (some c') →
      ∃ ps, Node.recordsIn ps = Deed.countOf Deed.isWritten deeds ∧
        IsRecords payloads (Deed.bytesOf deeds) ps
  | [], _, _ => ⟨[], rfl, isRecords_nil⟩
  | deed :: more, are, h => by
    obtain ⟨here, behind⟩ := List.append_subset.1 are
    obtain ⟨name, w, c₁, c₂, fs', named, leaves, others⟩ := h.exists_deed
    obtain ⟨ps, records, isRecords⟩ := leaves.exists_records readBy named deed here
    obtain ⟨qs, records', isRecords'⟩ := others.exists_records readBy more behind
    refine ⟨ps ++ qs, ?_, isRecords.append isRecords'⟩
    rw [Node.recordsIn_append, Deed.countOf, records, records']

theorem RowLeaves.exists_row (readBy : env.codecs.ReadBy payloads among) {n : Nat}
    {c c' : Memory} {vs : List Value} : (is : List Imprint) → Imprint.payloadsOf is ⊆ among →
      RowLeaves env n c vs is (some c') →
      ∃ ns, ns.length = vs.length ∧ Node.recordsOf ns = Imprint.countOf Deed.isWritten is ∧
        IsRow payloads (Imprint.bytesOf is) ns
  | [], _, h => by
    rw [h.eq_nil]
    exact ⟨[], rfl, rfl, isRow_nil⟩
  | i :: more, are, h => by
    obtain ⟨here, behind⟩ := List.append_subset.1 are
    obtain ⟨v, vs', a, c₁, c₂, rfl, known, leaves, others⟩ := h.exists_imprint
    obtain ⟨node, records, isNode⟩ := leaves.exists_node readBy i here known
    obtain ⟨ns, length, records', isRow⟩ := others.exists_row readBy more behind
    refine ⟨node :: ns, congrArg (· + 1) length, ?_, IsRow.cons isNode isRow⟩
    rw [Node.recordsOf, records, records']
    rfl

end

theorem PropertyLeaves.exists_records {kind : PropertyKind} {name : String}
    {IsValue : Option Value → Memory → Prop} {deeds : List Deed}
    (readBy : env.codecs.ReadBy payloads (Deed.payloadsOf deeds))
    (h : PropertyLeaves env n kind name IsValue deeds (some c')) :
    ∃ ps, Node.recordsIn ps = Deed.countOf Deed.isWritten deeds ∧
      IsRecords payloads (Deed.bytesOf deeds) ps := by
  obtain ⟨deed, w, c₁, rfl, named, leaves⟩ := h.exists_deed
  rw [Deed.bytesOf, Deed.bytesOf, List.append_nil]
  exact leaves.exists_records readBy named deed (List.append_subset.1 (List.Subset.refl _)).1

end Complete

/-! ### Calls -/

namespace Call

/-- What has to follow for the properties of a call to be a bean stream: more may follow a property,
and nothing a bean. -/
def closing : Call → List UInt8
  | .property .. => (Primitive.string "").encoding
  | .value _ | .bean _ => []

/-- A call that left all of its properties has written a bean stream. -/
theorem Leaves.exists_stream {env : Env} {payloads : Nat → Reader Node}
    {n : Nat} {c : Call} {before after : Memory} {frames : Trace} {deeds : List Deed}
    {ending : List UInt8} (readBy : env.codecs.ReadBy payloads (Deed.payloadsOf deeds))
    (h : c.Leaves env n before frames deeds ending (some after)) :
    ∃ ps, Node.recordsIn ps = Deed.countOf Deed.isWritten deeds ∧
      IsStream payloads (Deed.bytesOf deeds ++ (ending ++ c.closing)) ps := by
  cases h with
  | property leaves =>
    obtain ⟨ps, records, isRecords⟩ := leaves.exists_records readBy
    exact ⟨ps, records, isRecords.isStream⟩
  | bean _ leaves =>
    cases leaves with
    | ended _ fields =>
      obtain ⟨ps, records, isRecords⟩ := fields.exists_records readBy deeds (List.Subset.refl _)
      refine ⟨ps, records, ?_⟩
      rw [closing, List.append_nil]
      exact isRecords.isStream

variable {env : Env} {m : Machine}

/-- The log of a call for properties, whatever becomes of it, and whatever the settings.

* The bytes that it adds are those of the properties that it leaves: some are complete, some were
  left out, and those that the call was in when it ended were broken off.
* The lines that it adds are those of the same properties: one for each that is complete, when all
  inside of it has been told of, and one for each that was left out.
* A call that succeeds has logged as many complete properties as there are in its stream, at any
  nesting, where the payloads of codecs can be read back. -/
theorem logs_mirror_stream (plain : env.codecs.Plain) {c : Call} (streams : c.Streams)
    (depth : Nat) :
    let r := (c.run env (.ofDepth env depth)).run m
    ∃ frames deeds ending result,
      let lines := Deed.linesOf (frames ++ m.trace) deeds
      c.Leaves env m.trace.beanDepth m.memory frames deeds ending result ∧
      result.isSome = Outcome.isDone r ∧
      (aftermath r).written = m.written ++ (Deed.bytesOf deeds ++ ending) ∧
      (aftermath r).logs = m.logs ++ lines ∧
      lines.countP (!·.isOmission) = Deed.countOf Deed.isWritten deeds ∧
      lines.countP LogLine.isOmission = Deed.countOf Deed.isOmitted deeds ∧
      (Outcome.isDone r = true → ∀ payloads,
        env.codecs.ReadBy payloads (Deed.payloadsOf deeds) → ∃ ps,
          Node.recordsIn ps = lines.countP (!·.isOmission) ∧
          ∀ suffix, beanStreamWith payloads
            (Deed.bytesOf deeds ++ (ending ++ c.closing) ++ suffix) = .ok (ps, suffix)) := by
  intro r
  have reports := Pass.reports_call (m := m) plain depth streams
  have account : ∃ frames deeds ending result,
      c.Leaves env m.trace.beanDepth m.memory frames deeds ending result ∧
        result.isSome = Outcome.isDone r ∧
        m.Grows (Deed.bytesOf deeds ++ ending) (Deed.linesOf (frames ++ m.trace) deeds)
          (aftermath r) := by
    rcases run : r with ⟨e | a, m'⟩ | ⟨reason, m'⟩
    · obtain ⟨_, _, grows, frames, deeds, ending, leaves, rfl, rfl⟩ := reports.failed run
      exact ⟨frames, deeds, ending, none, leaves, rfl, grows⟩
    · obtain ⟨_, _, grows, -, frames, deeds, ending, leaves, rfl, rfl⟩ := reports.done run
      exact ⟨frames, deeds, ending, some _, leaves, rfl, grows⟩
    · obtain ⟨_, _, grows, frames, deeds, ending, leaves, rfl, rfl⟩ := reports.aborted run
      exact ⟨frames, deeds, ending, none, leaves, rfl, grows⟩
  obtain ⟨frames, deeds, ending, result, leaves, isDone, grows⟩ := account
  have complete := Deed.countP_linesOf Deed.any_not_isOmission_line? (frames ++ m.trace) deeds
  have omitted := Deed.countP_linesOf Deed.any_isOmission_line? (frames ++ m.trace) deeds
  refine ⟨frames, deeds, ending, result, leaves, isDone, grows.written, grows.logs, complete,
    omitted, fun done payloads readBy => ?_⟩
  rw [done] at isDone
  obtain ⟨after, rfl⟩ := Option.isSome_iff_exists.1 isDone
  obtain ⟨ps, records, isStream⟩ := leaves.exists_stream readBy
  exact ⟨ps, records.trans complete.symm, isStream.read⟩

/-- A link to another link: the properties inside of the first property are told of before it, and
there are four in the stream as well. -/
theorem logs_mirror_stream_link :
    let r := ((Call.bean (Link.link (some (Link.link none [98])) [97])).run Link.env
      (.ofDepth Link.env 2)).run Link.machine
    let outer : Trace := [.bean "demo::Link"]
    let inner : Trace := .bean "demo::Link" :: .property .field "next" :: outer
    (aftermath r).logs =
      [.written (.property .field "next" :: inner) none,
        .written (.property .field "name" :: inner) (some "std::path::PathBuf"),
        .written (.property .field "next" :: outer) (some "demo::Link"),
        .written (.property .field "name" :: outer) (some "std::path::PathBuf")] ∧
      ∃ ps, beanStream (aftermath r).written = .ok (ps, []) ∧ Node.recordsIn ps = 4 := by
  intro r outer inner
  refine ⟨by decide +kernel, ?_⟩
  have plain : Link.env.codecs.Plain := CodecRegistry.plain_builtin
  obtain ⟨_, deeds, ending, _, -, -, written, logs, -, -, read⟩ :=
    logs_mirror_stream (m := Link.machine) plain
      (c := .bean (Link.link (some (Link.link none [98])) [97])) trivial 2
  have done : Outcome.isDone r = true := by decide +kernel
  obtain ⟨ps, records, whole⟩ := read done layouts (CodecRegistry.readBy_builtin _)
  refine ⟨ps, ?_, ?_⟩
  · rw [written, beanStream]
    have stream := whole []
    rwa [closing, List.append_nil, List.append_nil] at stream
  · have count : (aftermath r).logs.countP (!·.isOmission) = 4 := by decide +kernel
    rw [records, ← count, logs]
    rfl

end Call

end BeanStream
