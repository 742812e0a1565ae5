import BeanStream.Proofs.Manifest.Outline

/-!
# What a text lists

The names of a section can be spelled in several ways: as the keys of its table, by dotted keys, by
the headers of tables below, or by the entries of a table that is written as a value
(`Statement.Lists`).

Main facts, for a text that is read: **the names of a section are those that some statement lists**,
however they are spelled (`Reads.mem_declaredKeys_iff`), and a section is an ordinary table exactly
if **no statement gives it as a whole**, as a value or as a list (`Reads.isOrdinary_iff`). Only the
names of ordinary tables are seen (`Reads.mem_seen_iff`).
-/

namespace BeanStream.Manifest

/-! ### Every statement has a key -/

theorem Key.place_ne_nil {cs rest : List Char} {place : Place}
    (read : Key.parts? cs = some (place, rest)) : place ≠ [] := by
  rw [Key.parts?] at read
  simp only [Option.bind_eq_bind, Option.bind_eq_some_iff] at read
  obtain ⟨⟨part, behind⟩, -, read⟩ := read
  split at read
  · split at read
    · obtain ⟨_, -, same⟩ := Option.map_eq_some_iff.1 read
      cases same
      exact List.cons_ne_nil _ _
    · cases read
  · cases read
    exact List.cons_ne_nil _ _

theorem place_ne_nil_of_key? {cs rest : List Char} {place : Place}
    (read : key? cs = some (place, rest)) : place ≠ [] := by
  simp only [key?, Option.bind_eq_bind, Option.bind_eq_some_iff] at read
  obtain ⟨⟨place', behind⟩, parts, read⟩ := read
  split at read
  · cases read
    exact Key.place_ne_nil parts
  · cases read

theorem key_ne_nil_of_statement? {cs rest : List Char} {s : Statement}
    (read : statement? cs = some (some s, rest)) : s.key ≠ [] := by
  unfold statement? at read
  split at read
  · cases read
  · simp only [Option.bind_eq_bind, Option.bind_eq_some_iff] at read
    obtain ⟨⟨place, behind⟩, key, read⟩ := read
    split at read <;> cases read
    exact place_ne_nil_of_key? key
  · simp only [Option.bind_eq_bind, Option.bind_eq_some_iff] at read
    obtain ⟨⟨place, behind⟩, key, read⟩ := read
    split at read <;> cases read
    exact place_ne_nil_of_key? key
  · split at read
    · cases read
    · obtain ⟨⟨⟨key, value⟩, behind⟩, entry, same⟩ := Option.map_eq_some_iff.1 read
      cases same
      simp only [Value.keyValue?, Option.bind_eq_bind, Option.bind_eq_some_iff] at entry
      obtain ⟨⟨place, behind⟩, written, entry⟩ := entry
      split at entry
      · simp only [Option.bind_eq_some_iff] at entry
        obtain ⟨_, -, same⟩ := entry
        cases same
        exact place_ne_nil_of_key? written
      · cases entry

theorem key_ne_nil_of_statements? {cs : List Char} {ss : List Statement}
    (read : statements? cs = some ss) : ∀ s ∈ ss, s.key ≠ [] := by
  fun_induction statements? cs generalizing ss with
  | case1 cs empty =>
    cases read
    exact fun s mem => nomatch mem
  | case2 cs more ih =>
    simp only [Option.bind_eq_bind, Option.bind_eq_some_iff] at read
    obtain ⟨⟨first, behind⟩, line, behind, -, read⟩ := read
    split at read
    · simp only [Option.bind_eq_some_iff] at read
      obtain ⟨later, rest, same⟩ := read
      cases same
      intro s mem
      rcases List.mem_append.1 mem with mem | mem
      · obtain rfl := Option.mem_toList.1 mem
        exact key_ne_nil_of_statement? line
      · exact ih _ ‹_› rest s mem
    · cases read

/-! ### Texts -/

/-- A text is read as these statements, which make up this document. -/
structure Reads (text : String) (ss : List Statement) (d : Document) : Prop where
  statements : statements? (withoutMark text.toList) = some ss
  document : Document.ofStatements? ss = some d

theorem exists_reads_iff {text : String} {d : Document} :
    (∃ ss, Reads text ss d) ↔ Document.ofText? text = some d := by
  rw [Document.ofText?, Option.bind_eq_bind, Option.bind_eq_some_iff]
  exact ⟨fun ⟨ss, h⟩ => ⟨ss, h.statements, h.document⟩, fun ⟨ss, read, made⟩ => ⟨ss, read, made⟩⟩

/-- A statement in the table at `current` lists a name of the section with a key. -/
inductive Statement.Lists (key name : String) (current : Place) : Statement → Prop
  /-- It leads to the name, or through it. -/
  | below {s} (leads : [key, name] <+: s.place current) : Lists key name current s
  /-- It gives the section as a whole, as a table with the name. -/
  | whole {own entries place value} (whole : current ++ own = [key])
      (mem : (place, value) ∈ entries) (first : place.head? = some name) :
      Lists key name current (.entry own (.table entries))

/-- Some statement lists a name of the section with a key. -/
def Listed (ss : List Statement) (key name : String) : Prop :=
  ∃ p ∈ placed [] ss, p.2.Lists key name p.1

namespace Document

variable {d d' : Document} {key name : String}

/-- A section is an ordinary table, if it is there at all. -/
def IsOrdinary (d : Document) (key : String) : Prop :=
  ∀ n, d.get? [key] = some n → n.isTable = true

instance : Decidable (d.IsOrdinary key) :=
  decidable_of_iff ((d.get? [key]).all Node.isTable = true) (Option.all_eq_true _ _)

/-- The names of a section that are seen. -/
def seen (d : Document) (key : String) : List String := (d.tableKeys? key).getD []

/-- Of a section that is no ordinary table, no name is seen. -/
theorem seen_of_not_isOrdinary (other : ¬ d.IsOrdinary key) : d.seen key = [] := by
  rw [seen, tableKeys?]
  split
  · rename_i found
    refine absurd (fun n there => ?_) other
    cases found.symm.trans there
    rfl
  · rfl

/-- No list is above what stands at the top. -/
theorem isFree_singleton (d : Document) (key : String) : d.IsFree [key] := by
  intro a ne above other
  rcases List.prefix_cons_iff.1 above with rfl | ⟨way, rfl, below⟩
  · exact absurd rfl ne
  · exact absurd (by rw [List.prefix_nil.1 below]) other

/-- No list is above the names of a section that is no list. -/
theorem isFree_pair (list : d.get? [key] ≠ some .series) (name : String) :
    d.IsFree [key, name] := by
  intro a ne above other
  rcases List.prefix_concat_iff.1 (show a <+: [key] ++ [name] from above) with rfl | above
  · exact absurd rfl other
  · rcases Decidable.em (a = [key]) with rfl | less
    · exact list
    · exact isFree_singleton d key a ne above less

/-- The keys of a table are the places right below. -/
theorem mem_keysAt_iff {place : Place} : name ∈ d.keysAt place ↔ d.contains (place ++ [name]) := by
  rw [keysAt, List.mem_filterMap, Table.contains_iff_mem_keys]
  constructor
  · rintro ⟨q, mem, found⟩
    obtain ⟨own, last⟩ := Option.ite_none_right_eq_some.1 found
    obtain ⟨front, rfl⟩ := List.getLast?_eq_some_iff.1 last
    rw [List.dropLast_concat] at own
    exact own ▸ mem
  · intro mem
    refine ⟨_, mem, ?_⟩
    rw [List.dropLast_concat, if_pos rfl, List.getLast?_concat]

/-- An entry of a table that is written as a value lists the first part of its key. -/
theorem contains_of_enter {place : Place} {n : Node} (h : d.enter [] place n = some d') :
    d'.contains [name] = true ↔ d.contains [name] = true ∨ place.head? = some name := by
  obtain ⟨d₁, down, -, rfl⟩ := exists_of_enter h
  have down := descends down
  simp only [Table.contains, Option.isSome_iff_exists, Table.get?_set, List.nil_append]
  rcases Decidable.em ([name] = place) with rfl | other
  · simp
  rw [if_neg other]
  have first : place.head? = some name ↔ [name] <+: place := by
    rcases place with _ | ⟨k, way⟩
    · simp
    · simp [eq_comm]
  rw [first]
  constructor
  · rintro ⟨n', found⟩
    exact (down.new found).imp (fun known => ⟨n', known⟩) fun new => new.2.inFront.2.1
  · rintro (⟨n', found⟩ | on)
    · exact ⟨n', down.kept found⟩
    · rcases @onWay_of_isPrefix [] _ _ on other with nil | on
      · cases List.prefix_nil.1 nil
      · obtain ⟨n', found, -⟩ := down.isOpen on
        exact ⟨n', found⟩

theorem contains_of_enterAll {entries : List (Place × Value)}
    (h : Value.enterAll d entries = some d') :
    d'.contains [name] = true ↔
      d.contains [name] = true ∨ ∃ e ∈ entries, e.1.head? = some name := by
  induction entries generalizing d with
  | nil =>
    rw [Value.enterAll] at h
    cases h
    simp
  | cons e entries ih =>
    obtain ⟨place, value⟩ := e
    rw [Value.enterAll] at h
    split at h
    · cases h
    · obtain ⟨d₁, entered, h⟩ := Option.bind_eq_some_iff.1 h
      rw [ih h, contains_of_enter entered, or_assoc]
      simp only [List.mem_cons, exists_eq_or_imp]

end Document

/-- A value is no table proper. -/
theorem Value.isTable_of_node? {v : Value} {n : Node} (h : v.node? = some n) :
    n.isTable = false := by
  cases v with
  | scalar =>
    rw [Value.node?] at h
    cases h
    rfl
  | list items =>
    rw [Value.node?] at h
    split at h <;> cases h
    rfl
  | table entries =>
    rw [Value.node?] at h
    obtain ⟨d, -, rfl⟩ := Option.map_eq_some_iff.1 h
    rfl

/-- The keys of a table that is written as a value are the first parts of the keys of its
entries. -/
theorem Value.exists_keys {entries : List (Place × Value)} {n : Node}
    (h : (Value.table entries).node? = some n) :
    ∃ keys, n = .inline keys ∧ ∀ name, name ∈ keys ↔ ∃ e ∈ entries, e.1.head? = some name := by
  rw [Value.node?] at h
  obtain ⟨d, entered, rfl⟩ := Option.map_eq_some_iff.1 h
  refine ⟨_, rfl, fun name => ?_⟩
  rw [Document.mem_keysAt_iff]
  exact (Document.contains_of_enterAll entered).trans (or_iff_right Bool.false_ne_true)

theorem Value.exists_entries {v : Value} {keys : List String} (h : v.node? = some (.inline keys)) :
    ∃ entries, v = .table entries := by
  cases v with
  | table entries => exact ⟨entries, rfl⟩
  | scalar =>
    rw [Value.node?] at h
    cases h
  | list items =>
    rw [Value.node?] at h
    split at h <;> cases h

namespace Reads

variable {text : String} {ss : List Statement} {d : Document} {key name : String}

theorem keyed (h : Reads text ss d) : ∀ s ∈ ss, s.key ≠ [] :=
  key_ne_nil_of_statements? h.statements

theorem rooted (h : Reads text ss d) : d.Rooted :=
  Document.rooted_of_ofStatements? h.keyed h.document

/-- What a statement gives to its place is there, if it is no table. -/
theorem get?_of_mem (h : Reads text ss d) {p : Place × Statement} (mem : p ∈ placed [] ss)
    (whole : p.2.place p.1 = [key]) {n : Node} (node : p.2.node? = some n)
    (own : n.isTable = false) : d.get? [key] = some n :=
  (Document.get?_eq_some_iff h.keyed h.document own (d.isFree_singleton key)).2
    ⟨p, mem, whole, node⟩

/-- A section is an ordinary table, if it is there at all, exactly if no statement gives it as a
whole but headers. -/
theorem isOrdinary_iff (h : Reads text ss d) :
    d.IsOrdinary key ↔
      ∀ p ∈ placed [] ss, p.2.place p.1 = [key] → ∃ place, p.2 = .header place := by
  constructor
  · rintro ordinary ⟨current, s⟩ mem whole
    obtain ⟨n, node⟩ := Document.exists_node_of_ofStatements? h.keyed h.document _ mem
    cases s with
    | header place => exact ⟨place, rfl⟩
    | entry own value =>
      have plain : n.isTable = false := Value.isTable_of_node? node
      have table := ordinary n (h.get?_of_mem mem whole node plain)
      cases plain.symm.trans table
    | element place =>
      cases node
      cases ordinary _ (h.get?_of_mem mem whole rfl rfl)
  · intro headers n found
    rcases kind : n.isTable
    · obtain ⟨p, mem, whole, node⟩ := (Document.get?_eq_some_iff h.keyed h.document kind
        (d.isFree_singleton key)).1 found
      obtain ⟨place, header⟩ := headers p mem whole
      rw [header] at node
      cases node
      cases kind
    · rfl

/-- A name stands below a section that is no list exactly if a statement leads to it or through
it. -/
theorem contains_iff (h : Reads text ss d) (list : d.get? [key] ≠ some .series) :
    d.contains [key, name] = true ↔ ∃ p ∈ placed [] ss, [key, name] <+: p.2.place p.1 :=
  Document.contains_iff h.keyed h.document (List.cons_ne_nil _ _) (Document.isFree_pair list name)

/-- Nothing stands below a table that is written as a value. -/
theorem not_below_of_inline (h : Reads text ss d) {keys : List String}
    (inline : d.get? [key] = some (.inline keys)) {p : Place × Statement}
    (mem : p ∈ placed [] ss) : ¬ [key, name] <+: p.2.place p.1 := by
  intro leads
  have list : d.get? [key] ≠ some .series := fun list => nomatch inline.symm.trans list
  obtain ⟨n, below⟩ := Option.isSome_iff_exists.1 ((h.contains_iff list).2 ⟨p, mem, leads⟩)
  obtain ⟨n', found, isOpen⟩ := h.rooted (q := [key]) (List.cons_ne_nil _ _) below
  cases inline.symm.trans found
  cases isOpen

/-- The statement that gives a section as a whole, as a table, leads to its keys. -/
theorem exists_keys_of_whole (h : Reads text ss d) {current own : Place}
    {entries : List (Place × Value)}
    (mem : (current, .entry own (.table entries)) ∈ placed [] ss) (whole : current ++ own = [key]) :
    ∃ keys, d.get? [key] = some (.inline keys) ∧
      ∀ name, name ∈ keys ↔ ∃ e ∈ entries, e.1.head? = some name := by
  obtain ⟨n, node⟩ := Document.exists_node_of_ofStatements? h.keyed h.document _ mem
  obtain ⟨keys, rfl, spec⟩ := Value.exists_keys node
  exact ⟨keys, h.get?_of_mem mem whole node rfl, spec⟩

/-- The names of a section that is no list are those that the statements list. -/
theorem mem_declaredKeys_iff (h : Reads text ss d) (list : d.get? [key] ≠ some .series) :
    name ∈ d.declaredKeys key ↔ Listed ss key name := by
  by_cases inline : ∃ keys, d.get? [key] = some (.inline keys)
  · obtain ⟨keys, inline⟩ := inline
    have own : d.declaredKeys key = keys := by rw [Document.declaredKeys, inline]
    rw [own]
    constructor
    · intro mem
      obtain ⟨⟨current, s⟩, given, whole, node⟩ := (Document.get?_eq_some_iff h.keyed h.document rfl
        (d.isFree_singleton key)).1 inline
      cases s with
      | entry place value =>
        obtain ⟨entries, rfl⟩ := Value.exists_entries node
        obtain ⟨_, same, spec⟩ := Value.exists_keys node
        cases same
        obtain ⟨⟨place', value'⟩, mem, first⟩ := (spec name).1 mem
        exact ⟨_, given, .whole whole mem first⟩
      | header | element => cases node
    · rintro ⟨⟨current, s⟩, given, lists⟩
      cases lists with
      | below leads => exact absurd leads (h.not_below_of_inline inline given)
      | whole whole mem first =>
        obtain ⟨keys', found, spec⟩ := h.exists_keys_of_whole given whole
        cases inline.symm.trans found
        exact (spec name).2 ⟨_, mem, first⟩
  · have own : d.declaredKeys key = d.keysAt [key] := by
      unfold Document.declaredKeys
      split
      · exact absurd ⟨_, ‹_›⟩ inline
      · rfl
    rw [own, Document.mem_keysAt_iff]
    refine (h.contains_iff list).trans ⟨?_, ?_⟩
    · rintro ⟨p, mem, leads⟩
      exact ⟨p, mem, .below leads⟩
    · rintro ⟨⟨current, s⟩, given, lists⟩
      cases lists with
      | below leads => exact ⟨_, given, leads⟩
      | whole whole mem first =>
        obtain ⟨keys, found, -⟩ := h.exists_keys_of_whole given whole
        exact absurd ⟨keys, found⟩ inline

theorem mem_declaredKeys_of_isOrdinary (h : Reads text ss d) (ordinary : d.IsOrdinary key) :
    name ∈ d.declaredKeys key ↔ Listed ss key name :=
  h.mem_declaredKeys_iff fun list => nomatch ordinary _ list

/-- A section that is not there has no names. -/
theorem declaredKeys_of_absent (h : Reads text ss d) (absent : d.get? [key] = none) :
    d.declaredKeys key = [] := by
  rw [Document.declaredKeys, absent]
  refine List.eq_nil_iff_forall_not_mem.2 fun name mem => ?_
  obtain ⟨n, below⟩ := Option.isSome_iff_exists.1 (Document.mem_keysAt_iff.1 mem)
  obtain ⟨n', found, -⟩ := h.rooted (q := [key]) (List.cons_ne_nil _ _) below
  cases absent.symm.trans found

/-- Of an ordinary table, all names are seen. -/
theorem seen_of_isOrdinary (h : Reads text ss d) (ordinary : d.IsOrdinary key) :
    d.seen key = d.declaredKeys key := by
  rcases found : d.get? [key] with _ | n
  · rw [h.declaredKeys_of_absent found, Document.seen, Document.tableKeys?, found]
    rfl
  · cases n with
    | table origin =>
      rw [Document.seen, Document.tableKeys?, Document.declaredKeys, found]
      rfl
    | plain | inline | series => cases ordinary _ found

/-- The names that are seen are those that the statements list, if the section is an ordinary
table. -/
theorem mem_seen_iff (h : Reads text ss d) :
    name ∈ d.seen key ↔ d.IsOrdinary key ∧ Listed ss key name := by
  by_cases ordinary : d.IsOrdinary key
  · rw [h.seen_of_isOrdinary ordinary, h.mem_declaredKeys_of_isOrdinary ordinary]
    exact (and_iff_right ordinary).symm
  · rw [Document.seen_of_not_isOrdinary ordinary]
    exact iff_of_false List.not_mem_nil fun both => ordinary both.1

end Reads

end BeanStream.Manifest
