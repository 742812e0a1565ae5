import BeanStream.Manifest.Section

/-!
# What stands in a document

The statements of a manifest stand in tables (`placed`), and each of them leads to one place
(`Statement.place`). It puts a node there, and tables on the way where none are; nothing else in the
document changes, but for what is below a list that is extended (`Adds`). So every node stands in a
table or a list (`Document.Rooted`).

Main facts, for a place that is below no list: **there is a node exactly if a statement leads there
or through there** (`contains_iff`), and it is a value or a list exactly if a statement puts it
there (`get?_eq_some_iff`).
-/

namespace BeanStream.Manifest

/-! ### Nodes and places -/

namespace Node

/-- Whether a node is a table proper. -/
def isTable : Node → Bool
  | .table _ => true
  | _ => false

/-- Whether other nodes may stand below. -/
def isOpen : Node → Bool
  | .table _ | .series => true
  | _ => false

end Node

/-- The places that lie on the way from a place along some keys. -/
def OnWay (place ks q : Place) : Prop := ∃ way, way ≠ [] ∧ way <+: ks ∧ q = place ++ way

theorem not_onWay_nil {place q : Place} : ¬ OnWay place [] q := by
  rintro ⟨way, ne, short, -⟩
  exact ne (List.prefix_nil.1 short)

theorem onWay_cons_iff {place ks q : Place} {k : String} :
    OnWay place (k :: ks) q ↔ q = place ++ [k] ∨ OnWay (place ++ [k]) ks q := by
  constructor
  · rintro ⟨way, ne, short, rfl⟩
    rcases List.prefix_cons_iff.1 short with rfl | ⟨rest, rfl, inside⟩
    · exact absurd rfl ne
    · rcases Decidable.em (rest = []) with rfl | more
      · exact .inl rfl
      · exact .inr ⟨rest, more, inside, by rw [List.append_assoc]; rfl⟩
  · rintro (rfl | ⟨way, ne, short, rfl⟩)
    · exact ⟨[k], List.cons_ne_nil _ _,
        List.prefix_cons_iff.2 (.inr ⟨[], rfl, List.nil_prefix⟩), rfl⟩
    · exact ⟨k :: way, List.cons_ne_nil _ _, List.prefix_cons_iff.2 (.inr ⟨way, rfl, short⟩),
        by rw [List.append_assoc]; rfl⟩

/-- What lies in front of a place is in front of the start, or on the way. -/
theorem onWay_of_isPrefix {current key q : Place} (on : q <+: current ++ key)
    (other : q ≠ current ++ key) : q <+: current ∨ OnWay current key.dropLast q := by
  rcases List.prefix_or_prefix_of_prefix on (List.prefix_append current key) with on | ⟨way, rfl⟩
  · exact .inl on
  rcases Decidable.em (way = []) with rfl | ne
  · exact .inl ((List.append_nil current).symm ▸ List.prefix_rfl)
  · have short : way <+: key := (List.prefix_append_right_inj current).1 on
    have less : way ≠ key := fun same => other (by rw [same])
    rcases List.eq_nil_or_concat key with rfl | ⟨front, last, rfl⟩
    · exact absurd (List.prefix_nil.1 short) ne
    · rw [List.concat_eq_append] at short less ⊢
      rw [List.dropLast_concat]
      exact .inr ⟨way, ne, (List.prefix_concat_iff.1 short).resolve_left less, rfl⟩

/-- What lies on the way is in front of the place. -/
theorem OnWay.inFront {current key q : Place} (on : OnWay current key.dropLast q) :
    q ≠ [] ∧ q <+: current ++ key ∧ q ≠ current ++ key := by
  obtain ⟨way, ne, short, rfl⟩ := on
  refine ⟨fun nil => ne (List.append_eq_nil_iff.1 nil).2,
    (List.prefix_append_right_inj current).2 (short.trans (List.dropLast_prefix key)), ?_⟩
  intro same
  obtain rfl := List.append_cancel_left same
  have length := short.length_le
  rw [List.length_dropLast] at length
  have := List.length_pos_iff.2 ne
  omega

namespace Document

variable {d d' : Document} {o : Origin} {place ks : Place}

/-- Every node stands at the top, or in a table or a list. -/
def Rooted (d : Document) : Prop :=
  ∀ {q k n}, q ≠ [] → d.get? (q ++ [k]) = some n → ∃ n', d.get? q = some n' ∧ n'.isOpen = true

/-! ### Going down -/

/-- Going down one key, a table is added or there is one already. -/
theorem exists_of_descend_cons {k : String} (h : d.descend o place (k :: ks) = some d') :
    ∃ d₁ n, descend d₁ o (place ++ [k]) ks = some d' ∧ d₁.get? (place ++ [k]) = some n ∧
      n.isOpen = true ∧
      (d₁ = d ∨ d.get? (place ++ [k]) = none ∧ n = .table o ∧ d₁ = d.set (place ++ [k]) n) := by
  rw [descend] at h
  split at h
  · rename_i absent
    refine ⟨_, .table o, h, ?_, rfl, .inr ⟨absent, rfl, rfl⟩⟩
    rw [Table.get?_set, if_pos rfl]
  · rename_i found
    split at h
    · cases h
    · exact ⟨d, _, h, found, rfl, .inl rfl⟩
  · rename_i found
    exact ⟨d, _, h, ‹_›, rfl, .inl rfl⟩
  · exact ⟨d, _, h, ‹_›, rfl, .inl rfl⟩
  · cases h
  · cases h

/-- What going down does to a document. -/
structure Descends (d d' : Document) (o : Origin) (place ks : Place) : Prop where
  /-- Every node stays, -/
  kept {q n} : d.get? q = some n → d'.get? q = some n
  /-- new ones are tables on the way, -/
  new {q n} : d'.get? q = some n → d.get? q = some n ∨ n = .table o ∧ OnWay place ks q
  /-- and something open is everywhere on the way. -/
  isOpen {q} : OnWay place ks q → ∃ n, d'.get? q = some n ∧ n.isOpen = true

theorem descends (h : d.descend o place ks = some d') : Descends d d' o place ks := by
  induction ks generalizing d place with
  | nil =>
    cases h
    exact ⟨id, .inl, fun on => absurd on not_onWay_nil⟩
  | cons k ks ih =>
    obtain ⟨d₁, n, rest, own, isOpen, first⟩ := exists_of_descend_cons h
    have later := ih rest
    have before {q n'} : d.get? q = some n' → d₁.get? q = some n' := by
      rcases first with rfl | ⟨absent, -, rfl⟩
      · exact id
      · intro found
        have other : q ≠ place ++ [k] := fun same => by
          rw [same, absent] at found
          cases found
        rw [Table.get?_set, if_neg other, found]
    refine ⟨fun found => later.kept (before found), fun found => ?_, fun on => ?_⟩
    · rcases later.new found with found | ⟨rfl, on⟩
      · rcases first with rfl | ⟨-, rfl, rfl⟩
        · exact .inl found
        · rw [Table.get?_set] at found
          split at found
          · rename_i same
            cases found
            exact .inr ⟨rfl, onWay_cons_iff.2 (.inl same)⟩
          · exact .inl found
      · exact .inr ⟨rfl, onWay_cons_iff.2 (.inr on)⟩
    · rcases onWay_cons_iff.1 on with rfl | on
      · exact ⟨n, later.kept own, isOpen⟩
      · exact later.isOpen on

/-! ### Single statements -/

theorem exists_of_enter {key : Place} {value : Node} (h : d.enter place key value = some d') :
    ∃ d₁, descend d .dotted place key.dropLast = some d₁ ∧ d₁.get? (place ++ key) = none ∧
      d' = d₁.set (place ++ key) value := by
  rw [enter, Option.bind_eq_bind, Option.bind_eq_some_iff] at h
  obtain ⟨d₁, down, h⟩ := h
  obtain ⟨vacant, h⟩ := Option.ite_none_right_eq_some.1 h
  cases h
  rw [Bool.and_eq_true, Bool.not_eq_true', Table.contains, Option.isSome_eq_false_iff,
    Option.isNone_iff_eq_none] at vacant
  exact ⟨d₁, down, vacant.2, rfl⟩

theorem exists_of_head (h : d.head place = some d') :
    ∃ d₁, descend d .implied [] place.dropLast = some d₁ ∧
      (d₁.get? place = none ∨ d₁.get? place = some (.table .implied)) ∧
      d' = d₁.set place (.table .headed) := by
  rw [head, Option.bind_eq_bind, Option.bind_eq_some_iff] at h
  obtain ⟨d₁, down, h⟩ := h
  refine ⟨d₁, down, ?_⟩
  split at h
  · cases h
    exact ⟨.inl ‹_›, rfl⟩
  · cases h
    exact ⟨.inr ‹_›, rfl⟩
  · cases h

theorem exists_of_extend (h : d.extend place = some d') :
    ∃ d₁, descend d .implied [] place.dropLast = some d₁ ∧
      (d₁.get? place = none ∧ d' = d₁.set place .series ∨
        d₁.get? place = some .series ∧ d' = d₁.without place) := by
  rw [extend, Option.bind_eq_bind, Option.bind_eq_some_iff] at h
  obtain ⟨d₁, down, h⟩ := h
  refine ⟨d₁, down, ?_⟩
  split at h
  · cases h
    exact .inl ⟨‹_›, rfl⟩
  · cases h
    exact .inr ⟨‹_›, rfl⟩
  · cases h

/-- What is strictly below a place is gone, all else stays. -/
theorem get?_without (d : Document) (place q : Place) :
    (d.without place).get? q = if place <+: q ∧ q ≠ place then none else d.get? q := by
  have erased (qs : List Place) (d : Document) :
      (qs.foldl Table.erase d).get? q = if q ∈ qs then none else d.get? q := by
    induction qs generalizing d with
    | nil => simp
    | cons p qs ih =>
      rw [List.foldl_cons, ih, Table.get?_erase]
      by_cases same : q = p <;> simp [same]
  rw [without, erased]
  by_cases listed : q ∈ d.keys
  · simp [listed]
  · have absent : d.get? q = none := Table.get?_eq_none_iff.2 listed
    simp [absent]

end Document

/-! ### Statements -/

namespace Statement

/-- The key or place as it is written. -/
def key : Statement → Place
  | .entry key _ | .header key | .element key => key

/-- The place that a statement leads to, when the table at `current` is the current one. -/
def place (current : Place) : Statement → Place
  | .entry key _ => current ++ key
  | .header place | .element place => place

/-- The table that is the current one behind a statement. -/
def next (current : Place) : Statement → Place
  | .entry _ _ => current
  | .header place | .element place => place

/-- The node that a statement puts at its place. -/
def node? : Statement → Option Node
  | .entry _ value => value.node?
  | .header _ => some (.table .headed)
  | .element _ => some .series

/-- Whether a statement clears a place: what is below a list goes when the list is extended. -/
def Clears (q : Place) : Statement → Prop
  | .element place => place <+: q ∧ q ≠ place
  | _ => False

end Statement

/-- What is below a place that is cleared is cleared as well. -/
theorem Statement.Clears.append {s : Statement} {q : Place} (h : s.Clears q) (k : String) :
    s.Clears (q ++ [k]) := by
  cases s with
  | element place =>
    refine ⟨h.1.trans (List.prefix_append q [k]), fun same => ?_⟩
    have length := h.1.length_le
    rw [← same, List.length_append] at length
    exact Nat.not_succ_le_self _ length
  | entry | header => exact h

/-- The statements of a manifest, each with the table that it stands in. -/
def placed : Place → List Statement → List (Place × Statement)
  | _, [] => []
  | current, s :: ss => (current, s) :: placed (s.next current) ss

namespace Document

variable {d d' : Document} {o : Origin} {current current' key : Place} {s : Statement}

/-- Above a node are open ones. -/
theorem Rooted.isOpen_of_below (h : d.Rooted) {q : Place} (ne : q ≠ []) {k : String} {way : Place}
    {n : Node} (below : d.get? (q ++ k :: way) = some n) :
    ∃ n', d.get? q = some n' ∧ n'.isOpen = true := by
  induction way generalizing q k with
  | nil => exact h ne below
  | cons k' way ih =>
    have next : q ++ [k] ≠ [] := by simp
    obtain ⟨n', found, -⟩ := ih next (by rwa [List.append_assoc])
    exact h ne found

/-- A place under which statements may stand: the top, or an open node. -/
def IsOpenAt (d : Document) (place : Place) : Prop :=
  place = [] ∨ ∃ n, d.get? place = some n ∧ n.isOpen = true

theorem IsOpenAt.above (h : d.IsOpenAt current) (rooted : d.Rooted) {q : Place} (ne : q ≠ [])
    (on : q <+: current) : ∃ n, d.get? q = some n ∧ n.isOpen = true := by
  obtain ⟨way, rfl⟩ := on
  rcases h with top | ⟨n, found, isOpen⟩
  · exact absurd (List.append_eq_nil_iff.1 top).1 ne
  · rcases way with _ | ⟨k, way⟩
    · rw [List.append_nil] at found
      exact ⟨n, found, isOpen⟩
    · exact rooted.isOpen_of_below ne found

/-- In front of the place that one goes down to, there are open nodes. -/
theorem Descends.above (h : Descends d d' o current key.dropLast) (rooted : d.Rooted)
    (isOpen : d.IsOpenAt current) {q : Place} (ne : q ≠ []) (on : q <+: current ++ key)
    (other : q ≠ current ++ key) : ∃ n, d'.get? q = some n ∧ n.isOpen = true := by
  rcases onWay_of_isPrefix on other with on | on
  · obtain ⟨n, found, isOpen⟩ := isOpen.above rooted ne on
    exact ⟨n, h.kept found, isOpen⟩
  · exact h.isOpen on

/-- What is found was there before, or is a table in front of the place that one goes down to. -/
theorem Descends.found_cases (h : Descends d d' o current key.dropLast) {q : Place} {n : Node}
    (found : d'.get? q = some n) : d.get? q = some n ∨
      d.get? q = none ∧ n.isTable = true ∧ q ≠ [] ∧ q <+: current ++ key := by
  rcases before : d.get? q with _ | n'
  · rcases h.new found with known | ⟨rfl, on⟩
    · rw [before] at known
      cases known
    · exact .inr ⟨rfl, rfl, on.inFront.1, on.inFront.2.1⟩
  · have kept := h.kept before
    rw [found] at kept
    exact .inl kept.symm

/-- What a statement does to a document. -/
structure Adds (d d' : Document) (current : Place) (s : Statement) : Prop where
  /-- It puts its node at its place, -/
  own : ∃ n, s.node? = some n ∧ d'.get? (s.place current) = some n
  /-- where there was none, or one that it goes on with. -/
  free {n} (found : d.get? (s.place current) = some n) :
    n = .table .implied ∧ s.node? = some (.table .headed) ∨ n = .series ∧ s.node? = some .series
  /-- Open nodes are everywhere in front of it. -/
  above {q} (ne : q ≠ []) (on : q <+: s.place current) (other : q ≠ s.place current) :
    ∃ n, d'.get? q = some n ∧ n.isOpen = true
  /-- What else is there was there before, or is a table in front of it. -/
  others {q n} (other : q ≠ s.place current) (found : d'.get? q = some n) :
    d.get? q = some n ∧ ¬ s.Clears q ∨
      d.get? q = none ∧ n.isTable = true ∧ q ≠ [] ∧ q <+: s.place current
  /-- What was there before is there, unless it is cleared. -/
  kept {q n} (other : q ≠ s.place current) (found : d.get? q = some n) (stays : ¬ s.Clears q) :
    d'.get? q = some n

/-- A node is put at the place that one went down to, and nothing is cleared there. -/
theorem adds_of_set {start ks : Place} {d₁ : Document} {n : Node} (rooted : d.Rooted)
    (isOpen : d.IsOpenAt start) (down : Descends d d₁ o start ks.dropLast)
    (place : s.place current = start ++ ks) (own : s.node? = some n)
    (free : d₁.get? (start ++ ks) = none ∨
      d₁.get? (start ++ ks) = some (.table .implied) ∧ n = .table .headed)
    (vacant : ∀ q, s.Clears q → d.get? q = none) :
    Adds d (d₁.set (start ++ ks) n) current s := by
  have elsewhere {q : Place} (other : q ≠ start ++ ks) :
      (d₁.set (start ++ ks) n).get? q = d₁.get? q := by
    rw [Table.get?_set, if_neg other]
  constructor
  case own => exact ⟨n, own, by rw [place, Table.get?_set, if_pos rfl]⟩
  case free =>
    intro n' found
    have there := down.kept (place ▸ found)
    rcases free with none | ⟨implied, rfl⟩
    · rw [none] at there
      cases there
    · rw [implied] at there
      cases there
      exact .inl ⟨rfl, own⟩
  case above =>
    intro q ne on other
    rw [place] at on other
    rw [elsewhere other]
    exact down.above rooted isOpen ne on other
  case others =>
    intro q n' other found
    rw [place] at other ⊢
    rw [elsewhere other] at found
    rcases down.found_cases found with known | new
    · refine .inl ⟨known, fun clears => ?_⟩
      rw [vacant q clears] at known
      cases known
    · exact .inr new
  case kept =>
    intro q n' other found _
    rw [place] at other
    rw [elsewhere other]
    exact down.kept found

/-- What a statement does to a document, and which table is the current one behind it. -/
theorem adds_of_add (rooted : d.Rooted) (isOpen : d.IsOpenAt current) (keyed : s.key ≠ [])
    (h : add (d, current) s = some (d', current')) :
    Adds d d' current s ∧ current' = s.next current := by
  have top : d.IsOpenAt [] := .inl rfl
  cases s with
  | entry key value =>
    simp only [add, Option.bind_eq_bind, Option.bind_eq_some_iff, Option.pure_def,
      Option.some.injEq, Prod.mk.injEq] at h
    obtain ⟨n, own, d₂, entered, rfl, rfl⟩ := h
    obtain ⟨d₁, down, vacant, rfl⟩ := exists_of_enter entered
    exact ⟨adds_of_set rooted isOpen (descends down) rfl own (.inl vacant) fun _ => False.elim, rfl⟩
  | header place =>
    simp only [add, Option.bind_eq_bind, Option.bind_eq_some_iff, Option.pure_def,
      Option.some.injEq, Prod.mk.injEq] at h
    obtain ⟨d₂, headed, rfl, rfl⟩ := h
    obtain ⟨d₁, down, free, rfl⟩ := exists_of_head headed
    refine ⟨adds_of_set rooted top (descends down) rfl rfl ?_ fun _ => False.elim, rfl⟩
    exact free.imp id fun implied => ⟨implied, rfl⟩
  | element place =>
    simp only [add, Option.bind_eq_bind, Option.bind_eq_some_iff, Option.pure_def,
      Option.some.injEq, Prod.mk.injEq] at h
    obtain ⟨d₂, extended, rfl, rfl⟩ := h
    obtain ⟨d₁, down, ⟨vacant, rfl⟩ | ⟨listed, rfl⟩⟩ := exists_of_extend extended
    · refine ⟨adds_of_set rooted top (descends down) rfl rfl (.inl vacant) ?_, rfl⟩
      -- below a place without a node, there is none to clear
      rintro q ⟨⟨way, rfl⟩, below⟩
      rcases way with _ | ⟨k, way⟩
      · exact absurd (List.append_nil _) below
      rcases found : d.get? (place ++ k :: way) with _ | n
      · rfl
      · obtain ⟨n', there, -⟩ := rooted.isOpen_of_below (q := place) keyed found
        have there := (descends down).kept there
        rw [vacant] at there
        cases there
    · refine ⟨?_, rfl⟩
      have down := descends down
      have stays {q : Place} (stays : ¬ (place <+: q ∧ q ≠ place)) :
          (d₁.without place).get? q = d₁.get? q := by
        rw [get?_without, if_neg stays]
      constructor
      case own => exact ⟨.series, rfl, (stays fun h => h.2 rfl).trans listed⟩
      case free =>
        intro n found
        have there : d₁.get? place = some n := down.kept found
        rw [listed] at there
        cases there
        exact .inr ⟨rfl, rfl⟩
      case above =>
        intro q ne on other
        rw [stays fun h => other (on.eq_of_length_le h.1.length_le)]
        exact down.above rooted top ne on other
      case others =>
        intro q n other found
        rw [get?_without] at found
        split at found
        · cases found
        · rename_i stays
          exact (down.found_cases found).imp (⟨·, stays⟩) id
      case kept =>
        intro q n other found remains
        rw [stays remains]
        exact down.kept found

/-! ### Rows of statements -/

namespace Adds

/-- Every node still stands in an open one. -/
theorem rooted (h : Adds d d' current s) (rooted : d.Rooted) : d'.Rooted := by
  intro q k n ne found
  have inFront : q <+: q ++ [k] := List.prefix_append q [k]
  have longer : q ≠ q ++ [k] := fun same => by simpa using congrArg List.length same
  rcases Decidable.em (q ++ [k] = s.place current) with own | other
  · exact h.above ne (own ▸ inFront) (own ▸ longer)
  rcases h.others other found with ⟨known, stays⟩ | ⟨-, -, -, on⟩
  · obtain ⟨n', there, isOpen⟩ := rooted ne known
    rcases Decidable.em (q = s.place current) with rfl | elsewhere
    · obtain ⟨n'', node, put⟩ := h.own
      refine ⟨n'', put, ?_⟩
      rcases h.free there with ⟨-, headed⟩ | ⟨-, listed⟩
      · cases node.symm.trans headed
        rfl
      · cases node.symm.trans listed
        rfl
    · refine ⟨n', h.kept elsewhere there fun clears => stays ?_, isOpen⟩
      exact clears.append k
  · refine h.above ne (inFront.trans on) fun same => ?_
    rw [← same] at on
    exact longer (inFront.eq_of_length_le on.length_le)

/-- Statements may stand in the table that is the current one next. -/
theorem isOpenAt_next (h : Adds d d' current s) (keyed : s.key ≠ []) (isOpen : d.IsOpenAt current) :
    d'.IsOpenAt (s.next current) := by
  cases s with
  | entry key value =>
    refine isOpen.imp id fun ⟨n, found, isOpen⟩ => ⟨n, h.kept ?_ found id, isOpen⟩
    exact fun same => keyed (List.self_eq_append_right.1 same)
  | header place | element place =>
    obtain ⟨n, node, put⟩ := h.own
    cases node
    exact .inr ⟨_, put, rfl⟩

end Adds

/-- What the first statement of a row does. -/
theorem exists_of_run_cons {ss : List Statement} {end' : Document × Place} (rooted : d.Rooted)
    (isOpen : d.IsOpenAt current) (keyed : s.key ≠ [])
    (run : (s :: ss).foldlM add (d, current) = some end') :
    ∃ d₁, Adds d d₁ current s ∧ d₁.Rooted ∧ d₁.IsOpenAt (s.next current) ∧
      ss.foldlM add (d₁, s.next current) = some end' := by
  rw [List.foldlM_cons, Option.bind_eq_bind, Option.bind_eq_some_iff] at run
  obtain ⟨⟨d₁, next⟩, added, run⟩ := run
  obtain ⟨adds, rfl⟩ := adds_of_add rooted isOpen keyed added
  exact ⟨d₁, adds, adds.rooted rooted, adds.isOpenAt_next keyed isOpen, run⟩

theorem rooted_of_run {ss : List Statement} (rooted : d.Rooted) (isOpen : d.IsOpenAt current)
    (keyed : ∀ s ∈ ss, s.key ≠ [])
    (run : ss.foldlM add (d, current) = some (d', current')) : d'.Rooted := by
  induction ss generalizing d current with
  | nil =>
    cases run
    exact rooted
  | cons s ss ih =>
    obtain ⟨d₁, -, rooted, isOpen, run⟩ :=
      exists_of_run_cons rooted isOpen (keyed s (List.mem_cons_self ..)) run
    exact ih rooted isOpen (fun s' mem => keyed s' (List.mem_cons_of_mem s mem)) run

/-- Where a list was once, there is one in the end, or there is one above. -/
theorem exists_list_of_run {ss : List Statement} (rooted : d.Rooted) (isOpen : d.IsOpenAt current)
    (keyed : ∀ s ∈ ss, s.key ≠ []) (run : ss.foldlM add (d, current) = some (d', current'))
    {q : Place} (ne : q ≠ []) (list : d.get? q = some .series) :
    ∃ a, a ≠ [] ∧ a <+: q ∧ d'.get? a = some .series := by
  induction ss generalizing d current q with
  | nil =>
    cases run
    exact ⟨q, ne, List.prefix_rfl, list⟩
  | cons s ss ih =>
    have own : s.key ≠ [] := keyed s (List.mem_cons_self ..)
    have others : ∀ s' ∈ ss, s'.key ≠ [] := fun s' mem => keyed s' (List.mem_cons_of_mem s mem)
    obtain ⟨d₁, adds, rooted, isOpen, run⟩ := exists_of_run_cons rooted isOpen own run
    by_cases clears : s.Clears q
    · cases s with
      | element place =>
        obtain ⟨n, node, put⟩ := adds.own
        cases node
        obtain ⟨a, ne, above, found⟩ := ih rooted isOpen others run own put
        exact ⟨a, ne, above.trans clears.1, found⟩
      | entry | header => exact clears.elim
    · refine ih rooted isOpen others run ne ?_
      rcases Decidable.em (q = s.place current) with rfl | other
      · obtain ⟨n, node, put⟩ := adds.own
        rcases adds.free list with ⟨⟨⟩, -⟩ | ⟨-, listed⟩
        cases node.symm.trans listed
        exact put
      · exact adds.kept other list clears

/-- Each of the statements has a node to put at its place. -/
theorem exists_node_of_run {ss : List Statement} (rooted : d.Rooted) (isOpen : d.IsOpenAt current)
    (keyed : ∀ s ∈ ss, s.key ≠ []) (run : ss.foldlM add (d, current) = some (d', current')) :
    ∀ p ∈ placed current ss, ∃ n, p.2.node? = some n := by
  induction ss generalizing d current with
  | nil => exact fun p mem => nomatch mem
  | cons s ss ih =>
    obtain ⟨d₁, adds, rooted, isOpen, run⟩ :=
      exists_of_run_cons rooted isOpen (keyed s (List.mem_cons_self ..)) run
    intro p mem
    rcases List.mem_cons.1 mem with rfl | mem
    · obtain ⟨n, node, -⟩ := adds.own
      exact ⟨n, node⟩
    · exact ih rooted isOpen (fun s' mem => keyed s' (List.mem_cons_of_mem s mem)) run p mem

/-- No list is above a place. -/
def IsFree (d : Document) (q : Place) : Prop :=
  ∀ a, a ≠ [] → a <+: q → a ≠ q → d.get? a ≠ some .series

/-- What each statement adds to what holds at a place, as long as it does not clear the place, all
of them add to it. -/
theorem holds_iff_of_run {ss : List Statement} {q : Place} {P : Document → Prop}
    {Q : Place × Statement → Prop}
    (step : ∀ {d d' current s}, s.key ≠ [] → Adds d d' current s → ¬ s.Clears q →
      (P d' ↔ P d ∨ Q (current, s)))
    (rooted : d.Rooted) (isOpen : d.IsOpenAt current) (keyed : ∀ s ∈ ss, s.key ≠ [])
    (run : ss.foldlM add (d, current) = some (d', current')) (free : d'.IsFree q) :
    P d' ↔ P d ∨ ∃ p ∈ placed current ss, Q p := by
  induction ss generalizing d current with
  | nil =>
    cases run
    simp [placed]
  | cons s ss ih =>
    have own : s.key ≠ [] := keyed s (List.mem_cons_self ..)
    have others : ∀ s' ∈ ss, s'.key ≠ [] := fun s' mem => keyed s' (List.mem_cons_of_mem s mem)
    obtain ⟨d₁, adds, rooted, isOpen, run⟩ := exists_of_run_cons rooted isOpen own run
    have stays : ¬ s.Clears q := by
      intro clears
      cases s with
      | element place =>
        obtain ⟨n, node, put⟩ := adds.own
        cases node
        -- the list that is extended here, or one above, is there in the end
        obtain ⟨a, ne, above, found⟩ := exists_list_of_run rooted isOpen others run own put
        refine free a ne (above.trans clears.1) ?_ found
        rintro rfl
        exact clears.2 (above.eq_of_length_le clears.1.length_le)
      | entry | header => exact clears
    rw [ih rooted isOpen others run, step own adds stays, placed, or_assoc]
    simp only [List.mem_cons, exists_eq_or_imp]

/-! ### Documents of statements -/

theorem rooted_empty : Rooted .empty := by
  intro q k n _ found
  rw [Table.get?_empty] at found
  cases found

section OfStatements

variable {ss : List Statement} {q : Place} (keyed : ∀ s ∈ ss, s.key ≠ [])
  (made : ofStatements? ss = some d)

include keyed made

theorem rooted_of_ofStatements? : d.Rooted := by
  obtain ⟨⟨d, current⟩, run, rfl⟩ := Option.map_eq_some_iff.1 made
  exact rooted_of_run rooted_empty (.inl rfl) keyed run

theorem exists_node_of_ofStatements? : ∀ p ∈ placed [] ss, ∃ n, p.2.node? = some n := by
  obtain ⟨⟨d, current⟩, run, -⟩ := Option.map_eq_some_iff.1 made
  exact exists_node_of_run rooted_empty (.inl rfl) keyed run

/-- A node stands at a place exactly if a statement leads to it or through it. -/
theorem contains_iff (ne : q ≠ []) (free : d.IsFree q) :
    d.contains q = true ↔ ∃ p ∈ placed [] ss, q <+: p.2.place p.1 := by
  obtain ⟨⟨d, current⟩, run, rfl⟩ := Option.map_eq_some_iff.1 made
  have step {d d' : Document} {current : Place} {s : Statement} (adds : Adds d d' current s)
      (stays : ¬ s.Clears q) :
      d'.contains q = true ↔ d.contains q = true ∨ q <+: s.place current := by
    simp only [Table.contains, Option.isSome_iff_exists]
    obtain ⟨own, -, put⟩ := adds.own
    rcases Decidable.em (q = s.place current) with rfl | other
    · exact iff_of_true ⟨own, put⟩ (.inr List.prefix_rfl)
    · constructor
      · rintro ⟨n, found⟩
        exact (adds.others other found).imp (fun known => ⟨n, known.1⟩) fun new => new.2.2.2
      · rintro (⟨n, found⟩ | on)
        · exact ⟨n, adds.kept other found stays⟩
        · obtain ⟨n, found, -⟩ := adds.above ne on other
          exact ⟨n, found⟩
  have all := holds_iff_of_run (P := fun d => d.contains q = true)
    (Q := fun p => q <+: p.2.place p.1) (fun _ => step) rooted_empty (.inl rfl) keyed run free
  exact all.trans (or_iff_right Bool.false_ne_true)

/-- A value or a list stands at a place exactly if a statement puts it there. -/
theorem get?_eq_some_iff {n : Node} (own : n.isTable = false) (free : d.IsFree q) :
    d.get? q = some n ↔ ∃ p ∈ placed [] ss, p.2.place p.1 = q ∧ p.2.node? = some n := by
  obtain ⟨⟨d, current⟩, run, rfl⟩ := Option.map_eq_some_iff.1 made
  have step {d d' : Document} {current : Place} {s : Statement} (adds : Adds d d' current s)
      (stays : ¬ s.Clears q) :
      d'.get? q = some n ↔ d.get? q = some n ∨ s.place current = q ∧ s.node? = some n := by
    obtain ⟨n', node, put⟩ := adds.own
    rcases Decidable.em (q = s.place current) with rfl | other
    · rw [put, node]
      constructor
      · exact fun same => .inr ⟨rfl, same⟩
      · rintro (found | ⟨-, same⟩)
        · rcases adds.free found with ⟨rfl, -⟩ | ⟨rfl, listed⟩
          · cases own
          · rw [← listed, node]
        · exact same
    · constructor
      · intro found
        rcases adds.others other found with known | ⟨-, table, -⟩
        · exact .inl known.1
        · cases own.symm.trans table
      · rintro (found | ⟨same, -⟩)
        · exact adds.kept other found stays
        · exact absurd same.symm other
  have all := holds_iff_of_run (P := fun d => d.get? q = some n)
    (Q := fun p => p.2.place p.1 = q ∧ p.2.node? = some n) (fun _ => step) rooted_empty (.inl rfl)
    keyed run free
  exact all.trans (or_iff_right nofun)

end OfStatements

end Document

end BeanStream.Manifest
