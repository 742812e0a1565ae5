import BeanStream.Proofs.Derive.Slots
import Mathlib.Data.List.Nodup
import Mathlib.Data.List.Perm.Basic

/-!
# Options in any order and grouping

Attributes **carry** items: what stands between the commas of the bean attributes among them, from
all of these attributes together (`Carries`). An item **spells** an option if it has the form of one
(`TypeOption.Spelled`, `FieldOption.Spelled`).

Attributes are read as options exactly if all the items that they carry spell some
(`readAttributes_eq_iff`), and settle exactly if no option is given twice then. Nothing of that
depends on how the items are grouped, nor, as far as the settings go, on their order.

Main fact: settings are made exactly by **items that spell options, none of them given twice**, and
have the values of these options; the same items in another order and grouping, between whatever
other attributes, make the same settings, or none, too (`settings_of_items`).
-/

namespace BeanStream.Derive

open Source

/-! ### Items -/

/-- Whether a token is a comma. -/
def isComma : Token → Bool
  | .mark ',' _ => true
  | _ => false

/-- An item is at least one token, and holds no comma, unless in brackets. -/
def IsItem (i : List Token) : Prop := i ≠ [] ∧ ∀ t ∈ i, isComma t = false

/-- A list of items, with commas between them. A comma may follow the last one. -/
inductive Listed : List (List Token) → List Token → Prop
  | nil : Listed [] []
  | last (i) : Listed [i] i
  | cons (i joined) {is ts} (others : Listed is ts) :
      Listed (i :: is) (i ++ .mark ',' joined :: ts)

/-- The items of all bean attributes among these attributes. Every bean attribute has a list; groups
without brackets do not count in it. -/
inductive Carries : List Attribute → List (List Token) → Prop
  | nil : Carries [] []
  | other {a as is} (foreign : a.isBean = false) (others : Carries as is) : Carries (a :: as) is
  | bean {a as ts is is'} (bean : a.isBean = true) (list : a.arguments = .list ts)
      (listed : Listed is (spliced ts)) (others : Carries as is') : Carries (a :: as) (is ++ is')

/-- The items that spell options of types. -/
inductive TypeOption.Spelled : List Token → TypeOption → Prop
  | typePath (joined) {written value} (there : value ≠ "") :
      Spelled [.ident "type_path", .mark '=' joined, .literal written (some value)]
        (.typePath written value)
  | conventions : Spelled [.ident "conventions"] .conventions
  | autoRegister : Spelled [.ident "auto_register"] .autoRegister

/-- The items that spell options of fields. -/
inductive FieldOption.Spelled : List Token → FieldOption → Prop
  | skip : Spelled [.ident "skip"] .skip
  | rename (joined) {written value} :
      Spelled [.ident "rename", .mark '=' joined, .literal written (some value)] (.rename value)

/-! ### Items are told apart by the commas -/

/-- What stands in front of the first comma is one item only. -/
private theorem item_unique {i j ts us : List Token} {joined joined' : Bool}
    (hi : ∀ t ∈ i, isComma t = false) (hj : ∀ t ∈ j, isComma t = false)
    (same : i ++ .mark ',' joined :: ts = j ++ .mark ',' joined' :: us) : i = j ∧ ts = us := by
  induction i generalizing j with
  | nil =>
    cases j with
    | nil => exact ⟨rfl, (List.cons.inj same).2⟩
    | cons t j =>
      have comma := hj t List.mem_cons_self
      rw [← (List.cons.inj same).1] at comma
      cases comma
  | cons t i ih =>
    cases j with
    | nil =>
      have comma := hi t List.mem_cons_self
      rw [(List.cons.inj same).1] at comma
      cases comma
    | cons u j =>
      obtain ⟨rfl, rest⟩ := List.cons.inj same
      obtain ⟨rfl, others⟩ := ih (fun t mem => hi t (List.mem_cons_of_mem _ mem))
        (fun t mem => hj t (List.mem_cons_of_mem _ mem)) rest
      exact ⟨rfl, others⟩

/-- An item does not go on behind a comma. -/
private theorem item_ne_list {i j ts : List Token} {joined : Bool}
    (hi : ∀ t ∈ i, isComma t = false) : i ≠ j ++ .mark ',' joined :: ts := by
  rintro rfl
  cases hi (.mark ',' joined) (by simp)

theorem Listed.unique {is js : List (List Token)} {ts : List Token} (h : Listed is ts)
    (h' : Listed js ts) (hi : ∀ i ∈ is, IsItem i) (hj : ∀ j ∈ js, IsItem j) : is = js := by
  induction h generalizing js with
  | nil =>
    generalize same : ([] : List Token) = ts at h'
    cases h' with
    | nil => rfl
    | last => exact absurd same.symm (hj _ List.mem_cons_self).1
    | cons => simp at same
  | last i =>
    cases h' with
    | nil => exact absurd rfl (hi _ List.mem_cons_self).1
    | last => rfl
    | cons => exact absurd rfl (item_ne_list (hi _ List.mem_cons_self).2)
  | @cons i joined is ts others ih =>
    generalize same : i ++ .mark ',' joined :: ts = us at h'
    cases h' with
    | nil => simp at same
    | last => exact absurd same.symm (item_ne_list (hj _ List.mem_cons_self).2)
    | cons j joined' others' =>
      obtain ⟨rfl, rfl⟩ := item_unique (hi _ List.mem_cons_self).2 (hj _ List.mem_cons_self).2 same
      rw [ih others' (fun i mem => hi i (List.mem_cons_of_mem _ mem))
        fun j mem => hj j (List.mem_cons_of_mem _ mem)]

theorem Carries.unique {as : List Attribute} {is js : List (List Token)} (h : Carries as is)
    (h' : Carries as js) (hi : ∀ i ∈ is, IsItem i) (hj : ∀ j ∈ js, IsItem j) : is = js := by
  induction h generalizing js with
  | nil =>
    cases h'
    rfl
  | other foreign others ih =>
    cases h' with
    | other _ others' => exact ih others' hi hj
    | bean bean => cases foreign.symm.trans bean
  | bean bean list listed others ih =>
    cases h' with
    | other foreign => cases foreign.symm.trans bean
    | bean _ list' listed' others' =>
      cases list.symm.trans list'
      rw [listed.unique listed' (fun i mem => hi i (List.mem_append_left _ mem))
          fun j mem => hj j (List.mem_append_left _ mem),
        ih others' (fun i mem => hi i (List.mem_append_right _ mem))
          fun j mem => hj j (List.mem_append_right _ mem)]

/-! ### What is read -/

/-- The items that spell options of a grammar. -/
inductive Grammar.Spelled {α : Type} (g : Grammar α) : List Token → α → Prop
  | alone {name a} (word : isName name = true) (form : g name = .ok (.alone a)) :
      Spelled g [.ident name] a
  | text {name accept written value a} (joined) (word : isName name = true)
      (form : g name = .ok (.text accept)) (accepted : accept written value = .ok a) :
      Spelled g [.ident name, .mark '=' joined, .literal written (some value)] a

section Reading

variable {α : Type} {g : Grammar α}

theorem Grammar.Spelled.isItem {i : List Token} {a : α} (h : g.Spelled i a) : IsItem i := by
  cases h with
  | alone => exact ⟨nofun, by simp [isComma]⟩
  | text => exact ⟨nofun, by simp [isComma]⟩

/-- An option alone. -/
theorem Grammar.Spelled.readOptions {i : List Token} {a : α} (h : g.Spelled i a) :
    readOptions g i = ⟨[a], none⟩ := by
  cases h with
  | alone word form => simp [Derive.readOptions, word, form]
  | text joined word form accepted => simp [Derive.readOptions, word, form, accepted]

/-- An option in front of others. -/
theorem Grammar.Spelled.readOptions_append {i : List Token} {a : α} (h : g.Spelled i a)
    (joined : Bool) (ts : List Token) :
    Derive.readOptions g (i ++ .mark ',' joined :: ts) = (Derive.readOptions g ts).cons a := by
  cases h with
  | alone word form => simp [Derive.readOptions, word, form]
  | text joined' word form accepted => simp [Derive.readOptions, word, form, accepted]

/-- One more option in front of what is read without a fault. -/
private theorem exists_listed_cons {i ts : List Token} {a : α} {joined : Bool} {options : List α}
    (first : g.Spelled i a)
    (others : ∀ {options : List α}, Derive.readOptions g ts = ⟨options, none⟩ →
      ∃ is, Listed is ts ∧ List.Forall₂ g.Spelled is options)
    (read : (Derive.readOptions g ts).cons a = ⟨options, none⟩) :
    ∃ is, Listed is (i ++ .mark ',' joined :: ts) ∧ List.Forall₂ g.Spelled is options := by
  obtain ⟨rfl, fault⟩ := Reading.mk.inj read
  obtain ⟨is, listed, spelled⟩ :=
    @others (Derive.readOptions g ts).options (by rw [← fault])
  exact ⟨i :: is, .cons i joined listed, .cons first spelled⟩

/-- Options are read from a list without a fault exactly if each of its items spells one. -/
theorem readOptions_eq_iff {ts : List Token} {options : List α} :
    readOptions g ts = ⟨options, none⟩ ↔
      ∃ is, Listed is ts ∧ List.Forall₂ g.Spelled is options := by
  constructor
  · intro read
    fun_induction readOptions g ts generalizing options with
    | case1 =>
      cases read
      exact ⟨[], .nil, .nil⟩
    -- an option with its name alone, in front of others or at the end
    | case4 name word a joined ts form ih =>
      exact exists_listed_cons (.alone (by simpa using word) form) ih read
    | case5 name word a form =>
      cases read
      exact ⟨_, .last _, .cons (.alone (by simpa using word) form) .nil⟩
    -- an option with a string, in front of others or at the end
    | case8 name word accept joined written value form a joined' ts accepted ih =>
      exact exists_listed_cons (.text joined (by simpa using word) form accepted) ih read
    | case9 name word accept joined written value form a accepted =>
      cases read
      exact ⟨_, .last _, .cons (.text joined (by simpa using word) form accepted) .nil⟩
    -- all others are faults
    | _ => cases read
  · rintro ⟨is, listed, spelled⟩
    induction listed generalizing options with
    | nil =>
      cases spelled
      rfl
    | last i =>
      obtain ⟨a, rest, first, others, rfl⟩ := List.forall₂_cons_left_iff.1 spelled
      cases others
      exact first.readOptions
    | cons i joined others ih =>
      obtain ⟨a, rest, first, others, rfl⟩ := List.forall₂_cons_left_iff.1 spelled
      rw [first.readOptions_append, ih others]
      rfl

/-- Options are read from attributes without a fault exactly if each of the items that the
attributes carry spells one. -/
theorem readAttributes_eq_iff {as : List Attribute} {options : List α} :
    readAttributes g as = ⟨options, none⟩ ↔
      ∃ is, Carries as is ∧ List.Forall₂ g.Spelled is options := by
  constructor
  · intro read
    induction as generalizing options with
    | nil =>
      cases read
      exact ⟨[], .nil, .nil⟩
    | cons a as ih =>
      rw [readAttributes] at read
      split at read
      · rename_i bean
        split at read
        · cases read
        · cases read
        · rename_i ts list
          rcases first : readOptions g (spliced ts) with ⟨front, _ | fault⟩ <;> rw [first] at read
          · obtain ⟨rfl, fault⟩ := Reading.mk.inj read
            obtain ⟨is, listed, spelled⟩ := readOptions_eq_iff.1 first
            obtain ⟨is', carries, spelled'⟩ :=
              @ih (readAttributes g as).options (by rw [← fault])
            exact ⟨is ++ is', .bean bean list listed carries, List.rel_append spelled spelled'⟩
          · cases read
      · rename_i foreign
        obtain ⟨is, carries, spelled⟩ := ih read
        exact ⟨is, .other (by simpa using foreign) carries, spelled⟩
  · rintro ⟨is, carries, spelled⟩
    induction carries generalizing options with
    | nil =>
      cases spelled
      rfl
    | other foreign others ih =>
      rw [readAttributes, foreign]
      exact ih spelled
    | @bean a as ts is is' bean list listed others ih =>
      have front := (List.forall₂_take_append options is is' spelled.flip).flip
      have back := (List.forall₂_drop_append options is is' spelled.flip).flip
      rw [readAttributes, bean, if_pos rfl, list]
      dsimp only
      rw [readOptions_eq_iff.2 ⟨is, listed, front⟩, ih back]
      change Reading.mk (options.take is.length ++ options.drop is.length) none = _
      rw [List.take_append_drop]

/-- The options that attributes settle on: their items spell some, and none is given twice. -/
theorem settled_readAttributes_iff {as : List Attribute} {nameOf : α → String}
    {options : List α} :
    (readAttributes g as).settled nameOf = .ok options ↔
      ∃ is, Carries as is ∧ List.Forall₂ g.Spelled is options ∧ (options.map nameOf).Nodup := by
  rw [Reading.settled_eq_ok_iff]
  constructor
  · rintro ⟨rfl, fault, distinct⟩
    have read : readAttributes g as = ⟨(readAttributes g as).options, none⟩ := by rw [← fault]
    obtain ⟨is, carries, spelled⟩ := readAttributes_eq_iff.1 read
    exact ⟨is, carries, spelled, distinct⟩
  · rintro ⟨is, carries, spelled, distinct⟩
    rw [readAttributes_eq_iff.2 ⟨is, carries, spelled⟩]
    exact ⟨rfl, rfl, distinct⟩

end Reading

/-! ### Settings -/

/-- The settings have the values of the options. -/
structure TypeSettings.HasValues (s : TypeSettings) (options : List TypeOption) : Prop where
  typePath : ∀ literal, s.typePath = some literal ↔
    ∃ written value, .typePath written value ∈ options ∧ literal = .literal written (some value)
  conventions : s.conventions = true ↔ .conventions ∈ options
  autoRegister : s.autoRegister = true ↔ .autoRegister ∈ options

/-- The settings have the values of the options. -/
structure FieldSettings.HasValues (s : FieldSettings) (options : List FieldOption) : Prop where
  skip : s.skip = true ↔ .skip ∈ options
  rename : ∀ name, s.rename = some name ↔ .rename name ∈ options

/-- The settings that attributes of a type are to make, if they are to make any: the bean attributes
are lists of items, each item spells an option, and no option is given twice. -/
def TypeSettings.Given (as : List Attribute) (s : TypeSettings) : Prop :=
  ∃ items options, Carries as items ∧ List.Forall₂ TypeOption.Spelled items options ∧
    (options.map TypeOption.name).Nodup ∧ s.HasValues options

/-- The settings that attributes of a field are to make, if they are to make any: as for types, and
a field that is skipped is not renamed. -/
def FieldSettings.Given (as : List Attribute) (s : FieldSettings) : Prop :=
  ∃ items options, Carries as items ∧ List.Forall₂ FieldOption.Spelled items options ∧
    (options.map FieldOption.name).Nodup ∧
    (¬ ∃ name, .skip ∈ options ∧ .rename name ∈ options) ∧ s.HasValues options

theorem TypeOption.spelled_iff {i : List Token} {o : TypeOption} :
    grammar.Spelled i o ↔ Spelled i o := by
  constructor
  · rintro (⟨_, form⟩ | ⟨joined, _, form, accepted⟩)
    · unfold grammar at form
      split at form <;> cases form
      · exact .conventions
      · exact .autoRegister
    · unfold grammar at form
      split at form <;> cases form
      dsimp only at accepted
      split at accepted <;> cases accepted
      exact .typePath joined ‹_›
  · rintro (⟨joined, there⟩ | _ | _)
    · exact .text joined (by decide +kernel) rfl (if_neg there)
    · exact .alone (by decide +kernel) rfl
    · exact .alone (by decide +kernel) rfl

theorem FieldOption.spelled_iff {i : List Token} {o : FieldOption} :
    grammar.Spelled i o ↔ Spelled i o := by
  constructor
  · rintro (⟨_, form⟩ | ⟨joined, _, form, accepted⟩)
    · unfold grammar at form
      split at form <;> cases form
      exact .skip
    · unfold grammar at form
      split at form <;> cases form
      cases accepted
      exact .rename joined
  · rintro (_ | joined)
    · exact .alone (by decide +kernel) rfl
    · exact .text joined (by decide +kernel) rfl rfl

/-- Where options of one name are one option, the first value found is the only one. -/
private theorem findSome?_eq_some_iff_of_nodup {α β : Type} {f : α → Option β} {nameOf : α → String}
    {options : List α} (distinct : (options.map nameOf).Nodup)
    (named : ∀ a b x y, f a = some x → f b = some y → nameOf a = nameOf b) {x : β} :
    options.findSome? f = some x ↔ ∃ a ∈ options, f a = some x := by
  refine ⟨List.exists_of_findSome?_eq_some, ?_⟩
  rintro ⟨a, mem, found⟩
  rcases first : options.findSome? f with _ | y
  · rw [List.findSome?_eq_none_iff.1 first a mem] at found
    cases found
  · obtain ⟨b, mem', found'⟩ := List.exists_of_findSome?_eq_some first
    obtain rfl := List.inj_on_of_nodup_map distinct mem mem' (named a b x y found found')
    rw [← found', found]

/-- The settings that are made of options have their values. -/
theorem TypeSettings.hasValues {options : List TypeOption}
    (distinct : (options.map TypeOption.name).Nodup) :
    (made options).HasValues options where
  typePath literal := by
    rw [made, findSome?_eq_some_iff_of_nodup distinct]
    · constructor
      · rintro ⟨⟨written, value⟩ | _ | _, mem, found⟩ <;> cases found
        exact ⟨written, value, mem, rfl⟩
      · rintro ⟨written, value, mem, rfl⟩
        exact ⟨_, mem, rfl⟩
    · rintro (_ | _ | _) (_ | _ | _) x y found found' <;> cases found <;> cases found'
      rfl
  conventions := decide_eq_true_iff
  autoRegister := decide_eq_true_iff

theorem FieldSettings.hasValues {options : List FieldOption}
    (distinct : (options.map FieldOption.name).Nodup) :
    (made options).HasValues options where
  skip := decide_eq_true_iff
  rename name := by
    rw [made, findSome?_eq_some_iff_of_nodup distinct]
    · constructor
      · rintro ⟨_ | name, mem, found⟩ <;> cases found
        exact mem
      · intro mem
        exact ⟨_, mem, rfl⟩
    · rintro (_ | _) (_ | _) x y found found' <;> cases found <;> cases found'
      rfl

/-- There are no two settings with the values of the same options. -/
theorem TypeSettings.HasValues.unique {s s' : TypeSettings} {options : List TypeOption}
    (h : s.HasValues options) (h' : s'.HasValues options) : s = s' := by
  obtain ⟨typePath, conventions, autoRegister⟩ := s
  obtain ⟨typePath', conventions', autoRegister'⟩ := s'
  congr 1
  · exact Option.ext fun literal => (h.typePath literal).trans (h'.typePath literal).symm
  · exact Bool.eq_iff_iff.2 (h.conventions.trans h'.conventions.symm)
  · exact Bool.eq_iff_iff.2 (h.autoRegister.trans h'.autoRegister.symm)

theorem FieldSettings.HasValues.unique {s s' : FieldSettings} {options : List FieldOption}
    (h : s.HasValues options) (h' : s'.HasValues options) : s = s' := by
  obtain ⟨skip, rename⟩ := s
  obtain ⟨skip', rename'⟩ := s'
  congr 1
  · exact Bool.eq_iff_iff.2 (h.skip.trans h'.skip.symm)
  · exact Option.ext fun name => (h.rename name).trans (h'.rename name).symm

/-- The settings of a type are those that its items give. -/
theorem TypeSettings.ofAttributes_eq_ok_iff {as : List Attribute} {s : TypeSettings} :
    ofAttributes as = .ok s ↔ Given as s := by
  have settled {options : List TypeOption} :=
    @settled_readAttributes_iff _ TypeOption.grammar as TypeOption.name options
  simp only [funext₂ fun i o => propext (TypeOption.spelled_iff (i := i) (o := o))] at settled
  constructor
  · intro made
    rw [ofAttributes_eq] at made
    rcases read : (readAttributes TypeOption.grammar as).settled TypeOption.name with
      fault | options <;> rw [read] at made <;> cases made
    obtain ⟨items, carries, spelled, distinct⟩ := settled.1 read
    exact ⟨items, options, carries, spelled, distinct, hasValues distinct⟩
  · rintro ⟨items, options, carries, spelled, distinct, values⟩
    rw [ofAttributes_eq, settled.2 ⟨items, carries, spelled, distinct⟩]
    exact congrArg Except.ok ((hasValues distinct).unique values)

/-- A field that is skipped and renamed. -/
private theorem skip_and_rename_iff {options : List FieldOption}
    (distinct : (options.map FieldOption.name).Nodup) :
    ((FieldSettings.made options).skip && (FieldSettings.made options).rename.isSome) = true ↔
      ∃ name, .skip ∈ options ∧ .rename name ∈ options := by
  have values := FieldSettings.hasValues distinct
  rw [Bool.and_eq_true, values.skip, Option.isSome_iff_exists, ← exists_and_left]
  exact exists_congr fun name => and_congr_right fun _ => values.rename name

/-- The settings of a field are those that its items give. -/
theorem FieldSettings.ofAttributes_eq_ok_iff {as : List Attribute} {s : FieldSettings} :
    ofAttributes as = .ok s ↔ Given as s := by
  have settled {options : List FieldOption} :=
    @settled_readAttributes_iff _ FieldOption.grammar as FieldOption.name options
  simp only [funext₂ fun i o => propext (FieldOption.spelled_iff (i := i) (o := o))] at settled
  constructor
  · intro made
    rw [ofAttributes_eq] at made
    rcases read : (readAttributes FieldOption.grammar as).settled FieldOption.name with
      fault | options <;> rw [read] at made
    · cases made
    obtain ⟨items, carries, spelled, distinct⟩ := settled.1 read
    change (if _ = true then _ else _) = _ at made
    split at made
    · cases made
    · rename_i apart
      cases made
      exact ⟨items, options, carries, spelled, distinct,
        fun both => apart ((skip_and_rename_iff distinct).2 both), hasValues distinct⟩
  · rintro ⟨items, options, carries, spelled, distinct, apart, values⟩
    rw [ofAttributes_eq, settled.2 ⟨items, carries, spelled, distinct⟩]
    change (if _ = true then _ else _) = _
    rw [if_neg fun both => apart ((skip_and_rename_iff distinct).1 both)]
    exact congrArg Except.ok ((hasValues distinct).unique values)

/-! ### Order and grouping -/

theorem carries_append_iff {as as' : List Attribute} {items : List (List Token)} :
    Carries (as ++ as') items ↔
      ∃ is is', items = is ++ is' ∧ Carries as is ∧ Carries as' is' := by
  constructor
  · intro carries
    induction as generalizing items with
    | nil => exact ⟨[], items, rfl, .nil, carries⟩
    | cons a as ih =>
      cases carries with
      | other foreign others =>
        obtain ⟨is, is', rfl, front, back⟩ := ih others
        exact ⟨is, is', rfl, .other foreign front, back⟩
      | @bean _ _ _ first _ bean list listed others =>
        obtain ⟨is, is', rfl, front, back⟩ := ih others
        exact ⟨first ++ is, is', (List.append_assoc ..).symm, .bean bean list listed front, back⟩
  · rintro ⟨is, is', rfl, front, back⟩
    induction front with
    | nil => exact back
    | other foreign others ih => exact .other foreign ih
    | bean bean list listed others ih =>
      rw [List.append_assoc]
      exact .bean bean list listed ih

/-- Only the bean attributes carry items. -/
theorem carries_filter_iff {as : List Attribute} {items : List (List Token)} :
    Carries (as.filter Attribute.isBean) items ↔ Carries as items := by
  induction as generalizing items with
  | nil => rfl
  | cons a as ih =>
    cases bean : a.isBean with
    | false =>
      rw [List.filter_cons_of_neg (by simp [bean]), ih]
      constructor
      · exact .other bean
      · rintro (_ | ⟨_, others⟩ | ⟨bean', _⟩)
        · exact others
        · cases bean.symm.trans bean'
    | true =>
      rw [List.filter_cons_of_pos bean]
      constructor
      · rintro (_ | ⟨foreign, _⟩ | ⟨_, list, listed, others⟩)
        · cases foreign.symm.trans bean
        · exact .bean bean list listed (ih.1 others)
      · rintro (_ | ⟨foreign, _⟩ | ⟨_, list, listed, others⟩)
        · cases foreign.symm.trans bean
        · exact .bean bean list listed (ih.2 others)

/-- Attributes in another order carry the same items, in another order. -/
theorem Carries.perm {as as' : List Attribute} {items : List (List Token)} (h : Carries as items)
    (perm : as.Perm as') : ∃ items', Carries as' items' ∧ items.Perm items' := by
  induction perm generalizing items with
  | nil => exact ⟨items, h, .rfl⟩
  | cons a _ ih =>
    cases h with
    | other foreign others =>
      obtain ⟨items', carries, same⟩ := ih others
      exact ⟨items', .other foreign carries, same⟩
    | @bean _ _ _ first _ bean list listed others =>
      obtain ⟨items', carries, same⟩ := ih others
      exact ⟨first ++ items', .bean bean list listed carries, same.append_left first⟩
  | swap a b as =>
    obtain ⟨is, rest, rfl, ofFirst, others⟩ := (@carries_append_iff [b] _ _).1 h
    obtain ⟨is', rest', rfl, ofSecond, others⟩ := (@carries_append_iff [a] _ _).1 others
    refine ⟨is' ++ (is ++ rest'), ?_, List.perm_append_comm_assoc ..⟩
    exact (@carries_append_iff [a] _ _).2 ⟨_, _, rfl, ofSecond,
      (@carries_append_iff [b] _ _).2 ⟨_, _, rfl, ofFirst, others⟩⟩
  | trans _ _ ih ih' =>
    obtain ⟨between, carries, same⟩ := ih h
    obtain ⟨items', carries', same'⟩ := ih' carries
    exact ⟨items', carries', same.trans same'⟩

/-- The bean attributes of two lists are some that they have in common, and others which carry the
same items in whatever order and grouping; attributes that are not of beans may stand anywhere. -/
def Rearranged (as as' : List Attribute) : Prop :=
  ∃ common listed listed' items items',
    (as.filter Attribute.isBean).Perm (common ++ listed) ∧
    (as'.filter Attribute.isBean).Perm (common ++ listed') ∧
    Carries listed items ∧ Carries listed' items' ∧
    items.Perm items' ∧ ∀ i ∈ items, IsItem i

theorem Rearranged.symm {as as' : List Attribute} (h : Rearranged as as') : Rearranged as' as := by
  obtain ⟨common, listed, listed', items, items', beans, beans', carries, carries', perm,
    whole⟩ := h
  exact ⟨common, listed', listed, items', items, beans', beans, carries', carries, perm.symm,
    fun i mem => whole i (perm.mem_iff.2 mem)⟩

/-- Rearranged attributes carry the same items. -/
theorem Rearranged.exists_carries {as as' : List Attribute} {items : List (List Token)}
    (h : Rearranged as as') (carries : Carries as items) (whole : ∀ i ∈ items, IsItem i) :
    ∃ items', Carries as' items' ∧ items.Perm items' := by
  obtain ⟨common, listed, listed', regrouped, regrouped', beans, beans', ofListed, ofListed', perm,
    wholeListed⟩ := h
  obtain ⟨all, ofAll, toAll⟩ := (carries_filter_iff.2 carries).perm beans
  obtain ⟨kept, rest, rfl, ofCommon, ofRest⟩ := carries_append_iff.1 ofAll
  obtain rfl : rest = regrouped := ofRest.unique ofListed
    (fun i mem => whole i (toAll.mem_iff.2 (List.mem_append_right _ mem))) wholeListed
  obtain ⟨items', ofAll', fromAll⟩ :=
    (carries_append_iff.2 ⟨kept, regrouped', rfl, ofCommon, ofListed'⟩).perm beans'.symm
  exact ⟨items', carries_filter_iff.1 ofAll',
    toAll.trans ((perm.append_left kept).trans fromAll)⟩

/-- Rearranged attributes spell the same options. -/
private theorem Rearranged.exists_spelled {α : Type} {Spelled : List Token → α → Prop}
    (isItem : ∀ {i a}, Spelled i a → IsItem i) {as as' : List Attribute}
    {items : List (List Token)} {options : List α} (h : Rearranged as as')
    (carries : Carries as items) (spelled : List.Forall₂ Spelled items options) :
    ∃ items' options', Carries as' items' ∧ List.Forall₂ Spelled items' options' ∧
      options.Perm options' := by
  have whole : ∀ i ∈ items, IsItem i :=
    ((List.forall₂_and_left _ _).1 (spelled.imp fun _ _ one => ⟨isItem one, one⟩)).1
  obtain ⟨items', carries', perm⟩ := h.exists_carries carries whole
  obtain ⟨options', spelled', perm'⟩ := List.perm_comp_forall₂ perm.symm spelled
  exact ⟨items', options', carries', spelled', perm'.symm⟩

theorem TypeSettings.HasValues.perm {s : TypeSettings} {options options' : List TypeOption}
    (h : s.HasValues options) (perm : options.Perm options') : s.HasValues options' where
  typePath literal := by simp only [h.typePath literal, perm.mem_iff]
  conventions := h.conventions.trans perm.mem_iff
  autoRegister := h.autoRegister.trans perm.mem_iff

theorem FieldSettings.HasValues.perm {s : FieldSettings} {options options' : List FieldOption}
    (h : s.HasValues options) (perm : options.Perm options') : s.HasValues options' where
  skip := h.skip.trans perm.mem_iff
  rename name := (h.rename name).trans perm.mem_iff

theorem TypeSettings.Given.rearranged {as as' : List Attribute} {s : TypeSettings}
    (h : Given as s) (r : Rearranged as as') : Given as' s := by
  obtain ⟨items, options, carries, spelled, distinct, values⟩ := h
  obtain ⟨items', options', carries', spelled', perm⟩ :=
    r.exists_spelled (fun one => (TypeOption.spelled_iff.2 one).isItem) carries spelled
  exact ⟨items', options', carries', spelled', (perm.map _).nodup_iff.1 distinct,
    values.perm perm⟩

theorem FieldSettings.Given.rearranged {as as' : List Attribute} {s : FieldSettings}
    (h : Given as s) (r : Rearranged as as') : Given as' s := by
  obtain ⟨items, options, carries, spelled, distinct, apart, values⟩ := h
  obtain ⟨items', options', carries', spelled', perm⟩ :=
    r.exists_spelled (fun one => (FieldOption.spelled_iff.2 one).isItem) carries spelled
  refine ⟨items', options', carries', spelled', (perm.map _).nodup_iff.1 distinct, ?_,
    values.perm perm⟩
  simpa only [perm.mem_iff] using apart

/-- Attributes make settings exactly if every bean attribute among them has a list of items, each
item spells an option, no option is given twice by all of them together, and no field is skipped and
renamed; the settings have the values of the options. The same items in another order and grouping,
with other attributes anywhere between, make the same settings; and none if these make none. -/
theorem settings_of_items :
    (∀ as s, TypeSettings.ofAttributes as = .ok s ↔ TypeSettings.Given as s) ∧
    (∀ as s, FieldSettings.ofAttributes as = .ok s ↔ FieldSettings.Given as s) ∧
    ∀ as as', Rearranged as as' →
      (∀ s, TypeSettings.ofAttributes as = .ok s ↔ TypeSettings.ofAttributes as' = .ok s) ∧
      ∀ s, FieldSettings.ofAttributes as = .ok s ↔ FieldSettings.ofAttributes as' = .ok s := by
  refine ⟨fun as s => TypeSettings.ofAttributes_eq_ok_iff,
    fun as s => FieldSettings.ofAttributes_eq_ok_iff, fun as as' r => ⟨fun s => ?_, fun s => ?_⟩⟩
  · rw [TypeSettings.ofAttributes_eq_ok_iff, TypeSettings.ofAttributes_eq_ok_iff]
    exact ⟨fun h => h.rearranged r, fun h => h.rearranged r.symm⟩
  · rw [FieldSettings.ofAttributes_eq_ok_iff, FieldSettings.ofAttributes_eq_ok_iff]
    exact ⟨fun h => h.rearranged r, fun h => h.rearranged r.symm⟩

/-- `#[bean(conventions, type_path = "a",)]` and
`#[bean(type_path = "a")] #[doc] #[bean(conventions)]` make the same settings. -/
theorem settings_of_items_regrouped :
    let conventions : Token := .ident "conventions"
    let typePath : List Token := [.ident "type_path", .mark '=' false, string "a"]
    let together : List Attribute :=
      [⟨[.ident "bean"], .list (conventions :: .mark ',' false :: (typePath ++ [.mark ',' false]))⟩]
    let apart : List Attribute :=
      [⟨[.ident "bean"], .list typePath⟩, ⟨[.ident "doc"], .missing⟩,
        ⟨[.ident "bean"], .list [conventions]⟩]
    Rearranged together apart ∧
      TypeSettings.ofAttributes apart =
        .ok { typePath := some (string "a"), conventions := true } := by
  intro conventions typePath together apart
  have row : Listed [[conventions], typePath]
      (spliced (conventions :: .mark ',' false :: (typePath ++ [.mark ',' false]))) :=
    .cons [conventions] false (.cons typePath false .nil)
  have both : Carries together [[conventions], typePath] := .bean rfl rfl row .nil
  have first : Listed [typePath] (spliced typePath) := .last typePath
  have second : Listed [[conventions]] (spliced [conventions]) := .last [conventions]
  have each : Carries (apart.filter Attribute.isBean) [typePath, [conventions]] :=
    .bean rfl rfl first (.bean rfl rfl second .nil)
  have rearranged : Rearranged together apart := by
    refine ⟨[], together, apart.filter Attribute.isBean, [[conventions], typePath],
      [typePath, [conventions]], .rfl, .rfl, both, each, .swap .., ?_⟩
    simp [IsItem, isComma, conventions, typePath, string]
  exact ⟨rearranged, ((settings_of_items.2.2 _ _ rearranged).1 _).1 rfl⟩

end BeanStream.Derive
