import BeanStream.Derive.Attribute

/-!
# Options in their slots

While attributes are read, each option is put into its slot at once. It comes to the same to **read
all options first**, up to the first fault of form (`readAttributes`), and to settle them
afterwards: each may be given once, and a repeated option comes before a fault of form that stands
behind it (`Reading.settled`).

This is so wherever options that have been put into their slots make up what they would make by
themselves, and a slot refuses a second option (`SetOnce`). Main facts: the settings are made of the
options that the attributes settle on (`TypeSettings.ofAttributes_eq`,
`FieldSettings.ofAttributes_eq`).
-/

namespace BeanStream.Derive

open Source

/-! ### Reading all options first -/

/-- The options that have been read, and the fault that stopped the reading, if any. -/
structure Reading (α : Type) where
  options : List α
  fault : Option Rejection
  deriving DecidableEq

namespace Reading

variable {α β : Type}

/-- A fault in front of all options. -/
def failed (fault : Rejection) : Reading α := ⟨[], some fault⟩

/-- One more option in front. -/
def cons (a : α) (r : Reading α) : Reading α := { r with options := a :: r.options }

/-- Reads on behind a reading, unless it stopped at a fault. -/
def append (r s : Reading α) : Reading α :=
  match r.fault with
  | none => ⟨r.options ++ s.options, s.fault⟩
  | some _ => r

end Reading

/-- Reads options between commas. A comma may follow the last one. -/
def readOptions {α : Type} (g : Grammar α) : List Token → Reading α
  | [] => ⟨[], none⟩
  | .ident name :: rest =>
    if !isName name then .failed (.keyword name) else
    match g name, rest with
    | .error fault, _ => .failed fault
    | .ok (.alone a), .mark ',' _ :: rest => (readOptions g rest).cons a
    | .ok (.alone a), [] => ⟨[a], none⟩
    | .ok (.alone a), _ => ⟨[a], some (.missingMark ',')⟩
    | .ok (.text accept), .mark '=' _ :: .literal written (some value) :: rest =>
      match accept written value, rest with
      | .error fault, _ => .failed fault
      | .ok a, .mark ',' _ :: rest => (readOptions g rest).cons a
      | .ok a, [] => ⟨[a], none⟩
      | .ok a, _ => ⟨[a], some (.missingMark ',')⟩
    | .ok (.text _), .mark '=' _ :: rest => .failed (.notString rest.isEmpty)
    | .ok (.text _), _ => .failed (.missingMark '=')
  | _ :: _ => .failed .notIdentifier

/-- Reads the options of all bean attributes. -/
def readAttributes {α : Type} (g : Grammar α) : List Attribute → Reading α
  | [] => ⟨[], none⟩
  | a :: as =>
    if a.isBean then
      match a.arguments with
      | .missing => .failed .noArguments
      | .value => .failed .notParenthesised
      | .list ts => (readOptions g (spliced ts)).append (readAttributes g as)
    else readAttributes g as

/-- The first name that also stands in front of itself, or among some `earlier` names. -/
def firstRepeated (earlier : List String) : List String → Option String
  | [] => none
  | n :: ns => if n ∈ earlier then some n else firstRepeated (n :: earlier) ns

/-- No name is repeated exactly if the names differ from each other and from the earlier ones. -/
theorem firstRepeated_eq_none_iff {earlier names : List String} :
    firstRepeated earlier names = none ↔ names.Nodup ∧ ∀ n ∈ names, n ∉ earlier := by
  induction names generalizing earlier with
  | nil => simp [firstRepeated]
  | cons n ns ih =>
    by_cases h : n ∈ earlier
    · simp [firstRepeated, h]
    · simp only [firstRepeated, h, if_false, ih, List.nodup_cons, List.mem_cons, not_or,
        forall_eq_or_imp, not_false_eq_true, true_and]
      constructor
      · rintro ⟨distinct, fresh⟩
        exact ⟨⟨fun again => (fresh n again).1 rfl, distinct⟩, fun m hm => (fresh m hm).2⟩
      · rintro ⟨⟨once, distinct⟩, fresh⟩
        exact ⟨distinct, fun m hm => ⟨fun same => once (same ▸ hm), fresh m hm⟩⟩

/-- The options, if each is given once and no fault stopped the reading. -/
def Reading.settled {α : Type} (nameOf : α → String) (r : Reading α) :
    Except Rejection (List α) :=
  match firstRepeated [] (r.options.map nameOf), r.fault with
  | some name, _ => .error (.repeated name)
  | none, some fault => .error fault
  | none, none => .ok r.options

/-- Reading settles exactly if nothing stopped it and no option is given twice. -/
theorem Reading.settled_eq_ok_iff {α : Type} {nameOf : α → String} {r : Reading α}
    {options : List α} :
    r.settled nameOf = .ok options ↔
      r.options = options ∧ r.fault = none ∧ (options.map nameOf).Nodup := by
  have distinct : firstRepeated [] (r.options.map nameOf) = none ↔
      (r.options.map nameOf).Nodup := by
    simp [firstRepeated_eq_none_iff]
  unfold settled
  cases hr : firstRepeated [] (r.options.map nameOf) with
  | some name =>
    have : ¬ (r.options.map nameOf).Nodup := fun h => by simp [distinct.mpr h] at hr
    simp only [reduceCtorEq, false_iff]
    rintro ⟨rfl, -, h⟩
    exact this h
  | none =>
    have nodup := distinct.mp hr
    cases hf : r.fault with
    | some fault => simp
    | none =>
      simp only [Except.ok.injEq, true_and]
      exact ⟨fun h => ⟨h, h ▸ nodup⟩, fun h => h.1⟩

/-! ### Putting options into slots -/

section Slots

variable {α σ : Type} {g : Grammar α} {put : α → σ → Except Rejection σ}

/-- Puts options into their slots, in order, and ends with the fault that is behind them, if any. -/
def Reading.fill (put : α → σ → Except Rejection σ) (r : Reading α) (s : σ) :
    Except Rejection σ := do
  let s ← r.options.foldlM (fun s a => put a s) s
  match r.fault with
  | none => return s
  | some fault => throw fault

theorem Reading.fill_failed (fault : Rejection) (s : σ) :
    (Reading.failed fault : Reading α).fill put s = .error fault := rfl

theorem Reading.fill_one (a : α) (s : σ) : (⟨[a], none⟩ : Reading α).fill put s = put a s := by
  rw [fill, List.foldlM_cons]
  rcases put a s with fault | s' <;> rfl

theorem Reading.fill_one_fault (a : α) (fault : Rejection) (s : σ) :
    (⟨[a], some fault⟩ : Reading α).fill put s = put a s >>= fun _ => throw fault := by
  rw [fill, List.foldlM_cons]
  rcases put a s with fault | s' <;> rfl

theorem Reading.fill_cons (a : α) (r : Reading α) (s : σ) :
    (r.cons a).fill put s = (do r.fill put (← put a s)) := by
  rw [fill, cons, List.foldlM_cons, bind_assoc]
  rfl

theorem Reading.fill_append (r r' : Reading α) (s : σ) :
    (r.append r').fill put s = r.fill put s >>= r'.fill put := by
  obtain ⟨options, _ | fault⟩ := r
  · simp only [append, fill, List.foldlM_append, bind_assoc, pure_bind]
  · simp only [append, fill, bind_assoc]
    rfl

/-- Options are put into their slots as they are read, or afterwards. -/
theorem fillOptions_eq (ts : List Token) (s : σ) :
    fillOptions g put ts s = (readOptions g ts).fill put s := by
  fun_induction fillOptions g put ts s with
  | case1 => rfl
  | case2 name rest s keyword =>
    rw [readOptions.eq_def]
    simp only [keyword, if_true, Reading.fill_failed]
  | _ =>
    simp_all [readOptions, Reading.fill_failed, Reading.fill_one, Reading.fill_one_fault,
      Reading.fill_cons]

theorem fillAttributes_eq (as : List Attribute) (s : σ) :
    fillAttributes g put as s = (readAttributes g as).fill put s := by
  induction as generalizing s with
  | nil => rfl
  | cons a as ih =>
    rw [fillAttributes, readAttributes]
    split
    · rcases a.arguments with _ | _ | ts
      · rfl
      · rfl
      · rw [Reading.fill_append, ← fillOptions_eq]
        exact congrArg _ (funext ih)
    · exact ih s

/-- Options in their slots make up what they make by themselves, and each goes into its slot unless
one with its name is there. -/
def SetOnce (put : α → σ → Except Rejection σ) (nameOf : α → String) (made : List α → σ) : Prop :=
  ∀ earlier a, put a (made earlier) = setOnce (decide (nameOf a ∈ earlier.map nameOf)) (nameOf a)
    (made (earlier ++ [a]))

/-- Only which names are among the earlier ones matters. -/
private theorem firstRepeated_congr {earlier earlier' names : List String}
    (same : ∀ n, n ∈ earlier ↔ n ∈ earlier') :
    firstRepeated earlier names = firstRepeated earlier' names := by
  induction names generalizing earlier earlier' with
  | nil => rfl
  | cons n ns ih =>
    have grown : ∀ m, m ∈ n :: earlier ↔ m ∈ n :: earlier' := fun m => by
      rw [List.mem_cons, List.mem_cons, same]
    simp only [firstRepeated, same, ih grown]

variable {nameOf : α → String} {made : List α → σ}

/-- Putting options behind earlier ones stops at the first that is repeated. -/
theorem SetOnce.foldlM_put (h : SetOnce put nameOf made) (earlier options : List α) :
    options.foldlM (fun s a => put a s) (made earlier) =
      match firstRepeated (earlier.map nameOf) (options.map nameOf) with
      | some name => .error (.repeated name)
      | none => .ok (made (earlier ++ options)) := by
  induction options generalizing earlier with
  | nil =>
    rw [List.append_nil]
    rfl
  | cons a options ih =>
    rw [List.foldlM_cons, h, List.map_cons, firstRepeated]
    by_cases again : nameOf a ∈ earlier.map nameOf
    · rw [decide_eq_true again, if_pos again]
      rfl
    · have grown : ∀ n, n ∈ nameOf a :: earlier.map nameOf ↔ n ∈ (earlier ++ [a]).map nameOf := by
        simp [or_comm]
      have others := ih (earlier ++ [a])
      rw [← List.append_cons] at others
      rw [decide_eq_false again, if_neg again, firstRepeated_congr grown]
      exact others

/-- What comes of putting options into their slots is made of the options that are settled on. -/
theorem SetOnce.fill_eq (h : SetOnce put nameOf made) (r : Reading α) :
    r.fill put (made []) = made <$> r.settled nameOf := by
  have put_all := h.foldlM_put [] r.options
  rw [List.map_nil, List.nil_append] at put_all
  rw [Reading.fill, put_all, Reading.settled]
  rcases firstRepeated [] (r.options.map nameOf) with _ | name
  · rcases r.fault with _ | fault <;> rfl
  · rfl

/-- What attributes make is made of the options that they settle on. -/
theorem SetOnce.fillAttributes_eq (h : SetOnce put nameOf made) (as : List Attribute) :
    fillAttributes g put as (made []) = made <$> (readAttributes g as).settled nameOf := by
  rw [Derive.fillAttributes_eq, h.fill_eq]

end Slots

/-! ### Settings -/

/-- The literal of a type path. -/
def TypeOption.literal? : TypeOption → Option Token
  | .typePath written value => some (.literal written (some value))
  | _ => none

/-- The settings that options of a type make. -/
def TypeSettings.made (options : List TypeOption) : TypeSettings where
  typePath := options.findSome? TypeOption.literal?
  conventions := .conventions ∈ options
  autoRegister := .autoRegister ∈ options

/-- The name that an option gives. -/
def FieldOption.rename? : FieldOption → Option String
  | .skip => none
  | .rename name => some name

/-- The settings that options of a field make. -/
def FieldSettings.made (options : List FieldOption) : FieldSettings where
  skip := .skip ∈ options
  rename := options.findSome? FieldOption.rename?

/-- What is in a slot that is set already does not matter. -/
private theorem setOnce_congr {σ : Type} {isSet isSet' : Bool} (same : isSet = isSet')
    (name : String) {s s' : σ} (fresh : isSet' = false → s = s') :
    setOnce isSet name s = setOnce isSet' name s' := by
  obtain rfl := same
  cases isSet with
  | true => rfl
  | false => rw [fresh rfl]

/-- The slot of a text is set if there is an option with the name of the slot. -/
private theorem isSome_findSome?_eq {α β : Type} {nameOf : α → String} {f : α → Option β}
    {name : String} (kind : ∀ a, (f a).isSome = true ↔ nameOf a = name) (options : List α) :
    (options.findSome? f).isSome = decide (name ∈ options.map nameOf) := by
  rw [Bool.eq_iff_iff, decide_eq_true_iff, List.isSome_findSome?, List.any_eq_true, List.mem_map]
  simp only [kind]

/-- So is the slot of an option that is alone. -/
private theorem decide_mem_eq {α : Type} [DecidableEq α] {nameOf : α → String} {a : α}
    (kind : ∀ b, nameOf b = nameOf a → b = a) (options : List α) :
    decide (a ∈ options) = decide (nameOf a ∈ options.map nameOf) := by
  rw [decide_eq_decide, List.mem_map]
  constructor
  · exact fun mem => ⟨a, mem, rfl⟩
  · rintro ⟨b, mem, same⟩
    exact kind b same ▸ mem

theorem TypeSettings.setOnce_put : SetOnce put TypeOption.name made := by
  intro earlier o
  cases o with
  | typePath written value =>
    have set : (made earlier).typePath.isSome =
        decide ("type_path" ∈ earlier.map TypeOption.name) :=
      isSome_findSome?_eq
        (by rintro (_ | _ | _) <;> simp [TypeOption.literal?, TypeOption.name]) earlier
    refine setOnce_congr set _ fun fresh => ?_
    rw [← set, Option.isSome_eq_false_iff, Option.isNone_iff_eq_none] at fresh
    have none : earlier.findSome? TypeOption.literal? = none := fresh
    simp [made, List.findSome?_append, none, TypeOption.literal?]
  | conventions =>
    have set : (made earlier).conventions =
        decide ("conventions" ∈ earlier.map TypeOption.name) :=
      decide_mem_eq (by rintro (_ | _ | _) <;> simp [TypeOption.name]) earlier
    refine setOnce_congr set _ fun _ => ?_
    simp [made, List.findSome?_append, TypeOption.literal?]
  | autoRegister =>
    have set : (made earlier).autoRegister =
        decide ("auto_register" ∈ earlier.map TypeOption.name) :=
      decide_mem_eq (by rintro (_ | _ | _) <;> simp [TypeOption.name]) earlier
    refine setOnce_congr set _ fun _ => ?_
    simp [made, List.findSome?_append, TypeOption.literal?]

/-- The settings of a type are made of the options that its attributes settle on. -/
theorem TypeSettings.ofAttributes_eq (as : List Attribute) :
    ofAttributes as = made <$> (readAttributes TypeOption.grammar as).settled TypeOption.name :=
  setOnce_put.fillAttributes_eq as

theorem FieldSettings.setOnce_put : SetOnce put FieldOption.name made := by
  intro earlier o
  cases o with
  | skip =>
    have set : (made earlier).skip = decide ("skip" ∈ earlier.map FieldOption.name) :=
      decide_mem_eq (by rintro (_ | _) <;> simp [FieldOption.name]) earlier
    refine setOnce_congr set _ fun _ => ?_
    simp [made, List.findSome?_append, FieldOption.rename?]
  | rename name =>
    have set : (made earlier).rename.isSome = decide ("rename" ∈ earlier.map FieldOption.name) :=
      isSome_findSome?_eq
        (by rintro (_ | _) <;> simp [FieldOption.rename?, FieldOption.name]) earlier
    refine setOnce_congr set _ fun fresh => ?_
    rw [← set, Option.isSome_eq_false_iff, Option.isNone_iff_eq_none] at fresh
    have none : earlier.findSome? FieldOption.rename? = none := fresh
    simp [made, List.findSome?_append, none, FieldOption.rename?]

/-- The settings of a field are made of the options that its attributes settle on, unless these
rename a field that is skipped. -/
theorem FieldSettings.ofAttributes_eq (as : List Attribute) :
    ofAttributes as = do
      let options ← (readAttributes FieldOption.grammar as).settled FieldOption.name
      if (made options).skip && (made options).rename.isSome then throw .renamedSkip
      return made options := by
  have filled := setOnce_put.fillAttributes_eq (g := FieldOption.grammar) as
  rw [ofAttributes, show ({} : FieldSettings) = made [] from rfl, filled, map_eq_pure_bind,
    bind_assoc]
  rfl

end BeanStream.Derive
