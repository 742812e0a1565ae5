import BeanStream.Manifest.Cache
import BeanStream.Proofs.Manifest.Listing
import Mathlib.Data.Fintype.EquivFin

/-!
# Which path a crate has

A crate may be reached in several ways: among the names of a section as **itself**, or through one
of the **facades** as a module of it (`FoundAmong`); and that in the section of the dependencies, or
in the one of those for tests. The first way that applies is the path (`Document.Resolves`).

Main facts: of a manifest whose sections are ordinary tables, each crate has **exactly the path that
the order of these ways gives it**, and the path is one of identifiers
(`Document.cratePath_takes_first`); and two manifests that list the same names give all crates the
same paths **as long as the same sections are ordinary tables**
(`Document.same_paths_of_same_names`). They need not otherwise: a section that is written as a value
is not seen (`Document.paths_differ_by_spelling`).
-/

namespace BeanStream.Manifest

/-- The path of a crate among listed names: the first of three that applies. -/
inductive FoundAmong (listed : List String) (name : String) : CratePath → Prop
  | itself (own : name ∈ listed) : FoundAmong listed name { root := name }
  | core {short} (family : name = "stash_" ++ short) (other : name ∉ listed)
      (facade : "stash_core" ∈ listed) :
      FoundAmong listed name { root := "stash_core", submodule := some short }
  | renamed {short} (family : name = "stash_" ++ short) (other : name ∉ listed)
      (noCore : "stash_core" ∉ listed) (facade : "stash" ∈ listed) :
      FoundAmong listed name { root := "stash", submodule := some short }

/-- The path of a crate: what is found among the dependencies comes before what is found among those
of tests, and the name of the crate itself is what is left. -/
inductive Document.Resolves (d : Document) (name : String) : CratePath → Prop
  | dependency {p} (found : FoundAmong (d.declaredKeys "dependencies") name p) : Resolves d name p
  | ofTests {p} (other : ∀ q, ¬ FoundAmong (d.declaredKeys "dependencies") name q)
      (found : FoundAmong (d.declaredKeys "dev-dependencies") name p) : Resolves d name p
  | fallback (other : ∀ q, ¬ FoundAmong (d.declaredKeys "dependencies") name q)
      (other' : ∀ q, ¬ FoundAmong (d.declaredKeys "dev-dependencies") name q) :
      Resolves d name { root := name }

/-! ### Among the names of one section -/

variable {listed listed' : List String} {name short : String} {p : CratePath}

/-- A crate of the family is named for its module in a facade. -/
theorem submoduleName?_eq_some_iff :
    submoduleName? name = some short ↔ name = "stash_" ++ short := by
  rw [submoduleName?, Option.map_eq_some_iff]
  simp only [List.isPrefixOf?_eq_some_iff_append_eq]
  constructor
  · rintro ⟨rest, split, rfl⟩
    have kept : (String.ofList rest).toList = rest := String.toList_ofList
    rw [← String.toList_inj, String.toList_append, kept]
    exact split.symm
  · rintro rfl
    exact ⟨short.toList, String.toList_append.symm, String.ofList_toList⟩

/-- The facade that is reached among listed names. -/
def facadeAmong? (listed : List String) : Option String := facades.find? (· ∈ listed)

theorem facadeAmong?_eq_some_iff {facade : String} : facadeAmong? listed = some facade ↔
    facade = "stash_core" ∧ "stash_core" ∈ listed ∨
      facade = "stash" ∧ "stash_core" ∉ listed ∧ "stash" ∈ listed := by
  by_cases core : "stash_core" ∈ listed <;> by_cases renamed : "stash" ∈ listed <;>
    simp [facadeAmong?, facades, core, renamed, eq_comm]

theorem pathAmong?_family (listed : List String) (short : String) :
    pathAmong? listed ("stash_" ++ short) =
      if "stash_" ++ short ∈ listed then some { root := "stash_" ++ short }
      else (facadeAmong? listed).map fun facade => { root := facade, submodule := some short } := by
  have family : submoduleName? ("stash_" ++ short) = some short := submoduleName?_eq_some_iff.2 rfl
  rw [pathAmong?, family]
  split
  · rfl
  · change (facadeAmong? listed).bind _ = _
    cases facadeAmong? listed <;> rfl

/-- Facades are for the crates of the family only. -/
theorem pathAmong?_other (listed : List String) (other : ∀ short, name ≠ "stash_" ++ short) :
    pathAmong? listed name = if name ∈ listed then some { root := name } else none := by
  have none : submoduleName? name = none :=
    Option.eq_none_iff_forall_ne_some.2 fun short found =>
      other short (submoduleName?_eq_some_iff.1 found)
  rw [pathAmong?, none]
  rfl

/-- The three ways are tried in their order. -/
theorem pathAmong?_eq_some_iff : pathAmong? listed name = some p ↔ FoundAmong listed name p := by
  by_cases own : name ∈ listed
  · rw [pathAmong?_of_mem own, Option.some.injEq]
    constructor
    · rintro rfl
      exact .itself own
    · rintro (_ | ⟨_, other, _⟩ | ⟨_, other, _⟩)
      · rfl
      · exact absurd own other
      · exact absurd own other
  by_cases family : ∃ short, name = "stash_" ++ short
  · obtain ⟨short, rfl⟩ := family
    rw [pathAmong?_family, if_neg own, Option.map_eq_some_iff]
    simp only [facadeAmong?_eq_some_iff]
    constructor
    · rintro ⟨facade, ⟨rfl, core⟩ | ⟨rfl, noCore, renamed⟩, rfl⟩
      · exact .core rfl own core
      · exact .renamed rfl own noCore renamed
    · rintro (own' | @⟨short', same, _, core⟩ | @⟨short', same, _, noCore, renamed⟩)
      · exact absurd own' own
      · obtain rfl : short = short' := String.append_right_inj "stash_" |>.1 same
        exact ⟨_, .inl ⟨rfl, core⟩, rfl⟩
      · obtain rfl : short = short' := String.append_right_inj "stash_" |>.1 same
        exact ⟨_, .inr ⟨rfl, noCore, renamed⟩, rfl⟩
  · have other : ∀ short, name ≠ "stash_" ++ short := fun short same => family ⟨short, same⟩
    rw [pathAmong?_other listed other, if_neg own]
    refine iff_of_false nofun ?_
    rintro (own' | ⟨same, _⟩ | ⟨same, _⟩)
    · exact own own'
    · exact other _ same
    · exact other _ same

theorem pathAmong?_congr (same : ∀ name, name ∈ listed ↔ name ∈ listed') (name : String) :
    pathAmong? listed name = pathAmong? listed' name := by
  simp only [pathAmong?, same]

theorem pathAmong?_eq_none_iff :
    pathAmong? listed name = none ↔ ∀ p, ¬ FoundAmong listed name p := by
  rw [Option.eq_none_iff_forall_ne_some]
  exact forall_congr' fun p => not_congr pathAmong?_eq_some_iff

namespace FoundAmong

/-- What is found starts with a listed name. -/
theorem root_mem (h : FoundAmong listed name p) : p.root ∈ listed := by
  cases h with
  | itself own => exact own
  | core _ _ facade | renamed _ _ _ facade => exact facade

theorem isWellFormed (h : FoundAmong listed name p) (own : Text.isIdentifier name = true)
    (module : ∀ short, name = "stash_" ++ short → Text.isIdentifier short = true) :
    p.isWellFormed = true := by
  have core : Text.isIdentifier "stash_core" = true := by decide +kernel
  have renamed : Text.isIdentifier "stash" = true := by decide +kernel
  cases h with
  | itself => simp [CratePath.isWellFormed, CratePath.segments, own]
  | core family => simp [CratePath.isWellFormed, CratePath.segments, core, module _ family]
  | renamed family => simp [CratePath.isWellFormed, CratePath.segments, renamed, module _ family]

/-- Facades are for the crates of the family only. -/
theorem eq_itself (h : FoundAmong listed name p) (other : ∀ short, name ≠ "stash_" ++ short) :
    p = { root := name } := by
  cases h with
  | itself => rfl
  | core family | renamed family => exact absurd family (other _)

/-- A crate of the family that is not listed itself is reached through a facade. -/
theorem of_facade {facade : String} (known : facade ∈ facades) (there : facade ∈ listed)
    (other : "stash_" ++ short ∉ listed) : ∃ root ∈ facades, root ∈ listed ∧
      FoundAmong listed ("stash_" ++ short) { root, submodule := some short } := by
  by_cases core : "stash_core" ∈ listed
  · exact ⟨"stash_core", by decide, core, .core rfl other core⟩
  · have renamed : facade = "stash" := by
      rcases List.mem_cons.1 known with rfl | known
      · exact absurd there core
      · exact List.mem_singleton.1 known
    subst renamed
    exact ⟨"stash", by decide, there, .renamed rfl other core there⟩

end FoundAmong

namespace Document

variable {d d' : Document} {text text' : String} {ss ss' : List Statement}

theorem Resolves.isWellFormed (h : d.Resolves name p) (own : Text.isIdentifier name = true)
    (module : ∀ short, name = "stash_" ++ short → Text.isIdentifier short = true) :
    p.isWellFormed = true := by
  cases h with
  | dependency found | ofTests _ found => exact found.isWellFormed own module
  | fallback => simp [CratePath.isWellFormed, CratePath.segments, own]

theorem Resolves.eq_itself (h : d.Resolves name p) (other : ∀ short, name ≠ "stash_" ++ short) :
    p = { root := name } := by
  cases h with
  | dependency found | ofTests _ found => exact found.eq_itself other
  | fallback => rfl

theorem Resolves.root_mem (h : d.Resolves name p) :
    p.root ∈ d.declaredKeys "dependencies" ∨ p.root ∈ d.declaredKeys "dev-dependencies" ∨
      p = { root := name } ∧ (∀ q, ¬ FoundAmong (d.declaredKeys "dependencies") name q) ∧
        ∀ q, ¬ FoundAmong (d.declaredKeys "dev-dependencies") name q := by
  cases h with
  | dependency found => exact .inl found.root_mem
  | ofTests _ found => exact .inr (.inl found.root_mem)
  | fallback other other' => exact .inr (.inr ⟨rfl, other, other'⟩)

/-- The sections are asked one after another, for the names in them that are seen. -/
theorem cratePath_eq (d : Document) (name : String) : d.cratePath name =
    ((pathAmong? (d.seen "dependencies") name).or
      (pathAmong? (d.seen "dev-dependencies") name)).getD { root := name } := by
  have among (key : String) :
      (d.tableKeys? key).bind (pathAmong? · name) = pathAmong? (d.seen key) name := by
    rw [seen]
    cases d.tableKeys? key with
    | some keys => rfl
    | none =>
      symm
      refine pathAmong?_eq_none_iff.2 fun p found => ?_
      cases found <;> contradiction
  simp only [cratePath, dependencySections, among, List.findSome?_cons, List.findSome?_nil]
  cases pathAmong? (d.seen "dependencies") name with
  | some p => rfl
  | none => cases pathAmong? (d.seen "dev-dependencies") name <;> rfl

/-- Where the sections are ordinary tables, the path is the first one that applies. -/
theorem cratePath_eq_iff (read : Reads text ss d)
    (ordinary : ∀ key ∈ dependencySections, d.IsOrdinary key) :
    d.cratePath name = p ↔ d.Resolves name p := by
  rw [cratePath_eq, read.seen_of_isOrdinary (ordinary _ (by decide)),
    read.seen_of_isOrdinary (ordinary _ (by decide))]
  rcases found : pathAmong? (d.declaredKeys "dependencies") name with _ | q
  · have other := pathAmong?_eq_none_iff.1 found
    rcases found' : pathAmong? (d.declaredKeys "dev-dependencies") name with _ | q'
    · have other' := pathAmong?_eq_none_iff.1 found'
      constructor
      · rintro rfl
        exact .fallback other other'
      · rintro (found | ⟨_, found⟩ | _)
        · exact absurd found (other p)
        · exact absurd found (other' p)
        · rfl
    · constructor
      · rintro rfl
        exact .ofTests other (pathAmong?_eq_some_iff.1 found')
      · rintro (found | ⟨_, found⟩ | ⟨_, other'⟩)
        · exact absurd found (other p)
        · exact Option.some.inj (found'.symm.trans (pathAmong?_eq_some_iff.2 found))
        · exact absurd (pathAmong?_eq_some_iff.1 found') (other' q')
  · constructor
    · rintro rfl
      exact .dependency (pathAmong?_eq_some_iff.1 found)
    · rintro (found' | ⟨other, _⟩ | ⟨other, _⟩)
      · exact Option.some.inj (found.symm.trans (pathAmong?_eq_some_iff.2 found'))
      · exact absurd (pathAmong?_eq_some_iff.1 found) (other q)
      · exact absurd (pathAmong?_eq_some_iff.1 found) (other q)

/-- What is certain of the path of a crate. -/
structure Locates (d : Document) (name : String) (p : CratePath) : Prop where
  /-- It is the first that applies, -/
  resolves : d.Resolves name p
  /-- and there is no other one. -/
  only {q} (other : d.Resolves name q) : q = p
  /-- Whatever manifests are kept, it is the answer when this one is used. -/
  answered {c : Cache} {directory : Nat} {file : Nat → Option File} {f : File}
    (there : file directory = some f) (used : c.document directory f = .ok d) :
    (c.cratePath (some directory) file name).1 = .ok (some p)
  /-- A facade among the dependencies comes before the crate itself among those of tests. -/
  facade_first {short facade : String} (family : name = "stash_" ++ short)
    (other : name ∉ d.declaredKeys "dependencies") (known : facade ∈ facades)
    (there : facade ∈ d.declaredKeys "dependencies") :
    p.root ∈ facades ∧ p.root ∈ d.declaredKeys "dependencies" ∧ p.submodule = some short
  /-- Facades are for the crates of the family only. -/
  stranger (other : ∀ short, name ≠ "stash_" ++ short) : p = { root := name }
  /-- What the path starts with is listed, unless nothing is found. -/
  listed : p.root ∈ d.declaredKeys "dependencies" ∨ p.root ∈ d.declaredKeys "dev-dependencies" ∨
    p = { root := name } ∧ (∀ q, ¬ FoundAmong (d.declaredKeys "dependencies") name q) ∧
      ∀ q, ¬ FoundAmong (d.declaredKeys "dev-dependencies") name q

/-- A crate of a manifest whose sections are ordinary tables has the path that the order of the ways
gives it. -/
theorem cratePath_takes_first (read : ofText? text = some d)
    (ordinary : ∀ key ∈ dependencySections, d.IsOrdinary key)
    (own : Text.isIdentifier name = true)
    (module : ∀ short, name = "stash_" ++ short → Text.isIdentifier short = true) :
    d.Locates name (d.cratePath name) := by
  obtain ⟨ss, read⟩ := exists_reads_iff.2 read
  have unique {q : CratePath} : d.cratePath name = q ↔ d.Resolves name q :=
    cratePath_eq_iff read ordinary
  have resolves : d.Resolves name (d.cratePath name) := unique.1 rfl
  constructor
  case resolves => exact resolves
  case only => exact fun other => (unique.2 other).symm
  case answered =>
    intro c directory file f there used
    simp only [Cache.cratePath, there, used, resolves.isWellFormed own module, if_true]
  case facade_first =>
    rintro short facade rfl other known there
    obtain ⟨root, known, there, found⟩ := FoundAmong.of_facade known there other
    rw [unique.2 (.dependency found)]
    exact ⟨known, there, rfl⟩
  case stranger => exact resolves.eq_itself
  case listed => exact resolves.root_mem

/-- A facade among the dependencies, and the crate itself among those of tests. -/
theorem cratePath_takes_first_facade : ∃ d ∈ ofText?
      "[dependencies]\nserde = \"1\"\nstash = \"1\"\n[dev-dependencies]\nstash_bean = \"1\"\n",
    (∀ key ∈ dependencySections, d.IsOrdinary key) ∧
    d.Locates "stash_bean" { root := "stash", submodule := some "bean" } := by
  obtain ⟨d, read, ordinary, path⟩ : ∃ d ∈ ofText?
      "[dependencies]\nserde = \"1\"\nstash = \"1\"\n[dev-dependencies]\nstash_bean = \"1\"\n",
    (∀ key ∈ dependencySections, d.IsOrdinary key) ∧
    d.cratePath "stash_bean" = { root := "stash", submodule := some "bean" } := by decide +kernel
  have located : d.Locates "stash_bean" (d.cratePath "stash_bean") :=
    cratePath_takes_first read ordinary (by decide +kernel) fun short same => by
      obtain rfl : "bean" = short := String.append_right_inj "stash_" |>.1 same
      decide +kernel
  exact ⟨d, read, ordinary, path ▸ located⟩

/-! ### What the paths depend on -/

/-- The facade that crates of the family are reached through, unless they are exempt. -/
def facade? (d : Document) : Option String :=
  (facadeAmong? (d.seen "dependencies")).or (facadeAmong? (d.seen "dev-dependencies"))

/-- The names that are their own paths: those that are found before a facade is. -/
def exempt (d : Document) : List String :=
  if facadeAmong? (d.seen "dependencies") = none
    then d.seen "dependencies" ++ d.seen "dev-dependencies"
    else d.seen "dependencies"

/-- The path of a crate of the family, through a facade if there is one. -/
def throughFacade (short : String) : Option String → CratePath
  | none => { root := "stash_" ++ short }
  | some facade => { root := facade, submodule := some short }

theorem throughFacade_inj {facade facade' : Option String}
    (h : throughFacade short facade = throughFacade short facade') : facade = facade' := by
  cases facade <;> cases facade' <;> cases h <;> rfl

/-- A crate of the family is reached through the facade, unless it is exempt. -/
theorem cratePath_family (d : Document) (short : String) : d.cratePath ("stash_" ++ short) =
    throughFacade short (if "stash_" ++ short ∈ d.exempt then none else d.facade?) := by
  rw [cratePath_eq, pathAmong?_family, pathAmong?_family, facade?, exempt]
  by_cases own : "stash_" ++ short ∈ d.seen "dependencies"
  · by_cases none : facadeAmong? (d.seen "dependencies") = none <;> simp [own, none, throughFacade]
  rcases facadeAmong? (d.seen "dependencies") with _ | facade
  · by_cases own' : "stash_" ++ short ∈ d.seen "dev-dependencies"
    · simp [own, own', throughFacade]
    · cases facadeAmong? (d.seen "dev-dependencies") <;> simp [own, own', throughFacade]
  · simp [own, throughFacade]

/-- Another crate is its own path. -/
theorem cratePath_other (d : Document) (other : ∀ short, name ≠ "stash_" ++ short) :
    d.cratePath name = { root := name } := by
  rw [cratePath_eq, pathAmong?_other _ other, pathAmong?_other _ other]
  split
  · rfl
  · split <;> rfl

/-- Some crate of the family is not among finitely many names. -/
theorem exists_fresh (names : List String) : ∃ short, "stash_" ++ short ∉ names := by
  obtain ⟨short, fresh⟩ := Infinite.exists_notMem_finset (names.filterMap submoduleName?).toFinset
  refine ⟨short, fun mem => fresh ?_⟩
  exact List.mem_toFinset.2 (List.mem_filterMap.2 ⟨_, mem, submoduleName?_eq_some_iff.2 rfl⟩)

/-- Documents give all crates the same paths exactly if they lead through the same facade and, if
there is one, exempt the same crates of the family. -/
theorem cratePath_congr_iff : (∀ name, d.cratePath name = d'.cratePath name) ↔
    d.facade? = d'.facade? ∧
      (d.facade? ≠ none →
        ∀ short, "stash_" ++ short ∈ d.exempt ↔ "stash_" ++ short ∈ d'.exempt) := by
  constructor
  · intro same
    have same (short : String) := throughFacade_inj <|
      (cratePath_family d short).symm.trans <| (same _).trans (cratePath_family d' short)
    have facade : d.facade? = d'.facade? := by
      obtain ⟨short, fresh⟩ := exists_fresh (d.exempt ++ d'.exempt)
      rw [List.mem_append, not_or] at fresh
      have same := same short
      rwa [if_neg fresh.1, if_neg fresh.2] at same
    refine ⟨facade, fun there short => ?_⟩
    have same := same short
    rw [← facade] at same
    by_cases own : "stash_" ++ short ∈ d.exempt <;> by_cases own' : "stash_" ++ short ∈ d'.exempt
    all_goals simp_all
  · rintro ⟨facade, exempt⟩ name
    by_cases family : ∃ short, name = "stash_" ++ short
    · obtain ⟨short, rfl⟩ := family
      rw [cratePath_family, cratePath_family, ← facade]
      rcases there : d.facade? with _ | root
      · simp
      · rw [there] at exempt
        simp only [exempt (Option.some_ne_none root) short]
    · have other : ∀ short, name ≠ "stash_" ++ short := fun short same => family ⟨short, same⟩
      rw [cratePath_other d other, cratePath_other d' other]

/-- Documents whose sections show the same names give all crates the same paths. -/
theorem cratePath_congr
    (same : ∀ key ∈ dependencySections, ∀ name, name ∈ d.seen key ↔ name ∈ d'.seen key)
    (name : String) : d.cratePath name = d'.cratePath name := by
  rw [cratePath_eq, cratePath_eq, pathAmong?_congr (same "dependencies" (by decide)),
    pathAmong?_congr (same "dev-dependencies" (by decide))]

/-- Texts that list the same names give all crates the same paths, if the sections with names are
ordinary tables in both or in neither; and exactly if the names that are seen lead through the same
facade and exempt the same crates from it. -/
theorem same_paths_of_same_names (read : Reads text ss d) (read' : Reads text' ss' d')
    (names : ∀ key ∈ dependencySections, ∀ name, Listed ss key name ↔ Listed ss' key name) :
    ((∀ key ∈ dependencySections, (∃ name, Listed ss key name) →
        (d.IsOrdinary key ↔ d'.IsOrdinary key)) →
      ∀ name, d.cratePath name = d'.cratePath name) ∧
    ((∀ name, d.cratePath name = d'.cratePath name) ↔
      d.facade? = d'.facade? ∧ (d.facade? ≠ none →
        ∀ short, "stash_" ++ short ∈ d.exempt ↔ "stash_" ++ short ∈ d'.exempt)) := by
  refine ⟨fun spelled => cratePath_congr fun key mem name => ?_, cratePath_congr_iff⟩
  rw [read.mem_seen_iff, read'.mem_seen_iff, ← names key mem name]
  exact and_congr_left fun listed => spelled key mem ⟨name, listed⟩

/-- A header, and the headers of tables below. -/
theorem same_paths_of_same_names_spelled : ∃ ss d ss' d',
    Reads "[dependencies]\nstash_core = \"1\"\n" ss d ∧
    Reads "[dependencies.stash_core]\nversion = \"1\"\n" ss' d' ∧
    ∀ name, d.cratePath name = d'.cratePath name := by
  obtain ⟨d, read, kept⟩ : ∃ d ∈ ofText? "[dependencies]\nstash_core = \"1\"\n",
    ∀ key ∈ dependencySections, d.IsOrdinary key ∧
      d.declaredKeys key = if key = "dependencies" then ["stash_core"] else [] := by decide +kernel
  obtain ⟨d', read', kept'⟩ : ∃ d ∈ ofText? "[dependencies.stash_core]\nversion = \"1\"\n",
    ∀ key ∈ dependencySections, d.IsOrdinary key ∧
      d.declaredKeys key = if key = "dependencies" then ["stash_core"] else [] := by decide +kernel
  obtain ⟨ss, read⟩ := exists_reads_iff.2 read
  obtain ⟨ss', read'⟩ := exists_reads_iff.2 read'
  refine ⟨ss, d, ss', d', read, read', (same_paths_of_same_names read read' ?_).1 ?_⟩
  · intro key mem name
    rw [← read.mem_declaredKeys_of_isOrdinary (kept key mem).1,
      ← read'.mem_declaredKeys_of_isOrdinary (kept' key mem).1, (kept key mem).2, (kept' key mem).2]
  · exact fun key mem _ => iff_of_true (kept key mem).1 (kept' key mem).1

/-- A table that is written as a value lists the same names, of which none is seen. -/
theorem paths_differ_by_spelling :
    ∃ d ∈ ofText? "[dependencies]\nstash_core = \"1\"\n",
    ∃ d' ∈ ofText? "dependencies = \x7b stash_core = \"1\" \x7d\n",
    (∀ key ∈ dependencySections, d.declaredKeys key = d'.declaredKeys key) ∧
    d.cratePath "stash_bean" = { root := "stash_core", submodule := some "bean" } ∧
    d'.cratePath "stash_bean" = { root := "stash_bean" } := by decide +kernel

end Document

end BeanStream.Manifest
