import BeanStream.Store.Supply

/-!
# Lazy values

A lazy value runs its initializer when it is forced for the first time and keeps the result.
What a force meets decides what becomes of it (`LazyState.arrive`): it **starts** the
initializer, **answers** at once, or **waits** for another thread. A force from within the
initializer, on the same thread, is **re-entrant**; an initializer that does not return leaves
the value **poisoned**.

Forcing one lazy value may force others from its initializer. Each force that starts an
initializer leaves fewer lazy values pending, which is why forcing ends.
-/

namespace BeanStream

namespace LazyState

/-- What a force meets. -/
inductive Arrival where
  /-- The initializer is to be run. -/
  | start (init : Initializer)
  /-- The force is over. -/
  | answer (outcome : Except UnwrapError (Option Value))
  /-- Another thread is at it. -/
  | wait

/-- What a force on behalf of a thread meets. -/
def arrive (thread : Nat) : LazyState → Arrival
  | .pending init => .start init
  | .forcing owner =>
    if owner = thread then .answer (.error (.reentrant "lazy value")) else .wait
  | .ready content => .answer (.ok content)
  | .poisoned => .answer (.error .poisoned)

/-- Whether a lazy value is not begun. -/
def isPending : LazyState → Bool
  | .pending _ => true
  | _ => false

/-- Whether the content is settled. -/
def isInitialized : LazyState → Bool
  | .ready _ => true
  | _ => false

/-- The word for the progress of a lazy value. -/
def name : LazyState → String
  | .pending _ => "pending"
  | .forcing _ => "forcing"
  | .ready _ => "ready"
  | .poisoned => "poisoned"

/-- The progress of a lazy value as a record. -/
def debug (state : LazyState) : String := Text.record "Lazy" [("state", Text.quote state.name)]

/-- The progress of a lazy value in a text. -/
def description (state : LazyState) : String :=
  state.debug ++ " " ++ Text.flag state.isInitialized

end LazyState

namespace Store

/-- Whether a property or file property is set, or a lazy value settled. -/
def isPresent (s : Store) : Value → Bool
  | .property cell => (s.property cell).isSome
  | .file cell => (s.file cell).location.isSome
  | .lazy cell => (s.lazyState cell).isInitialized
  | _ => true

/-- How many lazy values are not begun. -/
def pendingCount (s : Store) : Nat := s.lazies.values.countP LazyState.isPending

/-- Beginning a lazy value leaves fewer pending. -/
theorem pendingCount_setLazy_lt {s : Store} {cell thread : Nat} {init : Initializer}
    (h : (s.lazyState cell).arrive thread = .start init) :
    (s.setLazy cell (.forcing thread)).pendingCount < s.pendingCount := by
  have hp : (s.lazyState cell).isPending = true := by
    cases hs : s.lazyState cell with
    | pending _ => rfl
    | forcing owner =>
      rw [hs, LazyState.arrive] at h
      split at h <;> cases h
    | ready _ => rw [hs] at h; cases h
    | poisoned => rw [hs] at h; cases h
  rw [lazyState] at hp
  cases hg : s.lazies.get? cell with
  | none => rw [hg] at hp; cases hp
  | some state =>
    rw [hg] at hp
    exact Table.countP_values_set_lt hg hp rfl

/-- Settles a lazy value with what became of its initializer. -/
def settle (cell : Nat) :
    EStateM.Result Abort Store (Option Value) →
      EStateM.Result Abort Store (Except UnwrapError (Option Value))
  | .ok content s => .ok (.ok content) (s.setLazy cell (.ready content))
  | .error reason s => .error reason (s.setLazy cell .poisoned)

/-- The content of a lazy value, computed on its first use. -/
def force (decls : Declarations) (thread cell : Nat) :
    StoreM (Except UnwrapError (Option Value)) := fun s =>
  match _h : (s.lazyState cell).arrive thread with
  | .answer outcome => .ok outcome s
  | .wait => .error .blocked s
  | .start init =>
    let begun := s.setLazy cell (.forcing thread)
    settle cell <|
      match init with
      | .fixed v => .ok v begun
      | .reading n => .ok (begun.box n) begun
      | .panicking => .error .panic begun
      | .forcing n =>
        match begun.box n with
        | some (.lazy other) =>
          match force decls thread other begun with
          | .ok (.ok content) s => .ok content s
          | .ok (.error e) s => .ok (some (.ofString e.message)) s
          | .error reason s => .error reason s
        | _ => .ok none begun
      | .describing n =>
        match begun.box n with
        | some (.lazy other) =>
          .ok (some (.ofString (begun.lazyState other).description)) begun
        | _ => .ok none begun
      | .querying n =>
        match begun.box n with
        | some (.provider _ supply) => supply.query decls begun
        | _ => .ok none begun
termination_by s => s.pendingCount
decreasing_by exact pendingCount_setLazy_lt ‹_›

end Store

end BeanStream
