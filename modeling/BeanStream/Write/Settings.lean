import BeanStream.Text.Debug

/-!
# Settings of a write pass

What becomes of a property whose value has no codec, and how many beans may be nested.
-/

namespace BeanStream

/-- What becomes of a property whose value has no codec. -/
inductive MissingPolicy where
  /-- The property is left out, with a warning. -/
  | warn
  /-- The pass fails. -/
  | fail
  deriving DecidableEq

/-- The settings of a pass. -/
structure Settings where
  /-- What becomes of a property whose value has no codec. -/
  missing : MissingPolicy := .warn
  /-- How many beans may be nested. -/
  maxDepth : Nat := 64
  deriving DecidableEq

/-- Settings as a record. -/
def Settings.debug (s : Settings) : String :=
  let policy := match s.missing with
    | .warn => "Warn"
    | .fail => "Fail"
  Text.record "WriteSettings" [("missing_codec", policy), ("max_depth", toString s.maxDepth)]

end BeanStream
