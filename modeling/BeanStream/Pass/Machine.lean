import BeanStream.Bean.WriterCache
import BeanStream.Codec.Registry
import BeanStream.Deferred

/-!
# The machine of a write pass

What a pass reads (`Env`): the codecs, the declarations and the settings. What it changes
(`Machine`): the output, the trace, the log, the store and the beans. The output may be any one
(`Output`); where nothing is said of it, it is an encoder over a sink. A pass that **fails**
leaves the machine as it was at the point of failure; an **aborted** one does too, but nothing
can go on from there.

A frame is on the trace while its body runs and **is taken off whatever becomes of the body**,
unless the body is aborted.
-/

namespace BeanStream

open Wire

/-- What a pass reads. -/
structure Env where
  codecs : CodecRegistry
  decls : Declarations
  settings : Settings := {}

/-- A line of the log. -/
inductive LogLine where
  /-- A property was left out. -/
  | omitted (trace : Trace) (typePath : String)
  /-- A property was written; absence has no type path. -/
  | written (trace : Trace) (typePath : Option String)
  deriving DecidableEq

/-- The text of a line, with its level. -/
def LogLine.text : LogLine → String
  | .omitted trace typePath => "WARN " ++ (WriteError.missingCodec trace typePath).message
  | .written trace typePath =>
    "DEBUG serialize " ++ trace.text ++ ": " ++ typePath.getD "null"

/-- What a pass changes. -/
structure Machine (ω : Type := Encoder) where
  encoder : ω := by exact {}
  trace : Trace := []
  /-- The lines logged so far, in order. -/
  logs : List LogLine := []
  store : Store := {}
  beans : Beans := {}

/-- Computations of a pass over an output. -/
abbrev PassTo (ω : Type) := EStateM Abort (Machine ω)

/-- Computations of a pass over an output that may fail. -/
abbrev AttemptTo (ω ε α : Type) := ExceptT ε (PassTo ω) α

/-- A computation that cannot fail, among those that may, is over the same output. -/
@[default_instance]
instance {ω ε : Type} : MonadLiftT (PassTo ω) (ExceptT ε (PassTo ω)) := inferInstance

/-- Computations of a pass. -/
abbrev Pass := PassTo Encoder

/-- Computations of a pass that may fail. -/
abbrev Attempt (ε α : Type) := AttemptTo Encoder ε α

namespace Pass

variable {ω : Type}

/-- Computes on the store. -/
def onStore {α : Type} (x : StoreM α) : PassTo ω α := fun m =>
  match x m.store with
  | .ok a store => .ok a { m with store }
  | .error reason store => .error reason { m with store }

/-- Computes on the beans. -/
def onBeans {α : Type} (x : EStateM Abort Beans α) : PassTo ω α := fun m =>
  match x m.beans with
  | .ok a beans => .ok a { m with beans }
  | .error reason beans => .error reason { m with beans }

/-- Computes on the output. -/
def onEncoder {ε : Type} (x : EStateM ε ω Unit) : AttemptTo ω ε Unit := fun m =>
  match x m.encoder with
  | .ok _ encoder => .ok (.ok ()) { m with encoder }
  | .error reason encoder => .ok (.error reason) { m with encoder }

/-- The trace. -/
def trace : PassTo ω Trace := return (← get).trace

/-- Adds a line to the log. -/
def log (line : LogLine) : PassTo ω Unit :=
  modify fun m => { m with logs := m.logs ++ [line] }

/-- Runs `body` under a frame. -/
def framed {ε α : Type} (frame : Frame) (body : AttemptTo ω ε α) : AttemptTo ω ε α :=
  ExceptT.mk do
    modify fun m => { m with trace := frame :: m.trace }
    let outcome ← body.run
    modify fun m => { m with trace := m.trace.tail }
    return outcome

/-- Fails with what `reason` makes of the trace. -/
def failAt {ε α : Type} (reason : Trace → ε) : AttemptTo ω ε α := do
  throw (reason (← trace (ω := ω)))

/-- Does not come to an end. -/
def abort {ε α : Type} (reason : Abort) : AttemptTo ω ε α := ExceptT.lift (EStateM.throw reason)

/-- What becomes of a computation, for another one to go on with. -/
def outcome {ε δ α : Type} (x : AttemptTo ω ε α) : AttemptTo ω δ (Except ε α) := ExceptT.lift x.run

/-- Writes an item. -/
def emit [Output ω] (p : Primitive) : AttemptTo ω WriteError Unit := do
  match ← outcome (onEncoder (Encoder.write p)) with
  | .ok () => return
  | .error source => failAt (.io · source)

/-- Unwraps a value; `frame` is put on the trace of a failure. -/
def unwrap (env : Env) (frame : List Frame) (v : Option Value) :
    AttemptTo ω WriteError (Option Value) := do
  match ← outcome (ExceptT.mk (onStore (Value.unwrap env.decls v).run)) with
  | .ok v => return v
  | .error source => failAt fun trace => .unwrap (frame ++ trace) source

end Pass

end BeanStream
