import BeanStream.Sink
import BeanStream.Text.Utf8
import BeanStream.Trace

/-!
# Failures of a write

What can go wrong while a value is found, encoded and written. Each failure of a write but two
remembers the **trace** at the point where it arose. A codec fails with a failure of its own,
with one of the output, or with the failure of a write it made itself; the last is **reported
as it is** (`WriteError.ofCodec_nested`), so what arose innermost is what a caller sees.

Apart from failing, a computation can be **aborted**, which nothing inside of it can catch.
-/

namespace BeanStream

/-- Why a computation did not come to an end. -/
inductive Abort where
  /-- A supplier or an initializer did not return, or a bean type describes itself wrongly. -/
  | panic
  /-- Writes are nested more deeply than the machine can hold. -/
  | overflow
  /-- A lazy value is awaited that nobody will ever settle. -/
  | blocked
  deriving DecidableEq, Inhabited

/-- Deferred values nested deeper than this are rejected. -/
def maxUnwrapDepth : Nat := 256

/-- Why a deferred value could not be unwrapped. -/
inductive UnwrapError where
  /-- A container was met twice on one chain. -/
  | reentrant (kind : String)
  /-- The chain of containers is too long. -/
  | tooDeep
  /-- The initializer of a lazy value did not return. -/
  | poisoned
  deriving DecidableEq

namespace UnwrapError

/-- The text of a failure. -/
def message : UnwrapError → String
  | .reentrant kind => "re-entrant unwrapping of the same " ++ kind
  | .tooDeep => "deferred values are nested deeper than " ++ toString maxUnwrapDepth ++ " levels"
  | .poisoned => "the initializer of a lazy value panicked"

/-- The name of a failure. -/
def name : UnwrapError → String
  | .reentrant _ => "Reentrant"
  | .tooDeep => "TooDeep"
  | .poisoned => "Poisoned"

/-- A failure as a record. -/
def debug (e : UnwrapError) : String :=
  Text.record e.name <| match e with
    | .reentrant kind => [("kind", Text.quote kind)]
    | .tooDeep => [("depth", toString maxUnwrapDepth)]
    | .poisoned => []

end UnwrapError

mutual

/-- Why a bean, a property or a value was not written. -/
inductive WriteError where
  /-- A codec failed. -/
  | codec (trace : Trace) (typePath : String) (source : CodecError)
  /-- A deferred value could not be unwrapped. -/
  | unwrap (trace : Trace) (source : UnwrapError)
  /-- No codec exists for a value that cannot be left out. -/
  | missingCodec (trace : Trace) (typePath : String)
  /-- The value is not of a registered bean type. -/
  | unknownBean (typePath : String)
  /-- A field was to be read from a value of another type. -/
  | fieldAccess (bean field typePath : String)
  /-- A property has an empty name, which ends a bean. -/
  | emptyPropertyName (trace : Trace)
  /-- More beans are nested than the settings allow. -/
  | tooDeep (trace : Trace) (maxDepth : Nat)
  /-- The output failed. -/
  | io (trace : Trace) (source : IoError)

/-- Why a codec failed. -/
inductive CodecError where
  /-- A reason of the codec's own. -/
  | custom (message : String)
  /-- The value is not of the type that the codec writes. -/
  | wrongType (expected actual : String)
  /-- The path is no text. -/
  | invalidPath (bs : List UInt8)
  /-- The output failed. -/
  | io (source : IoError)
  /-- A write made by the codec failed. -/
  | nested (source : WriteError)
  /-- A failure of some other library, by its text. -/
  | other (message : String)

end

mutual

/-- The text of a failed write. -/
def WriteError.message : WriteError → String
  | .codec trace typePath _ =>
    "could not save the value of " ++ trace.text ++ " with type `" ++ typePath ++ "`"
  | .unwrap trace _ => "could not unwrap the value of " ++ trace.text
  | .missingCodec trace typePath =>
    "cannot serialize " ++ trace.text ++ ": there's no serializer for type `" ++ typePath ++ "`"
  | .unknownBean typePath => "type `" ++ typePath ++ "` is not a registered bean"
  | .fieldAccess bean field typePath =>
    "field `" ++ field ++ "` of bean `" ++ bean ++ "` cannot be read from a value of type `"
      ++ typePath ++ "`"
  | .emptyPropertyName trace => "cannot write a property with an empty name in " ++ trace.text
  | .tooDeep trace maxDepth => trace.text ++ " nests more than " ++ toString maxDepth ++ " beans"
  | .io trace _ => "could not write " ++ trace.text

/-- The text of a failed codec. A nested failure keeps its text. -/
def CodecError.message : CodecError → String
  | .custom message => message
  | .wrongType expected actual =>
    "codec for `" ++ expected ++ "` received a value of type `" ++ actual ++ "`"
  | .invalidPath bs => "path `" ++ Text.lossy bs ++ "` is not valid UTF-8"
  | .io source => source.message
  | .nested source => source.message
  | .other message => message

end

/-- The name of a failure: all reasons of a codec's own go by one name. -/
def CodecError.name : CodecError → String
  | .custom _ | .wrongType _ _ | .invalidPath _ => "Custom"
  | .io _ => "Io"
  | .nested _ => "Nested"
  | .other _ => "Other"

namespace WriteError

/-- The trace at the point of failure, where it is kept. -/
def trace? : WriteError → Option Trace
  | .codec trace _ _ | .unwrap trace _ | .missingCodec trace _ | .emptyPropertyName trace
  | .tooDeep trace _ | .io trace _ => some trace
  | .unknownBean _ | .fieldAccess _ _ _ => none

/-- The name of a failure. -/
def name : WriteError → String
  | .codec _ _ _ => "Codec"
  | .unwrap _ _ => "Unwrap"
  | .missingCodec _ _ => "MissingCodec"
  | .unknownBean _ => "UnknownBean"
  | .fieldAccess _ _ _ => "FieldAccess"
  | .emptyPropertyName _ => "EmptyPropertyName"
  | .tooDeep _ _ => "TooDeep"
  | .io _ _ => "Io"

/-- The failure of a write whose codec failed on a value of type path `typePath`. -/
def ofCodec (trace : Trace) (typePath : String) : CodecError → WriteError
  | .nested source => source
  | source => .codec trace typePath source

/-- The failure of a nested write is reported as it is. -/
@[simp] theorem ofCodec_nested (trace : Trace) (typePath : String) (source : WriteError) :
    ofCodec trace typePath (.nested source) = source := rfl

end WriteError

end BeanStream
