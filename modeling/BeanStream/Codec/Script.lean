import BeanStream.Value
import BeanStream.Write.Error
import BeanStream.Write.Settings

/-!
# Codec scripts

What a codec does to write one value, one operation after another. Each operation of a script
hands its outcome to the rest of the script, which may pass a failure on, or go on after it.
Through these operations a codec reaches all it can of a pass: the output, nested writes under
frames of its own, the codecs and writers of other types, and the trace and settings.
-/

namespace BeanStream

open Wire

/-- What a codec does. -/
inductive Script where
  /-- Nothing more. -/
  | done
  /-- The codec fails. -/
  | fail (reason : CodecError)
  /-- Writes an item. -/
  | write (p : Primitive) (next : Except IoError Unit → Script)
  /-- Writes a tree. -/
  | tree (t : Tree) (next : Except TreeError Unit → Script)
  /-- Writes a value with its tag. -/
  | value (v : Option Value) (next : Except WriteError Unit → Script)
  /-- Writes the fields of a bean. -/
  | bean (v : Value) (next : Except WriteError Unit → Script)
  /-- Writes a property; the outcome is whether it was written. -/
  | property (name : String) (v : Option Value) (kind : PropertyKind)
      (next : Except WriteError Bool → Script)
  /-- Writes the name of a property. The empty name ends a stream of properties. -/
  | name (name : String) (next : Except WriteError Unit → Script)
  /-- Runs a script under a frame of the trace. -/
  | framed (frame : Frame) (body : Script) (next : Except CodecError Unit → Script)
  /-- Writes a value by the codec of its exact type, without tag, if there is one. -/
  | reencode (v : Value) (next : Except CodecError Unit → Script)
  /-- Asks for the trace and the settings. -/
  | context (next : Trace → Settings → Script)
  /-- Asks whether a type is that of a bean. -/
  | knows (type : TypeId) (next : Bool → Script)

namespace Script

/-- Writes an item, and goes on. -/
def writeThen (p : Primitive) (next : Script) : Script := .write p fun
  | .ok _ => next
  | .error source => .fail (.io source)

/-- Ends with the outcome of a nested write. -/
def ofWrite {α : Type} : Except WriteError α → Script
  | .ok _ => .done
  | .error source => .fail (.nested source)

/-- Ends with an outcome. -/
def ofCodec : Except CodecError Unit → Script
  | .ok _ => .done
  | .error reason => .fail reason

/-- Ends with the outcome of writing a tree: failures other than those of the output are
foreign to the library. -/
def ofTree : Except TreeError Unit → Script
  | .ok _ => .done
  | .error (.io source) => .fail (.io source)
  | .error reason => .fail (.other reason.message)

/-- Writes one item. -/
def item (p : Primitive) : Script := writeThen p .done

/-- Goes on after success, and passes a nested failure on. -/
def andThen {α : Type} (next : α → Script) : Except WriteError α → Script
  | .ok a => next a
  | .error source => .fail (.nested source)

end Script

end BeanStream
