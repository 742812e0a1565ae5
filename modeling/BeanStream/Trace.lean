import BeanStream.Text.Debug

/-!
# Traces

Where in an object graph a write pass stands: the beans, properties and elements entered and
not yet left, **innermost first**. The depth that settings limit counts the **beans** only.

Main facts: the text of a trace on top of another is the inner text, then the outer one
(`text_append`), and bean depths add up (`beanDepth_append`).
-/

namespace BeanStream

/-- In which role a property is written. -/
inductive PropertyKind where
  /-- A field of a bean. -/
  | field
  /-- A property that its owner reads. -/
  | input
  /-- A property that its owner makes. -/
  | output
  deriving DecidableEq

namespace PropertyKind

/-- The words for a role. -/
def text : PropertyKind → String
  | .field => "field"
  | .input => "input property"
  | .output => "output property"

/-- The name of a role, for structured diagnostics. -/
def name : PropertyKind → String
  | .field => "Field"
  | .input => "InputProperty"
  | .output => "OutputProperty"

end PropertyKind

/-- One thing that is being written. -/
inductive Frame where
  /-- A bean, by its type path. -/
  | bean (path : String)
  /-- A property. -/
  | property (kind : PropertyKind) (name : String)
  /-- An element of a sequence. -/
  | element (index : Nat)
  deriving DecidableEq

namespace Frame

/-- The text of a frame. -/
def text : Frame → String
  | .bean path => "bean `" ++ path ++ "`"
  | .property kind name => kind.text ++ " `" ++ name ++ "`"
  | .element index => "element " ++ toString index

/-- A frame as a record. -/
def debug : Frame → String
  | .bean path => Text.record "Bean" [("type_path", Text.quote path)]
  | .property kind name =>
    Text.record "Property" [("kind", kind.name), ("name", Text.quote name)]
  | .element index => Text.record "Element" [("index", toString index)]

/-- Whether a frame is a bean. -/
def isBean : Frame → Bool
  | .bean _ => true
  | _ => false

end Frame

/-- What is being written, innermost first. -/
abbrev Trace := List Frame

namespace Trace

/-- The frames in words, innermost first. -/
def text : Trace → String
  | [] => "<root>"
  | frames => " of ".intercalate (frames.map Frame.text)

/-- How many beans are being written. -/
def beanDepth (t : Trace) : Nat := t.countP Frame.isBean

/-- Bean depths add up. -/
theorem beanDepth_append (inner outer : Trace) :
    beanDepth (inner ++ outer) = beanDepth inner + beanDepth outer :=
  List.countP_append

/-- A bean frame counts. -/
@[simp] theorem beanDepth_bean (path : String) (t : Trace) :
    beanDepth (.bean path :: t) = beanDepth t + 1 :=
  List.countP_cons_of_pos rfl

/-- A property frame does not count. -/
@[simp] theorem beanDepth_property (kind : PropertyKind) (name : String) (t : Trace) :
    beanDepth (.property kind name :: t) = beanDepth t :=
  List.countP_cons_of_neg (by simp [Frame.isBean])

/-- An element frame does not count. -/
@[simp] theorem beanDepth_element (index : Nat) (t : Trace) :
    beanDepth (.element index :: t) = beanDepth t :=
  List.countP_cons_of_neg (by simp [Frame.isBean])

private theorem text_of_ne_nil {t : Trace} (h : t ≠ []) :
    text t = " of ".intercalate (t.map Frame.text) := by
  cases t with
  | nil => exact absurd rfl h
  | cons f fs => rfl

/-- The text of a trace on top of another is the inner text, then the outer one. -/
theorem text_append {inner outer : Trace} (hi : inner ≠ []) (ho : outer ≠ []) :
    text (inner ++ outer) = text inner ++ " of " ++ text outer := by
  rw [text_of_ne_nil hi, text_of_ne_nil ho, text_of_ne_nil (by simp [hi]), List.map_append,
    String.intercalate_append_of_ne_nil (by simpa using hi) (by simpa using ho)]

end Trace

end BeanStream
