import BeanStream.TypeId
import BeanStream.Wire.Encoder

/-!
# Trees

The shape in which a user's type hands a value over piece by piece: scalars, optional values,
products, counted sequences and maps, and numbered variants. A tree is written **in preorder**:
what a node has to say about itself comes first (a length, a variant number, whether a value
is there), then its parts from left to right. Names and the kinds of products leave no mark.

A node can refuse to be written: a sequence or map whose length is **not announced**, and a
node that **fails by itself**. What stands before it is written by then, and nothing after it.
-/

namespace BeanStream

/-- A value handed over piece by piece. The announced length of a sequence or map need not be
the number of its parts. -/
inductive Tree where
  | bool (b : Bool)
  | int (k : IntKind) (bits : BitVec k.width)
  | f32 (bits : BitVec 32)
  | f64 (bits : BitVec 64)
  | char (c : Char)
  | str (s : String)
  | bytes (bs : List UInt8)
  | none
  | some (content : Tree)
  | unit
  | unitStruct
  | unitVariant (index : BitVec 32)
  | newtypeStruct (content : Tree)
  | newtypeVariant (index : BitVec 32) (content : Tree)
  | seq (len : Option Nat) (items : List Tree)
  | tuple (items : List Tree)
  | tupleStruct (items : List Tree)
  | tupleVariant (index : BitVec 32) (items : List Tree)
  | map (len : Option Nat) (entries : List (Tree × Tree))
  | struct (items : List Tree)
  | structVariant (index : BitVec 32) (items : List Tree)
  /-- The answer to the question whether the format is meant for people. -/
  | humanReadable
  /-- A node that fails by itself. -/
  | failure (message : String)

instance : Inhabited Tree := ⟨.unit⟩

/-- Why a tree was not written. -/
inductive TreeError where
  /-- A node failed by itself. -/
  | custom (message : String)
  /-- The output failed. -/
  | io (source : IoError)
  /-- The length of a sequence or map was not announced. -/
  | unknownLength
  deriving DecidableEq

/-- The name of a failure. -/
def TreeError.name : TreeError → String
  | .custom _ => "Custom"
  | .io _ => "Io"
  | .unknownLength => "UnknownLength"

/-- The text of a failure. -/
def TreeError.message : TreeError → String
  | .custom message => message
  | .io source => source.message
  | .unknownLength => "the length of sequences and maps must be known in advance"

namespace Tree

open Wire

variable {ω : Type} [Output ω]

/-- The item of an integer: a double word as it is, all else as a word, folded if signed. -/
def intItem (k : IntKind) (bits : BitVec k.width) : Primitive :=
  match k with
  | .i128 => .i128 (bits.setWidth 128)
  | .u128 => .u128 (bits.setWidth 128)
  | k =>
    if k.signed then .i64 (BitVec.ofInt 64 (k.toInt bits))
    else .u64 (BitVec.ofInt 64 (k.toInt bits))

/-- Writes one item of a tree. -/
def emit (p : Primitive) : EStateM TreeError ω Unit := fun e =>
  match Encoder.write p e with
  | .ok _ e => .ok () e
  | .error source e => .error (.io source) e

/-- Writes an announced length. -/
def emitLen : Option Nat → EStateM TreeError ω Unit
  | .none => throw .unknownLength
  | .some n => emit (.len n)

/-- Writes the number of a variant. -/
def emitIndex (index : BitVec 32) : EStateM TreeError ω Unit :=
  emit (.u64 (index.setWidth 64))

mutual

/-- Writes a tree, in preorder. -/
def writeTo : Tree → EStateM TreeError ω Unit
  | .bool b => emit (.bool b)
  | .int k bits => emit (intItem k bits)
  | .f32 bits => emit (.f32 bits)
  | .f64 bits => emit (.f64 bits)
  | .char c => emit (.u64 (BitVec.ofNat 64 c.toNat))
  | .str s => emit (.string s)
  | .bytes bs => emit (.bytes bs)
  | .none => emit (.u8 0)
  | .some content => do emit (.u8 1); content.writeTo
  | .unit | .unitStruct => pure ()
  | .unitVariant index => emitIndex index
  | .newtypeStruct content => content.writeTo
  | .newtypeVariant index content => do emitIndex index; content.writeTo
  | .seq len items => do emitLen len; writeItems items
  | .tuple items | .tupleStruct items | .struct items => writeItems items
  | .tupleVariant index items | .structVariant index items => do
    emitIndex index
    writeItems items
  | .map len entries => do emitLen len; writeEntries entries
  | .humanReadable => emit (.bool false)
  | .failure message => throw (.custom message)

/-- Writes trees from left to right. -/
def writeItems : List Tree → EStateM TreeError ω Unit
  | [] => pure ()
  | t :: ts => do t.writeTo; writeItems ts

/-- Writes the entries of a map from left to right, each key in front of its value. -/
def writeEntries : List (Tree × Tree) → EStateM TreeError ω Unit
  | [] => pure ()
  | (k, v) :: entries => do k.writeTo; v.writeTo; writeEntries entries

end

/-- Writes a tree to an encoder. -/
abbrev write : Tree → EStateM TreeError Encoder Unit := writeTo

end Tree

end BeanStream
