import BeanStream.Codec.Script

/-!
# Codecs of the library

The payload of each scalar type: the unit value has none, truth values and floating-point
numbers are items as they are, characters are their code points, integers are words, widened
with their sign, or double words, and texts and paths are texts. A path that is **no text**
cannot be written.

Values that can hand themselves over piece by piece are written as trees instead: a scalar as
a leaf, a list as a sequence of announced length, an optional value as such.
-/

namespace BeanStream

/-- Writes a scalar. -/
def Scalar.script : Scalar → Script
  | .unit => .done
  | .bool b => .item (.bool b)
  | .char c => .item (.u64 (BitVec.ofNat 64 c.toNat))
  | .int .i128 bits => .item (.i128 bits)
  | .int .u128 bits => .item (.u128 bits)
  | .int k bits => .item (if k.signed then .i64 (bits.signExtend 64) else .u64 (bits.setWidth 64))
  | .f32 bits => .item (.f32 bits)
  | .f64 bits => .item (.f64 bits)
  | .string s | .str s | .cow s => .item (.string s)
  | .path bs =>
    match Text.ofBytes? bs with
    | some s => .item (.string s)
    | none => .fail (.invalidPath bs)

/-- A scalar as a tree. -/
def Scalar.toTree : Scalar → Tree
  | .unit => .unit
  | .bool b => .bool b
  | .char c => .char c
  | .int k bits => .int k bits
  | .f32 bits => .f32 bits
  | .f64 bits => .f64 bits
  | .string s | .str s | .cow s => .str s
  | .path bs =>
    match Text.ofBytes? bs with
    | some s => .str s
    | none => .failure "path contains invalid UTF-8 characters"

namespace Value

/-- Writes a value of the scalar type `t`. Only scalars are of such a type. -/
def scalarScript (t : ScalarType) : Value → Script
  | .scalar s => s.script
  | v => .fail (.wrongType t.name v.typeId.name)

mutual

/-- A value as a tree. A value that cannot hand itself over leaves nothing. -/
def toTree : Value → Tree
  | .scalar s => s.toTree
  | .tree _ t => t
  | .optional _ none => .none
  | .optional _ (some v) => .some v.toTree
  | .sequence (.array _ _) vs => .tuple (trees vs)
  | .sequence _ vs => .seq (some vs.length) (trees vs)
  | .shared v => v.toTree
  | .boxed v => v.toTree
  | _ => .unit

/-- Values as trees. -/
def trees : List Value → List Tree
  | [] => []
  | v :: vs => v.toTree :: trees vs

end

/-- Writes a value as a tree. -/
def treeScript (v : Value) : Script := .tree v.toTree .ofTree

end Value

/-- The scalar types, in the order of their tags. -/
def ScalarType.all : List ScalarType :=
  [.unit, .bool, .char, .int .i8, .int .i16, .int .i32, .int .i64, .int .isize, .int .i128,
    .int .u8, .int .u16, .int .u32, .int .u64, .int .usize, .int .u128, .f32, .f64, .string,
    .str, .cow, .path]

end BeanStream
