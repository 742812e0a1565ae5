import BeanStream.Table

/-!
# Types

The types of values, as far as the library tells them apart: the **scalar** types it brings
layouts for, the **containers** of deferred values, **sequences**, and the types that a user
of the library adds, which are known by **name** alone. Equality of types is equality of
`TypeId`s; `TypeId.name` is the full name under which diagnostics and codec lists show a type.
-/

namespace BeanStream

/-- The integer types. The two address-sized ones have 64 bits and are types of their own. -/
inductive IntKind where
  | i8 | i16 | i32 | i64 | isize | i128
  | u8 | u16 | u32 | u64 | usize | u128
  deriving DecidableEq

namespace IntKind

/-- Whether a type holds negative numbers. -/
def signed : IntKind → Bool
  | .i8 | .i16 | .i32 | .i64 | .isize | .i128 => true
  | .u8 | .u16 | .u32 | .u64 | .usize | .u128 => false

/-- How many bits a number of the type has. -/
def width : IntKind → Nat
  | .i8 | .u8 => 8
  | .i16 | .u16 => 16
  | .i32 | .u32 => 32
  | .i64 | .isize | .u64 | .usize => 64
  | .i128 | .u128 => 128

/-- The name of an integer type. -/
def name : IntKind → String
  | .i8 => "i8"
  | .i16 => "i16"
  | .i32 => "i32"
  | .i64 => "i64"
  | .isize => "isize"
  | .i128 => "i128"
  | .u8 => "u8"
  | .u16 => "u16"
  | .u32 => "u32"
  | .u64 => "u64"
  | .usize => "usize"
  | .u128 => "u128"

/-- All integer types. -/
def all : List IntKind :=
  [.i8, .i16, .i32, .i64, .isize, .i128, .u8, .u16, .u32, .u64, .usize, .u128]

/-- The integer type with a name. -/
def ofName? (name : String) : Option IntKind := all.find? (·.name = name)

/-- The number that the bits of an integer type stand for. -/
def toInt (k : IntKind) (bits : BitVec k.width) : Int :=
  if k.signed then bits.toInt else bits.toNat

end IntKind

/-- The types whose values are written by a layout of the library. The three text types and
the path type differ as types only. -/
inductive ScalarType where
  | unit
  | bool
  | char
  | int (k : IntKind)
  | f32
  | f64
  | string
  | str
  | cow
  | path
  deriving DecidableEq

/-- The name of a scalar type. -/
def ScalarType.name : ScalarType → String
  | .unit => "()"
  | .bool => "bool"
  | .char => "char"
  | .int k => k.name
  | .f32 => "f32"
  | .f64 => "f64"
  | .string => "alloc::string::String"
  | .str => "&str"
  | .cow => "alloc::borrow::Cow<'_, str>"
  | .path => "std::path::PathBuf"

/-- A type of values. -/
inductive TypeId where
  /-- A type with a layout. -/
  | scalar (t : ScalarType)
  /-- A type that a user of the library adds. -/
  | named (name : String)
  /-- A value of a type, or none. -/
  | optional (item : TypeId)
  /-- A shared value of any type. -/
  | shared
  /-- An owned value of any type. -/
  | boxed
  /-- A list of values of a type. -/
  | list (item : TypeId)
  /-- A list of a fixed length. -/
  | array (item : TypeId) (n : Nat)
  | property
  | file
  | provider
  | producer
  | lazy
  deriving DecidableEq

/-- The name of a type. -/
def TypeId.name : TypeId → String
  | .scalar t => t.name
  | .named name => name
  | .optional item => "core::option::Option<" ++ item.name ++ ">"
  | .shared => "alloc::sync::Arc<dyn stash_bean::value::Value>"
  | .boxed => "alloc::boxed::Box<dyn stash_bean::value::Value>"
  | .list item => "alloc::vec::Vec<" ++ item.name ++ ">"
  | .array item n => "[" ++ item.name ++ "; " ++ toString n ++ "]"
  | .property => "stash_bean::deferred::property::Property"
  | .file => "stash_bean::deferred::file::FileProperty"
  | .provider => "stash_bean::deferred::provider::Provider"
  | .producer => "stash_bean::deferred::provider::Producer"
  | .lazy => "stash_bean::deferred::lazy::Lazy"

/-- Values by type. -/
abbrev TypeMap := Table TypeId

end BeanStream
