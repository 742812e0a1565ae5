import BeanStream.Tree

/-!
# Values

Everything that can be captured and written. **Plain** values are scalars, values of types a
user adds, lists, and beans; **deferred** values stand for another value, or for none: they
hold it directly (optional, shared, boxed), or name a cell of a store in which it is found
(properties, files, lazies), or say how to supply it on demand (providers, producers).

Cells, boxes, counters and mappings are named by their number in a store, so that a value is
shared by sharing its number. Suppliers have an **identity**, which their clones share.
-/

namespace BeanStream

/-- A value of a scalar type. A path is its bytes, which need not be well-formed text. -/
inductive Scalar where
  | unit
  | bool (b : Bool)
  | char (c : Char)
  | int (k : IntKind) (bits : BitVec k.width)
  | f32 (bits : BitVec 32)
  | f64 (bits : BitVec 64)
  | string (s : String)
  | str (s : String)
  | cow (s : String)
  | path (bs : List UInt8)

/-- The type of a scalar. -/
def Scalar.type : Scalar → ScalarType
  | .unit => .unit
  | .bool _ => .bool
  | .char _ => .char
  | .int k _ => .int k
  | .f32 _ => .f32
  | .f64 _ => .f64
  | .string _ => .string
  | .str _ => .str
  | .cow _ => .cow
  | .path _ => .path

/-- What a derived provider makes of the value of its source. -/
inductive Transform where
  /-- The value itself. -/
  | keep
  /-- Nothing. -/
  | drop
  /-- Twice a signed 64-bit number, modulo its width; nothing for other types. -/
  | double
  /-- The value as an optional value that is there. -/
  | wrap
  /-- The type path of the value, as a text. -/
  | typePath

mutual

/-- A value. -/
inductive Value where
  /-- A scalar. -/
  | scalar (s : Scalar)
  /-- A plain value of a user's type, with a text and possibly a value inside. -/
  | custom (type : String) (data : String) (inner : Option Value)
  /-- A value of a user's type that can hand itself over piece by piece. -/
  | tree (type : String) (t : Tree)
  /-- A value of type `item`, or none. -/
  | optional (item : TypeId) (content : Option Value)
  /-- A shared value. -/
  | shared (content : Value)
  /-- An owned value of any type. -/
  | boxed (content : Value)
  /-- A list, of the list or array type `type`. -/
  | sequence (type : TypeId) (items : List Value)
  /-- An instance of a bean type, which may be a list type of the library as well: its fields, and
  the mapping that holds its conventions. -/
  | bean (type : TypeId) (fields : List Value) (mapping : Nat)
  /-- A property cell. -/
  | property (cell : Nat)
  /-- A file cell. -/
  | file (cell : Nat)
  /-- A lazy cell. -/
  | lazy (cell : Nat)
  /-- A supplier that may have nothing to supply. -/
  | provider (identity : Nat) (supply : Supply)
  /-- A supplier that always has something to supply. -/
  | producer (identity : Nat) (supply : Supply)

/-- How a supplier comes by its value. -/
inductive Supply where
  /-- The same value on every query. -/
  | fixed (v : Option Value)
  /-- The content of a box at the time of the query. -/
  | reading (box : Nat)
  /-- The next number of a counter, counting queries. -/
  | counting (counter : Nat)
  /-- Nothing on the odd queries, the value on the even ones. -/
  | alternating (counter : Nat) (v : Value)
  /-- A query that does not return. -/
  | panicking
  /-- What a transform makes of another supply. -/
  | mapped (source : Supply) (f : Transform)

end

namespace Value

/-- The exact type of a value. -/
def typeId : Value → TypeId
  | .scalar s => .scalar s.type
  | .custom type _ _ => .named type
  | .tree type _ => .named type
  | .optional item _ => .optional item
  | .shared _ => .shared
  | .boxed _ => .boxed
  | .sequence type _ => type
  | .bean type _ _ => type
  | .property _ => .property
  | .file _ => .file
  | .lazy _ => .lazy
  | .provider _ _ => .provider
  | .producer _ _ => .producer

/-- The elements of a list. -/
def items? : Value → Option (List Value)
  | .sequence _ items => some items
  | _ => none

/-- The absent value of plain type: nothing to tell. -/
def unit : Value := .scalar .unit

instance : Inhabited Value := ⟨unit⟩

/-- A text value. -/
def ofString (s : String) : Value := .scalar (.string s)

/-- A path value with the given text. -/
def ofPath (s : String) : Value := .scalar (.path (Text.bytes s))

/-- An unsigned 32-bit number, modulo its width. -/
def ofCount (n : Nat) : Value := .scalar (.int .u32 (BitVec.ofNat 32 n))

end Value

end BeanStream
