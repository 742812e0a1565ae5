import BeanStream.Proofs.Wire.Pieces
import BeanStream.Tree
import Mathlib.Data.List.TakeWhile

/-!
# Trees are written in preorder

The **preorder** of a tree is the row of its nodes: each node in front of its parts, and the parts
from left to right (`preorder_eq`). What a node says about itself is at most one item (`item?`), and
some nodes refuse to be written (`refusal?`). Where parts are written, what is around them makes no
difference, so a tree is written like the row of its nodes: **up to the first one that refuses**,
whose refusal is the failure (`writes_write`).

Products and newtypes say nothing about themselves. Trees that differ in nothing but the kinds of
products and in newtypes (`Alike`) are written alike.

Main fact: over an output that does not fail, a tree ends in the refusal of the first node that
refuses, behind the forms of the nodes in front of it, and succeeds with the forms of all of its
nodes if there is none (`written_in_preorder`).
-/

namespace BeanStream

open Wire Encoder

namespace Tree

/-! ### Nodes -/

/-- What a node says about itself, in front of its parts. -/
def item? : Tree → Option Primitive
  | .bool b => .some (.bool b)
  | .int k bits => .some (intItem k bits)
  | .f32 bits => .some (.f32 bits)
  | .f64 bits => .some (.f64 bits)
  | .char c => .some (.u64 (BitVec.ofNat 64 c.toNat))
  | .str s => .some (.string s)
  | .bytes bs => .some (.bytes bs)
  | .none => .some (.u8 0)
  | .some _ => .some (.u8 1)
  | .unitVariant index | .newtypeVariant index _ | .tupleVariant index _
  | .structVariant index _ => .some (.u64 (index.setWidth 64))
  | .seq len _ | .map len _ => len.map .len
  | .humanReadable => .some (.bool false)
  | .unit | .unitStruct | .newtypeStruct _ | .tuple _ | .tupleStruct _ | .struct _
  | .failure _ => .none

/-- The bytes that a node writes for itself. -/
def form (t : Tree) : List UInt8 := (t.item?.map Primitive.encoding).getD []

/-- Why a node refuses to be written, if it does. -/
def refusal? : Tree → Option TreeError
  | .seq .none _ | .map .none _ => .some .unknownLength
  | .failure message => .some (.custom message)
  | _ => .none

/-- Whether a node lets itself be written. -/
def accepts (t : Tree) : Bool := t.refusal?.isNone

/-- The parts of a node, from left to right. The key of an entry stands in front of its value. -/
def parts : Tree → List Tree
  | .some content | .newtypeStruct content | .newtypeVariant _ content => [content]
  | .seq _ items | .tuple items | .tupleStruct items | .tupleVariant _ items | .struct items
  | .structVariant _ items => items
  | .map _ entries => entries.flatMap fun (k, v) => [k, v]
  | _ => []

mutual

/-- The nodes of a tree, each in front of its parts. -/
def preorder : Tree → List Tree
  | .some content => .some content :: content.preorder
  | .newtypeStruct content => .newtypeStruct content :: content.preorder
  | .newtypeVariant index content => .newtypeVariant index content :: content.preorder
  | .seq len items => .seq len items :: preorderItems items
  | .tuple items => .tuple items :: preorderItems items
  | .tupleStruct items => .tupleStruct items :: preorderItems items
  | .tupleVariant index items => .tupleVariant index items :: preorderItems items
  | .map len entries => .map len entries :: preorderEntries entries
  | .struct items => .struct items :: preorderItems items
  | .structVariant index items => .structVariant index items :: preorderItems items
  | .bool b => [.bool b]
  | .int k bits => [.int k bits]
  | .f32 bits => [.f32 bits]
  | .f64 bits => [.f64 bits]
  | .char c => [.char c]
  | .str s => [.str s]
  | .bytes bs => [.bytes bs]
  | .none => [.none]
  | .unit => [.unit]
  | .unitStruct => [.unitStruct]
  | .unitVariant index => [.unitVariant index]
  | .humanReadable => [.humanReadable]
  | .failure message => [.failure message]

/-- The nodes of trees in a row. -/
def preorderItems : List Tree → List Tree
  | [] => []
  | t :: ts => t.preorder ++ preorderItems ts

/-- The nodes of the keys and values of entries in a row. -/
def preorderEntries : List (Tree × Tree) → List Tree
  | [] => []
  | (k, v) :: entries => k.preorder ++ (v.preorder ++ preorderEntries entries)

end

theorem preorderItems_eq (ts : List Tree) : preorderItems ts = ts.flatMap preorder := by
  induction ts with
  | nil => rw [preorderItems, List.flatMap_nil]
  | cons t ts ih => rw [preorderItems, ih, List.flatMap_cons]

theorem preorderEntries_eq (entries : List (Tree × Tree)) :
    preorderEntries entries = (entries.flatMap fun (k, v) => [k, v]).flatMap preorder := by
  induction entries with
  | nil => rw [preorderEntries, List.flatMap_nil, List.flatMap_nil]
  | cons entry entries ih =>
    rw [preorderEntries, ih, List.flatMap_cons, List.flatMap_append, List.flatMap_cons,
      List.flatMap_singleton, List.append_assoc]

/-- A node stands in front of its parts, and the parts from left to right. -/
theorem preorder_eq (t : Tree) : t.preorder = t :: t.parts.flatMap preorder := by
  cases t with
  | some | newtypeStruct | newtypeVariant => rw [preorder, parts, List.flatMap_singleton]
  | seq | tuple | tupleStruct | tupleVariant | struct | structVariant =>
    rw [preorder, parts, preorderItems_eq]
  | map => rw [preorder, parts, preorderEntries_eq]
  | _ => rfl

/-! ### Rows of nodes -/

/-- The pieces in which a node is written. -/
def pieces (t : Tree) : List (List UInt8) := (t.item?.map Primitive.pieces).getD []

theorem flatten_pieces (t : Tree) : t.pieces.flatten = t.form := by
  unfold pieces form
  cases t.item? with
  | none => rfl
  | some p => rfl

theorem flatten_flatMap_pieces (ns : List Tree) :
    (ns.flatMap pieces).flatten = ns.flatMap form := by
  induction ns with
  | nil => rfl
  | cons n ns ih =>
    rw [List.flatMap_cons, List.flatten_append, flatten_pieces, ih, List.flatMap_cons]

/-- How a row of nodes ends: with the first refusal, if there is one. -/
def ending (ns : List Tree) : Except TreeError Unit :=
  match ns.findSome? refusal? with
  | .none => .ok ()
  | .some reason => .error reason

variable {ω : Type} [Output ω]

/-- The computation writes nodes in a row, up to the first one that refuses. -/
def WritesNodes (x : EStateM TreeError ω Unit) (ns : List Tree) : Prop :=
  Writes .io x ((ns.takeWhile accepts).flatMap pieces) (ending ns)

/-- Behind a refusal, nothing more is written; without one, what comes second is. -/
theorem WritesNodes.bind {x y : EStateM TreeError ω Unit} {ns ms : List Tree}
    (first : WritesNodes x ns) (second : WritesNodes y ms) :
    WritesNodes (x >>= fun _ => y) (ns ++ ms) := by
  unfold WritesNodes ending at *
  rw [List.takeWhile_append, List.findSome?_append]
  rcases refused : ns.findSome? refusal? with _ | reason
  · have all : ns.takeWhile accepts = ns := by
      rw [List.takeWhile_eq_self_iff]
      intro n mem
      rw [accepts, List.findSome?_eq_none_iff.1 refused n mem]
      rfl
    rw [refused] at first
    rw [all] at first ⊢
    rw [if_pos rfl, List.flatMap_append, Option.none_or]
    exact Writes.bind first second
  · have some_left : (ns.takeWhile accepts).length ≠ ns.length := by
      intro same
      have all := List.takeWhile_eq_self_iff.1 ((List.takeWhile_prefix _).eq_of_length same)
      obtain ⟨n, mem, refuses⟩ := List.exists_of_findSome?_eq_some refused
      have accepted := all n mem
      rw [accepts, refuses] at accepted
      cases accepted
    rw [refused] at first
    rw [if_neg some_left, Option.some_or]
    exact Writes.bind_error first

theorem writesNodes_nil : WritesNodes (ω := ω) (pure ()) [] := Writes.pure

theorem writes_emit (p : Primitive) : Writes (ω := ω) .io (emit p) p.pieces (.ok ()) := by
  intro e
  rw [emit, writes_write p e]
  rcases writePieces p.pieces e with ⟨⟨⟩, e₁⟩ | ⟨source, e₁⟩ <;> rfl

/-- A node that accepts is written as its item. -/
theorem writesNodes_emit {t : Tree} {p : Primitive} (item : t.item? = .some p)
    (accepted : t.refusal? = .none) : WritesNodes (ω := ω) (emit p) [t] := by
  have passes : t.accepts = true := by rw [accepts, accepted]; rfl
  unfold WritesNodes ending
  rw [List.takeWhile_cons_of_pos passes, List.takeWhile_nil, List.flatMap_singleton, pieces, item,
    List.findSome?_singleton, accepted]
  exact writes_emit p

/-- A node that accepts and says nothing leaves no mark. -/
theorem WritesNodes.unmarked {x : EStateM TreeError ω Unit} {t : Tree} {ns : List Tree}
    (h : WritesNodes x ns) (item : t.item? = .none) (accepted : t.refusal? = .none) :
    WritesNodes x (t :: ns) := by
  have passes : t.accepts = true := by rw [accepts, accepted]; rfl
  unfold WritesNodes ending
  rw [List.takeWhile_cons_of_pos passes, List.flatMap_cons, pieces, item,
    List.findSome?_cons_of_isNone (by rw [accepted]; rfl)]
  exact h

/-- A node that refuses is a failure. -/
theorem writesNodes_throw {t : Tree} {reason : TreeError} (refused : t.refusal? = .some reason) :
    WritesNodes (ω := ω) (throw reason) [t] := by
  have fails : t.accepts = false := by rw [accepts, refused]; rfl
  unfold WritesNodes ending
  rw [List.takeWhile_cons_of_neg (by rw [fails]; nofun), List.findSome?_singleton, refused]
  exact Writes.throw

/-- An announced length, or its refusal. -/
theorem writesNodes_emitLen {t : Tree} {len : Option Nat} (item : t.item? = len.map .len)
    (refusal : t.refusal? = if len = .none then .some .unknownLength else .none) :
    WritesNodes (ω := ω) (emitLen len) [t] := by
  cases len with
  | none => exact writesNodes_throw refusal
  | some n => exact writesNodes_emit item refusal

mutual

/-- A tree is written like the row of its nodes. -/
theorem writes_write : (t : Tree) → WritesNodes (ω := ω) t.writeTo t.preorder
  | .bool _ | .int _ _ | .f32 _ | .f64 _ | .char _ | .str _ | .bytes _ | .none
  | .unitVariant _ | .humanReadable => by
    rw [writeTo, preorder]
    exact writesNodes_emit rfl rfl
  | .some content | .newtypeVariant _ content => by
    rw [writeTo, preorder]
    exact (writesNodes_emit rfl rfl).bind (writes_write content)
  | .unit | .unitStruct => by
    rw [writeTo, preorder]
    exact writesNodes_nil.unmarked rfl rfl
  | .newtypeStruct content => by
    rw [writeTo, preorder]
    exact (writes_write content).unmarked rfl rfl
  | .seq len items => by
    rw [writeTo, preorder]
    exact (writesNodes_emitLen rfl (by cases len <;> rfl)).bind (writes_writeItems items)
  | .tuple items | .tupleStruct items | .struct items => by
    rw [writeTo, preorder]
    exact (writes_writeItems items).unmarked rfl rfl
  | .tupleVariant _ items | .structVariant _ items => by
    rw [writeTo, preorder]
    exact (writesNodes_emit rfl rfl).bind (writes_writeItems items)
  | .map len entries => by
    rw [writeTo, preorder]
    exact (writesNodes_emitLen rfl (by cases len <;> rfl)).bind (writes_writeEntries entries)
  | .failure _ => by
    rw [writeTo, preorder]
    exact writesNodes_throw rfl

/-- Trees in a row are written like the nodes of all of them. -/
theorem writes_writeItems :
    (ts : List Tree) → WritesNodes (ω := ω) (writeItems ts) (preorderItems ts)
  | [] => by
    rw [writeItems, preorderItems]
    exact writesNodes_nil
  | t :: ts => by
    rw [writeItems, preorderItems]
    exact (writes_write t).bind (writes_writeItems ts)

theorem writes_writeEntries : (entries : List (Tree × Tree)) →
    WritesNodes (ω := ω) (writeEntries entries) (preorderEntries entries)
  | [] => by
    rw [writeEntries, preorderEntries]
    exact writesNodes_nil
  | (k, v) :: entries => by
    rw [writeEntries, preorderEntries]
    exact (writes_write k).bind ((writes_write v).bind (writes_writeEntries entries))

end

/-- A tree is written in pieces that are the same for every output. -/
theorem exists_writes (t : Tree) : ∃ pieces ending, ∀ (ω : Type) [Output ω],
    Writes (ω := ω) .io t.writeTo pieces ending :=
  ⟨_, _, fun _ _ => writes_write t⟩

/-! ### Products and newtypes -/

/-- Two trees are the same, but for the kinds of products (with what ends them) and for newtypes,
any number of which were exchanged, put around nodes or taken away, in any place. -/
inductive Alike : Tree → Tree → Prop
  | refl (t) : Alike t t
  | symm {t u} (h : Alike t u) : Alike u t
  | trans {t u v} (h : Alike t u) (h' : Alike u v) : Alike t v
  | tupleStruct (items) : Alike (.tuple items) (.tupleStruct items)
  | struct (items) : Alike (.tuple items) (.struct items)
  | structVariant (index items) : Alike (.tupleVariant index items) (.structVariant index items)
  | newtypeStruct (t) : Alike t (.newtypeStruct t)
  /-- Inside of a node. -/
  | some {t u} (h : Alike t u) : Alike (.some t) (.some u)
  | newtypeVariant (index) {t u} (h : Alike t u) :
      Alike (.newtypeVariant index t) (.newtypeVariant index u)
  | seq (len before after) {t u} (h : Alike t u) :
      Alike (.seq len (before ++ t :: after)) (.seq len (before ++ u :: after))
  | tuple (before after) {t u} (h : Alike t u) :
      Alike (.tuple (before ++ t :: after)) (.tuple (before ++ u :: after))
  | tupleVariant (index before after) {t u} (h : Alike t u) :
      Alike (.tupleVariant index (before ++ t :: after))
        (.tupleVariant index (before ++ u :: after))
  | key (len before v after) {t u} (h : Alike t u) :
      Alike (.map len (before ++ (t, v) :: after)) (.map len (before ++ (u, v) :: after))
  | value (len before k after) {t u} (h : Alike t u) :
      Alike (.map len (before ++ (k, t) :: after)) (.map len (before ++ (k, u) :: after))

theorem writeItems_append (ts us : List Tree) :
    writeItems (ω := ω) (ts ++ us) = (do writeItems ts; writeItems us) := by
  induction ts with
  | nil => rw [List.nil_append, writeItems, pure_bind]
  | cons t ts ih => rw [List.cons_append, writeItems, writeItems, ih, bind_assoc]

theorem writeEntries_append (entries more : List (Tree × Tree)) :
    writeEntries (ω := ω) (entries ++ more) = (do writeEntries entries; writeEntries more) := by
  induction entries with
  | nil => rw [List.nil_append, writeEntries, pure_bind]
  | cons entry entries ih =>
    obtain ⟨k, v⟩ := entry
    simp only [List.cons_append, writeEntries, ih, bind_assoc]

/-- An item in a row can be replaced by one that is written alike. -/
theorem writeItems_congr {t u : Tree} (h : t.writeTo (ω := ω) = u.writeTo)
    (before after : List Tree) :
    writeItems (ω := ω) (before ++ t :: after) = writeItems (before ++ u :: after) := by
  rw [writeItems_append, writeItems_append, writeItems, writeItems, h]

/-- Trees that are alike are written alike, to every output. -/
theorem Alike.write_eq {t u : Tree} (h : t.Alike u) : t.writeTo (ω := ω) = u.writeTo := by
  induction h with
  | refl => rfl
  | symm _ ih => exact ih.symm
  | trans _ _ ih ih' => exact ih.trans ih'
  | tupleStruct | struct | structVariant => rw [writeTo, writeTo]
  | newtypeStruct => rw [writeTo.eq_def (.newtypeStruct _)]
  | some _ ih | newtypeVariant _ _ ih => rw [writeTo, writeTo, ih]
  | seq _ before after _ ih | tuple before after _ ih | tupleVariant _ before after _ ih =>
    rw [writeTo, writeTo, writeItems_congr ih]
  | key _ before v after _ ih | value _ before k after _ ih =>
    rw [writeTo, writeTo, writeEntries_append, writeEntries_append, writeEntries, writeEntries, ih]

/-! ### What is written of a tree -/

/-- A tree fails exactly if one of its nodes refuses, with the refusal of the first one that does.
The output gains the forms of the nodes in front of that, which are all of them if none refuses. A
tree that is alike does the same. -/
theorem written_in_preorder (t : Tree) {o : ω} (reliable : Output.Reliable o) :
    (∃ o', t.writeTo o = (match t.preorder.findSome? refusal? with
        | .none => .ok () o'
        | .some reason => .error reason o') ∧
      Output.written o' =
        Output.written o ++ (t.preorder.takeWhile accepts).flatMap form) ∧
    ∀ u, t.Alike u → u.writeTo (ω := ω) = t.writeTo := by
  refine ⟨?_, fun u alike => alike.write_eq.symm⟩
  obtain ⟨o', run, written, -⟩ :=
    exists_writePieces reliable ((t.preorder.takeWhile accepts).flatMap pieces)
  refine ⟨o', ?_, written.trans (congrArg _ (flatten_flatMap_pieces _))⟩
  rw [writes_write t o, run, ending]
  rcases t.preorder.findSome? refusal? with _ | reason <;> rfl

/-- Inside of a product in a newtype, an entry of a map is a sequence of unknown length: the failure
of the node after it is not the one that is told. -/
theorem written_in_preorder_unannounced :
    let t : Tree := .newtypeStruct (.struct [.str "a",
      .map (.some 1) [(.bool true, .some (.seq .none [.unit]))], .failure "later"])
    ∃ e', t.writeTo ({} : Encoder) = .error .unknownLength e' ∧ e'.written = [1, 97, 1, 1, 1] := by
  intro t
  obtain ⟨⟨e', outcome, written⟩, -⟩ := t.written_in_preorder (o := {}) (reliable ⟨rfl, nofun⟩)
  exact ⟨e', outcome, written.trans (by decide +kernel)⟩

end Tree

end BeanStream
