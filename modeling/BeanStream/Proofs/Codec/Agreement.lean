import BeanStream.Proofs.Codec.Registrations
import BeanStream.Proofs.Reading.Schema
import BeanStream.Proofs.Store.Typing

/-!
# Scalars as trees

A scalar can be written in two ways: by the codec of its type, and as a tree that it hands over.
Both come to **at most one item, and it is the same one** (`Scalar.exists_item`), unless the scalar
is a path that is no text. So what they write is the same, and so is what becomes of it on an output
that fails (`Scalar.writesAs_script`, `Scalar.run_treeScript`).
-/

namespace BeanStream

open Wire Pass

/-- A scalar that is no path, or a path that is a text. -/
def Scalar.IsText : Scalar → Prop
  | .path bs => (Text.ofBytes? bs).isSome = true
  | _ => True

namespace Scalar

variable {ω : Type} [Wire.Output ω] {s : Scalar}

/-- Nothing is written either way, or the same item is. -/
theorem exists_item (text : s.IsText) :
    s.script = .done ∧ s.toTree.writeTo (ω := ω) = pure () ∨
      ∃ p, s.script = .item p ∧ s.toTree.writeTo (ω := ω) = Tree.emit p := by
  cases s with
  | unit => exact .inl ⟨rfl, by rw [toTree, Tree.writeTo]⟩
  | bool | char | f32 | f64 | string | str | cow =>
    refine .inr ⟨_, rfl, ?_⟩
    rw [toTree, Tree.writeTo]
  | int k bits =>
    refine .inr ⟨_, script_int k bits, ?_⟩
    rw [toTree, Tree.writeTo]
  | path bs =>
    obtain ⟨own, text⟩ := Option.isSome_iff_exists.1 text
    refine .inr ⟨.string own, by simp only [script, text], ?_⟩
    simp only [toTree, text]
    rw [Tree.writeTo]

end Scalar

namespace Pass

variable {ω : Type} [Wire.Output ω] {env : Env} {below : Nested ω}
  {x y : AttemptTo ω CodecError Unit}

/-- On every machine, the computation does to the output what writing the tree does, and fails as
the output does. The tree itself has nothing to fail for. -/
def WritesAs (x : AttemptTo ω CodecError Unit) (t : Tree) : Prop :=
  ∀ m, match t.writeTo m.encoder with
    | .ok _ encoder => x.run m = .ok (.ok ()) { m with encoder }
    | .error reason encoder => ∃ source, reason = .io source ∧
        x.run m = .ok (.error (.io source)) { m with encoder }

/-- A tree leaves no choice. -/
theorem WritesAs.unique {t : Tree} (hx : WritesAs x t) (hy : WritesAs y t) : x = y := by
  funext m
  have hx := hx m
  have hy := hy m
  rcases written : t.writeTo m.encoder with ⟨⟨⟩, encoder⟩ | ⟨reason, encoder⟩ <;>
    rw [written] at hx hy
  · exact hx.trans hy.symm
  · obtain ⟨source, rfl, hx⟩ := hx
    obtain ⟨_, ⟨⟩, hy⟩ := hy
    exact hx.trans hy.symm

theorem writesAs_done {t : Tree} (empty : t.writeTo (ω := ω) = pure ()) :
    WritesAs (run env below .done) t := by
  intro m
  rw [empty]
  rfl

theorem writesAs_item {t : Tree} {p : Primitive} (item : t.writeTo (ω := ω) = Tree.emit p) :
    WritesAs (run env below (.item p)) t := by
  intro m
  rw [item, Tree.emit, Script.item, Script.writeThen, run, run_outcome_bind]
  simp only [onEncoder, ExceptT.run]
  rcases Encoder.write p m.encoder with ⟨⟨⟩, encoder⟩ | ⟨source, encoder⟩
  · rfl
  · exact ⟨source, rfl, rfl⟩

/-- A tree that fails with its output only is written as itself. -/
theorem writesAs_tree {t : Tree}
    (plain : t.writeTo (ω := ω) = pure () ∨ ∃ p, t.writeTo (ω := ω) = Tree.emit p) :
    WritesAs (run env below (.tree t .ofTree)) t := by
  intro m
  rw [run, run_outcome_bind]
  simp only [onEncoder, ExceptT.run]
  rcases plain with empty | ⟨p, item⟩
  · rw [empty]
    rfl
  · rw [item, Tree.emit]
    rcases Encoder.write p m.encoder with ⟨⟨⟩, encoder⟩ | ⟨source, encoder⟩
    · rfl
    · exact ⟨source, rfl, rfl⟩

end Pass

namespace Scalar

variable {ω : Type} [Wire.Output ω] {s : Scalar} {env : Env} {below : Nested ω}

/-- The codec of a scalar writes what its tree does, -/
theorem writesAs_script (text : s.IsText) : WritesAs (run env below s.script) s.toTree := by
  rcases exists_item (ω := ω) text with ⟨script, tree⟩ | ⟨p, script, tree⟩ <;> rw [script]
  · exact writesAs_done tree
  · exact writesAs_item tree

/-- and so does the codec of trees. -/
theorem writesAs_treeScript (text : s.IsText) :
    WritesAs (run env below (Value.scalar s).treeScript) s.toTree :=
  writesAs_tree ((exists_item text).imp And.right fun ⟨p, _, tree⟩ => ⟨p, tree⟩)

theorem run_treeScript (text : s.IsText) :
    run env below (Value.scalar s).treeScript = run env below s.script :=
  (writesAs_treeScript text).unique (writesAs_script text)

end Scalar

end BeanStream
