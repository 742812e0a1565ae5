import BeanStream.Pass.Nested

/-!
# Write passes

The whole of a pass: writing at a given **depth**, which bounds how deeply writes are nested.
Each nested write has one less to go, and one that has none left is aborted. A depth that
suffices is not part of any result.
-/

namespace BeanStream

/-- How values are written with `depth` levels to go. -/
def Nested.ofDepth {ω : Type} [Wire.Output ω] (env : Env) : (depth : Nat) → Nested ω
  | 0 => { writeWith := fun _ => Pass.abort .overflow, encode := fun _ _ => Pass.abort .overflow }
  | depth + 1 =>
    { writeWith := fun action => Pass.writeWith env (ofDepth env depth) action
      encode := fun e v => Pass.encode env (ofDepth env depth) e v }

end BeanStream
