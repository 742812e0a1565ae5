import BeanStream.Grammar.Rule

/-!
# Reading goes forward

Whatever a rule makes of some tokens, the ones that it leaves are an end of them
(`Rule.forward_read?`): nothing is read twice, and nothing is put back.
-/

namespace BeanStream.Grammar

open Source (Token Entry)

/-- A reader that leaves an end of what it is given. -/
def Reader.Forward (read? : Reader) : Prop :=
  ∀ ⦃ts out rest⦄, read? ts = some (out, rest) → rest <:+ ts

theorem suffix_of_behindSign? {cs : List Char} {ts rest : List Token}
    (h : behindSign? cs ts = some rest) : rest <:+ ts := by
  fun_induction behindSign? cs ts with
  | case1 => cases h; exact List.suffix_refl _
  | case2 => cases h; exact List.suffix_cons ..
  | case4 _ _ _ _ ih => exact (ih h).trans (List.suffix_cons ..)
  | _ => cases h

namespace Reader.Forward

theorem many {read? : Reader} (forward : Forward read?) (ts : List Token) :
    (Reader.many read? ts).2 <:+ ts := by
  fun_induction Reader.many read? ts with
  | case2 ts out rest read shorter more left eq ih =>
    rw [eq] at ih
    exact ih.trans (forward read)
  | _ => exact List.suffix_refl _

/-- What one step of a list of entries leaves. -/
private theorem entry {first? other? : Reader} (first : Forward first?) (other : Forward other?)
    {ts out rest : List Token} {isLifetime : Bool}
    (h : (match first? ts with
      | some read => (true, some read)
      | none => (false, other? ts)) = (isLifetime, some (out, rest))) : rest <:+ ts := by
  split at h
  next read =>
    cases h
    exact first read
  · exact other (congrArg Prod.snd h)

theorem entries {first? other? : Reader} (first : Forward first?) (other : Forward other?)
    (ts : List Token) : (Reader.entries first? other? ts).2 <:+ ts := by
  fun_induction Reader.entries first? other? ts with
  | case1 ts isLifetime out joined rest shorter more left eq read ih =>
    rw [eq] at ih
    exact (ih.trans (List.suffix_cons ..)).trans (entry first other read)
  | case3 ts isLifetime out rest noComma read => exact entry first other read
  | _ => exact List.suffix_refl _

end Reader.Forward

/-- Reading a rule leaves an end of the tokens. -/
theorem Rule.forward_read? {Phrase : Type} {rules : Phrase → Rule Phrase} (n : Nat) :
    ∀ rule : Rule Phrase, Reader.Forward (rule.read? rules n) := by
  induction n with
  | zero => exact fun _ _ _ _ h => nomatch h
  | succ n ih =>
    intro rule ts out rest h
    unfold Rule.read? at h
    split at h
    · cases h; exact List.suffix_refl _
    · obtain ⟨_, found, eq⟩ := Option.map_eq_some_iff.mp h
      cases eq
      exact suffix_of_behindSign? found
    · split at h <;> cases h
      exact List.suffix_cons ..
    · split at h <;> cases h
      exact List.suffix_cons ..
    · cases h
      exact (List.suffix_cons ..).trans (List.suffix_cons ..)
    · cases h; exact List.suffix_cons ..
    · obtain ⟨_, _, h⟩ := Option.bind_eq_some_iff.mp h
      dsimp only at h
      split at h <;> cases h
      exact List.suffix_cons ..
    · cases h; exact List.suffix_cons ..
    · split at h
      · split at h <;> cases h
        exact List.suffix_cons ..
      · cases h
    · exact ih _ h
    · obtain ⟨⟨_, middle⟩, first, h⟩ := Option.bind_eq_some_iff.mp h
      obtain ⟨_, second, eq⟩ := Option.map_eq_some_iff.mp h
      cases eq
      exact (ih _ second).trans (ih _ first)
    · cases first : read? rules n _ ts with
      | none =>
        rw [first] at h
        exact ih _ h
      | some read =>
        rw [first] at h
        cases h
        exact ih _ first
    · split at h <;> cases h
      exact List.suffix_refl _
    · have eq : (Reader.many _ ts).2 = rest := congrArg Prod.snd (Option.some.inj h)
      exact eq ▸ Reader.Forward.many (ih _) ts
    · obtain ⟨_, read, eq⟩ := Option.map_eq_some_iff.mp h
      cases eq
      exact ih _ read
    · obtain ⟨_, read, eq⟩ := Option.map_eq_some_iff.mp h
      cases eq
      exact ih _ read
    · cases h; exact List.suffix_refl _
    · cases h; exact Reader.Forward.entries (ih _) (ih _) ts
    · cases h

end BeanStream.Grammar
