import Unalias.Proofs.Place
import Unalias.Specifier

/-! What is put around a route to make it a name, and what is left of a name without the stem. -/
namespace Unalias.Rule

theorem dressed_cases (closing : Bool) (route : Text) :
    (route = [] ∧ dressed closing route = ['.', '/']) ∨
    route ≠ [] ∧ ∃ name, name = (if closing then route ++ ['/'] else route) ∧
      ((name.head? = some '.' ∧ dressed closing route = name) ∨
        name.head? ≠ some '.' ∧ dressed closing route = ['.', '/'] ++ name) := by
  by_cases empty : route = []
  · exact .inl ⟨empty, if_pos empty⟩
  · refine .inr ⟨empty, _, rfl, ?_⟩
    unfold dressed
    rw [if_neg empty]
    generalize (if closing then route ++ ['/'] else route) = name
    by_cases dot : name.head? = some '.'
    · exact .inl ⟨dot, if_pos dot⟩
    · exact .inr ⟨dot, if_neg dot⟩

theorem head?_dressed (closing : Bool) (route : Text) :
    (dressed closing route).head? = some '.' := by
  rcases dressed_cases closing route with ⟨-, h⟩ | ⟨-, name, -, ⟨dot, h⟩ | ⟨-, h⟩⟩
  · rw [h]
    rfl
  · rw [h]
    exact dot
  · rw [h]
    rfl

/- The dot in front and the slash behind are idle segments. -/
theorem walk_dressed (here : Place) (closing : Bool) (route : Text) :
    here.walk (dressed closing route) = here.walk route := by
  have opened (t : Text) : here.walk (['.', '/'] ++ t) = here.walk t :=
    Place.walk_slash here ['.'] t
  have closed : here.walk (if closing then route ++ ['/'] else route) = here.walk route := by
    split
    · exact Place.walk_slash here route []
    · rfl
  rcases dressed_cases closing route with ⟨empty, h⟩ | ⟨-, name, hname, ⟨-, h⟩ | ⟨-, h⟩⟩
  · rw [h, empty]
    rfl
  · rw [h, hname, closed]
  · rw [h, opened, hname, closed]

theorem remainder_of_append {r : Rule} {name rest : Text} (h : name = r.stem ++ rest) :
    r.remainder name = rest := by
  rw [remainder, Text.isPrefixOf?_eq_some_iff.mpr h]
  rfl

theorem remainder_subset (r : Rule) (name : Text) : r.remainder name ⊆ name := by
  unfold remainder
  cases h : r.stem.isPrefixOf? name with
  | none => exact List.Subset.refl name
  | some rest =>
    rw [Text.isPrefixOf?_eq_some_iff.mp h]
    exact List.subset_append_right _ _

end Unalias.Rule
