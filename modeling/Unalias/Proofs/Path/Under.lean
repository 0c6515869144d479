import Unalias.Proofs.Path.Steps

/-! Paths under a root. What lies under it and does not climb out has the root's normal form before
its own one, so the way between two such paths is the same under all roots. -/
namespace Unalias.Path

/-- The path does not climb out of the folder that it starts from. -/
def Inside (p : Path) : Prop := p.normal.head? ≠ some .up

instance (p : Path) : Decidable p.Inside :=
  inferInstanceAs (Decidable (p.normal.head? ≠ some .up))

section advance

variable {trail : List Component}

/- A step out at the bottom is never taken back. -/
theorem getLast?_advance (h : trail.getLast? = some .up) (c : Component) :
    (advance trail c).getLast? = some .up := by
  have below (c : Component) : (c :: trail).getLast? = some .up := by
    rw [List.getLast?_cons, h]
    rfl
  cases c with
  | root => exact below .root
  | here => exact h
  | name n => exact below (.name n)
  | up =>
    cases trail with
    | nil => contradiction
    | cons d rest =>
      cases d with
      | root => exact h
      | here => exact below .up
      | up => exact below .up
      | name n =>
        unfold advance
        dsimp only
        split
        · exact h
        · cases rest with
          | nil => simp at h
          | cons e rest => simpa using h

theorem getLast?_foldl_advance (h : trail.getLast? = some .up) (cs : List Component) :
    (cs.foldl advance trail).getLast? = some .up := by
  induction cs generalizing trail with
  | nil => exact h
  | cons c cs ih => exact ih (getLast?_advance h c)

theorem advance_append {c : Component} (above : trail ≠ [] ∨ c ≠ .up) (below : List Component) :
    advance (trail ++ below) c = advance trail c ++ below := by
  cases c with
  | root => rfl
  | here => rfl
  | name n => rfl
  | up =>
    cases trail with
    | nil => exact absurd rfl (above.resolve_left (· rfl))
    | cons d rest =>
      cases d with
      | root => rfl
      | here => rfl
      | up => rfl
      | name n =>
        simp only [List.cons_append, advance]
        split <;> rfl

/- As long as no step climbs out, what lies below is not touched. -/
theorem foldl_advance_append {cs : List Component}
    (inside : (cs.foldl advance trail).getLast? ≠ some .up) (below : List Component) :
    cs.foldl advance (trail ++ below) = cs.foldl advance trail ++ below := by
  induction cs generalizing trail with
  | nil => rfl
  | cons c cs ih =>
    have above : trail ≠ [] ∨ c ≠ .up := by
      by_cases out : c = .up
      · refine .inl ?_
        rintro rfl
        subst out
        exact inside (getLast?_foldl_advance rfl cs)
      · exact .inr out
    rw [List.foldl_cons, List.foldl_cons, advance_append above, ih inside]

end advance

/-- The normal form of a path that goes on from a root. -/
theorem normal_of_steps_append {root p q : Path} (root_absolute : root.isAbsolute = true)
    (absolute : q.isAbsolute = true) (relative : p.isAbsolute = false) (inside : p.Inside)
    (h : q.steps = root.steps ++ p.steps) : q.normal = root.normal ++ p.normal := by
  have alone : p.normal = (p.steps.foldl advance []).reverse := by
    rw [normal_eq, origin, if_neg (by simp [relative])]
  have kept : (p.steps.foldl advance []).getLast? ≠ some .up := by
    rw [Inside, alone, List.head?_reverse] at inside
    exact inside
  have fold := foldl_advance_append kept (root.steps.foldl advance [.root])
  rw [List.nil_append] at fold
  rw [normal_eq, normal_eq root, alone, origin, origin, if_pos absolute, if_pos root_absolute, h,
    List.foldl_append, fold, List.reverse_append]

theorem normal_join {root p : Path} (absolute : root.isAbsolute = true)
    (relative : p.isAbsolute = false) (inside : p.Inside) :
    (root.join p).normal = root.normal ++ p.normal :=
  normal_of_steps_append absolute (isAbsolute_join absolute p) relative inside
    (steps_join root relative)

/-- The folder of a file under a root is the folder of the file, under the root. -/
theorem exists_parent?_join {root file folder : Path} (absolute : root.isAbsolute = true)
    (relative : file.isAbsolute = false) (moves : file.steps ≠ [])
    (parent : file.parent? = some folder) (inside : folder.Inside) :
    ∃ q, (root.join file).parent? = some q ∧ q.normal = root.normal ++ folder.normal := by
  have steps := steps_join root relative
  have moves' : (root.join file).steps ≠ [] := by
    rw [steps]
    exact List.append_ne_nil_of_right_ne_nil _ moves
  obtain ⟨f, hf, fsteps, frelative⟩ := exists_parent? moves
  obtain ⟨q, hq, qsteps, qabsolute⟩ := exists_parent? moves'
  cases Option.some.inj (parent.symm.trans hf)
  refine ⟨q, hq, normal_of_steps_append absolute ?_ (frelative.trans relative) inside ?_⟩
  · rw [qabsolute, isAbsolute_join absolute]
  · rw [qsteps, steps, List.dropLast_append_of_ne_nil moves, fsteps]

theorem shared_append {α : Type} [DecidableEq α] (front as bs : List α) :
    shared (front ++ as) (front ++ bs) = front.length + shared as bs := by
  induction front with
  | nil => simp
  | cons c front ih =>
    rw [List.cons_append, List.cons_append, shared, if_pos rfl, ih, List.length_cons]
    omega

theorem between_append (front start goal : List Component) :
    between (front ++ start) (front ++ goal) = between start goal := by
  simp only [between, shared_append, List.length_append, Nat.add_sub_add_left,
    List.drop_length_add_append]

/-- What two paths have in common at the front takes no part in the way between them. -/
theorem relativeTo_of_normal_append {start goal start' goal' : Path} {front : List Component}
    (hs : start'.normal = front ++ start.normal) (hg : goal'.normal = front ++ goal.normal) :
    relativeTo start' goal' = relativeTo start goal := by
  rw [relativeTo, relativeTo, hs, hg, between_append]

end Unalias.Path
