import Unalias.Proofs.Disk.Write
import Unalias.Proofs.Path.Steps

/-! Where a name leads that is put under a path: one step on from where the path leads. Idle
segments on the way ask for a folder, which the next step asks for anyway. -/
namespace Unalias

namespace Path

theorem split_of_bare {p : Path} {s : Text} {segments : List Text} (filled : s ≠ [])
    (moves : s ≠ ['.']) (h : p.text.splitOn '/' = s :: segments) :
    p.split = (.bare, s :: segments) := by
  unfold split
  split
  · rename_i first
    exact absurd (List.cons.inj (h.symm.trans first)).1 filled
  · rename_i first
    exact absurd (List.cons.inj (h.symm.trans first)).1 moves
  · rw [h]

/- What a path starts with says where it starts, whatever segments come after. -/
theorem exists_anchor (s : Text) (front : List Text) : ∃ anchor segments, ∀ (p : Path) more,
    p.text ≠ [] → p.text.splitOn '/' = s :: front ++ more → p.split = (anchor, segments ++ more) := by
  by_cases root : s = []
  · refine ⟨.root, front, fun p more filled cut => ?_⟩
    have whole : ['/'].intercalate (p.text.splitOn '/') = p.text := List.intercalate_splitOn '/'
    rw [cut, root, List.cons_append] at whole
    obtain ⟨t, rest, later⟩ := List.exists_cons_of_ne_nil (l := front ++ more) (by
      intro none
      rw [none] at whole
      exact filled whole.symm)
    rw [later]
    simp only [split, cut, root, List.cons_append, later]
  · by_cases here : s = ['.']
    · refine ⟨.here, front, fun p more _ cut => ?_⟩
      simp only [split, cut, here, List.cons_append]
    · refine ⟨.bare, s :: front, fun p more _ cut => ?_⟩
      exact split_of_bare root here cut

/-- A name put under a path is its last segment. An empty one that was there before is gone. -/
theorem exists_split_join {p : Path} {name : Text} (some : p.text ≠ []) (clean : '/' ∉ name) :
    ∃ segments, (p.split.2 = segments ∨ p.split.2 = segments ++ [[]]) ∧
      (p.join ⟨name⟩).split = (p.split.1, segments ++ [name]) := by
  have text := join_of_relative p (isAbsolute_of_clean clean)
  have filled : (p.join ⟨name⟩).text ≠ [] := by simp [text, some]
  by_cases closed : p.text.getLast? = .some '/'
  · obtain ⟨above, whole⟩ := List.getLast?_eq_some_iff.mp closed
    obtain ⟨s, front, first⟩ := List.exists_cons_of_ne_nil (List.splitOn_ne_nil '/' above)
    obtain ⟨anchor, segments, cut⟩ := exists_anchor s front
    have before : p.text.splitOn '/' = s :: front ++ [[]] := by
      rw [whole, List.splitOn_append_cons_self, first]
      rfl
    have joined : (p.join ⟨name⟩).text.splitOn '/' = s :: front ++ [name] := by
      rw [text, separator, if_pos (.inr closed), List.append_nil, whole, List.append_assoc,
        List.singleton_append, splitOn_name clean, first]
    refine ⟨segments, .inr ?_, ?_⟩
    · rw [cut p _ some before]
    · rw [cut p _ some before, cut _ _ filled joined]
  · obtain ⟨s, front, first⟩ := List.exists_cons_of_ne_nil (List.splitOn_ne_nil '/' p.text)
    obtain ⟨anchor, segments, cut⟩ := exists_anchor s front
    have before : p.text.splitOn '/' = s :: front ++ [] := first.trans (List.append_nil _).symm
    have joined : (p.join ⟨name⟩).text.splitOn '/' = s :: front ++ [name] := by
      rw [text, separator, if_neg (not_or.mpr ⟨some, closed⟩), List.append_assoc,
        List.singleton_append, splitOn_name clean, first]
    refine ⟨segments, .inl ?_, ?_⟩
    · rw [cut p _ some before, List.append_nil]
    · rw [cut p _ some before, cut _ _ filled joined]

end Path

namespace Disk

variable {d : Disk} {p : Path} {name : Text}

/- Where an idle segment fails, any step does. -/
theorem step_of_isIdle (d : Disk) (here : Location) {s : Text} (idle : Path.isIdle s = true) :
    d.step here s = .ok here ∨
      ∀ t, d.step here t = .error .notFolder := by
  unfold step
  split
  · exact .inl (if_pos idle)
  · exact .inr fun _ => rfl

theorem bind_step_of_isIdle (d : Disk) (here : Location) {s : Text} (idle : Path.isIdle s = true)
    (t : Text) : (d.step here s).bind (d.step · t) = d.step here t := by
  rcases d.step_of_isIdle here idle with stays | fails
  · rw [stays]
    rfl
  · rw [fails, fails]
    rfl

theorem locate_of_ne_nil (some : p.text ≠ []) :
    d.locate p = d.walk (d.start p.split.1) p.split.2 := if_neg some

theorem locate_join (some : p.text ≠ []) (clean : '/' ∉ name) :
    d.locate (p.join ⟨name⟩) = (d.locate p).bind (d.step · name) := by
  obtain ⟨segments, before, joined⟩ := Path.exists_split_join some clean
  have filled : (p.join ⟨name⟩).text ≠ [] := by
    simp [Path.join_of_relative p (Path.isAbsolute_of_clean clean), some]
  rw [locate_of_ne_nil some, locate_of_ne_nil filled, joined, walk_concat]
  rcases before with same | same
  · rw [same]
  · rw [same, walk_concat]
    cases d.walk (d.start p.split.1) segments with
    | error f => rfl
    | ok mid => exact (d.bind_step_of_isIdle mid rfl name).symm

theorem exists_of_isFolder (h : d.isFolder p = true) : ∃ here es, d.locate p = .ok here ∧
    d.root.at? here = some (.folder es) ∧ d.node? p = some (.folder es) := by
  unfold isFolder at h
  cases found : d.node? p with
  | none =>
    rw [found] at h
    contradiction
  | some x =>
    cases x with
    | file => simp [found, Node.isFolder] at h
    | folder es =>
      unfold node? at found
      split at found
      · rename_i here located
        exact ⟨here, es, located, found, rfl⟩
      · contradiction

theorem step_of_not_folder {here : Location} (h : (d.root.at? here).any (·.isFolder) = false)
    (s : Text) : d.step here s = .error .notFolder := by
  unfold step
  split
  · rename_i es held
    rw [held] at h
    contradiction
  · rfl

theorem node?_of_error {f : Fault} (h : d.locate p = .error f) : d.node? p = none := by
  rw [node?, h]

/- Nothing lies under what is no folder. -/
theorem node?_join_of_not_folder (some : p.text ≠ []) (clean : '/' ∉ name)
    (h : d.isFolder p = false) : d.node? (p.join ⟨name⟩) = none := by
  have joined := locate_join (d := d) some clean
  cases located : d.locate p with
  | error f =>
    rw [located] at joined
    exact node?_of_error joined
  | ok here =>
    have bare : (d.root.at? here).any (·.isFolder) = false := by
      rw [isFolder, node?, located] at h
      exact h
    rw [located] at joined
    exact node?_of_error (joined.trans (step_of_not_folder bare name))

/- Nothing is there under a name that a folder does not have. -/
theorem node?_join_of_lookup (some : p.text ≠ []) (proper : IsName name) {here : Location}
    {es : List (Text × Node)} (located : d.locate p = .ok here)
    (held : d.root.at? here = .some (.folder es)) (h : Node.lookup name es = none) :
    d.node? (p.join ⟨name⟩) = none := by
  have joined := locate_join (d := d) some proper.2.2.2
  have idle : Path.isIdle name = false := by simp [Path.isIdle, proper.1, proper.2.1]
  have fails : ∃ f, d.step here name = .error f := by
    by_cases long : maxNameBytes < name.size
    · exact ⟨.nameTooLong, by simp [step, held, idle, proper.2.2.1, long]⟩
    · exact ⟨.noEntry, by simp [step, held, idle, proper.2.2.1, long, h]⟩
  obtain ⟨f, fails⟩ := fails
  rw [located] at joined
  exact node?_of_error (joined.trans fails)

theorem walk_cons (d : Disk) (here : Location) (s : Text) (segments : List Text) :
    d.walk here (s :: segments) = (d.step here s).bind (d.walk · segments) := by
  rw [walk, List.foldlM_cons]
  rfl

/- Only the steps on the way to a name count. -/
theorem walk_steps (d : Disk) (here : Location) (segments : List Text) (name : Text) :
    d.walk here (segments ++ [name]) =
      d.walk here ((segments.filterMap Component.ofSegment).map Component.text ++ [name]) := by
  induction segments generalizing here with
  | nil => rfl
  | cons s segments ih =>
    cases step : Component.ofSegment s with
    | some c =>
      rw [List.filterMap_cons_some step, List.map_cons, List.cons_append, List.cons_append,
        Path.text_of_ofSegment step, walk_cons, walk_cons]
      exact congrArg _ (funext ih)
    | none =>
      rw [List.filterMap_cons_none step, List.cons_append, walk_cons]
      rcases d.step_of_isIdle here (Path.ofSegment_eq_none_iff.mp step) with stays | fails
      · rw [stays, ← ih]
        rfl
      · rw [fails]
        generalize (segments.filterMap Component.ofSegment).map Component.text = rest
        cases rest with
        | nil => rw [List.nil_append, walk_cons, fails]; rfl
        | cons t rest => rw [List.cons_append, walk_cons, fails]; rfl

/-- Where a path starts that is given to the system. -/
def home (d : Disk) (p : Path) : Location := if p.isAbsolute then [] else d.working

theorem start_eq_home (d : Disk) (p : Path) : d.start p.split.1 = d.home p := by
  unfold home
  split
  · rename_i absolute
    rw [Path.anchor_eq_root_iff.mpr absolute]
    rfl
  · rename_i relative
    cases anchor : p.split.1 with
    | root => exact absurd (Path.anchor_eq_root_iff.mp anchor) relative
    | here => rfl
    | bare => rfl

/-- A name under a path is looked up by the steps of the path, however these are written. -/
theorem locate_join_eq (d : Disk) (p : Path) (proper : IsName name) :
    d.locate (p.join ⟨name⟩) = d.walk (d.home p) (p.steps.map Component.text ++ [name]) := by
  have clean := proper.2.2.2
  by_cases some : p.text = []
  · obtain ⟨text⟩ := p
    obtain rfl : text = [] := some
    have cut : name.splitOn '/' = [name] := List.splitOn_eq_singleton clean
    have alone : Path.join ⟨[]⟩ ⟨name⟩ = ⟨name⟩ := by
      rw [Path.join_of_relative _ (Path.isAbsolute_of_clean clean)]
      rfl
    have split : Path.split ⟨name⟩ = (.bare, [name]) :=
      Path.split_of_bare proper.1 proper.2.1 cut
    have filled : (⟨name⟩ : Path).text ≠ [] := proper.1
    rw [alone, locate_of_ne_nil filled, split]
    rfl
  · rw [locate_join some clean, locate_of_ne_nil some, ← walk_concat, walk_steps, start_eq_home]
    rfl

end Disk

end Unalias
