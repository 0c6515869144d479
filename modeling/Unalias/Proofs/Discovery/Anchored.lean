import Unalias.Discovery
import Unalias.Proofs.Glob.Segments

/-! A target under its root. The segments of the root come first, each of which takes only its own
name, and then those of the target. -/
namespace Unalias

namespace Path

theorem components_of_isAbsolute {p : Path} (absolute : p.isAbsolute = true) :
    p.components = .root :: p.steps := by
  rw [components, anchor_eq_root_iff.mpr absolute]
  rfl

theorem splitOn_rooted {p : Path} (absolute : p.isAbsolute = true) :
    p.text.splitOn '/' = [] :: p.text.tail.splitOn '/' := by
  obtain ⟨rest, whole⟩ := List.head?_eq_some_iff.mp (of_decide_eq_true absolute)
  rw [whole]
  exact List.splitOn_append_cons_self [] rest

/- A path, up to the slash before what is put under it. That slash may be its own last one. -/
theorem exists_above {p : Path} (absolute : p.isAbsolute = true) : ∃ above front,
    p.text ++ separator p.text = above ++ ['/'] ∧ above.splitOn '/' = [] :: front ∧
      front.filterMap Component.ofSegment = p.steps ∧ ([] ∉ p.split.2 → front = p.split.2) := by
  have some := text_ne_nil_of_isAbsolute absolute
  unfold separator
  split
  · rename_i h
    obtain ⟨above, whole⟩ := List.getLast?_eq_some_iff.mp (h.resolve_left some)
    have cut : (above ++ ['/']).splitOn '/' = above.splitOn '/' ++ [[]] :=
      List.splitOn_append_cons_self above []
    have rooted := splitOn_of_isAbsolute absolute
    rw [whole, cut] at rooted
    obtain ⟨s, front, first⟩ := List.exists_cons_of_ne_nil (List.splitOn_ne_nil '/' above)
    rw [first, List.cons_append] at rooted
    obtain ⟨rfl, rest⟩ := List.cons.inj rooted
    refine ⟨above, front, (List.append_nil _).trans whole, first, ?_, fun full => ?_⟩
    · rw [steps, ← rest, List.filterMap_append]
      exact (List.append_nil _).symm
    · rw [← rest] at full
      simp at full
  · exact ⟨p.text, p.split.2, rfl, splitOn_of_isAbsolute absolute, rfl, fun _ => rfl⟩

end Path

namespace Discovery

variable {root : Path} {target : Text}

/- An absolute root, escaped or not, begins with a slash. -/
theorem isAbsolute_anchored (absolute : root.isAbsolute = true) (target : Text) :
    (anchored root target).isAbsolute = true := by
  apply Path.isAbsolute_join
  obtain ⟨text⟩ := root
  cases text with
  | nil => contradiction
  | cons c t =>
    have slash : c = '/' := by simpa [Path.isAbsolute] using absolute
    rw [slash]
    rfl

theorem getLast?_escape (t : Text) :
    (Glob.escape t).getLast? = some '/' ↔ t.getLast? = some '/' := by
  rcases List.eq_nil_or_concat' t with rfl | ⟨front, c, rfl⟩
  · rfl
  · rw [Glob.escape, List.flatMap_append, List.flatMap_singleton]
    by_cases special : Glob.isSpecial c = true
    · have other := (Glob.ne_of_isSpecial special).2
      simp [special, other]
    · simp [special]

theorem text_anchored {above : Text} (relative : Path.isAbsolute ⟨target⟩ = false)
    (some : root.text ≠ []) (whole : root.text ++ Path.separator root.text = above ++ ['/']) :
    (anchored root target).text = Glob.escape above ++ '/' :: target := by
  have filled : Glob.escape root.text ≠ [] := by
    obtain ⟨c, t, same⟩ := List.exists_cons_of_ne_nil some
    rw [same, Glob.escape_cons]
    split <;> exact List.cons_ne_nil _ _
  have separator : Path.separator (Glob.escape root.text) =
      Glob.escape (Path.separator root.text) := by
    simp only [Path.separator, filled, some, getLast?_escape, false_or]
    split <;> rfl
  rw [anchored, Path.join_of_relative _ relative, separator]
  have escaped := congrArg Glob.escape whole
  rw [Glob.escape, Glob.escape, List.flatMap_append, List.flatMap_append] at escaped
  have joined : Glob.escape root.text ++ Glob.escape (Path.separator root.text) =
      Glob.escape above ++ ['/'] := escaped
  rw [joined, List.append_assoc]
  rfl

/- Below an absolute root, a relative target comes after the segments of the root. -/
theorem exists_front (absolute : root.isAbsolute = true) : ∃ front : List Text,
    front.filterMap Component.ofSegment = root.steps ∧ (∀ s ∈ front, '/' ∉ s) ∧
      ([] ∉ root.split.2 → front = root.split.2) ∧
      ∀ target, Path.isAbsolute ⟨target⟩ = false →
        (anchored root target).text.tail.splitOn '/' =
          front.map Glob.escape ++ target.splitOn '/' := by
  have some := Path.text_ne_nil_of_isAbsolute absolute
  obtain ⟨above, front, whole, first, steps, full⟩ := Path.exists_above absolute
  refine ⟨front, steps, fun s hs => ?_, full, fun target relative => ?_⟩
  · exact not_mem_of_mem_splitOn (first ▸ List.mem_cons_of_mem _ hs)
  · have cut : (anchored root target).text.splitOn '/' =
        (above.splitOn '/').map Glob.escape ++ target.splitOn '/' := by
      rw [text_anchored relative some whole, List.splitOn_append_cons_self, Glob.splitOn_escape]
    rw [Path.splitOn_rooted (isAbsolute_anchored absolute target), first, List.map_cons,
      List.cons_append] at cut
    exact (List.cons.inj cut).2

end Discovery

end Unalias
