import Unalias.Alias.Basic
import Unalias.Pattern.Lemmas

/-! What a pattern is made of, and what the names look like that it covers. -/
namespace Unalias.Alias

/- The stem is the pattern, or lacks a closing star, or lacks that star and the slash before. -/
theorem stem_cases (pattern : Text) :
    (pattern = stem pattern ∧ pattern.getLast? ≠ some '*') ∨
      pattern = stem pattern ++ ['*'] ∨ pattern = stem pattern ++ ['/', '*'] := by
  unfold stem
  split
  · rename_i rest h
    right
    right
    simpa using congrArg List.reverse h
  · rename_i rest _ h
    right
    left
    simpa using congrArg List.reverse h
  · rename_i other
    left
    refine ⟨rfl, ?_⟩
    intro last
    obtain ⟨rest, hrest⟩ := List.getLast?_eq_some_iff.mp last
    exact other rest.reverse (by simp [hrest])

theorem stem_prefix (pattern : Text) : ∃ tail, pattern = stem pattern ++ tail := by
  rcases stem_cases pattern with ⟨h, _⟩ | h | h
  · exact ⟨[], by simpa using h⟩
  · exact ⟨_, h⟩
  · exact ⟨_, h⟩

/- Of a pattern with a star at its end, the stem is what stands before the star, less a slash. -/
theorem stem_star_cases (front : Text) :
    front = stem (front ++ ['*']) ∨ front = stem (front ++ ['*']) ++ ['/'] := by
  rcases stem_cases (front ++ ['*']) with ⟨-, last⟩ | h | h
  · rw [List.getLast?_concat] at last
    exact absurd rfl last
  · exact .inl (List.append_cancel_right h)
  · right
    have split : stem (front ++ ['*']) ++ ['/', '*'] = (stem (front ++ ['*']) ++ ['/']) ++ ['*'] := by
      rw [List.append_assoc]
      rfl
    exact List.append_cancel_right (h.trans split)

/- With no star but a closing one, the stem has none at all. -/
theorem not_mem_stem {pattern : Text} (star : '*' ∉ pattern.dropLast) : '*' ∉ stem pattern := by
  rcases stem_cases pattern with ⟨h, last⟩ | h | h
  · rw [← h]
    intro hs
    cases hp : pattern.getLast? with
    | none =>
      rw [List.getLast?_eq_none_iff.mp hp] at hs
      cases hs
    | some c =>
      obtain ⟨rest, hrest⟩ := List.getLast?_eq_some_iff.mp hp
      rw [hrest, List.dropLast_concat] at star
      rw [hrest] at hs
      rcases List.mem_append.mp hs with hs | hs
      · exact star hs
      · rw [hp, List.mem_singleton.mp hs] at last
        exact last rfl
  · rw [h, List.dropLast_concat] at star
    exact star
  · intro hs
    have whole : pattern.dropLast = stem pattern ++ ['/'] := by
      rw [h, List.dropLast_append_cons]
      simp [← h]
    exact star (whole ▸ List.mem_append_left _ hs)

theorem compile_append (p q : Text) : compile (p ++ q) = compile p ++ compile q :=
  List.map_append

/- What stands in a pattern without a star stands at the start of all names it covers. -/
theorem fits_compile_append {p name : Text} {ps : Pattern} (star : '*' ∉ p)
    (h : Fits (compile p ++ ps) name) : ∃ rest, name = p ++ rest ∧ Fits ps rest := by
  induction p generalizing name with
  | nil => exact ⟨name, rfl, h⟩
  | cons c p ih =>
    have plain : c ≠ '*' := fun hc => star (hc ▸ List.mem_cons_self)
    have first : compile (c :: p) = .one (.exactly c) :: compile p := by
      simp [compile, plain]
    rw [first, List.cons_append] at h
    cases h with
    | @one _ d _ t holds tail =>
      have same : d = c := of_decide_eq_true holds
      obtain ⟨rest, hrest, hfits⟩ := ih (fun hp => star (List.mem_cons_of_mem c hp)) tail
      exact ⟨rest, by rw [same, hrest, List.cons_append], hfits⟩

theorem fits_append_of_fits {p name : Text} {ps : Pattern} (star : '*' ∉ p) (h : Fits ps name) :
    Fits (compile p ++ ps) (p ++ name) := by
  induction p with
  | nil => exact h
  | cons c p ih =>
    have plain : c ≠ '*' := fun hc => star (hc ▸ List.mem_cons_self)
    have first : compile (c :: p) = .one (.exactly c) :: compile p := by simp [compile, plain]
    rw [first]
    exact .one (by simp [CharClass.holds]) (ih fun hp => star (List.mem_cons_of_mem c hp))

theorem fits_compile_append_iff {p name : Text} {ps : Pattern} (star : '*' ∉ p) :
    Fits (compile p ++ ps) name ↔ ∃ rest, name = p ++ rest ∧ Fits ps rest := by
  constructor
  · exact fits_compile_append star
  · rintro ⟨rest, rfl, h⟩
    exact fits_append_of_fits star h

/- What a star covers: any text on one line. -/
theorem fits_line_iff {ps : Pattern} {name : Text} :
    Fits (.many (.except '\n') :: ps) name ↔
      ∃ w rest, name = w ++ rest ∧ '\n' ∉ w ∧ Fits ps rest := by
  have line (w : Text) : (∀ c ∈ w, (CharClass.except '\n').holds c = true) ↔ '\n' ∉ w := by
    simp only [CharClass.holds, decide_eq_true_eq]
    exact ⟨fun all newline => all '\n' newline rfl, fun none c hc same => none (same ▸ hc)⟩
  simp only [← Pattern.fits_iff, Pattern.fits_many_iff, line]

end Unalias.Alias
