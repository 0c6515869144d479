import Unalias.Proofs.Alias.Stem

/-! What a pattern with any number of stars covers: the names that come out when each star is filled
in with a text on one line. -/
namespace Unalias

namespace Alias

/-- What a row of parts gives when a star stands before each: the pieces of the pattern. -/
def starred (others : List Text) : Pattern :=
  others.flatMap fun part => .many (.except '\n') :: compile part

theorem compile_intercalate (first : Text) (others : List Text) :
    compile (['*'].intercalate (first :: others)) = compile first ++ starred others := by
  induction others generalizing first with
  | nil => simp [starred, List.intercalate_singleton]
  | cons part others ih =>
    have star : compile ['*'] = [.many (.except '\n')] := rfl
    rw [List.intercalate_cons_cons, compile_append, compile_append, ih, star]
    simp [starred]

/- The induction is on the parts behind the first: each takes the star before it along. -/
theorem fits_filled_iff {first name : Text} {others : List Text}
    (plain : ∀ part ∈ first :: others, '*' ∉ part) :
    Fits (compile first ++ starred others) name ↔
      ∃ ws : List Text, ws.length = others.length ∧ (∀ w ∈ ws, '\n' ∉ w) ∧
        name = first ++ (List.zipWith (· ++ ·) ws others).flatten := by
  rw [fits_compile_append_iff (plain first List.mem_cons_self)]
  induction others generalizing first name with
  | nil =>
    constructor
    · rintro ⟨rest, rfl, h⟩
      cases h
      exact ⟨[], rfl, by simp, rfl⟩
    · rintro ⟨ws, none, -, rfl⟩
      rw [List.length_eq_zero_iff.mp none]
      exact ⟨[], rfl, .nil⟩
  | cons part others ih =>
    have plain' : ∀ p ∈ part :: others, '*' ∉ p := fun p hp => plain p (List.mem_cons_of_mem _ hp)
    have tail (rest : Text) := @ih part rest plain'
    simp only [← fits_compile_append_iff (plain' part List.mem_cons_self)] at tail
    have pieces : starred (part :: others) =
        .many (.except '\n') :: (compile part ++ starred others) := rfl
    simp only [pieces, fits_line_iff, tail]
    constructor
    · rintro ⟨rest, rfl, w, rest', rfl, line, ws, length, lines, rfl⟩
      refine ⟨w :: ws, by simp [length], List.forall_mem_cons.mpr ⟨line, lines⟩, ?_⟩
      simp
    · rintro ⟨ws, length, lines, rfl⟩
      obtain ⟨w, ws, rfl⟩ := List.exists_cons_of_length_eq_add_one length
      obtain ⟨line, lines⟩ := List.forall_mem_cons.mp lines
      refine ⟨_, rfl, w, _, ?_, line, ws, by simpa using length, lines, rfl⟩
      simp

end Alias

namespace Rule

open Alias

/-- A rule for a pattern of parts with stars between them accepts just the names that are the parts
with some text on one line in the place of each star. -/
theorem accepts_iff_filled (first : Text) (others : List Text) (folder : Path) (name : Text)
    (plain : ∀ part ∈ first :: others, '*' ∉ part) :
    let rule : Rule := ⟨['*'].intercalate (first :: others), folder⟩
    rule.accepts name = true ↔
      ∃ ws : List Text, ws.length = others.length ∧ (∀ w ∈ ws, '\n' ∉ w) ∧
        name = first ++ (List.zipWith (· ++ ·) ws others).flatten := by
  intro rule
  rw [accepts, Pattern.fits_iff, compile_intercalate]
  exact fits_filled_iff plain

/- All that stands behind the first part is not for the first star: the middle part and the last are
still to come. -/
theorem accepts_iff_filled_twice :
    let first := "a\n".toList
    let others := [".x".toList, ".x".toList]
    let rule : Rule := ⟨"a\n*.x*.x".toList, ⟨"/r".toList⟩⟩
    (∀ part ∈ first :: others, '*' ∉ part) ∧ rule.pattern = ['*'].intercalate (first :: others) ∧
      rule.accepts "a\n.x.x.x".toList = true := by
  intro first others rule
  have plain : ∀ part ∈ first :: others, '*' ∉ part := by decide
  have filled := accepts_iff_filled first others rule.folder "a\n.x.x.x".toList plain
  exact ⟨plain, rfl, filled.mpr ⟨[[], ".x".toList], by decide⟩⟩

end Rule

end Unalias
