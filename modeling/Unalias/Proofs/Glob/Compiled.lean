import Unalias.Glob.Basic
import Unalias.Pattern.Lemmas
import Unalias.Proofs.Chain

/-! What a glob is compiled to, as a relation that says nothing of positions and failures, and what
follows for globs that are put together from segments or escaped. -/
namespace Unalias.Glob

/-- The glob, at the start of a segment or not, is compiled to the pattern. -/
inductive Compiled : Bool → Text → Pattern → Prop
  | done {b : Bool} : Compiled b [] []
  | question {b : Bool} {t : Text} {p : Pattern} : Compiled false t p →
      Compiled b ('?' :: t) (.one (.except '/') :: p)
  | deep : Compiled true ['*', '*'] [.many .anything]
  | deepSlash : Compiled true ['*', '*', '/'] [.many .anything]
  | folders {t : Text} {p : Pattern} : t ≠ [] → Compiled true t p →
      Compiled true ('*' :: '*' :: '/' :: t) (.folders :: p)
  | star {b : Bool} {t : Text} {p : Pattern} : t.head? ≠ some '*' → Compiled false t p →
      Compiled b ('*' :: t) (.many (.except '/') :: p)
  | ofClass {b : Bool} {t : Text} {k : CharClass} {n : Nat} {p : Pattern} :
      readClass? t = some (k, n) → Compiled false (t.drop n) p →
      Compiled b ('[' :: t) (.one k :: p)
  | exactly {b : Bool} {c : Char} {t : Text} {p : Pattern} : c ≠ '?' → c ≠ '*' → c ≠ '[' →
      Compiled (decide (c = '/')) t p → Compiled b (c :: t) (.one (.exactly c) :: p)

theorem compiled_of_compileFrom {position : Nat} {b : Bool} {t : Text} {p : Pattern}
    (h : compileFrom position b t = .ok p) : Compiled b t p := by
  fun_induction compileFrom position b t generalizing p with
  | case1 =>
    cases Except.ok.inj h
    exact .done
  | case2 _ _ t ih =>
    obtain ⟨q, read, rfl⟩ := map_eq_ok_iff.mp h
    exact .question (ih read)
  | case3 => contradiction
  | case4 =>
    cases Except.ok.inj h
    exact .deep
  | case5 =>
    cases Except.ok.inj h
    exact .deepSlash
  | case6 _ t some _ ih =>
    obtain ⟨q, read, rfl⟩ := map_eq_ok_iff.mp h
    exact .folders some (ih read)
  | case7 => contradiction
  | case8 => contradiction
  | case9 _ _ t _ single ih =>
    obtain ⟨q, read, rfl⟩ := map_eq_ok_iff.mp h
    refine .star (fun more => ?_) (ih read)
    obtain ⟨u, hu⟩ := List.head?_eq_some_iff.mp more
    exact single u hu
  | case10 _ _ t k n closed ih =>
    obtain ⟨q, read, rfl⟩ := map_eq_ok_iff.mp h
    exact .ofClass closed (ih read)
  | case11 => contradiction
  | case12 _ _ c t question _ _ star bracket ih =>
    obtain ⟨q, read, rfl⟩ := map_eq_ok_iff.mp h
    exact .exactly question star bracket (ih read)

theorem compileFrom_of_compiled {b : Bool} {t : Text} {p : Pattern} (h : Compiled b t p)
    (position : Nat) : compileFrom position b t = .ok p := by
  induction h generalizing position with
  | done => rw [compileFrom]
  | question _ ih =>
    rw [compileFrom, ih]
    rfl
  | deep => simp [compileFrom]
  | deepSlash => simp [compileFrom]
  | folders some _ ih =>
    rw [compileFrom]
    · simp only [if_true, ih]
      rfl
    · simpa using some
    · simp
  | star single _ ih =>
    rw [compileFrom, ih]
    · rfl
    · rintro u rfl
      exact single rfl
    · rintro u rfl
      exact single rfl
  | ofClass closed _ ih =>
    simp only [compileFrom, closed, ih]
    rfl
  | exactly question star bracket _ ih =>
    rw [compileFrom, ih]
    · rfl
    all_goals simp [question, star, bracket]

theorem Compiled.unique {b : Bool} {t : Text} {p q : Pattern} (h : Compiled b t p)
    (h' : Compiled b t q) : p = q :=
  Except.ok.inj ((compileFrom_of_compiled h 0).symm.trans (compileFrom_of_compiled h' 0))

theorem compile_eq_ok_iff {t : Text} {p : Pattern} : compile t = .ok p ↔ Compiled true t p :=
  ⟨compiled_of_compileFrom, fun h => compileFrom_of_compiled h 0⟩

/- A row of classes that hold one character each. -/
theorem fits_row_iff {k : Char → CharClass} (holds : ∀ c x, (k c).holds x = true ↔ x = c)
    {t name : Text} : Fits (t.map fun c => .one (k c)) name ↔ name = t := by
  induction t generalizing name with
  | nil =>
    constructor
    · intro h
      cases h
      rfl
    · rintro rfl
      exact .nil
  | cons c t ih =>
    constructor
    · intro h
      cases h with
      | one hc rest => rw [ih.mp rest, (holds c _).mp hc]
    · rintro rfl
      exact .one ((holds c c).mpr rfl) (ih.mpr rfl)

/-- The pattern that takes just this text. -/
def exact (t : Text) : Pattern := t.map fun c => .one (.exactly c)

theorem fits_exact_iff {t name : Text} : Fits (exact t) name ↔ name = t :=
  fits_row_iff fun c x => by simp [CharClass.holds]

section classes

variable {t : Text} {k : CharClass} {n : Nat}

/- The bracket that closes a class is found in what was there before. -/
theorem findIdx?_bracket_append {m : Nat} (h : t.findIdx? (· = ']') = some m) (u : Text) :
    m < t.length ∧ (t ++ u).findIdx? (· = ']') = some m ∧ (t ++ u).take m = t.take m := by
  have short := (List.findIdx?_eq_some_iff_getElem.mp h).1
  refine ⟨short, ?_, List.take_append_of_le_length (Nat.le_of_lt short)⟩
  rw [List.findIdx?_append, h]
  rfl

theorem readClass?_append (h : readClass? t = some (k, n)) (u : Text) :
    n ≤ t.length ∧ readClass? (t ++ u) = some (k, n) := by
  unfold readClass? at h
  split at h
  · obtain ⟨m, found, same⟩ := Option.map_eq_some_iff.mp h
    obtain ⟨rfl, rfl⟩ := Prod.mk.inj same
    obtain ⟨short, found, kept⟩ := findIdx?_bracket_append found u
    refine ⟨by simp; omega, ?_⟩
    simp only [List.cons_append, readClass?, found, kept, Option.map_some]
  · contradiction
  · rename_i x t other other'
    obtain ⟨m, found, same⟩ := Option.map_eq_some_iff.mp h
    obtain ⟨rfl, rfl⟩ := Prod.mk.inj same
    obtain ⟨short, found, kept⟩ := findIdx?_bracket_append found u
    refine ⟨by simp; omega, ?_⟩
    have mark : x ≠ '!' := by
      rintro rfl
      cases t with
      | nil => exact other' rfl rfl
      | cons y t => exact other y t rfl rfl
    rw [List.cons_append, readClass?, found, Option.map_some, kept]
    all_goals simp [mark]
  · contradiction

theorem readClass?_ne_exactly {c : Char} : readClass? t ≠ some (.exactly c, n) := by
  intro h
  unfold readClass? at h
  split at h
  · obtain ⟨m, -, same⟩ := Option.map_eq_some_iff.mp h
    cases (Prod.mk.inj same).1
  · contradiction
  · obtain ⟨m, -, same⟩ := Option.map_eq_some_iff.mp h
    cases (Prod.mk.inj same).1
  · contradiction

end classes

namespace Compiled

variable {b : Bool} {t u : Text} {p q : Pattern}

/-- A segment, and what comes after the slash behind it. -/
theorem append_slash (h : Compiled b t p) (clean : '/' ∉ t) (shallow : b = true → t ≠ ['*', '*'])
    (rest : Compiled true u q) :
    Compiled b (t ++ '/' :: u) (p ++ .one (.exactly '/') :: q) := by
  induction h with
  | done => exact .exactly (by decide) (by decide) (by decide) rest
  | question _ ih => exact .question (ih (mt (List.mem_cons_of_mem _) clean) (by simp))
  | deep => exact absurd rfl (shallow rfl)
  | deepSlash => simp at clean
  | folders => simp at clean
  | @star b t p single _ ih =>
    refine .star ?_ (ih (mt (List.mem_cons_of_mem _) clean) (by simp))
    cases t with
    | nil => simp
    | cons c t => exact single
  | @ofClass b t k n p closed _ ih =>
    obtain ⟨short, closed⟩ := readClass?_append closed ('/' :: u)
    have inner : '/' ∉ t.drop n := fun h => clean (List.mem_cons_of_mem _ (List.mem_of_mem_drop h))
    have dropped : (t ++ '/' :: u).drop n = t.drop n ++ '/' :: u :=
      List.drop_append_of_le_length short
    exact .ofClass closed (dropped ▸ ih inner (by simp))
  | @exactly b c t p question star bracket _ ih =>
    have other : c ≠ '/' := by
      rintro rfl
      exact clean List.mem_cons_self
    refine .exactly question star bracket (ih (mt (List.mem_cons_of_mem _) clean) ?_)
    simp [other]

theorem exists_of_exactly {c : Char} (h : Compiled b t (.one (.exactly c) :: p)) :
    ∃ u, t = c :: u ∧ Compiled (decide (c = '/')) u p := by
  cases h with
  | ofClass closed => exact absurd closed readClass?_ne_exactly
  | exactly _ _ _ rest => exact ⟨_, rfl, rest⟩

/- Only text without wildcards is compiled to single characters. -/
theorem eq_of_exact (h : Compiled b t (exact u)) : t = u := by
  induction u generalizing b t with
  | nil =>
    cases h
    rfl
  | cons c u ih =>
    obtain ⟨v, rfl, rest⟩ := exists_of_exactly h
    rw [ih rest]

end Compiled

section dots

variable {t u : Text} {p q : Pattern}

/- Within a segment only a star takes nothing, and no two stars stand together. -/
theorem eq_star_of_fits_nil (h : Compiled false u q) (fits : Fits q []) : u = [] ∨ u = ['*'] := by
  cases h with
  | done => exact .inl rfl
  | question | ofClass | exactly => cases fits
  | star single rest =>
    rw [← Pattern.fits_iff, Pattern.fits_many_nil, Pattern.fits_iff] at fits
    cases rest with
    | done => exact .inr rfl
    | question | ofClass | exactly => cases fits
    | star => exact absurd rfl single

theorem eq_of_fits_dot (h : Compiled true t (.one (.exactly '.') :: q))
    (fits : Fits (.one (.exactly '.') :: q) ['.']) : t = ['.'] ∨ t = ['.', '*'] := by
  obtain ⟨u, rfl, rest⟩ := h.exists_of_exactly
  cases fits with
  | one _ fits => rcases eq_star_of_fits_nil rest fits with rfl | rfl <;> simp

end dots

section escape

theorem escape_cons (c : Char) (t : Text) :
    escape (c :: t) = (if isSpecial c then ['[', c, ']'] else [c]) ++ escape t := rfl

/-- What an escaped text is compiled to. -/
def literal (t : Text) : Pattern :=
  t.map fun c => .one (if isSpecial c then .oneOf [(c, c)] else .exactly c)

theorem ne_of_isSpecial {c : Char} (h : isSpecial c = true) : c ≠ '!' ∧ c ≠ '/' := by
  constructor <;> rintro rfl <;> contradiction

theorem fits_literal_iff {t name : Text} : Fits (literal t) name ↔ name = t := by
  refine fits_row_iff fun c x => ?_
  cases special : isSpecial c with
  | true =>
    have same : c ≤ x ∧ x ≤ c ↔ x = c := by
      constructor
      · exact fun h => Char.le_antisymm h.2 h.1
      · rintro rfl
        exact ⟨Char.le_refl x, Char.le_refl x⟩
    have slash : x = c → x ≠ '/' := fun h => h ▸ (ne_of_isSpecial special).2
    simpa [CharClass.holds, same.eq] using slash
  | false => simp [CharClass.holds]

theorem readClass?_special {c : Char} (special : isSpecial c = true) (t : Text) :
    readClass? (c :: ']' :: t) = some (.oneOf [(c, c)], 2) := by
  have mark := (ne_of_isSpecial special).1
  rw [readClass?]
  · simp [List.findIdx?_cons, ranges]
  all_goals simp [mark]

/- Escaped text can stand before anything that may come within a segment and at its start. -/
theorem compiled_escape {t u : Text} {q : Pattern} (b : Bool) (h : ∀ b, Compiled b u q) :
    Compiled b (escape t ++ u) (literal t ++ q) := by
  induction t generalizing b with
  | nil => exact h b
  | cons c t ih =>
    rw [escape_cons, literal, List.map_cons]
    cases special : isSpecial c with
    | true => exact .ofClass (readClass?_special special _) (ih false)
    | false =>
      simp [isSpecial] at special
      exact .exactly special.1.1.1 special.1.1.2 special.1.2 (ih _)

theorem exists_compiled_of_plain {c : Char} {t : Text} {b : Bool} {q : Pattern}
    (plain : isSpecial c = false) (h : Compiled b (c :: t) q) :
    ∃ p, Compiled (decide (c = '/')) t p := by
  cases h with
  | exactly _ _ _ rest => exact ⟨_, rest⟩
  | question | deep | deepSlash | folders | star | ofClass => contradiction

/- What stands under escaped text is a glob by itself. -/
theorem exists_compiled_of_escape {t u : Text} {b : Bool} {q : Pattern}
    (h : Compiled b (escape t ++ '/' :: u) q) : ∃ p, Compiled true u p := by
  induction t generalizing b q with
  | nil =>
    have slash : Compiled b ('/' :: u) q := h
    cases slash with
    | exactly _ _ _ rest => exact ⟨_, rest⟩
  | cons c t ih =>
    rw [escape_cons] at h
    cases special : isSpecial c with
    | true =>
      rw [special] at h
      have bracket : Compiled b ('[' :: c :: ']' :: (escape t ++ '/' :: u)) q := h
      cases bracket with
      | ofClass closed rest =>
        rw [readClass?_special special] at closed
        obtain ⟨rfl, rfl⟩ := Prod.mk.inj (Option.some.inj closed)
        exact ih rest
      | exactly _ _ bracket _ => exact absurd rfl bracket
    | false =>
      rw [special] at h
      obtain ⟨p, rest⟩ := exists_compiled_of_plain special h
      exact ih rest

end escape

end Unalias.Glob
