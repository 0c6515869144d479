import Unalias.Pattern.Basic

/-! What the verdicts say, piece by piece, and that together they decide what a pattern means. -/
namespace Unalias

namespace Verdicts

theorem before_cons (p : Piece) (c : Char) (t : Text) (v : Bool) (vs : List Bool) :
    ∃ x, before p (c :: t) (v :: vs) = x :: before p t vs := by
  cases p <;> exact ⟨_, rfl⟩

/-- The verdicts on a text are the one on the whole text and those on its endings. -/
theorem all_cons (ps : Pattern) (c : Char) (t : Text) :
    all ps (c :: t) = ps.fits (c :: t) :: all ps t := by
  have shape : ∃ x, all ps (c :: t) = x :: all ps t := by
    induction ps with
    | nil => exact ⟨false, rfl⟩
    | cons p ps ih =>
      obtain ⟨v, hv⟩ := ih
      obtain ⟨x, hx⟩ := before_cons p c t v (all ps t)
      exact ⟨x, (congrArg (before p (c :: t)) hv).trans hx⟩
  obtain ⟨x, hx⟩ := shape
  simp [Pattern.fits, hx]

theorem all_nil (ps : Pattern) : all ps [] = [ps.fits []] := by
  have shape : ∃ x, all ps [] = [x] := by
    induction ps with
    | nil => exact ⟨true, rfl⟩
    | cons p ps ih =>
      obtain ⟨v, hv⟩ := ih
      cases p with
      | one k => exact ⟨false, rfl⟩
      | many k => exact ⟨v, hv⟩
      | folders => exact ⟨v || false, congrArg (folders []) hv⟩
  obtain ⟨x, hx⟩ := shape
  simp [Pattern.fits, hx]

end Verdicts

namespace Pattern

theorem fits_nil (t : Text) : Pattern.fits [] t = t.isEmpty := by
  cases t <;> rfl

theorem fits_one_cons (k : CharClass) (ps : Pattern) (c : Char) (t : Text) :
    Pattern.fits (.one k :: ps) (c :: t) = (k.holds c && Pattern.fits ps t) := by
  change (Verdicts.one k (c :: t) (Verdicts.all ps (c :: t))).headD false = _
  rw [Verdicts.all_cons]
  rfl

theorem fits_many_nil (k : CharClass) (ps : Pattern) :
    Pattern.fits (.many k :: ps) [] = Pattern.fits ps [] := rfl

theorem fits_many_cons (k : CharClass) (ps : Pattern) (c : Char) (t : Text) :
    Pattern.fits (.many k :: ps) (c :: t) =
      (Pattern.fits ps (c :: t) || (k.holds c && Pattern.fits (.many k :: ps) t)) := by
  change (Verdicts.many k (c :: t) (Verdicts.all ps (c :: t))).headD false = _
  rw [Verdicts.all_cons]
  rfl

theorem fits_folders (ps : Pattern) (t : Text) :
    Pattern.fits (.folders :: ps) t =
      (Pattern.fits ps t || (Verdicts.pastSlash t (Verdicts.all ps t)).headD false) := by
  change (Verdicts.folders t (Verdicts.all ps t)).headD false = _
  cases t with
  | nil => rw [Verdicts.all_nil]; rfl
  | cons c t => rw [Verdicts.all_cons]; rfl

theorem pastSlash_iff (ps : Pattern) (t : Text) :
    (Verdicts.pastSlash t (Verdicts.all ps t)).headD false = true ↔
      ∃ w rest, t = w ++ '/' :: rest ∧ Pattern.fits ps rest = true := by
  induction t with
  | nil => simp [Verdicts.pastSlash]
  | cons c t ih =>
    rw [Verdicts.all_cons]
    simp only [Verdicts.pastSlash, List.headD_cons, Bool.or_eq_true, ih, Bool.and_eq_true,
      decide_eq_true_eq]
    constructor
    · rintro (⟨rfl, h⟩ | ⟨w, rest, rfl, h⟩)
      · exact ⟨[], t, rfl, h⟩
      · exact ⟨c :: w, rest, rfl, h⟩
    · rintro ⟨w, rest, ht, h⟩
      cases w with
      | nil =>
        obtain ⟨rfl, rfl⟩ := List.cons.inj ht
        exact .inl ⟨rfl, h⟩
      | cons d w =>
        obtain ⟨rfl, rfl⟩ := List.cons.inj ht
        exact .inr ⟨w, rest, rfl, h⟩

theorem fits_many_iff (k : CharClass) (ps : Pattern) (t : Text) :
    Pattern.fits (.many k :: ps) t = true ↔
      ∃ w rest, t = w ++ rest ∧ (∀ c ∈ w, k.holds c) ∧ Pattern.fits ps rest = true := by
  induction t with
  | nil =>
    rw [fits_many_nil]
    refine ⟨fun h => ⟨[], [], rfl, by simp, h⟩, ?_⟩
    rintro ⟨w, rest, ht, -, h⟩
    rwa [(List.append_eq_nil_iff.mp ht.symm).2] at h
  | cons c t ih =>
    simp only [fits_many_cons, Bool.or_eq_true, Bool.and_eq_true, ih]
    constructor
    · rintro (h | ⟨hc, w, rest, rfl, hw, h⟩)
      · exact ⟨[], c :: t, rfl, by simp, h⟩
      · exact ⟨c :: w, rest, rfl, by simpa using ⟨hc, hw⟩, h⟩
    · rintro ⟨w, rest, ht, hw, h⟩
      cases w with
      | nil => exact .inl (ht ▸ h)
      | cons d w =>
        obtain ⟨rfl, rfl⟩ := List.cons.inj ht
        exact .inr ⟨hw c (by simp), w, rest, rfl, fun x hx => hw x (by simp [hx]), h⟩

theorem fits_iff {ps : Pattern} {t : Text} : ps.fits t = true ↔ Fits ps t := by
  induction ps generalizing t with
  | nil =>
    rw [fits_nil, List.isEmpty_iff]
    exact ⟨fun h => h ▸ .nil, fun h => by cases h; rfl⟩
  | cons p ps ih =>
    cases p with
    | one k =>
      cases t with
      | nil => exact ⟨fun h => Bool.noConfusion h, fun h => nomatch h⟩
      | cons c t =>
        rw [fits_one_cons, Bool.and_eq_true, ih]
        exact ⟨fun h => .one h.1 h.2, fun h => by cases h with | one hc hr => exact ⟨hc, hr⟩⟩
    | many k =>
      rw [fits_many_iff]
      constructor
      · rintro ⟨w, rest, rfl, hw, h⟩
        exact .many hw (ih.mp h)
      · intro h
        cases h with
        | many hw hr => exact ⟨_, _, rfl, hw, ih.mpr hr⟩
    | folders =>
      rw [fits_folders, Bool.or_eq_true, pastSlash_iff, ih]
      constructor
      · rintro (h | ⟨w, rest, rfl, h⟩)
        · exact .stay h
        · exact .descend w (ih.mp h)
      · intro h
        cases h with
        | stay hr => exact .inl hr
        | descend w hr => exact .inr ⟨w, _, rfl, ih.mpr hr⟩

end Pattern

end Unalias
