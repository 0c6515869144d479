import Unalias.Text.Basic

/-! Positions in a text, counted in bytes. All characters take some bytes, so a position has at
most one text before it. -/
namespace Unalias.Text

/- The part stands in the text from the one position to the other. -/
def Holds (text : Text) (span : Nat × Nat) (part : Text) : Prop :=
  ∃ before after, text = before ++ part ++ after ∧ before.size = span.1 ∧
    (before ++ part).size = span.2

theorem size_pos {t : Text} (h : t ≠ []) : 0 < t.size := by
  cases t with
  | nil => exact absurd rfl h
  | cons c t =>
    have some := c.utf8Size_pos
    rw [size_cons]
    omega

/- Of two beginnings of one text, the one that takes no more bytes begins the other. -/
theorem append_of_size_le {a b c d : Text} (same : a ++ b = c ++ d) (h : a.size ≤ c.size) :
    ∃ e, c = a ++ e ∧ b = e ++ d := by
  rcases List.append_eq_append_iff.mp same with ⟨e, hc, hb⟩ | ⟨e, ha, hd⟩
  · exact ⟨e, hc, hb⟩
  · have empty : e = [] := by
      by_cases he : e = []
      · exact he
      · have some := size_pos he
        rw [ha, size_append] at h
        omega
    subst empty
    exact ⟨[], by simpa using ha.symm, by simpa using hd.symm⟩

theorem append_inj_of_size {a b c d : Text} (same : a ++ b = c ++ d) (h : a.size = c.size) :
    a = c ∧ b = d := by
  obtain ⟨e, hc, hb⟩ := append_of_size_le same (Nat.le_of_eq h)
  have empty : e = [] := by
    by_cases he : e = []
    · exact he
    · have some := size_pos he
      rw [hc, size_append] at h
      omega
  subst empty
  exact ⟨by simpa using hc.symm, by simpa using hb⟩

end Unalias.Text
