import Unalias.Proofs.Statement.Retarget

/-! Where a line ends in a semicolon, a text can be cut into its statements on both sides apart.
A clause holds no semicolon and a quoted name no newline, so no statement runs over such an end;
and what follows it stands where no word goes on, as at the start of a text. -/
namespace Unalias.Statement

def lineEnd : Text := [';', '\n']

/- The clause lies before all newlines that are no part of it, and it has no semicolon. -/
theorem not_infix_lineEnd {s : Statement} (h : s.Grammatical) : ¬lineEnd <:+: s.text := by
  rintro ⟨before, after, hs⟩
  have front : ';' ∉ keyword ++ s.clause := by
    intro hc
    rcases List.mem_append.mp hc with hc | hc
    · exact absurd hc (by decide)
    · exact absurd (isClauseChar_of_clause h.clause _ hc) (by decide)
  have back : '\n' ∉ s.quote.char :: (s.literal ++ s.tail) := by
    have quote : '\n' ≠ s.quote.char := Ne.symm (char_ne_newline s.quote)
    have name : '\n' ∉ s.literal := fun hn => (h.literal _ hn).2 rfl
    cases hs : s.semicolon <;> simp [tail, hs, quote, name]
  have cut : before ++ ';' :: '\n' :: after =
      (keyword ++ s.clause) ++ s.quote.char :: (s.literal ++ s.tail) := by
    simpa [text, head, lineEnd] using hs
  rcases List.append_eq_append_iff.mp cut with ⟨e, hfront, hback⟩ | ⟨e, -, hback⟩
  · cases e with
    | nil =>
      apply back
      rw [← List.nil_append (s.quote.char :: _), ← hback]
      simp
    | cons c e =>
      apply front
      rw [hfront, ← (List.cons.inj hback).1]
      simp
  · apply back
    rw [hback]
    simp

/- What is left of a text that ends so, while some is left. -/
def EndsLine (t : Text) : Prop := t = ['\n'] ∨ lineEnd <:+ t

theorem EndsLine.of_suffix {t rest : Text} (h : EndsLine t) (suffix : rest <:+ t)
    (some : rest ≠ []) : EndsLine rest := by
  have short {u : Text} (hu : u <:+ ['\n']) (some : u ≠ []) : EndsLine u := by
    rcases List.suffix_cons_iff.mp hu with hu | hu
    · exact .inl hu
    · exact absurd (List.suffix_nil.mp hu) some
  rcases h with h | h
  · exact short (h ▸ suffix) some
  · rcases List.suffix_or_suffix_of_suffix h suffix with long | inside
    · exact .inr long
    · rcases List.suffix_cons_iff.mp inside with whole | inside
      · exact .inr (whole ▸ List.suffix_refl _)
      · exact short inside some

theorem EndsLine.of_cons {c : Char} {rest : Text} (h : EndsLine (c :: rest)) :
    EndsLine rest ∨ rest = [] ∧ c = '\n' := by
  by_cases some : rest = []
  · subst some
    rcases h with h | h
    · exact .inr ⟨rfl, (List.cons.inj h).1⟩
    · exact absurd h.length_le (by simp [lineEnd])
  · exact .inl (h.of_suffix (List.suffix_cons c rest) some)

theorem EndsLine.ne_nil {t : Text} (h : EndsLine t) : t ≠ [] := by
  rintro rfl
  rcases h with h | h
  · contradiction
  · exact absurd h.length_le (by decide)

/- A statement at the start of the text ends before the text does, whatever follows. -/
theorem EndsLine.rest_of_append {t b rest : Text} {s : Statement} (h : EndsLine t)
    (grammatical : s.Grammatical) (cut : t ++ b = s.text ++ rest) :
    ∃ left, t = s.text ++ left ∧ rest = left ++ b ∧ EndsLine left := by
  have whole {e : Text} (he : s.text = t ++ e) : False := by
    rcases h with h | h
    · rw [h] at he
      exact absurd (List.cons.inj he).1 (by decide)
    · apply not_infix_lineEnd grammatical
      rw [he]
      exact h.isInfix.trans (List.prefix_append t e).isInfix
  rcases List.append_eq_append_iff.mp cut with ⟨e, he, -⟩ | ⟨e, ht, hrest⟩
  · exact (whole he).elim
  · have some : e ≠ [] := by
      rintro rfl
      rw [List.append_nil] at ht
      exact whole (e := []) (by rw [ht, List.append_nil])
    exact ⟨e, ht, hrest, h.of_suffix ⟨s.text, ht.symm⟩ some⟩

theorem EndsLine.of_read? {t rest : Text} {s : Statement} (h : EndsLine t)
    (read : read? t = some (s, rest)) : EndsLine rest := by
  obtain ⟨ht, grammatical, -⟩ := read?_eq_some_iff.mp read
  obtain ⟨left, -, hrest, ends⟩ := h.rest_of_append (b := []) grammatical (by rwa [List.append_nil])
  rw [hrest, List.append_nil]
  exact ends

theorem complete_append_iff {s : Statement} {rest : Text} (some : rest ≠ []) (b : Text) :
    s.Complete (rest ++ b) ↔ s.Complete rest := by
  obtain ⟨c, rest, rfl⟩ := List.exists_cons_of_ne_nil some
  exact Iff.rfl

theorem EndsLine.read?_append {t : Text} (h : EndsLine t) (b : Text) :
    read? (t ++ b) = (read? t).map fun p => (p.1, p.2 ++ b) := by
  cases hr : read? t with
  | some p =>
    obtain ⟨ht, grammatical, complete⟩ := read?_eq_some_iff.mp hr
    have after := (complete_append_iff (h.of_read? hr).ne_nil b).mpr complete
    refine read?_eq_some_iff.mpr ⟨?_, grammatical, after⟩
    rw [ht, List.append_assoc]
  | none =>
    cases hb : read? (t ++ b) with
    | none => rfl
    | some p =>
      obtain ⟨cut, grammatical, complete⟩ := read?_eq_some_iff.mp hb
      obtain ⟨left, ht, hrest, ends⟩ := h.rest_of_append grammatical cut
      rw [hrest, complete_append_iff ends.ne_nil b] at complete
      rw [read?_eq_some_iff.mpr ⟨ht, grammatical, complete⟩] at hr
      contradiction

/-- The text is cut as it is cut alone, and what follows as if it were a text of its own. -/
theorem EndsLine.scanAfter_append {t : Text} (h : EndsLine t) (word : Bool) (b : Text) :
    scanAfter word (t ++ b) = scanAfter word t ++ scan b := by
  have onward {c : Char} {rest : Text} (h : EndsLine (c :: rest))
      (ih : EndsLine rest → scanAfter (isWordChar c) (rest ++ b) =
        scanAfter (isWordChar c) rest ++ scan b) :
      scanAfter (isWordChar c) (rest ++ b) = scanAfter (isWordChar c) rest ++ scan b := by
    rcases h.of_cons with ends | ⟨rfl, rfl⟩
    · exact ih ends
    · have outside : isWordChar '\n' = false := by decide
      rw [outside, scanAfter, scan]
      rfl
  fun_induction scanAfter word t with
  | case1 => exact absurd rfl h.ne_nil
  | case2 c rest s after _ _ ih =>
    rw [List.cons_append, scanAfter_true_cons, onward h ih, List.cons_append]
  | case3 word c rest s after hread _ outside ih =>
    have read : read? (c :: rest ++ b) = some (s, after ++ b) := by
      rw [h.read?_append, hread]
      rfl
    have flag : word = false := by simpa using outside
    rw [flag, scanAfter_of_read? read, ih (h.of_read? hread), List.cons_append]
  | case4 word c rest hread ih =>
    have none : read? (c :: rest ++ b) = none := by
      rw [h.read?_append, hread]
      rfl
    rw [List.cons_append] at none ⊢
    rw [scanAfter_cons_of_none word none, onward h ih, List.cons_append]

theorem scan_append {a : Text} (h : lineEnd <:+ a) (b : Text) :
    scan (a ++ b) = scan a ++ scan b :=
  EndsLine.scanAfter_append (.inr h) false b

end Unalias.Statement
