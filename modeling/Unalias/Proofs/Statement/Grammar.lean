import Mathlib.Data.List.TakeWhile
import Unalias.Statement.Scan

/-! The grammar of statements, said without the reader, and that the reader finds a statement
at the start of a text exactly when the grammar allows one there. -/
namespace Unalias.Statement

def Blanks (t : Text) : Prop := t ≠ [] ∧ ∀ c ∈ t, isBlank c = true

def fromWord : Text := ['f', 'r', 'o', 'm']

/-- Blanks, then one or more characters that a clause may hold, blanks, the word `from`, and
blanks again. -/
def Clause (clause : Text) : Prop :=
  ∃ lead middle gap last : Text,
    clause = lead ++ middle ++ gap ++ fromWord ++ last ∧ Blanks lead ∧
      (middle ≠ [] ∧ ∀ c ∈ middle, isClauseChar c = true) ∧ Blanks gap ∧ Blanks last

structure Grammatical (s : Statement) : Prop where
  clause : Clause s.clause
  literal : ∀ c ∈ s.literal, c ≠ s.quote.char ∧ c ≠ '\n'

/-- A semicolon that follows belongs to the statement. -/
def Complete (s : Statement) (rest : Text) : Prop := s.semicolon = false → rest.head? ≠ some ';'

theorem isClauseChar_of_isBlank {c : Char} (h : isBlank c = true) : isClauseChar c = true := by
  simp [isClauseChar, h]

theorem not_isClauseChar_quote (q : Quote) : isClauseChar q.char = false := by
  cases q <;> decide

theorem isClauseChar_of_clause {clause : Text} (h : Clause clause) :
    ∀ c ∈ clause, isClauseChar c = true := by
  obtain ⟨lead, middle, gap, last, rfl, hlead, hmiddle, hgap, hlast⟩ := h
  intro c hc
  simp only [List.mem_append] at hc
  rcases hc with (((hc | hc) | hc) | hc) | hc
  · exact isClauseChar_of_isBlank (hlead.2 c hc)
  · exact hmiddle.2 c hc
  · exact isClauseChar_of_isBlank (hgap.2 c hc)
  · simp only [fromWord, List.mem_cons, List.not_mem_nil, or_false] at hc
    rcases hc with hc | hc | hc | hc <;> subst hc <;> decide
  · exact isClauseChar_of_isBlank (hlast.2 c hc)

theorem takeWhile_ne_nil {p : Char → Bool} {t : Text} (h : t.head?.any p = true) :
    t.takeWhile p ≠ [] := by
  cases t with
  | nil => simp at h
  | cons c t => simp [show p c = true by simpa using h]

/- A text whose two ends are blank, with something between them. -/
theorem blank_ends {bound : Text} (long : 3 ≤ bound.length)
    (first : bound.head?.any isBlank = true) (last : bound.getLast?.any isBlank = true) :
    ∃ a middle z, bound = a :: middle ++ [z] ∧ isBlank a = true ∧ isBlank z = true ∧
      middle ≠ [] := by
  cases bound with
  | nil => simp at long
  | cons a tail =>
    cases hz : tail.getLast? with
    | none =>
      rw [List.getLast?_eq_none_iff.mp hz] at long
      simp at long
    | some z =>
      obtain ⟨middle, rfl⟩ := List.getLast?_eq_some_iff.mp hz
      refine ⟨a, middle, z, rfl, by simpa using first, ?_, ?_⟩
      · simpa [List.getLast?_cons] using last
      · intro empty
        simp [empty] at long

theorem clause_of_isClause {clause : Text} (chars : ∀ c ∈ clause, isClauseChar c = true)
    (h : isClause clause = true) : Clause clause := by
  have whole := clause.reverse.takeWhile_append_dropWhile (p := isBlank)
  simp only [isClause, Bool.and_eq_true] at h
  obtain ⟨closing, h⟩ := h
  split at h
  · rename_i bound hd
    simp only [Bool.and_eq_true, decide_eq_true_eq] at h
    obtain ⟨a, middle, z, rfl, ha, hz, some⟩ := blank_ends h.1.1 h.1.2 h.2
    have parts : clause = [z] ++ middle.reverse ++ [a] ++ fromWord ++
        (clause.reverse.takeWhile isBlank).reverse := by
      rw [hd] at whole
      simpa [fromWord] using (congrArg List.reverse whole).symm
    refine ⟨[z], middle.reverse, [a], _, parts, ⟨by simp, by simpa using hz⟩,
      ⟨by simpa using some, ?_⟩, ⟨by simp, by simpa using ha⟩, ?_, ?_⟩
    · intro c hc
      apply chars c
      rw [parts]
      simp only [List.mem_append]
      exact .inl (.inl (.inl (.inr hc)))
    · rw [← List.head?_reverse] at closing
      exact mt List.reverse_eq_nil_iff.mp (takeWhile_ne_nil closing)
    · exact fun c hc => List.mem_takeWhile_imp (List.mem_reverse.mp hc)
  · contradiction

theorem isClause_of_clause {clause : Text} (h : Clause clause) : isClause clause = true := by
  obtain ⟨lead, middle, gap, last, rfl, hlead, hmiddle, hgap, hlast⟩ := h
  have turned : (lead ++ middle ++ gap ++ fromWord ++ last).reverse =
      last.reverse ++ 'm' :: 'o' :: 'r' :: 'f' :: (lead ++ middle ++ gap).reverse := by
    simp [fromWord]
  have skipped : (lead ++ middle ++ gap ++ fromWord ++ last).reverse.dropWhile isBlank =
      'm' :: 'o' :: 'r' :: 'f' :: (lead ++ middle ++ gap).reverse := by
    rw [turned, List.dropWhile_append_of_pos fun c hc => hlast.2 c (List.mem_reverse.mp hc)]
    rfl
  obtain ⟨a, lead, rfl⟩ := List.exists_cons_of_ne_nil hlead.1
  obtain ⟨b, middle, rfl⟩ := List.exists_cons_of_ne_nil hmiddle.1
  have closing : ∀ {t : Text}, Blanks t → ∀ before : Text,
      (before ++ t).getLast?.any isBlank = true := by
    intro t ht before
    cases hz : t.getLast? with
    | none => exact absurd (List.getLast?_eq_none_iff.mp hz) ht.1
    | some z => simp [List.getLast?_append, hz, ht.2 z (List.mem_of_getLast? hz)]
  simp only [isClause, skipped, List.head?_reverse, List.getLast?_reverse, closing hlast,
    closing hgap, Bool.true_and, Bool.and_eq_true, decide_eq_true_eq]
  refine ⟨⟨?_, trivial⟩, ?_⟩
  · have long := List.length_pos_iff.mpr hgap.1
    simp only [List.length_reverse, List.length_append, List.length_cons]
    omega
  · simp [hlead.2 a List.mem_cons_self]

theorem ofChar?_char (q : Quote) : Quote.ofChar? q.char = some q := by cases q <;> rfl

theorem readSemicolon_append {semicolon : Bool} {rest : Text}
    (complete : semicolon = false → rest.head? ≠ some ';') :
    readSemicolon ((if semicolon then [';'] else []) ++ rest) = (semicolon, rest) := by
  cases semicolon with
  | true => rfl
  | false =>
    cases rest with
    | nil => rfl
    | cons c rest =>
      have other : c ≠ ';' := fun hc => complete rfl (by rw [hc]; rfl)
      simp [readSemicolon, other]

theorem readSemicolon_complete (t : Text) (none : (readSemicolon t).1 = false) :
    (readSemicolon t).2.head? ≠ some ';' := by
  unfold readSemicolon at none ⊢
  split at none
  · contradiction
  · rename_i other
    intro hc
    obtain ⟨rest, hrest⟩ := List.head?_eq_some_iff.mp hc
    exact other rest hrest

theorem readLiteral_append {s : Statement} {rest : Text}
    (literal : ∀ c ∈ s.literal, c ≠ s.quote.char ∧ c ≠ '\n') (complete : s.Complete rest) :
    readLiteral s.clause s.quote (s.literal ++ s.tail ++ rest) = some (s, rest) := by
  have chars : ∀ c ∈ s.literal, isLiteralChar s.quote c = true := by
    intro c hc
    simp [isLiteralChar, literal c hc]
  have stop : ¬isLiteralChar s.quote s.quote.char = true := by simp [isLiteralChar]
  have shape : s.literal ++ s.tail ++ rest =
      s.literal ++ s.quote.char :: ((if s.semicolon then [';'] else []) ++ rest) := by
    simp [tail]
  rw [shape, readLiteral, List.dropWhile_append_of_pos chars, List.dropWhile_cons_of_neg stop,
    List.takeWhile_append_of_pos chars, List.takeWhile_cons_of_neg stop, List.append_nil]
  simp [readSemicolon_append complete]

/- The parts of a statement in the order in which the reader takes them. -/
theorem text_append (s : Statement) (rest : Text) :
    s.text ++ rest = keyword ++ s.clause ++ s.quote.char :: (s.literal ++ s.tail ++ rest) := by
  simp [text, head]

theorem read?_append {s : Statement} {rest : Text} (grammatical : s.Grammatical)
    (complete : s.Complete rest) : read? (s.text ++ rest) = some (s, rest) := by
  have chars := isClauseChar_of_clause grammatical.clause
  have stop : ¬isClauseChar s.quote.char = true := by simp [not_isClauseChar_quote]
  rw [text_append, List.append_assoc keyword]
  simp only [read?, Text.isPrefixOf?_eq_some_iff.mpr rfl, Option.bind_eq_bind,
    Option.bind_some, List.takeWhile_append_of_pos chars, List.takeWhile_cons_of_neg stop,
    List.dropWhile_append_of_pos chars, List.dropWhile_cons_of_neg stop, List.append_nil,
    isClause_of_clause grammatical.clause, if_true, ofChar?_char]
  exact readLiteral_append grammatical.literal complete

theorem grammatical_of_readLiteral {clause t rest : Text} {q : Quote} {s : Statement}
    (h : readLiteral clause q t = some (s, rest)) :
    (∀ c ∈ s.literal, c ≠ s.quote.char ∧ c ≠ '\n') ∧ s.Complete rest := by
  unfold readLiteral at h
  split at h
  · split at h
    · simp only [Option.some.injEq, Prod.mk.injEq] at h
      obtain ⟨rfl, rfl⟩ := h
      constructor
      · intro c hc
        have letter := List.mem_takeWhile_imp hc
        simpa [isLiteralChar] using letter
      · exact readSemicolon_complete _
    · contradiction
  · contradiction

theorem grammatical_of_read? {t rest : Text} {s : Statement} (h : read? t = some (s, rest)) :
    s.Grammatical ∧ s.Complete rest := by
  simp only [read?, Option.bind_eq_bind, Option.bind_eq_some_iff] at h
  obtain ⟨u, _, h⟩ := h
  split at h
  · rename_i hclause
    split at h
    · contradiction
    · simp only [Option.bind_eq_some_iff] at h
      obtain ⟨q, _, h⟩ := h
      have literal := grammatical_of_readLiteral h
      have clause : Clause s.clause := by
        rw [(readLiteral_text h).1]
        exact clause_of_isClause (fun c hc => List.mem_takeWhile_imp hc) hclause
      exact ⟨⟨clause, literal.1⟩, literal.2⟩
  · contradiction

/-- The reader accepts the grammar, and nothing else. -/
theorem read?_eq_some_iff {t rest : Text} {s : Statement} :
    read? t = some (s, rest) ↔ t = s.text ++ rest ∧ s.Grammatical ∧ s.Complete rest := by
  constructor
  · intro h
    exact ⟨(read?_text h).symm, grammatical_of_read? h⟩
  · rintro ⟨rfl, grammatical, complete⟩
    exact read?_append grammatical complete

end Unalias.Statement
