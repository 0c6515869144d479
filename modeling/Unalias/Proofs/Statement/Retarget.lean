import Unalias.Proofs.Statement.Grammar

/-! Statements aimed at other modules, in place. As long as a new name brings in no quote and no
newline, the new text is cut into the same stretches as the old one: no statement is lost, and
none comes up between them. -/
namespace Unalias

namespace Stretch

def onStatement (f : Statement → Statement) : Stretch → Stretch
  | .other c => .other c
  | .statement s => .statement (f s)

/- The text of all stretches, one after the other. -/
def join (stretches : List Stretch) : Text := stretches.flatMap Stretch.text

@[simp] theorem join_nil : join [] = [] := rfl

@[simp] theorem join_other (c : Char) (rest : List Stretch) :
    join (.other c :: rest) = c :: join rest := rfl

@[simp] theorem join_statement (s : Statement) (rest : List Stretch) :
    join (.statement s :: rest) = s.text ++ join rest := rfl

end Stretch

namespace Statement

open Stretch

/- The characters at which the reading of a quoted name can end. -/
def isMark (c : Char) : Bool := c = '\'' || c = '"' || c = '\n'

/-- Only the name changes, and no quote or newline comes into it that was not there. -/
def Tame (f : Statement → Statement) : Prop :=
  ∀ s, ∃ literal, f s = s.aimedAt literal ∧ ∀ c ∈ literal, isMark c = true → c ∈ s.literal

/- A name that the quote has opened is closed on the same line. -/
def Closes (q : Quote) : Text → Prop
  | [] => False
  | c :: t => c = q.char ∨ (c ≠ '\n' ∧ Closes q t)

theorem isMark_char (q : Quote) : isMark q.char = true := by cases q <;> rfl

theorem char_ne_newline (q : Quote) : q.char ≠ '\n' := by cases q <;> decide

theorem char_inj {q k : Quote} (h : q.char = k.char) : q = k := by
  cases q <;> cases k <;> first | rfl | exact absurd h (by decide)

theorem not_mem_clause {clause : Text} (h : Clause clause) (q : Quote) :
    q.char ∉ keyword ++ clause := by
  intro hq
  rcases List.mem_append.mp hq with hq | hq
  · cases q <;> exact absurd hq (by decide)
  · have letter := isClauseChar_of_clause h _ hq
    rw [not_isClauseChar_quote] at letter
    contradiction

theorem mem_of_closes {q : Quote} {t : Text} (h : Closes q t) : q.char ∈ t := by
  induction t with
  | nil => exact h.elim
  | cons c t ih =>
    rcases h with h | h
    · exact h ▸ List.mem_cons_self
    · exact List.mem_cons_of_mem c (ih h.2)

theorem closes_append (q : Quote) (u t : Text) :
    Closes q (u ++ t) ↔ Closes q u ∨ ('\n' ∉ u ∧ Closes q t) := by
  induction u with
  | nil => simp [Closes]
  | cons c u ih =>
    have plain := char_ne_newline q
    simp only [List.cons_append, Closes, ih, List.mem_cons, not_or]
    constructor
    · rintro (h | ⟨line, h | ⟨lines, h⟩⟩)
      · exact .inl (.inl h)
      · exact .inl (.inr ⟨line, h⟩)
      · exact .inr ⟨⟨Ne.symm line, lines⟩, h⟩
    · rintro ((h | ⟨line, h⟩) | ⟨⟨line, lines⟩, h⟩)
      · exact .inl h
      · exact .inr ⟨line, .inl h⟩
      · exact .inr ⟨Ne.symm line, .inr ⟨lines, h⟩⟩

theorem closes_iff_mem {q : Quote} {u : Text} (line : '\n' ∉ u) : Closes q u ↔ q.char ∈ u := by
  refine ⟨mem_of_closes, fun h => ?_⟩
  induction u with
  | nil => cases h
  | cons c u ih =>
    rcases List.mem_cons.mp h with h | h
    · exact .inl h.symm
    · exact .inr ⟨fun hc => line (hc ▸ List.mem_cons_self),
        ih (fun hu => line (List.mem_cons_of_mem c hu)) h⟩

/- Through a whole statement: its own quote closes, or its name does, or what follows. -/
theorem closes_text_append {s : Statement} (h : s.Grammatical) (q : Quote) (t : Text) :
    Closes q (s.text ++ t) ↔
      '\n' ∉ keyword ++ s.clause ∧ (s.quote = q ∨ q.char ∈ s.literal ∨ Closes q t) := by
  have shape : s.text ++ t = (keyword ++ s.clause) ++ ([s.quote.char] ++ (s.literal ++
      (s.tail ++ t))) := by
    simp [text, head]
  have opened : ¬Closes q (keyword ++ s.clause) := mt mem_of_closes (not_mem_clause h.clause q)
  have line : '\n' ∉ s.literal := fun hn => (h.literal _ hn).2 rfl
  have quote : Closes q [s.quote.char] ↔ s.quote = q := by
    simp only [Closes, and_false, or_false]
    exact ⟨char_inj, fun hq => hq ▸ rfl⟩
  have closed : Closes q s.tail ↔ s.quote = q := by
    have other : ';' ≠ q.char := by cases q <;> decide
    cases hs : s.semicolon <;> simp [tail, hs, Closes, other, ← quote]
  have single : '\n' ∉ [s.quote.char] := by simpa using Ne.symm (char_ne_newline s.quote)
  have ending : '\n' ∉ s.tail := by
    cases hs : s.semicolon <;> simp [tail, hs, Ne.symm (char_ne_newline s.quote)]
  rw [shape, closes_append q (keyword ++ s.clause), closes_append q [s.quote.char],
    closes_append q s.literal, closes_append q s.tail, closes_iff_mem line, closed, quote]
  simp only [opened, line, single, ending, false_or, not_false_iff, true_and]
  constructor
  · rintro ⟨lines, h | h | h | h⟩
    · exact ⟨lines, .inl h⟩
    · exact ⟨lines, .inr (.inl h)⟩
    · exact ⟨lines, .inl h⟩
    · exact ⟨lines, .inr (.inr h)⟩
  · rintro ⟨lines, h | h | h⟩
    · exact ⟨lines, .inl h⟩
    · exact ⟨lines, .inr (.inl h)⟩
    · exact ⟨lines, .inr (.inr (.inr h))⟩

theorem exists_of_closes {q : Quote} {t : Text} (h : Closes q t) :
    ∃ literal rest, t = literal ++ q.char :: rest ∧ ∀ c ∈ literal, c ≠ q.char ∧ c ≠ '\n' := by
  induction t with
  | nil => exact h.elim
  | cons c t ih =>
    by_cases hc : c = q.char
    · exact ⟨[], t, by rw [hc]; rfl, fun d hd => by cases hd⟩
    · obtain ⟨line, h⟩ := h.resolve_left hc
      obtain ⟨literal, rest, ht, chars⟩ := ih h
      refine ⟨c :: literal, rest, by rw [ht]; rfl, ?_⟩
      intro d hd
      rcases List.mem_cons.mp hd with hd | hd
      · exact hd ▸ ⟨hc, line⟩
      · exact chars d hd

theorem closes_literal {s : Statement} (h : s.Grammatical) (rest : Text) :
    Closes s.quote (s.literal ++ s.tail ++ rest) := by
  have closed : Closes s.quote s.tail := .inl rfl
  rw [List.append_assoc, closes_append, closes_append]
  exact .inr ⟨fun hn => (h.literal _ hn).2 rfl, .inl closed⟩

/- What it takes for a statement to be read, without the statement itself. -/
theorem exists_read?_iff {t : Text} :
    (∃ s rest, read? t = some (s, rest)) ↔
      ∃ clause q rest, t = keyword ++ clause ++ q.char :: rest ∧ Clause clause ∧ Closes q rest := by
  constructor
  · rintro ⟨s, rest, h⟩
    obtain ⟨rfl, grammatical, -⟩ := read?_eq_some_iff.mp h
    exact ⟨s.clause, s.quote, s.literal ++ s.tail ++ rest, text_append s rest,
      grammatical.clause, closes_literal grammatical rest⟩
  · rintro ⟨clause, q, rest, rfl, hclause, closes⟩
    obtain ⟨literal, after, rfl, chars⟩ := exists_of_closes closes
    have whole := readSemicolon_text after
    have read := read?_append (s := ⟨clause, q, literal, (readSemicolon after).1⟩)
      ⟨hclause, chars⟩ (readSemicolon_complete after)
    refine ⟨_, _, Eq.trans (congrArg read? ?_) read⟩
    simp [text, head, tail, whole]

/- The first quote of a text is in one place only. -/
theorem opened_inj {a p z x : Text} {k q : Quote} (ha : ∀ j : Quote, j.char ∉ a)
    (hp : ∀ j : Quote, j.char ∉ p) (h : a ++ k.char :: z = p ++ q.char :: x) :
    a = p ∧ k = q ∧ z = x := by
  induction a generalizing p with
  | nil =>
    cases p with
    | nil =>
      obtain ⟨hk, hz⟩ := List.cons.inj h
      exact ⟨rfl, char_inj hk, hz⟩
    | cons d p => exact absurd ((List.cons.inj h).1 ▸ List.mem_cons_self) (hp k)
  | cons c a ih =>
    cases p with
    | nil => exact absurd ((List.cons.inj h).1 ▸ List.mem_cons_self) (ha q)
    | cons d p =>
      obtain ⟨hc, tail⟩ := List.cons.inj h
      obtain ⟨hap, rest⟩ := ih (fun j hj => ha j (List.mem_cons_of_mem c hj))
        (fun j hj => hp j (List.mem_cons_of_mem d hj)) tail
      exact ⟨by rw [hc, hap], rest⟩

/- All statements begin alike. -/
theorem head?_join (f : Statement → Statement) (l : List Stretch) :
    (join (l.map (onStatement f))).head? = (join l).head? := by
  cases l with
  | nil => rfl
  | cons stretch l => cases stretch <;> rfl

section tame

variable {f : Statement → Statement} (tame : Tame f)

include tame

theorem Tame.grammatical {s : Statement} (h : s.Grammatical) : (f s).Grammatical := by
  obtain ⟨literal, hf, old⟩ := tame s
  rw [hf]
  refine ⟨h.clause, fun c hc => ⟨?_, ?_⟩⟩
  · intro hq
    exact (h.literal c (old c hc (hq ▸ isMark_char s.quote))).1 hq
  · intro hn
    exact (h.literal c (old c hc (hn ▸ rfl))).2 hn

theorem Tame.complete {s : Statement} {rest rest' : Text} (h : s.Complete rest)
    (same : rest'.head? = rest.head?) : (f s).Complete rest' := by
  obtain ⟨literal, hf, -⟩ := tame s
  intro none
  rw [hf] at none
  rw [same]
  exact h none

/- A quote that is closed in the new text was closed in the old one. -/
theorem Tame.closes_join {q : Quote} {l : List Stretch}
    (grammatical : ∀ s, Stretch.statement s ∈ l → s.Grammatical)
    (h : Closes q (join (l.map (onStatement f)))) : Closes q (join l) := by
  induction l with
  | nil => exact h.elim
  | cons stretch l ih =>
    have rest := ih fun s hs => grammatical s (List.mem_cons_of_mem _ hs)
    cases stretch with
    | other c =>
      rcases h with h | h
      · exact .inl h
      · exact .inr ⟨h.1, rest h.2⟩
    | statement s =>
      have hs := grammatical s List.mem_cons_self
      have new := (closes_text_append (tame.grammatical hs) q _).mp h
      obtain ⟨literal, hf, old⟩ := tame s
      rw [hf] at new
      refine (closes_text_append hs q _).mpr ⟨new.1, ?_⟩
      rcases new.2 with same | inside | later
      · exact .inl same
      · exact .inr (.inl (old _ inside (isMark_char q)))
      · exact .inr (.inr (rest later))

/- The first quote of the new text stands where the first quote of the old one does: nothing
before it has changed. -/
theorem Tame.opened_join {q : Quote} {l : List Stretch} {p x : Text}
    (grammatical : ∀ s, Stretch.statement s ∈ l → s.Grammatical) (plain : ∀ j : Quote, j.char ∉ p)
    (h : join (l.map (onStatement f)) = p ++ q.char :: x) :
    ∃ y, join l = p ++ q.char :: y ∧ (Closes q x → Closes q y) := by
  induction l generalizing p with
  | nil => exact absurd h.symm (by simp)
  | cons stretch l ih =>
    have others : ∀ s, Stretch.statement s ∈ l → s.Grammatical :=
      fun s hs => grammatical s (List.mem_cons_of_mem _ hs)
    cases stretch with
    | other c =>
      cases p with
      | nil =>
        obtain ⟨hc, hx⟩ := List.cons.inj h
        refine ⟨join l, by rw [join_other, hc]; rfl, ?_⟩
        rw [← hx]
        exact tame.closes_join others
      | cons d p =>
        obtain ⟨hc, tail⟩ := List.cons.inj h
        obtain ⟨y, hy, closes⟩ :=
          ih others (fun j hj => plain j (List.mem_cons_of_mem d hj)) tail
        exact ⟨y, by rw [join_other, hy, hc]; rfl, closes⟩
    | statement s =>
      have hs := grammatical s List.mem_cons_self
      have new := tame.grammatical hs
      rw [List.map_cons, onStatement, join_statement, text_append] at h
      obtain ⟨hp, hq, -⟩ := opened_inj (not_mem_clause new.clause) plain h
      obtain ⟨literal, hf, -⟩ := tame s
      rw [hf] at hp hq
      refine ⟨s.literal ++ s.tail ++ join l, ?_, fun _ => ?_⟩
      · rw [join_statement, text_append, ← hp, ← hq]
        rfl
      · rw [← hq]
        exact closes_literal hs _

theorem Tame.read?_join {l : List Stretch}
    (grammatical : ∀ s, Stretch.statement s ∈ l → s.Grammatical)
    (h : read? (join l) = none) : read? (join (l.map (onStatement f))) = none := by
  cases new : read? (join (l.map (onStatement f))) with
  | none => rfl
  | some p =>
    obtain ⟨clause, q, x, hx, hclause, closes⟩ := exists_read?_iff.mp ⟨p.1, p.2, new⟩
    obtain ⟨y, hy, old⟩ := tame.opened_join grammatical (not_mem_clause hclause) hx
    obtain ⟨u, after, read⟩ := exists_read?_iff.mpr ⟨clause, q, y, hy, hclause, old closes⟩
    rw [h] at read
    contradiction

end tame

theorem mem_of_mem_other {s : Statement} {c : Char} {l : List Stretch}
    (h : Stretch.statement s ∈ .other c :: l) : Stretch.statement s ∈ l := by
  rcases List.mem_cons.mp h with h | h
  · contradiction
  · exact h

theorem grammatical_of_mem_scanAfter {word : Bool} {t : Text} {s : Statement}
    (h : Stretch.statement s ∈ scanAfter word t) : s.Grammatical := by
  fun_induction scanAfter word t with
  | case1 => cases h
  | case2 c rest u after hread _ ih => exact ih (mem_of_mem_other h)
  | case3 word c rest u after hread _ _ ih =>
    rcases List.mem_cons.mp h with h | h
    · cases h
      exact (grammatical_of_read? hread).1
    · exact ih h
  | case4 word c rest hread ih => exact ih (mem_of_mem_other h)

theorem scanAfter_true_cons (c : Char) (t : Text) :
    scanAfter true (c :: t) = .other c :: scanAfter (isWordChar c) t := by
  rw [scanAfter]
  split <;> rfl

theorem scanAfter_cons_of_none (word : Bool) {c : Char} {t : Text} (h : read? (c :: t) = none) :
    scanAfter word (c :: t) = .other c :: scanAfter (isWordChar c) t := by
  rw [scanAfter]
  split
  · rename_i some
    rw [h] at some
    contradiction
  · rfl

theorem scanAfter_of_read? {t after : Text} {s : Statement} (h : read? t = some (s, after)) :
    scanAfter false t = .statement s :: scanAfter false after := by
  cases t with
  | nil => contradiction
  | cons c t =>
    rw [scanAfter]
    split
    · rename_i some
      rw [h] at some
      cases some
      rfl
    · rename_i none
      rw [h] at none
      contradiction

/-- Cutting the new text is changing the pieces of the old one. -/
theorem Tame.scanAfter_join {f : Statement → Statement} (tame : Tame f) (word : Bool) (t : Text) :
    scanAfter word (join ((scanAfter word t).map (onStatement f))) =
      (scanAfter word t).map (onStatement f) := by
  fun_induction scanAfter word t with
  | case1 word => rw [List.map_nil, join_nil, scanAfter]
  | case2 c rest s after h _ ih =>
    rw [List.map_cons, onStatement, join_other, scanAfter_true_cons, ih]
  | case3 word c rest s after h _ outside ih =>
    obtain ⟨grammatical, complete⟩ := grammatical_of_read? h
    have same : (join ((scanAfter false after).map (onStatement f))).head? = after.head? :=
      (head?_join f _).trans (congrArg List.head? (scanAfter_text false after))
    have read := read?_append (tame.grammatical grammatical) (tame.complete complete same)
    have flag : word = false := by simpa using outside
    rw [List.map_cons, onStatement, join_statement, flag, scanAfter_of_read? read, ih]
  | case4 word c rest h ih =>
    have old : join (.other c :: scanAfter (isWordChar c) rest) = c :: rest :=
      congrArg (c :: ·) (scanAfter_text (isWordChar c) rest)
    have none := tame.read?_join (l := .other c :: scanAfter (isWordChar c) rest)
      (fun s hs => grammatical_of_mem_scanAfter (mem_of_mem_other hs)) (old ▸ h)
    rw [List.map_cons, onStatement, join_other] at none ⊢
    rw [scanAfter_cons_of_none word none, ih]

end Statement
end Unalias
