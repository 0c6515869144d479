import Unalias.Text.Blank
import Unalias.Text.WordChar

/-! Statements that bring in a module by name: the keyword, a clause that ends in the word
`from`, the module's name in quotes, and a semicolon if there is one. The clause is not looked
into, but for the characters that it may hold. -/
namespace Unalias

inductive Quote
  | single
  | double
deriving DecidableEq

namespace Quote

def char : Quote → Char
  | .single => '\''
  | .double => '"'

def ofChar? (c : Char) : Option Quote :=
  if c = '\'' then some .single else if c = '"' then some .double else none

theorem char_of_ofChar? {c : Char} {q : Quote} (h : ofChar? c = some q) : q.char = c := by
  unfold ofChar? at h
  split at h
  · rename_i hc
    cases Option.some.inj h
    exact hc.symm
  · split at h
    · rename_i hc
      cases Option.some.inj h
      exact hc.symm
    · contradiction

end Quote

structure Statement where
  clause : Text
  quote : Quote
  literal : Text
  semicolon : Bool
deriving DecidableEq

namespace Statement

def keyword : Text := ['i', 'm', 'p', 'o', 'r', 't']

def head (s : Statement) : Text := keyword ++ s.clause ++ [s.quote.char]

def tail (s : Statement) : Text := s.quote.char :: if s.semicolon then [';'] else []

def text (s : Statement) : Text := s.head ++ s.literal ++ s.tail

def aimedAt (s : Statement) (literal : Text) : Statement := { s with literal }

def isClauseChar (c : Char) : Bool :=
  isWordChar c || isBlank c || c = '\x7b' || c = '\x7d' || c = '*' || c = ','

/-- Blanks, at least one character, blanks, the word `from`, blanks. -/
def isClause (clause : Text) : Bool :=
  (clause.getLast?.any isBlank) &&
  match clause.reverse.dropWhile isBlank with
  | 'm' :: 'o' :: 'r' :: 'f' :: bound =>
    3 ≤ bound.length && bound.head?.any isBlank && bound.getLast?.any isBlank
  | _ => false

/-- What the quoted name may not hold. -/
def isLiteralChar (q : Quote) (c : Char) : Bool := c ≠ q.char && c ≠ '\n'

def readSemicolon : Text → Bool × Text
  | ';' :: t => (true, t)
  | t => (false, t)

def readLiteral (clause : Text) (q : Quote) (t : Text) : Option (Statement × Text) :=
  match t.dropWhile (isLiteralChar q) with
  | c :: rest =>
    if c = q.char then
      let (semicolon, rest) := readSemicolon rest
      some (⟨clause, q, t.takeWhile (isLiteralChar q), semicolon⟩, rest)
    else none
  | [] => none

/-- The statement at the start of a text, and what follows it. -/
def read? (t : Text) : Option (Statement × Text) := do
  let t ← keyword.isPrefixOf? t
  let clause := t.takeWhile isClauseChar
  if isClause clause then
    match t.dropWhile isClauseChar with
    | [] => none
    | c :: rest => readLiteral clause (← Quote.ofChar? c) rest
  else none

theorem readSemicolon_text (t : Text) :
    (if (readSemicolon t).1 then [';'] else []) ++ (readSemicolon t).2 = t := by
  unfold readSemicolon
  split <;> simp

theorem readLiteral_text {clause t rest : Text} {q : Quote} {s : Statement}
    (h : readLiteral clause q t = some (s, rest)) :
    s.clause = clause ∧ s.quote = q ∧ s.literal ++ s.tail ++ rest = t := by
  have whole := t.takeWhile_append_dropWhile (p := isLiteralChar q)
  unfold readLiteral at h
  split at h
  · rename_i c r hd
    split at h
    · rename_i hc
      simp only [Option.some.injEq, Prod.mk.injEq] at h
      obtain ⟨rfl, rfl⟩ := h
      refine ⟨rfl, rfl, ?_⟩
      rw [hd] at whole
      simpa [tail, ← hc, readSemicolon_text] using whole
    · contradiction
  · contradiction

theorem read?_text {t rest : Text} {s : Statement} (h : read? t = some (s, rest)) :
    s.text ++ rest = t := by
  simp only [read?, Option.bind_eq_bind, Option.bind_eq_some_iff] at h
  obtain ⟨u, hu, h⟩ := h
  have key : keyword ++ u = t := (Text.isPrefixOf?_eq_some_iff.mp hu).symm
  have whole := u.takeWhile_append_dropWhile (p := isClauseChar)
  split at h
  · split at h
    · contradiction
    · rename_i c r hd
      simp only [Option.bind_eq_some_iff] at h
      obtain ⟨q, hq, h⟩ := h
      obtain ⟨hclause, hquote, hrest⟩ := readLiteral_text h
      rw [hd, ← hrest, ← Quote.char_of_ofChar? hq] at whole
      rw [← key, ← whole]
      simp [text, head, hclause, hquote]
  · contradiction

theorem length_lt_of_read? {t rest : Text} {s : Statement} (h : read? t = some (s, rest)) :
    rest.length < t.length := by
  have := congrArg List.length (read?_text h)
  simp [text, head, keyword] at this
  omega

end Statement
end Unalias
