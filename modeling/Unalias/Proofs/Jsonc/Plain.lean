import Unalias.Proofs.Jsonc.Sheet

/-! The two passes over a sheet. The first keeps its lexemes and lays them out with white space
alone; the second keeps that layout and drops the commas before closing marks, which brings the
lexemes of a value down to those of strict JSON. -/
namespace Unalias.Jsonc

open Json (Lexeme Mark Laid Begins Series Row Member WrittenWith Written)

theorem ne_of_isSpace {c : Char} (h : Json.isSpace c = true) : c ≠ '/' ∧ c ≠ '"' ∧ c ≠ ',' := by
  refine ⟨?_, ?_, ?_⟩ <;> rintro rfl <;> contradiction

section comments

theorem withoutComments_cons {c : Char} (slash : c ≠ '/') (t : Text) :
    withoutComments (c :: t) = c :: withoutCommentsFrom (.kept (Mode.code.next c)) t := by
  rw [withoutComments, withoutCommentsFrom]
  · intro u _ same
    exact absurd same slash
  · intro u _ same
    exact absurd same slash

theorem withoutComments_plain {c : Char} (slash : c ≠ '/') (quote : c ≠ '"') (t : Text) :
    withoutComments (c :: t) = c :: withoutComments t := by
  rw [withoutComments_cons slash, Mode.next, if_neg quote]
  rfl

theorem withoutComments_lexeme (l : Lexeme) (t : Text) :
    withoutComments (l.text ++ t) = l.text ++ withoutComments t := by
  cases l with
  | mark m => cases m <;> exact withoutComments_plain (by decide) (by decide) t
  | quoted spelling =>
    simp only [Lexeme.text, List.cons_append, List.append_assoc, List.nil_append]
    rw [withoutComments_cons (by decide)]
    exact congrArg _ (withoutCommentsFrom_quoted (held_of_spells spelling) t)

theorem withoutCommentsFrom_line {body : Text} (h : '\n' ∉ body) (t : Text) :
    withoutCommentsFrom .line (body ++ '\n' :: t) = '\n' :: withoutComments t := by
  induction body with
  | nil => exact if_pos rfl
  | cons c body ih =>
    obtain ⟨other, rest⟩ := not_or.mp (mt List.mem_cons.mpr h)
    rw [List.cons_append, withoutCommentsFrom, if_neg (Ne.symm other), ih rest]

theorem withoutCommentsFrom_line_end {body : Text} (h : '\n' ∉ body) :
    withoutCommentsFrom .line body = [] := by
  induction body with
  | nil => rfl
  | cons c body ih =>
    obtain ⟨other, rest⟩ := not_or.mp (mt List.mem_cons.mpr h)
    rw [withoutCommentsFrom, if_neg (Ne.symm other), ih rest]

theorem contains_cons {word : Text} {c : Char} {t : Text}
    (h : Text.contains word (c :: t) = false) :
    word.isPrefixOf (c :: t) = false ∧ Text.contains word t = false :=
  Bool.or_eq_false_iff.mp h

/- A step into a comment that is not closed yet. A star that has been seen counts as if it stood
before the rest. -/
theorem withoutCommentsFrom_block_cons {star : Bool} {c : Char} {body : Text}
    (h : Text.contains ['*', '/'] (if star then '*' :: c :: body else c :: body) = false)
    (t : Text) :
    withoutCommentsFrom (.block star) (c :: t) = withoutCommentsFrom (.block (c = '*')) t ∧
      Text.contains ['*', '/'] (if c = '*' then '*' :: body else body) = false := by
  have goesOn : ¬(star = true ∧ c = '/') := by
    rintro ⟨rfl, rfl⟩
    have := (contains_cons h).1
    contradiction
  have later : Text.contains ['*', '/'] (c :: body) = false := by
    cases star with
    | true => exact (contains_cons h).2
    | false => exact h
  refine ⟨by rw [withoutCommentsFrom, if_neg goesOn], ?_⟩
  split
  · rename_i star
    exact star ▸ later
  · exact (contains_cons later).2

theorem withoutCommentsFrom_block_end {star : Bool} {body : Text}
    (h : Text.contains ['*', '/'] (if star then '*' :: body else body) = false) :
    withoutCommentsFrom (.block star) body = [] := by
  induction body generalizing star with
  | nil => rfl
  | cons c body ih =>
    obtain ⟨step, later⟩ := withoutCommentsFrom_block_cons h body
    rw [step]
    exact ih (by simpa using later)

theorem withoutCommentsFrom_block {star : Bool} {body : Text}
    (h : Text.contains ['*', '/'] (if star then '*' :: body else body) = false) (t : Text) :
    withoutCommentsFrom (.block star) (body ++ '*' :: '/' :: t) = withoutComments t := by
  induction body generalizing star with
  | nil =>
    rw [List.nil_append, withoutCommentsFrom, if_neg (by simp), withoutCommentsFrom,
      if_pos (by simp)]
    rfl
  | cons c body ih =>
    obtain ⟨step, later⟩ := withoutCommentsFrom_block_cons h (body ++ '*' :: '/' :: t)
    rw [List.cons_append, step]
    exact ih (by simpa using later)

theorem withoutComments_ending (s : Sheet) : withoutComments s.ending = [] := by
  unfold Sheet.ending
  split
  · rename_i remark _
    exact withoutCommentsFrom_line_end remark.property
  · rfl

/-- Without its comments, a sheet is laid out as strict JSON is. -/
theorem laid_withoutComments (s : Sheet) : Laid s.lexemes (withoutComments s.text) := by
  obtain ⟨pieces, remark?⟩ := s
  -- the induction is on the pieces, over an ending of which nothing is left
  have ended := withoutComments_ending ⟨pieces, remark?⟩
  unfold Sheet.text Sheet.lexemes
  generalize Sheet.ending ⟨pieces, remark?⟩ = ending at ended
  induction pieces with
  | nil =>
    rw [List.flatMap_nil, List.nil_append, ended]
    exact .done
  | cons piece pieces ih =>
    rw [List.flatMap_cons, List.append_assoc]
    cases piece with
    | space c h =>
      obtain ⟨slash, quote, -⟩ := ne_of_isSpace h
      rw [Piece.text, List.singleton_append, withoutComments_plain slash quote]
      exact .space h ih
    | line body h =>
      simp only [Piece.text, List.cons_append, List.append_assoc, List.nil_append]
      have left := withoutCommentsFrom_line h (pieces.flatMap Piece.text ++ ending)
      exact (congrArg (Laid _) left).mpr (.space rfl ih)
    | block body h =>
      simp only [Piece.text, List.cons_append, List.append_assoc, List.nil_append]
      have left := @withoutCommentsFrom_block false _ h (pieces.flatMap Piece.text ++ ending)
      exact (congrArg (Laid _) left).mpr ih
    | lexeme l =>
      rw [Piece.text, withoutComments_lexeme]
      exact .lexeme l ih

end comments

section commas

/-- The lexemes without the commas that stand before a closing mark. -/
def dropClosing : List Lexeme → List Lexeme
  | [] => []
  | .mark .comma :: ls =>
    if ls.head?.any Lexeme.closes then dropClosing ls else .mark .comma :: dropClosing ls
  | l :: ls => l :: dropClosing ls

theorem isBlank_of_isSpace {c : Char} (h : Json.isSpace c = true) : isBlank c = true := by
  simp only [Json.isSpace, Bool.or_eq_true, decide_eq_true_eq] at h
  rcases h with ((rfl | rfl) | rfl) | rfl <;> rfl

theorem closes_of_laid {ls : List Lexeme} {t : Text} (h : Laid ls t) :
    closes t = ls.head?.any Lexeme.closes := by
  induction h with
  | done => rfl
  | space h rest ih =>
    rw [closes, List.find?_cons_of_neg (by simp [isBlank_of_isSpace h])]
    exact ih
  | lexeme l rest ih =>
    cases l with
    | mark m => cases m <;> rfl
    | quoted spelling => rfl

theorem withoutClosingCommas_cons {c : Char} (comma : c ≠ ',') (t : Text) :
    withoutClosingCommas (c :: t) = c :: withoutClosingCommasFrom (Mode.code.next c) t :=
  if_neg fun h => comma h.2.1

theorem withoutClosingCommas_plain {c : Char} (comma : c ≠ ',') (quote : c ≠ '"') (t : Text) :
    withoutClosingCommas (c :: t) = c :: withoutClosingCommas t := by
  rw [withoutClosingCommas_cons comma, Mode.next, if_neg quote]
  rfl

theorem withoutClosingCommas_comma (t : Text) :
    withoutClosingCommas (',' :: t) =
      if closes t then withoutClosingCommas t else ',' :: withoutClosingCommas t := by
  rw [withoutClosingCommas, withoutClosingCommasFrom]
  simp only [true_and]
  rfl

theorem withoutClosingCommas_quoted {s b : Text} (spelling : Json.Spells s b) (t : Text) :
    withoutClosingCommas ((Lexeme.quoted spelling).text ++ t) =
      (Lexeme.quoted spelling).text ++ withoutClosingCommas t := by
  simp only [Lexeme.text, List.cons_append, List.append_assoc, List.nil_append]
  rw [withoutClosingCommas_cons (by decide)]
  exact congrArg _ (withoutClosingCommasFrom_quoted (held_of_spells spelling) t)

theorem dropClosing_mark {m : Mark} (h : m ≠ .comma) (ls : List Lexeme) :
    dropClosing (.mark m :: ls) = .mark m :: dropClosing ls := by
  cases m with
  | comma => contradiction
  | listOpen | listClose | objectOpen | objectClose | colon => rfl

/-- Without its closing commas, a text in the layout of strict JSON keeps that layout. -/
theorem laid_withoutClosingCommas {ls : List Lexeme} {t : Text} (h : Laid ls t) :
    Laid (dropClosing ls) (withoutClosingCommas t) := by
  induction h with
  | done => exact .done
  | @space ls t c h rest ih =>
    obtain ⟨-, quote, comma⟩ := ne_of_isSpace h
    rw [withoutClosingCommas_plain comma quote]
    exact .space h ih
  | @lexeme ls t l rest ih =>
    cases l with
    | quoted spelling =>
      rw [withoutClosingCommas_quoted]
      exact .lexeme (.quoted spelling) ih
    | mark m =>
      by_cases comma : m = .comma
      · rw [comma, Lexeme.text, List.singleton_append, Mark.char, withoutClosingCommas_comma,
          dropClosing, closes_of_laid rest]
        split
        · exact ih
        · exact .lexeme (.mark .comma) ih
      · have kept : withoutClosingCommas (m.char :: t) = m.char :: withoutClosingCommas t := by
          apply withoutClosingCommas_plain <;> cases m <;> first | decide | contradiction
        rw [Lexeme.text, List.singleton_append, kept, dropClosing_mark comma]
        exact .lexeme (.mark m) ih

end commas

/- What dropping the closing commas does to the lexemes of a value. -/
section grammar

/-- The one is brought down to the other, whatever lexemes come after it. -/
def Drops (ls ms : List Lexeme) : Prop :=
  ∀ rest, dropClosing (ls ++ rest) = ms ++ dropClosing rest

theorem dropClosing_comma_of_begins {ls : List Lexeme} (begins : Begins ls) :
    dropClosing (.mark .comma :: ls) = .mark .comma :: dropClosing ls := by
  obtain ⟨l, rest, rfl, hl⟩ := begins
  have stays : l.closes = false := by
    cases l with
    | mark m =>
      cases m with
      | listOpen | objectOpen => rfl
      | listClose | objectClose | colon | comma => contradiction
    | quoted spelling => rfl
  rw [dropClosing, if_neg (by simp [stays])]

theorem dropClosing_comma_of_closes {m : Mark} (closer : m.closes = true) (ls : List Lexeme) :
    dropClosing (.mark .comma :: .mark m :: ls) = .mark m :: dropClosing ls := by
  cases m with
  | listClose | objectClose => rfl
  | listOpen | objectOpen | colon | comma => contradiction

variable {α : Type} {part part' : α → List Lexeme → Prop}

theorem drops_series (drops : ∀ a ls, part a ls → ∃ ms, part' a ms ∧ Drops ls ms)
    (begins : ∀ {a ls}, part a ls → Begins ls) {m : Mark} (closer : m.closes = true) {as : List α}
    {ls : List Lexeme} (h : Series true part as ls) :
    ∃ ms, Series false part' as ms ∧
      ∀ rest, dropClosing (ls ++ .mark m :: rest) = ms ++ .mark m :: dropClosing rest := by
  have other : m ≠ .comma := by
    rintro rfl
    contradiction
  induction h with
  | last h =>
    obtain ⟨ms, written, dropped⟩ := drops _ _ h
    refine ⟨ms, .last written, fun rest => ?_⟩
    rw [dropped, dropClosing_mark other]
  | closed allowed h =>
    obtain ⟨ms, written, dropped⟩ := drops _ _ h
    refine ⟨ms, .last written, fun rest => ?_⟩
    rw [List.append_assoc, dropped]
    exact congrArg _ (dropClosing_comma_of_closes closer rest)
  | more h series ih =>
    obtain ⟨ms, written, dropped⟩ := drops _ _ h
    obtain ⟨ns, tail, later⟩ := ih
    refine ⟨ms ++ .mark .comma :: ns, .more written tail, fun rest => ?_⟩
    rw [List.append_assoc, dropped, List.cons_append,
      dropClosing_comma_of_begins ((series.begins begins).append _), later, List.append_assoc]
    rfl

theorem drops_row (drops : ∀ a ls, part a ls → ∃ ms, part' a ms ∧ Drops ls ms)
    (begins : ∀ {a ls}, part a ls → Begins ls) {m : Mark} (closer : m.closes = true) {as : List α}
    {ls : List Lexeme} (h : Row true part as ls) :
    ∃ ms, Row false part' as ms ∧ Drops (ls ++ [.mark m]) (ms ++ [.mark m]) := by
  cases h with
  | none =>
    refine ⟨[], .none, fun rest => ?_⟩
    cases m with
    | listClose | objectClose => rfl
    | listOpen | objectOpen | colon | comma => contradiction
  | some h =>
    obtain ⟨ms, series, dropped⟩ := drops_series drops begins closer h
    refine ⟨ms, .some series, fun rest => ?_⟩
    rw [List.append_assoc, List.append_assoc]
    exact dropped rest

theorem drops_cons {l : Lexeme} (h : l ≠ .mark .comma) {ls ms : List Lexeme} (drops : Drops ls ms) :
    Drops (l :: ls) (l :: ms) := by
  intro rest
  rw [List.cons_append, List.cons_append, ← drops rest]
  cases l with
  | mark m => exact dropClosing_mark (fun same => h (congrArg _ same)) _
  | quoted spelling => rfl

variable {inner inner' : Json.Value → List Lexeme → Prop}

theorem drops_written_with
    (drops : ∀ v ls, inner v ls → ∃ ms, inner' v ms ∧ Drops ls ms)
    (begins : ∀ {v ls}, inner v ls → Begins ls) {v : Json.Value} {ls : List Lexeme}
    (h : WrittenWith true inner v ls) :
    ∃ ms, WrittenWith false inner' v ms ∧ Drops ls ms := by
  have member (a : Text × Json.Value) (ls : List Lexeme) (h : Member inner a ls) :
      ∃ ms, Member inner' a ms ∧ Drops ls ms := by
    obtain ⟨spelling, h⟩ := h
    obtain ⟨ms, written, dropped⟩ := drops _ _ h
    exact ⟨_, .mk spelling written, drops_cons (by simp) (drops_cons (by simp) dropped)⟩
  cases h with
  | string spelling => exact ⟨_, .string spelling, fun rest => rfl⟩
  | array row =>
    obtain ⟨ms, row', dropped⟩ := drops_row drops begins (m := .listClose) rfl row
    exact ⟨_, .array row', drops_cons (by simp) dropped⟩
  | object row =>
    obtain ⟨ms, row', dropped⟩ := drops_row member Member.begins (m := .objectClose) rfl row
    exact ⟨_, .object row', drops_cons (by simp) dropped⟩

theorem drops_written (levels : Nat) (v : Json.Value) (ls : List Lexeme)
    (h : Written true levels v ls) : ∃ ms, Written false levels v ms ∧ Drops ls ms := by
  induction levels generalizing v ls with
  | zero => exact False.elim h
  | succ levels ih => exact drops_written_with ih Written.begins h

end grammar

/-- A sheet that writes a value, with comments and closing commas, is read as that value. -/
theorem ofText_plain {s : Sheet} {v : Json.Value} (h : Written true Json.maxLevels v s.lexemes) :
    Json.Value.ofText (plain s.text) = .ok v := by
  obtain ⟨ms, written, dropped⟩ := drops_written _ _ _ h
  have strict : dropClosing s.lexemes = ms := by
    have whole := dropped []
    rwa [List.append_nil, dropClosing, List.append_nil] at whole
  have laid := laid_withoutClosingCommas (laid_withoutComments s)
  rw [strict] at laid
  exact Json.ofText_of_written written laid

end Unalias.Jsonc
