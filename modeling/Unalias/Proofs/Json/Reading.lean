import Unalias.Json.Reader
import Unalias.Proofs.Json.Written

/-! A text that writes a value is read as that value, however it is laid out. -/
namespace Unalias.Json

/-- Lexemes with white space before, between and after them. -/
inductive Laid : List Lexeme → Text → Prop
  | done : Laid [] []
  | space {ls : List Lexeme} {t : Text} {c : Char} (h : isSpace c = true) (rest : Laid ls t) :
      Laid ls (c :: t)
  | lexeme {ls : List Lexeme} {t : Text} (l : Lexeme) (rest : Laid ls t) :
      Laid (l :: ls) (l.text ++ t)

theorem skipSpace_space {c : Char} (h : isSpace c = true) (t : Text) :
    skipSpace (c :: t) = skipSpace t :=
  List.dropWhile_cons_of_pos h

theorem skipSpace_text (l : Lexeme) (t : Text) : skipSpace (l.text ++ t) = l.text ++ t := by
  cases l with
  | mark m => cases m <;> rfl
  | quoted spelling => rfl

theorem Laid.skip {ls : List Lexeme} {t : Text} (h : Laid ls t) : Laid ls (skipSpace t) := by
  induction h with
  | done => exact .done
  | space h rest ih =>
    rw [skipSpace_space h]
    exact ih
  | lexeme l rest ih =>
    rw [skipSpace_text]
    exact .lexeme l rest

theorem skipSpace_of_laid_nil {t : Text} (h : Laid [] t) : skipSpace t = [] := by
  generalize none : ([] : List Lexeme) = ls at h
  induction h with
  | done => rfl
  | space h rest ih =>
    rw [skipSpace_space h]
    exact ih none
  | lexeme l rest ih => contradiction

theorem skipSpace_of_laid {l : Lexeme} {ls : List Lexeme} {t : Text} (h : Laid (l :: ls) t) :
    ∃ u, skipSpace t = l.text ++ u ∧ Laid ls u := by
  generalize some : l :: ls = ms at h
  induction h with
  | done => contradiction
  | space h rest ih =>
    rw [skipSpace_space h]
    exact ih some
  | lexeme m rest ih =>
    cases some
    exact ⟨_, skipSpace_text l _, rest⟩

theorem skipSpace_of_mark {m : Mark} {ls : List Lexeme} {t : Text} (h : Laid (.mark m :: ls) t) :
    ∃ u, skipSpace t = m.char :: u ∧ Laid ls u :=
  skipSpace_of_laid h

theorem skipSpace_of_quoted {s b : Text} {spelling : Spells s b} {ls : List Lexeme} {t : Text}
    (h : Laid (.quoted spelling :: ls) t) :
    ∃ u, skipSpace t = '"' :: (b ++ '"' :: u) ∧ Laid ls u := by
  obtain ⟨u, skipped, rest⟩ := skipSpace_of_laid h
  refine ⟨u, ?_, rest⟩
  rw [skipped, Lexeme.text, List.cons_append, List.append_assoc]
  rfl

theorem skipSpace_of_begins {ls : List Lexeme} {t : Text} (begins : Begins ls) (h : Laid ls t) :
    ∃ c u, skipSpace t = c :: u ∧ c ≠ ']' := by
  obtain ⟨l, rest, rfl, hl⟩ := begins
  obtain ⟨u, hu, -⟩ := skipSpace_of_laid h
  cases l with
  | mark m =>
    cases m with
    | listOpen | objectOpen => exact ⟨_, _, hu, by decide⟩
    | listClose | objectClose | colon | comma => contradiction
  | quoted spelling => exact ⟨_, _, hu, by decide⟩

theorem Laid.length_le {ls : List Lexeme} {t : Text} (h : Laid ls t) : ls.length ≤ t.length := by
  induction h with
  | done => exact Nat.le_refl 0
  | space h rest ih => exact Nat.le_succ_of_le ih
  | lexeme l rest ih =>
    have one : 1 ≤ l.text.length := by
      cases l <;> exact Nat.succ_le_succ (Nat.zero_le _)
    simp only [List.length_cons, List.length_append]
    omega

/-- The reader takes the lexemes for the value, whatever lexemes come after them. -/
def Reads {α : Type} (read : Text → Reading (α × Text)) (a : α) (ls : List Lexeme) : Prop :=
  ∀ ms t, Laid (ls ++ ms) t → ∃ u, read t = .ok (a, u) ∧ Laid ms u

section loops

variable {α : Type}

def consed (a : α) (p : List α × Text) : List α × Text := (a :: p.1, p.2)

/-- What the loops over items and over members have in common: `all` begins after the opening
mark, and `more` goes on after a part, with some fuel. -/
structure Collects (part : α → List Lexeme → Prop) (close : Mark)
    (all : Text → Reading (List α × Text)) (more : Nat → Text → Reading (List α × Text)) :
    Prop where
  none : ∀ {ms t}, Laid (.mark close :: ms) t → ∃ u, all t = .ok ([], u) ∧ Laid ms u
  first : ∀ {a ls ms t}, part a ls → Laid (ls ++ ms) t →
    ∃ u, Laid ms u ∧ all t = (more (u.length + 1) u).map (consed a)
  done : ∀ {n ms t}, Laid (.mark close :: ms) t → ∃ u, more (n + 1) t = .ok ([], u) ∧ Laid ms u
  next : ∀ {n a ls ms t}, part a ls → Laid (.mark .comma :: (ls ++ ms)) t →
    ∃ u, Laid ms u ∧ more (n + 1) t = (more n u).map (consed a)

variable {part : α → List Lexeme → Prop} {close : Mark} {all : Text → Reading (List α × Text)}
  {more : Nat → Text → Reading (List α × Text)}

/- Each part takes one unit of fuel, and the closing mark the last one. -/
theorem Collects.more_series (collects : Collects part close all more) {as : List α}
    {ls : List Lexeme} (h : Series false part as ls) {n : Nat} (fuel : as.length < n)
    {ms : List Lexeme} {t : Text} (laid : Laid (.mark .comma :: (ls ++ .mark close :: ms)) t) :
    ∃ u, more n t = .ok (as, u) ∧ Laid ms u := by
  induction h generalizing n t with
  | closed allowed h => contradiction
  | last h =>
    obtain ⟨n, rfl⟩ : ∃ k, n = k + 2 := ⟨n - 2, by simp only [List.length_singleton] at fuel; omega⟩
    obtain ⟨u, ending, step⟩ := collects.next h laid
    obtain ⟨w, stop, rest⟩ := collects.done ending
    exact ⟨w, by rw [step, stop]; rfl, rest⟩
  | more h series ih =>
    obtain ⟨n, rfl⟩ : ∃ k, n = k + 1 := ⟨n - 1, by simp only [List.length_cons] at fuel; omega⟩
    rw [List.append_assoc] at laid
    obtain ⟨u, tail, step⟩ := collects.next h laid
    obtain ⟨w, stop, rest⟩ := ih (Nat.lt_of_succ_lt_succ fuel) tail
    exact ⟨w, by rw [step, stop]; rfl, rest⟩

theorem Collects.all_row (collects : Collects part close all more)
    (begins : ∀ {a ls}, part a ls → Begins ls) {as : List α} {ls : List Lexeme}
    (h : Row false part as ls) {ms : List Lexeme} {t : Text}
    (laid : Laid (ls ++ .mark close :: ms) t) : ∃ u, all t = .ok (as, u) ∧ Laid ms u := by
  cases h with
  | none => exact collects.none laid
  | some h =>
    cases h with
    | closed allowed h => contradiction
    | last h =>
      obtain ⟨u, ending, step⟩ := collects.first h laid
      obtain ⟨w, stop, rest⟩ := collects.done ending
      exact ⟨w, by rw [step, stop]; rfl, rest⟩
    | more h series =>
      rw [List.append_assoc] at laid
      obtain ⟨u, tail, step⟩ := collects.first h laid
      have fuel := series.length_le begins
      have long := tail.length_le
      simp only [List.length_cons, List.length_append] at long
      obtain ⟨w, stop, rest⟩ := collects.more_series series (n := u.length + 1) (by omega) tail
      exact ⟨w, by rw [step, stop]; rfl, rest⟩

end loops

section parts

variable {inner : Value → List Lexeme → Prop} {item : Text → Reading (Value × Text)}

theorem readItems_of_ne {t w : Text} {c : Char} (skipped : skipSpace t = c :: w) (h : c ≠ ']') :
    readItems item t =
      (item (c :: w)).bind fun p =>
        (readMoreItems item (p.2.length + 1) p.2).map (consed p.1) := by
  rw [readItems, skipped]
  split
  · contradiction
  · rename_i closed
    exact absurd (List.cons.inj closed).1 h
  · rfl

theorem readMoreItems_of_ne {n : Nat} {t w x : Text} {c : Char} (comma : skipSpace t = ',' :: w)
    (skipped : skipSpace w = c :: x) (h : c ≠ ']') :
    readMoreItems item (n + 1) t =
      (item (c :: x)).bind fun p => (readMoreItems item n p.2).map (consed p.1) := by
  simp only [readMoreItems, comma, skipped]
  split
  · contradiction
  · rename_i closed
    exact absurd (List.cons.inj closed).1 h
  · rfl

theorem collects_items (reads : ∀ {v ls}, inner v ls → Reads item v ls)
    (begins : ∀ {v ls}, inner v ls → Begins ls) :
    Collects inner .listClose (readItems item) (readMoreItems item) where
  none laid := by
    obtain ⟨u, skipped, rest⟩ := skipSpace_of_mark laid
    exact ⟨u, by simp only [readItems, skipped, Mark.char], rest⟩
  first h laid := by
    obtain ⟨c, w, skipped, hc⟩ := skipSpace_of_begins ((begins h).append _) laid
    obtain ⟨u, read, rest⟩ := reads h _ _ laid.skip
    rw [skipped] at read
    exact ⟨u, rest, by rw [readItems_of_ne skipped hc, read]; rfl⟩
  done laid := by
    obtain ⟨u, skipped, rest⟩ := skipSpace_of_mark laid
    exact ⟨u, by simp only [readMoreItems, skipped, Mark.char], rest⟩
  next h laid := by
    obtain ⟨w, comma, after⟩ := skipSpace_of_mark laid
    obtain ⟨c, x, skipped, hc⟩ := skipSpace_of_begins ((begins h).append _) after
    obtain ⟨u, read, rest⟩ := reads h _ _ after.skip
    rw [skipped] at read
    exact ⟨u, rest, by rw [readMoreItems_of_ne comma skipped hc, read]; rfl⟩

theorem readMember_of_laid (reads : ∀ {v ls}, inner v ls → Reads item v ls) {name b : Text}
    (spelling : Spells name b) {v : Value} {ls ms : List Lexeme} (h : inner v ls) {t : Text}
    (laid : Laid (.mark .colon :: (ls ++ ms)) t) :
    ∃ u, readMember item (b ++ '"' :: t) = .ok ((name, v), u) ∧ Laid ms u := by
  obtain ⟨w, colon, after⟩ := skipSpace_of_mark laid
  obtain ⟨u, read, rest⟩ := reads h _ _ after
  refine ⟨u, ?_, rest⟩
  simp only [readMember, readQuoted_append spelling, bind, Except.bind, colon, Mark.char, read]
  rfl

theorem collects_members (reads : ∀ {v ls}, inner v ls → Reads item v ls) :
    Collects (Member inner) .objectClose (readMembers item) (readMoreMembers item) where
  none laid := by
    obtain ⟨u, skipped, rest⟩ := skipSpace_of_mark laid
    exact ⟨u, by simp only [readMembers, skipped, Mark.char], rest⟩
  first h laid := by
    obtain ⟨spelling, h⟩ := h
    obtain ⟨w, skipped, after⟩ := skipSpace_of_quoted laid
    obtain ⟨u, read, rest⟩ := readMember_of_laid reads spelling h after
    refine ⟨u, rest, ?_⟩
    simp only [readMembers, skipped, read]
    rfl
  done laid := by
    obtain ⟨u, skipped, rest⟩ := skipSpace_of_mark laid
    exact ⟨u, by simp only [readMoreMembers, skipped, Mark.char], rest⟩
  next h laid := by
    obtain ⟨spelling, h⟩ := h
    obtain ⟨w, comma, tail⟩ := skipSpace_of_mark laid
    obtain ⟨x, skipped, after⟩ := skipSpace_of_quoted tail
    obtain ⟨u, read, rest⟩ := readMember_of_laid reads spelling h after
    refine ⟨u, rest, ?_⟩
    simp only [readMoreMembers, comma, Mark.char, skipped, read]
    rfl

/- One level of nesting: with a reader for the values inside, the value itself is read. -/
theorem readWith_of_written (reads : ∀ {v ls}, inner v ls → Reads item v ls)
    (begins : ∀ {v ls}, inner v ls → Begins ls) {v : Value} {ls : List Lexeme}
    (h : WrittenWith false inner v ls) : Reads (readWith (some item)) v ls := by
  intro ms t laid
  cases h with
  | string spelling =>
    obtain ⟨w, skipped, rest⟩ := skipSpace_of_quoted laid
    refine ⟨w, ?_, rest⟩
    simp only [readWith, skipped, readQuoted_append spelling]
    rfl
  | array row =>
    rw [List.cons_append, List.append_assoc] at laid
    obtain ⟨w, skipped, inside⟩ := skipSpace_of_mark laid
    obtain ⟨u, read, rest⟩ := (collects_items reads begins).all_row begins row inside
    refine ⟨u, ?_, rest⟩
    simp only [readWith, skipped, Mark.char, read]
    rfl
  | object row =>
    rw [List.cons_append, List.append_assoc] at laid
    obtain ⟨w, skipped, inside⟩ := skipSpace_of_mark laid
    obtain ⟨u, read, rest⟩ := (collects_members reads).all_row Member.begins row inside
    refine ⟨u, ?_, rest⟩
    simp only [readWith, skipped, Mark.char, read]
    rfl

end parts

theorem readValue_of_written {levels : Nat} {v : Value} {ls : List Lexeme}
    (h : Written false levels v ls) : Reads (readValue levels) v ls := by
  induction levels generalizing v ls with
  | zero => exact False.elim h
  | succ levels ih => exact readWith_of_written ih Written.begins h

/-- A text of a value with no more levels than can be read gives that value. -/
theorem ofText_of_written {v : Value} {ls : List Lexeme} {t : Text}
    (written : Written false maxLevels v ls) (laid : Laid ls t) : Value.ofText t = .ok v := by
  obtain ⟨u, read, rest⟩ := readValue_of_written written [] t (by rwa [List.append_nil])
  have whole : readDocument t = .ok v := by
    simp only [readDocument, read, skipSpace_of_laid_nil rest, bind, Except.bind, pure,
      Except.pure]
  rw [Value.ofText, whole]
  rfl

end Unalias.Json
