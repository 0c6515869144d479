import Unalias.Proofs.Change.Found
import Unalias.Proofs.Cut
import Unalias.Proofs.Specifier.Dressed

/-! A change as a row of edits. The matches stand in the text one after the other, and the new
content is put together from what stands between them and from the statements with their names
replaced. All that is cut out of the text by position is there, nothing but the names changes, and
the old names put back at their new places give the old text. -/
namespace Unalias

/-- One text that takes the place of another, with so many bytes before it. -/
structure Edit where
  first : Nat
  old : Text
  new : Text
deriving DecidableEq

/-- From a position on, the second text is the first with all edits made, and no byte between them
is changed. -/
inductive Edited : Nat → List Edit → Text → Text → Prop
  | rest {n : Nat} (gap : Text) : Edited n [] gap gap
  | next {n : Nat} {e : Edit} {es : List Edit} {s t : Text} (gap : Text) :
      e.first = n + gap.size → Edited (e.first + e.old.size) es s t →
      Edited n (e :: es) (gap ++ (e.old ++ s)) (gap ++ (e.new ++ t))

/-- The edits that take all back, where the edits are made from the one position on and their new
texts stand from the other on. -/
def Edit.undo : Nat → Nat → List Edit → List Edit
  | _, _, [] => []
  | n, m, e :: es =>
    let first := m + (e.first - n)
    ⟨first, e.new, e.old⟩ :: undo (e.first + e.old.size) (first + e.new.size) es

namespace Edited

variable {n : Nat} {es : List Edit} {s t : Text}

theorem after (gap : Text) (h : Edited (n + gap.size) es s t) :
    Edited n es (gap ++ s) (gap ++ t) := by
  cases h with
  | rest => exact .rest (gap ++ s)
  | @next _ e es s t more first tail =>
    rw [← List.append_assoc, ← List.append_assoc gap more]
    refine .next (gap ++ more) ?_ tail
    rw [first, Text.size_append, Nat.add_assoc]

theorem le_first (h : Edited n es s t) : ∀ e ∈ es, n ≤ e.first := by
  induction h with
  | rest => exact fun e he => nomatch he
  | @next n e es s t gap first _ ih =>
    intro d hd
    rcases List.mem_cons.mp hd with rfl | hd
    · omega
    · have later : e.first + e.old.size ≤ d.first := ih d hd
      omega

theorem pairwise (h : Edited n es s t) :
    es.Pairwise fun e d => e.first + e.old.size ≤ d.first := by
  induction h with
  | rest => exact .nil
  | next _ _ tail ih => exact .cons tail.le_first ih

theorem undone (h : Edited n es s t) (m : Nat) : Edited m (Edit.undo n m es) t s := by
  induction h generalizing m with
  | rest gap => exact .rest gap
  | @next n e es s t gap first _ ih =>
    have moved : e.first - n = gap.size := by omega
    have start : m + (e.first - n) = m + gap.size := by rw [moved]
    exact .next gap start (ih _)

end Edited

namespace Match

open Statement

/-- The new name in the place of the old one. -/
def edit (file : Path) (m : Match) : Edit :=
  ⟨m.literalSpan.1, (m.replacement file).old, (m.replacement file).new⟩

/-- The statement with the new name in the place of the statement. -/
def statementEdit (file : Path) (m : Match) : Edit :=
  ⟨m.start, m.statement.text, (m.statement.aimedAt (m.replacement file).new).text⟩

/-- The statement with another name, put together from the parts around the old name. -/
def renamed? (m : Match) (new : Text) : Option Text := do
  let first ← Text.distance? m.span.1 m.literalSpan.1
  let last ← Text.distance? m.span.1 m.literalSpan.2
  let front ← Text.cut? first m.statement.text
  let back ← Text.cut? last m.statement.text
  some (front.1 ++ new ++ back.2)

/-- The text from a position on, put together from what stands between the matches and from the
statements with their new names. -/
def splice? (file : Path) (text : Text) : Nat → List Match → Option Text
  | cursor, [] => (Text.cut? cursor text).map (·.2)
  | cursor, m :: ms => do
    let gap ← text.slice? cursor m.span.1
    let statement ← m.renamed? (m.replacement file).new
    let later ← splice? file text m.span.2 ms
    some (gap ++ statement ++ later)

section spans

variable (m : Match)

theorem literalSpan_snd :
    m.literalSpan.2 = m.start + (m.statement.head ++ m.statement.literal).size := by
  rw [Text.size_append, ← Nat.add_assoc]
  rfl

theorem span_snd : m.span.2 = m.literalSpan.2 + m.statement.tail.size := by
  rw [literalSpan_snd, Nat.add_assoc, ← Text.size_append]
  rfl

theorem start_lt_literal : m.span.1 < m.literalSpan.1 :=
  Nat.lt_add_of_pos_right (Text.size_pos (List.append_ne_nil_of_right_ne_nil _ (by simp)))

theorem literal_lt_end : m.literalSpan.2 < m.span.2 := by
  rw [span_snd]
  exact Nat.lt_add_of_pos_right (Text.size_pos (List.cons_ne_nil _ _))

theorem renamed?_eq (new : Text) : m.renamed? new = some (m.statement.aimedAt new).text := by
  have first : Text.distance? m.span.1 m.literalSpan.1 = some m.statement.head.size :=
    Text.distance?_add m.start _
  have last : Text.distance? m.span.1 m.literalSpan.2 =
      some (m.statement.head ++ m.statement.literal).size :=
    Text.distance?_eq_some_iff.mpr m.literalSpan_snd
  have front : Text.cut? m.statement.head.size m.statement.text =
      some (m.statement.head, m.statement.literal ++ m.statement.tail) := by
    rw [Statement.text, List.append_assoc, Text.cut?_append]
  have back : Text.cut? (m.statement.head ++ m.statement.literal).size m.statement.text =
      some (m.statement.head ++ m.statement.literal, m.statement.tail) := Text.cut?_append _ _
  simp only [renamed?, first, last, front, back, Option.bind_eq_bind, Option.bind_some]
  rfl

/- One byte before the name and one byte after it stand its quotes. -/
theorem holds_quotes {text : Text} {m : Match} (h : Occurs text m.start m.statement) :
    text.Holds (m.literalSpan.1 - 1, m.literalSpan.2 + 1)
      ([m.statement.quote.char] ++ m.statement.literal ++ [m.statement.quote.char]) := by
  obtain ⟨before, after, htext, hsize, -⟩ := h
  let s := m.statement
  have one : s.quote.char.utf8Size = 1 := by cases s.quote <;> rfl
  have first : m.literalSpan.1 = (before ++ (keyword ++ s.clause)).size + 1 := by
    have head : s.head.size = (keyword ++ s.clause).size + 1 := by
      rw [Statement.head, Text.size_append, Text.size_cons, one]
      rfl
    rw [Text.size_append, hsize, Nat.add_assoc, ← head]
    rfl
  have last : m.literalSpan.2 = m.literalSpan.1 + s.literal.size := rfl
  refine ⟨before ++ (keyword ++ s.clause), (if s.semicolon then [';'] else []) ++ after, ?_, ?_, ?_⟩
  · rw [htext, Statement.text, Statement.head, Statement.tail]
    simp [s]
  · rw [first]
    rfl
  · simp only [last, first, Text.size_append, Text.size_cons, Text.size_nil, one, s]
    omega

end spans

section edits

variable {file : Path} {n : Nat} {ms : List Match} {s t : Text}

/- All that the splice cuts out is there, and what it gives is the second text. -/
theorem splice?_eq (h : Edited n (ms.map (statementEdit file)) s t) {before : Text}
    (size : before.size = n) : splice? file (before ++ s) n ms = some t := by
  induction ms generalizing n s t before with
  | nil =>
    cases h
    rw [splice?, ← size, Text.cut?_append]
    rfl
  | cons m ms ih =>
    rw [List.map_cons] at h
    cases h with
    | @next _ _ _ s t gap start later =>
      have front : (before ++ gap).size = m.span.1 := by
        rw [Text.size_append, size]
        exact start.symm
      have between : (before ++ (gap ++ (m.statement.text ++ s))).slice? n m.span.1 = some gap :=
        Text.slice?_eq_some_iff.mpr
          ⟨before, m.statement.text ++ s, by simp only [List.append_assoc], size, front⟩
      have behind : (before ++ gap ++ m.statement.text).size = m.span.2 := by
        rw [Text.size_append, front]
        rfl
      have rest : splice? file (before ++ gap ++ m.statement.text ++ s) m.span.2 ms = some t :=
        ih later behind
      simp only [List.append_assoc] at rest
      simp only [statementEdit, splice?, between, renamed?_eq, rest, Option.bind_eq_bind,
        Option.bind_some, List.append_assoc]

/- The parts of a statement around its name do not change. -/
theorem edited_names (h : Edited n (ms.map (statementEdit file)) s t) :
    Edited n (ms.map (edit file)) s t := by
  induction ms generalizing n s t with
  | nil => exact h
  | cons m ms ih =>
    rw [List.map_cons] at h
    cases h with
    | @next _ _ _ s t gap start later =>
      have first : (m.edit file).first = n + (gap ++ m.statement.head).size := by
        rw [Text.size_append, ← Nat.add_assoc, ← start]
        rfl
      have behind : (m.edit file).first + (m.edit file).old.size + m.statement.tail.size =
          m.span.2 := m.span_snd.symm
      have rest := ih later
      rw [List.map_cons]
      have named : Edited n (m.edit file :: ms.map (edit file))
          ((gap ++ m.statement.head) ++ (m.statement.literal ++ (m.statement.tail ++ s)))
          ((gap ++ m.statement.head) ++ ((m.replacement file).new ++ (m.statement.tail ++ t))) :=
        .next (gap ++ m.statement.head) first (Edited.after m.statement.tail (behind ▸ rest))
      have parts (name rest : Text) :
          (gap ++ m.statement.head) ++ (name ++ (m.statement.tail ++ rest)) =
            gap ++ ((m.statement.aimedAt name).text ++ rest) := by
        have text : (m.statement.aimedAt name).text =
            m.statement.head ++ name ++ m.statement.tail := rfl
        simp only [text, List.append_assoc]
      rw [parts, parts] at named
      exact named

/- The first new name begins with a dot, and neither the old name nor the quote after an empty one
does. -/
theorem ne_of_edited {m : Match} (h : Edited n ((m :: ms).map (statementEdit file)) s t)
    (plain : m.statement.literal.head? ≠ some '.') : s ≠ t := by
  rw [List.map_cons] at h
  cases h with
  | @next _ _ _ s t gap _ _ =>
    intro same
    have renamed : (m.statementEdit file).new =
        m.statement.head ++ (m.replacement file).new ++ m.statement.tail := rfl
    have old : (m.statementEdit file).old =
        m.statement.head ++ m.statement.literal ++ m.statement.tail := rfl
    have names := List.append_cancel_left same
    rw [renamed, old] at names
    simp only [List.append_assoc] at names
    have begin := congrArg List.head? (List.append_cancel_left names)
    have dot : (m.replacement file).new.head? = some '.' := Rule.head?_dressed _ _
    rw [List.head?_append (l := (m.replacement file).new), dot] at begin
    cases hl : m.statement.literal with
    | nil =>
      rw [hl] at begin
      have closing : m.statement.quote.char = '.' := Option.some.inj begin
      cases hq : m.statement.quote <;> rw [hq] at closing <;> exact absurd closing (by decide)
    | cons c literal =>
      rw [hl] at begin plain
      exact plain begin

end edits

end Match

namespace Table

open Statement

/-- A change leaves all as it is but the statements of the matches. -/
theorem edited_stretches (table : Table) (file : Path) (start : Nat) (l : List Stretch) :
    Edited start (((placed start l).filterMap table.matchAt?).map (Match.statementEdit file))
      (l.flatMap Stretch.text) (l.flatMap (table.updated file)) := by
  induction l generalizing start with
  | nil => exact .rest []
  | cons stretch l ih =>
    rw [List.flatMap_cons, List.flatMap_cons]
    cases stretch with
    | other c => exact (ih (start + c.utf8Size)).after [c]
    | statement s =>
      have later := ih (start + s.text.size)
      rw [placed]
      cases hr : table.ruleFor? s with
      | none =>
        have kept : table.updated file (.statement s) = s.text := by rw [updated, hr]
        have unmatched : table.matchAt? (start, s) = none := by rw [matchAt?, hr]; rfl
        rw [kept, List.filterMap_cons_none unmatched]
        exact later.after s.text
      | some r =>
        have renamed : table.updated file (.statement s) =
            (s.aimedAt (r.relativeName file s.literal)).text := by rw [updated, hr]
        have matched : table.matchAt? (start, s) = some ⟨start, s, r⟩ := by rw [matchAt?, hr]; rfl
        rw [renamed, List.filterMap_cons_some matched, List.map_cons]
        exact .next [] rfl later

theorem edited_change (table : Table) (file : Path) (text : Text) :
    Edited 0 ((table.found text).map (Match.statementEdit file)) text
      (table.change file text).content := by
  have whole := table.edited_stretches file 0 (scan text)
  rwa [scan_text] at whole

/-- Matches stand one after the other, each with its name between its own two quotes. The content is
put together from parts that are all there to be cut out; it is the text with the old names replaced
by the new ones, and the text is the content with the new names replaced by the old ones. The two
are never the same if there is a match. -/
theorem change_splices (table : Table) (file : Path) (text : Text) :
    let found := table.found text
    let change := table.change file text
    let edits := found.map (Match.edit file)
    (found.Pairwise fun m u => m.span.2 ≤ u.span.1) ∧
    (∀ m ∈ found, m.span.1 < m.literalSpan.1 ∧ m.literalSpan.2 < m.span.2 ∧
      text.Holds m.span m.statement.text ∧ text.Holds m.literalSpan m.statement.literal ∧
      text.Holds (m.literalSpan.1 - 1, m.literalSpan.2 + 1)
        ([m.statement.quote.char] ++ m.statement.literal ++ [m.statement.quote.char])) ∧
    Match.splice? file text 0 found = some change.content ∧
    change.replacements = found.map (Match.replacement file) ∧
    Edited 0 edits text change.content ∧
    Edited 0 (Edit.undo 0 0 edits) change.content text ∧
    (found ≠ [] → change.content ≠ text) := by
  intro found change edits
  have statements : Edited 0 (found.map (Match.statementEdit file)) text change.content :=
    table.edited_change file text
  have names : Edited 0 edits text change.content := Match.edited_names statements
  refine ⟨List.pairwise_map.mp statements.pairwise, fun m hm => ?_,
    Match.splice?_eq statements (rfl : Text.size [] = 0), table.replacements_change file text,
    names, names.undone 0, fun some => ?_⟩
  · have occurs := (taken_scan text).occurs (mem_found_iff.mp hm).1
    obtain ⟨whole, name⟩ := holds_of_occurs occurs
    exact ⟨m.start_lt_literal, m.literal_lt_end, whole, name, Match.holds_quotes occurs⟩
  · obtain ⟨m, rest, first⟩ := List.exists_cons_of_ne_nil some
    have member : m ∈ found := first ▸ List.mem_cons_self
    have plain := (ruleFor?_eq_some_iff.mp (mem_found_iff.mp member).2).1
    rw [first] at statements
    exact Ne.symm (Match.ne_of_edited statements plain)

end Table
end Unalias
