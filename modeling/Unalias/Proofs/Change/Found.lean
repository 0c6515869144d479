import Unalias.Proofs.Statement.Leftmost

/-! The statements of a text that have a rule, as a part of the statements that are taken. -/
namespace Unalias

def Match.replacement (file : Path) (m : Match) : Replacement :=
  ⟨m.rule.pattern, m.statement.literal, m.rule.relativeName file m.statement.literal⟩

namespace Table

open Statement

theorem ruleFor?_eq_some_iff {table : Table} {s : Statement} {r : Rule} :
    table.ruleFor? s = some r ↔ s.literal.head? ≠ some '.' ∧ table.find? s.literal = some r := by
  unfold ruleFor?
  split <;> simp_all

theorem isSome_ruleFor? (table : Table) (s : Statement) :
    (table.ruleFor? s).isSome =
      (s.literal.head? ≠ some '.' && (table.find? s.literal).isSome) := by
  unfold ruleFor?
  split <;> simp_all

/- What becomes of a statement and its place when the table is asked for a rule. -/
def matchAt? (table : Table) (p : Nat × Statement) : Option Match :=
  (table.ruleFor? p.2).map fun r => ⟨p.1, p.2, r⟩

theorem found_eq (table : Table) (text : Text) :
    table.found text = (placed 0 (scan text)).filterMap table.matchAt? := rfl

theorem mem_found_iff {table : Table} {text : Text} {m : Match} :
    m ∈ table.found text ↔
      (m.start, m.statement) ∈ placed 0 (scan text) ∧ table.ruleFor? m.statement = some m.rule := by
  simp only [found_eq, matchAt?, List.mem_filterMap, Option.map_eq_some_iff]
  constructor
  · rintro ⟨⟨start, s⟩, hs, r, hr, rfl⟩
    exact ⟨hs, hr⟩
  · rintro ⟨hs, hr⟩
    exact ⟨_, hs, m.rule, hr, rfl⟩

/- No order changes, and nothing is counted twice. -/
theorem map_found (table : Table) (text : Text) :
    (table.found text).map (fun m => (m.start, m.statement)) =
      (placed 0 (scan text)).filter fun p => (table.ruleFor? p.2).isSome := by
  rw [found_eq]
  induction placed 0 (scan text) with
  | nil => rfl
  | cons p rest ih => cases hr : table.ruleFor? p.2 <;> simp_all [matchAt?]

theorem exists_mem_placed_iff {start : Nat} {l : List Stretch} {s : Statement} :
    (∃ n, (n, s) ∈ placed start l) ↔ .statement s ∈ l := by
  induction l generalizing start with
  | nil => simp [placed]
  | cons stretch l ih => cases stretch <;> simp [placed, ih, exists_or]

theorem found_eq_nil_iff {table : Table} {text : Text} :
    table.found text = [] ↔ ∀ s, .statement s ∈ scan text → table.ruleFor? s = none := by
  rw [← List.map_eq_nil_iff, map_found, List.filter_eq_nil_iff]
  constructor
  · intro h s hs
    obtain ⟨n, hn⟩ := exists_mem_placed_iff.mpr hs
    simpa using h (n, s) hn
  · intro h p hp
    simp [h p.2 (exists_mem_placed_iff.mp ⟨p.1, hp⟩)]

/- One replacement for each match, in the same order. -/
theorem replacements_change (table : Table) (file : Path) (text : Text) :
    (table.change file text).replacements =
      (table.found text).map (Match.replacement file) := by
  have along (start : Nat) (l : List Stretch) :
      l.filterMap (table.replacement? file) =
        ((placed start l).filterMap table.matchAt?).map (Match.replacement file) := by
    induction l generalizing start with
    | nil => rfl
    | cons stretch l ih =>
      cases stretch with
      | other c => exact ih _
      | statement s =>
        have tail := ih (start + s.text.size)
        cases hr : table.ruleFor? s <;> simp_all [replacement?, placed, matchAt?, Match.replacement]
  exact along 0 (scan text)

theorem replacements_eq_nil_iff {table : Table} {file : Path} {text : Text} :
    (table.change file text).replacements = [] ↔ table.found text = [] := by
  rw [replacements_change, List.map_eq_nil_iff]

/- Both spans of a match are read off the text itself. -/
theorem holds_of_occurs {text : Text} {m : Match} (h : Occurs text m.start m.statement) :
    text.Holds m.span m.statement.text ∧ text.Holds m.literalSpan m.statement.literal := by
  obtain ⟨before, after, htext, hsize, _⟩ := h
  constructor
  · refine ⟨before, after, by simp [htext], hsize, ?_⟩
    simp [Match.span, hsize]
  · refine ⟨before ++ m.statement.head, m.statement.tail ++ after, ?_, ?_, ?_⟩
    · simp [htext, Statement.text]
    · simp [Match.literalSpan, hsize]
    · simp [Match.literalSpan, hsize, Nat.add_assoc]

/-- One statement at most starts at a position; those that are taken are the ones taken from the
left; all others start inside of one that was taken; and what is found is what was taken and has
a rule, with its place in the text. -/
theorem found_follows_grammar (table : Table) (text : Text) :
    (∀ n s u, Occurs text n s → Occurs text n u → s = u) ∧
    (∀ l, Taken text 0 l ↔ l = placed 0 (scan text)) ∧
    (∀ n s, Occurs text n s →
      ∃ p ∈ placed 0 (scan text), p.1 ≤ n ∧ n < p.1 + p.2.text.size) ∧
    ((table.found text).map (fun m => (m.start, m.statement)) =
      (placed 0 (scan text)).filter fun p =>
        p.2.literal.head? ≠ some '.' && (table.find? p.2.literal).isSome) ∧
    (∀ m ∈ table.found text, table.find? m.statement.literal = some m.rule ∧
      Occurs text m.start m.statement ∧ text.Holds m.span m.statement.text ∧
      text.Holds m.literalSpan m.statement.literal) := by
  have taken := taken_scan text
  refine ⟨fun n s u => occurs_unique, ?_, ?_, ?_, ?_⟩
  · intro l
    constructor
    · exact fun h => h.unique taken
    · intro h
      rw [h]
      exact taken
  · exact fun n s occurs => taken.covers occurs (Nat.zero_le n)
  · rw [map_found]
    simp only [isSome_ruleFor?]
  · intro m hm
    obtain ⟨member, rule⟩ := mem_found_iff.mp hm
    have occurs := taken.occurs member
    exact ⟨(ruleFor?_eq_some_iff.mp rule).2, occurs, holds_of_occurs occurs⟩

end Table
end Unalias
