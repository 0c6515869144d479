import Unalias.Proofs.Change.Found
import Unalias.Proofs.Specifier.Letters
import Unalias.Proofs.Statement.Retarget

/-! Changing a file once more changes nothing: the second scan takes the statements that the
first one took, aimed at where the change has aimed them, and none of these has a rule. -/
namespace Unalias

namespace Table

open Statement Stretch

/-- What stands in the place of a statement after the change: the same statement with the
relative name if it has a rule, and the statement itself if it has none. -/
def renewed (table : Table) (file : Path) (s : Statement) : Statement :=
  match table.ruleFor? s with
  | some r => s.aimedAt (r.relativeName file s.literal)
  | none => s

/-- No rule leads to a folder whose path has a quote or a newline in it. -/
def Unmarked (table : Table) : Prop := ∀ r ∈ table.rules, ∀ c ∈ r.folder.text, isMark c = false

theorem mem_rules_of_ruleFor? {table : Table} {s : Statement} {r : Rule}
    (h : table.ruleFor? s = some r) : r ∈ table.rules :=
  List.mem_of_find?_eq_some (ruleFor?_eq_some_iff.mp h).2

theorem not_isMark_of_isSeparator {c : Char} (h : Path.isSeparator c = true) :
    isMark c = false := by
  simp only [Path.isSeparator, Bool.or_eq_true, decide_eq_true_eq] at h
  rcases h with h | h <;> subst h <;> rfl

theorem tame_renewed {table : Table} (unmarked : table.Unmarked) (file : Path) :
    Tame (table.renewed file) := by
  intro s
  unfold renewed
  split
  · rename_i r hr
    refine ⟨_, rfl, fun c hc mark => ?_⟩
    rcases Rule.mem_relativeName hc with h | h | h
    · rw [not_isMark_of_isSeparator h] at mark
      contradiction
    · rw [unmarked r (mem_rules_of_ruleFor? hr) c h] at mark
      contradiction
    · exact h
  · exact ⟨s.literal, rfl, fun _ hc _ => hc⟩

theorem updated_eq (table : Table) (file : Path) (stretch : Stretch) :
    table.updated file stretch = (stretch.onStatement (table.renewed file)).text := by
  cases stretch with
  | other c => rfl
  | statement s =>
    cases hr : table.ruleFor? s with
    | none => simp [updated, renewed, onStatement, Stretch.text, hr]
    | some r => simp [updated, renewed, onStatement, Stretch.text, hr]

theorem content_change (table : Table) (file : Path) (text : Text) :
    (table.change file text).content =
      join ((scan text).map (onStatement (table.renewed file))) := by
  rw [join, List.flatMap_map]
  exact congrArg (fun g => (scan text).flatMap g) (funext (updated_eq table file))

theorem scan_content_change {table : Table} (unmarked : table.Unmarked) (file : Path)
    (text : Text) :
    scan (table.change file text).content =
      (scan text).map (onStatement (table.renewed file)) := by
  rw [content_change]
  exact (tame_renewed unmarked file).scanAfter_join false text

/- A new name begins with a dot. -/
theorem ruleFor?_renewed (table : Table) (file : Path) (s : Statement) :
    table.ruleFor? (table.renewed file s) = none := by
  unfold renewed
  split
  · exact if_pos (Rule.head?_dressed _ _)
  · assumption

theorem found_content_change {table : Table} (unmarked : table.Unmarked) (file : Path)
    (text : Text) : table.found (table.change file text).content = [] := by
  rw [found_eq_nil_iff, scan_content_change unmarked]
  intro u hu
  obtain ⟨stretch, -, hs⟩ := List.mem_map.mp hu
  cases stretch with
  | other c => contradiction
  | statement s =>
    have same : table.renewed file s = u := Stretch.statement.inj hs
    rw [← same]
    exact ruleFor?_renewed table file s

theorem change_of_found_eq_nil {table : Table} {text : Text} (file : Path)
    (none : table.found text = []) : table.change file text = ⟨file, text, []⟩ := by
  have kept : ∀ stretch ∈ scan text, onStatement (table.renewed file) stretch = stretch := by
    intro stretch hs
    cases stretch with
    | other c => rfl
    | statement s => simp [onStatement, renewed, found_eq_nil_iff.mp none s hs]
  have content : (table.change file text).content = text := by
    rw [content_change, List.map_congr_left kept, List.map_id']
    exact scan_text text
  have replacements : (table.change file text).replacements = [] :=
    replacements_eq_nil_iff.mpr none
  calc table.change file text
      = ⟨file, (table.change file text).content, (table.change file text).replacements⟩ := rfl
    _ = ⟨file, text, []⟩ := by rw [content, replacements]

theorem statements_onStatement (f : Statement → Statement) (start start' : Nat)
    (l : List Stretch) :
    (placed start (l.map (onStatement f))).map (·.2) = (placed start' l).map fun p => f p.2 := by
  induction l generalizing start start' with
  | nil => rfl
  | cons stretch l ih =>
    cases stretch with
    | other c => exact ih _ _
    | statement s => exact congrArg (f s :: ·) (ih _ _)

/-- The second scan takes the statements that the first one took, one for one, aimed at the new
names, and between them it finds the same characters. None of them has a rule, and the second
change is none. -/
theorem change_again (table : Table) (file : Path) (text : Text) (unmarked : table.Unmarked) :
    let content := (table.change file text).content
    (placed 0 (scan content)).map (·.2) =
        (placed 0 (scan text)).map (fun p => table.renewed file p.2) ∧
      scan content = (scan text).map (onStatement (table.renewed file)) ∧
      table.found content = [] ∧ table.change file content = ⟨file, content, []⟩ := by
  have cut := scan_content_change unmarked file text
  have none := found_content_change unmarked file text
  refine ⟨?_, cut, none, change_of_found_eq_nil file none⟩
  rw [cut]
  exact statements_onStatement (table.renewed file) 0 0 (scan text)

/- A catch-all rule, a double quote that nothing closes, and one inside of a name. -/
theorem change_again_catch_all :
    let table : Table := ⟨[⟨"@app/*".toList, ⟨"/r/app".toList⟩⟩, ⟨"*".toList, ⟨"/r/lib".toList⟩⟩]⟩
    let file : Path := ⟨"/r/web/it's.ts".toList⟩
    let text := "import a from \"x import b from '@app/../y';\nimport c from 'z\"/w/'".toList
    let content := (table.change file text).content
    table.Unmarked ∧
      (placed 0 (scan content)).map (·.2) =
        (placed 0 (scan text)).map (fun p => table.renewed file p.2) ∧
      scan content = (scan text).map (onStatement (table.renewed file)) ∧
      table.found content = [] ∧ table.change file content = ⟨file, content, []⟩ := by
  intro table file text content
  have unmarked : table.Unmarked := by simp [Unmarked, table, isMark]
  exact ⟨unmarked, change_again table file text unmarked⟩

end Table
end Unalias
