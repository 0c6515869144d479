import Unalias.Proofs.Change.Found
import Unalias.Proofs.Specifier.Canonical
import Unalias.Proofs.Specifier.Letters
import Unalias.Proofs.Statement.Retarget

/-! What stands in the place of a statement that got a new name. The name is put between the old
quotes as it is. It is read back only if the quotes can hold it, and that is up to the folders on
the way to the module, for the old name was between such quotes before. -/
namespace Unalias

namespace Quote

/-- The text can stand between two quotes of this kind, and all of it is read. -/
def Holds (q : Quote) (t : Text) : Prop := ∀ c ∈ t, c ≠ q.char ∧ c ≠ '\n'

theorem ne_of_isSeparator (q : Quote) {c : Char} (h : Path.isSeparator c = true) :
    c ≠ q.char ∧ c ≠ '\n' := by
  simp only [Path.isSeparator, Bool.or_eq_true, decide_eq_true_eq] at h
  rcases h with rfl | rfl
  · cases q <;> decide
  · cases q <;> decide

end Quote

namespace Statement

/-- The text is a whole statement, with this name in these quotes. -/
def Spells (q : Quote) (literal t : Text) : Prop :=
  ∃ s : Statement, s.Grammatical ∧ s.text = t ∧ s.quote = q ∧ s.literal = literal

variable {s : Statement} {literal : Text} (h : s.Grammatical)

include h

theorem spells_aimedAt_iff :
    Spells s.quote literal (s.aimedAt literal).text ↔ s.quote.Holds literal := by
  constructor
  · rintro ⟨u, grammatical, -, quote, rfl⟩
    rw [← quote]
    exact grammatical.literal
  · intro holds
    exact ⟨s.aimedAt literal, ⟨h.clause, holds⟩, rfl, rfl, rfl⟩

theorem read?_aimedAt (holds : s.quote.Holds literal) :
    read? (s.aimedAt literal).text = some (s.aimedAt literal, []) := by
  have new : (s.aimedAt literal).Grammatical := ⟨h.clause, holds⟩
  have complete : (s.aimedAt literal).Complete [] := by simp [Complete]
  have read := read?_append new complete
  rwa [List.append_nil] at read

end Statement

namespace Rule

theorem subset_dressed (closing : Bool) (route : Text) : route ⊆ dressed closing route := by
  have closed : route ⊆ if closing then route ++ ['/'] else route := by
    split
    · exact List.subset_append_left _ _
    · exact List.Subset.refl _
  rcases dressed_cases closing route with ⟨empty, -⟩ | ⟨-, name, rfl, ⟨-, hd⟩ | ⟨-, hd⟩⟩
  · rw [empty]
    exact List.nil_subset _
  · rw [hd]
    exact closed
  · rw [hd]
    exact List.subset_append_of_subset_right _ closed

variable (r : Rule) (file : Path) (name : Text) (q : Quote)

/- The dots and slashes of a new name are no quotes. -/
theorem holds_relativeName_iff :
    q.Holds (r.relativeName file name) ↔ ∀ n ∈ (r.route file name).trail, q.Holds n := by
  constructor
  · intro holds n hn c hc
    have segment : n ∈ (r.route file name).segments :=
      List.mem_append_right _ (List.mem_reverse.mpr hn)
    exact holds c (subset_dressed _ _ (subset_intercalate segment hc))
  · intro names c hc
    rcases mem_dressed hc with separator | hc
    · exact q.ne_of_isSeparator separator
    · rcases Route.mem_toText hc with separator | ⟨n, hn, hc⟩
      · exact q.ne_of_isSeparator separator
      · exact names n hn c hc

theorem holds_relativeName_of_folder (folder : q.Holds r.folder.text) (old : q.Holds name) :
    q.Holds (r.relativeName file name) := by
  intro c hc
  rcases mem_relativeName hc with separator | hc | hc
  · exact q.ne_of_isSeparator separator
  · exact folder c hc
  · exact old c hc

end Rule

namespace Table

open Statement

theorem grammatical_of_mem_found {table : Table} {text : Text} {m : Match}
    (h : m ∈ table.found text) : m.statement.Grammatical :=
  grammatical_of_mem_scanAfter (exists_mem_placed_iff.mp ⟨m.start, (mem_found_iff.mp h).1⟩)

theorem updated_of_mem_found {table : Table} {text : Text} {m : Match} (file : Path)
    (h : m ∈ table.found text) : table.updated file (.statement m.statement) =
      (m.statement.aimedAt (m.rule.relativeName file m.statement.literal)).text := by
  rw [updated, (mem_found_iff.mp h).2]

/-- A statement that got a new name is a statement with that name if and only if its quotes can
hold the name; and they can if they can hold the names of the folders that lead to the module, as
when nothing in the path of the rule's folder would end the name. -/
theorem updated_spells_iff (table : Table) (file : Path) (text : Text) (m : Match)
    (found : m ∈ table.found text) :
    let s := m.statement
    let new := m.rule.relativeName file s.literal
    let renamed := table.updated file (.statement s)
    (Spells s.quote new renamed ↔ s.quote.Holds new) ∧
      (s.quote.Holds new ↔ ∀ n ∈ (m.rule.route file s.literal).trail, s.quote.Holds n) ∧
      (s.quote.Holds new → read? renamed = some (s.aimedAt new, [])) ∧
      (s.quote.Holds m.rule.folder.text → s.quote.Holds new) := by
  intro s new renamed
  have grammatical : s.Grammatical := grammatical_of_mem_found found
  have spliced : renamed = (s.aimedAt new).text := updated_of_mem_found file found
  rw [spliced]
  refine ⟨spells_aimedAt_iff grammatical, m.rule.holds_relativeName_iff file s.literal s.quote,
    read?_aimedAt grammatical, fun folder => ?_⟩
  exact m.rule.holds_relativeName_of_folder file s.literal s.quote folder grammatical.literal

/- The folder has a quote of the other kind in its name. -/
theorem updated_spells_iff_other_quote :
    let table : Table := ⟨[⟨"@/*".toList, ⟨"/r/it's".toList⟩⟩]⟩
    let file : Path := ⟨"/r/main.ts".toList⟩
    let text := "import x from \"@/a\"".toList
    let m : Match := ⟨0, ⟨" x from ".toList, .double, "@/a".toList, false⟩,
      ⟨"@/*".toList, ⟨"/r/it's".toList⟩⟩⟩
    let s := m.statement
    let new := m.rule.relativeName file s.literal
    let renamed := table.updated file (.statement s)
    m ∈ table.found text ∧
      (Spells s.quote new renamed ↔ s.quote.Holds new) ∧
      (s.quote.Holds new ↔ ∀ n ∈ (m.rule.route file s.literal).trail, s.quote.Holds n) ∧
      (s.quote.Holds new → read? renamed = some (s.aimedAt new, [])) ∧
      (s.quote.Holds m.rule.folder.text → s.quote.Holds new) := by
  intro table file text m
  have found : m ∈ table.found text := by decide +kernel
  exact ⟨found, updated_spells_iff table file text m found⟩

/-- The name of a folder can end the quoted name and go on with a statement of its own, which a
second change then takes for one of the file. -/
theorem updated_splits :
    let config : Config := ⟨⟨"/r".toList⟩, [⟨"*".toList, ["q';import y from 'z/*".toList]⟩]⟩
    let compiles (_ : Text) := true
    let table := Table.build compiles config []
    let file : Path := ⟨"/r/main.ts".toList⟩
    let text := "import x from 'a';".toList
    let s : Statement := ⟨" x from ".toList, .single, "a".toList, true⟩
    let r : Rule := ⟨"*".toList, ⟨"/r/q';import y from 'z".toList⟩⟩
    let new := r.relativeName file s.literal
    (⟨0, s, r⟩ : Match) ∈ table.found text ∧ new = "./q';import y from 'z/a".toList ∧
      ¬Spells s.quote new (table.updated file (.statement s)) ∧
      (table.found (table.change file text).content).map (·.statement) =
        [⟨" y from ".toList, .single, "z/a".toList, true⟩] := by
  intro config compiles table file text s r new
  have built : table = ⟨[r]⟩ := congrArg Table.mk (List.mergeSort_singleton _)
  have name : new = "./q';import y from 'z/a".toList := by decide
  rw [built]
  refine ⟨by decide +kernel, name, ?_, by decide +kernel⟩
  rintro ⟨u, grammatical, -, quote, literal⟩
  have inside : '\'' ∈ u.literal := by
    rw [literal, name]
    decide
  have outside := (grammatical.literal _ inside).1
  rw [quote] at outside
  exact outside rfl

end Table
end Unalias
