import Mathlib.Data.List.Basic
import Unalias.Proofs.Alias.Order

/-! Which aliases make up the table, and which of them answers for a name. An alias counts if it has
a target and no token is found in its pattern; of those that cover a name, the first with the
longest stem answers. -/
namespace Unalias

namespace Alias

/-- No token is found in the pattern. The blanks around a token are no part of it, and a token of
blanks alone does not count. -/
def Spared (excluded : List Text) (pattern : Text) : Prop :=
  ∀ token ∈ excluded, token.trim ≠ [] → ¬token.trim <:+: pattern

def Admitted (excluded : List Text) (a : Alias) : Prop :=
  a.targets ≠ [] ∧ Spared excluded a.pattern

/-- The rule for an alias, with the folder of its first target. -/
def rule (base : Path) (a : Alias) : Rule := ⟨a.pattern, base.join ⟨stem (a.targets.headD [])⟩⟩

def covers (a : Alias) (name : Text) : Bool := (compile a.pattern).fits name

/-- The alias covers the name, and of all that do none has a longer stem and none with as long a
stem stands before it. -/
def IsFirstLongest (aliases : List Alias) (name : Text) (a : Alias) : Prop :=
  ∃ before after, aliases = before ++ a :: after ∧ a.covers name = true ∧
    (∀ b ∈ before, b.covers name = true → (stem b.pattern).size < (stem a.pattern).size) ∧
    ∀ b ∈ after, b.covers name = true → (stem b.pattern).size ≤ (stem a.pattern).size

section judge

variable {excluded : List Text}

theorem spared_iff {pattern : Text} :
    Spared excluded pattern ↔ ∀ token ∈ tokens excluded, Text.contains token pattern = false := by
  simp only [Spared, tokens, List.mem_filter, List.mem_map, decide_eq_true_eq, and_imp,
    forall_exists_index, forall_apply_eq_imp_iff₂, ← Bool.not_eq_true, Text.contains_iff_infix]

instance : DecidablePred (Spared excluded) := fun _ => decidable_of_iff _ spared_iff.symm

instance : DecidablePred (Admitted excluded) := fun _ => inferInstanceAs (Decidable (_ ∧ _))

theorem find?_tokens_eq_none_iff {pattern : Text} :
    (tokens excluded).find? (Text.contains · pattern) = none ↔ Spared excluded pattern := by
  simp only [List.find?_eq_none, Bool.not_eq_true, spared_iff]

/-- What becomes of an alias, where its rule is concerned. -/
theorem rule?_judge (compiles : Text → Bool) (base : Path) (a : Alias) :
    (a.judge compiles base (tokens excluded)).rule? =
      if Admitted excluded a ∧ compiles a.pattern = true then some (a.rule base) else none := by
  obtain ⟨pattern, targets⟩ := a
  unfold judge
  split
  · rename_i token found
    have named : ¬Spared excluded pattern := by
      rw [← find?_tokens_eq_none_iff, found]
      exact Option.some_ne_none token
    exact (if_neg fun h => named h.1.2).symm
  · rename_i targets
    exact (if_neg fun h => h.1.1 targets).symm
  · rename_i first rest free listed
    obtain rfl : targets = first :: rest := listed
    have admitted : Admitted excluded ⟨pattern, first :: rest⟩ :=
      ⟨List.cons_ne_nil first rest, find?_tokens_eq_none_iff.mp free⟩
    simp only [admitted, rule, List.headD_cons, true_and]
    split <;> rfl

end judge

end Alias

namespace Table

open Alias

section answer

variable {compiles : Text → Bool} {config : Config} {excluded : List Text} {name : Text} {r : Rule}

/- Where all patterns can be compiled, each alias that counts gives its rule. -/
theorem kept_eq_map (usable : ∀ a ∈ config.aliases, compiles a.pattern = true) :
    kept compiles config excluded =
      (config.aliases.filter (Admitted excluded ·)).map (Alias.rule config.base) := by
  have judged : ∀ a ∈ config.aliases, (a.judge compiles config.base (tokens excluded)).rule? =
      if Admitted excluded a then some (a.rule config.base) else none := by
    intro a ha
    simp only [rule?_judge, usable a ha, and_true]
  rw [kept, List.filterMap_congr judged, ← List.filterMap_eq_map', List.filterMap_filter]
  simp only [decide_eq_true_eq]

variable {aliases : List Alias}

theorem find?_eq_some_iff_firstLongest
    (rules : kept compiles config excluded = aliases.map (Alias.rule config.base)) :
    (build compiles config excluded).find? name = some r ↔
      ∃ a, IsFirstLongest aliases name a ∧ a.rule config.base = r := by
  have chosen (n : Nat) :
      ((kept compiles config excluded).filter (·.stem.size = n)).find? (·.accepts name) =
      (aliases.find? fun a => (stem a.pattern).size = n ∧ a.covers name = true).map
        (Alias.rule config.base) := by
    rw [rules, List.find?_filter, List.find?_map]
    simp only [decide_eq_true_eq]
    rfl
  rw [find?_eq_some_iff_first, chosen, rules]
  simp only [List.forall_mem_map, Option.map_eq_some_iff, List.find?_eq_some_iff_append,
    decide_eq_true_eq, Bool.not_eq_true', decide_eq_false_iff_not]
  constructor
  · rintro ⟨longest, a, ⟨⟨-, covered⟩, before, after, whole, passed⟩, rfl⟩
    refine ⟨a, ⟨before, after, whole, covered, fun b hb covered' => ?_, fun b hb => ?_⟩, rfl⟩
    · have shorter := longest b (by simp [whole, hb]) covered'
      exact Nat.lt_of_le_of_ne shorter fun same => passed b hb ⟨same, covered'⟩
    · exact longest b (by simp [whole, hb])
  · rintro ⟨a, ⟨before, after, whole, covered, shorter, longest⟩, rfl⟩
    refine ⟨fun b hb covered' => ?_, a, ⟨⟨rfl, covered⟩, before, after, whole, ?_⟩, rfl⟩
    · rw [whole, List.mem_append, List.mem_cons] at hb
      rcases hb with hb | rfl | hb
      · exact Nat.le_of_lt (shorter b hb covered')
      · exact Nat.le_refl _
      · exact longest b hb covered'
    · rintro b hb ⟨same, covered'⟩
      exact absurd same (Nat.ne_of_lt (shorter b hb covered'))

theorem mem_rules_iff
    (rules : kept compiles config excluded = aliases.map (Alias.rule config.base)) :
    r ∈ (build compiles config excluded).rules ↔ ∃ a ∈ aliases, a.rule config.base = r := by
  rw [build_rules, List.mem_mergeSort, rules, List.mem_map]

end answer

/-- Where all patterns can be compiled, the table holds one rule for each alias that counts, those
with a longer stem first and those with stems of one length in the order of the configuration. The
first of the longest that cover a name answers for it, and where none covers the name there is no
answer. -/
theorem build_selects (compiles : Text → Bool) (config : Config) (excluded : List Text)
    (usable : ∀ a ∈ config.aliases, compiles a.pattern = true) :
    let aliases := config.aliases.filter (Admitted excluded ·)
    let rules := aliases.map (Alias.rule config.base)
    let table := build compiles config excluded
    table.rules.Perm rules ∧
    table.rules.Pairwise (fun r s => s.stem.size ≤ r.stem.size) ∧
    (∀ n, table.rules.filter (·.stem.size = n) = rules.filter (·.stem.size = n)) ∧
    ∀ name,
      (∀ r, table.find? name = some r ↔
        ∃ a, IsFirstLongest aliases name a ∧ a.rule config.base = r) ∧
      (table.find? name = none ↔ ∀ a ∈ aliases, a.covers name = false) := by
  intro aliases rules table
  have all : kept compiles config excluded = rules := kept_eq_map usable
  refine ⟨?_, pairwise_build compiles config excluded, fun n => ?_, fun name => ⟨fun r => ?_, ?_⟩⟩
  · rw [← all]
    exact List.mergeSort_perm _ _
  · rw [← all]
    exact filter_size_build compiles config excluded n
  · exact find?_eq_some_iff_firstLongest all
  · simp only [table, find?, List.find?_eq_none, mem_rules_iff all, Bool.not_eq_true]
    constructor
    · intro none a ha
      exact none _ ⟨a, ha, rfl⟩
    · rintro none r ⟨a, ha, rfl⟩
      exact none a ha

/- The alias that covers the name best is left out, the next best has no target, and of the two with
as long a stem the one that was written first answers. -/
theorem build_selects_first_of_tied :
    let star : Alias := ⟨"@*".toList, ["lib/*".toList]⟩
    let old : Alias := ⟨"@é/old/*".toList, ["old/*".toList]⟩
    let bare : Alias := ⟨"@é/o*".toList, []⟩
    let front : Alias := ⟨"@é*".toList, ["front/*".toList]⟩
    let folder : Alias := ⟨"@é/*".toList, ["folder/*".toList, "lib/*".toList]⟩
    let config : Config := ⟨⟨"/r".toList⟩, [star, old, bare, front, folder, front]⟩
    let compiles (_ : Text) := true
    let table := build compiles config [" old ".toList, " ".toList]
    (∀ a ∈ config.aliases, compiles a.pattern = true) ∧
      table.find? "@é/old/x".toList = some ⟨front.pattern, ⟨"/r/front".toList⟩⟩ ∧
      table.find? "é".toList = none := by
  intro star old bare front folder config compiles table
  have usable : ∀ a ∈ config.aliases, compiles a.pattern = true := by decide
  obtain ⟨-, -, -, answers⟩ := build_selects compiles config [" old ".toList, " ".toList] usable
  refine ⟨usable, ((answers _).1 _).mpr ⟨front, ⟨[star], [folder, front], ?_⟩, ?_⟩, ?_⟩
  · decide
  · decide
  · exact (answers _).2.mpr (by decide)

end Table
end Unalias
