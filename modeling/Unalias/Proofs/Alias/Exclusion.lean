import Unalias.Proofs.Alias.Admitted

/-! What more exclusions do to a table. They take rules out and leave the others in their order, so
a name has another answer only if the rule that answered for it is taken out. -/
namespace Unalias

section falling

variable {α : Type} {l l' : List α}

theorem mem_of_filter_eq {key : α → Nat}
    (same : ∀ n, l.filter (key · = n) = l'.filter (key · = n)) {a : α} (h : a ∈ l) : a ∈ l' := by
  have kept : a ∈ l.filter (key · = key a) := List.mem_filter.mpr ⟨h, decide_eq_true rfl⟩
  rw [same] at kept
  exact (List.mem_filter.mp kept).1

theorem le_head_of_falling {key : α → Nat} {a b : α}
    (falls : (a :: l).Pairwise fun a b => key b ≤ key a) (h : b ∈ a :: l) : key b ≤ key a := by
  rcases List.mem_cons.mp h with rfl | hb
  · exact Nat.le_refl _
  · exact (List.pairwise_cons.mp falls).1 b hb

/- The order of a list that falls along a key is known from the order among elements of one key. -/
theorem eq_of_filter_eq (key : α → Nat) (falls : l.Pairwise fun a b => key b ≤ key a)
    (falls' : l'.Pairwise fun a b => key b ≤ key a)
    (same : ∀ n, l.filter (key · = n) = l'.filter (key · = n)) : l = l' := by
  induction l generalizing l' with
  | nil =>
    cases l' with
    | nil => rfl
    | cons b l' => simpa using mem_of_filter_eq (fun n => (same n).symm) List.mem_cons_self
  | cons a l ih =>
    cases l' with
    | nil => simpa using mem_of_filter_eq same List.mem_cons_self
    | cons b l' =>
      have below := le_head_of_falling falls' (mem_of_filter_eq same List.mem_cons_self)
      have above := le_head_of_falling falls
        (mem_of_filter_eq (fun n => (same n).symm) List.mem_cons_self)
      have level : key b = key a := Nat.le_antisymm above below
      have heads := same (key a)
      rw [List.filter_cons_of_pos (by simp), List.filter_cons_of_pos (by simp [level])] at heads
      obtain ⟨rfl, -⟩ := List.cons.inj heads
      have rest (n : Nat) : l.filter (key · = n) = l'.filter (key · = n) := by
        by_cases h : key a = n
        · simpa [h] using same n
        · simpa [h] using same n
      rw [ih falls.of_cons falls'.of_cons rest]

end falling

namespace Alias

variable {excluded excluded' : List Text}

/- With fewer tokens no more patterns are left out. -/
theorem Spared.of_subset {pattern : Text} (h : Spared excluded' pattern)
    (more : excluded ⊆ excluded') : Spared excluded pattern :=
  fun token ht => h token (more ht)

theorem admitted_more (more : excluded ⊆ excluded') {a : Alias} :
    Admitted excluded' a ↔ Admitted excluded a ∧ Spared excluded' a.pattern := by
  constructor
  · rintro ⟨target, spared⟩
    exact ⟨⟨target, spared.of_subset more⟩, spared⟩
  · rintro ⟨⟨target, -⟩, spared⟩
    exact ⟨target, spared⟩

theorem rule?_judge_more (compiles : Text → Bool) (more : excluded ⊆ excluded') (base : Path)
    (a : Alias) :
    (a.judge compiles base (tokens excluded')).rule? =
      (a.judge compiles base (tokens excluded)).rule?.filter (Spared excluded' ·.pattern) := by
  simp only [rule?_judge, admitted_more more]
  by_cases kept : Admitted excluded a ∧ compiles a.pattern = true
  · simp only [kept, true_and, and_true, if_true, Option.filter_some, decide_eq_true_eq]
    rfl
  · have out : ¬((Admitted excluded a ∧ Spared excluded' a.pattern) ∧
        compiles a.pattern = true) := fun h => kept ⟨h.1.1, h.2⟩
    rw [if_neg kept, if_neg out]
    rfl

end Alias

namespace Table

open Alias

section more

variable {compiles : Text → Bool} {config : Config} {excluded excluded' : List Text} {name : Text}
  {r : Rule}

theorem kept_more (more : excluded ⊆ excluded') :
    kept compiles config excluded' =
      (kept compiles config excluded).filter (Spared excluded' ·.pattern) := by
  rw [kept, kept, List.filter_filterMap]
  exact List.filterMap_congr fun a _ => rule?_judge_more compiles more config.base a

/- To leave rules out and then sort is to sort and then leave them out. -/
theorem rules_more (more : excluded ⊆ excluded') :
    (build compiles config excluded').rules =
      (build compiles config excluded).rules.filter (Spared excluded' ·.pattern) := by
  refine eq_of_filter_eq (·.stem.size) (pairwise_build compiles config excluded')
    ((pairwise_build compiles config excluded).filter _) fun n => ?_
  calc (build compiles config excluded').rules.filter (·.stem.size = n)
    _ = (kept compiles config excluded').filter (·.stem.size = n) :=
        filter_size_build compiles config excluded' n
    _ = ((kept compiles config excluded).filter (Spared excluded' ·.pattern)).filter
          (·.stem.size = n) := by rw [kept_more more]
    _ = ((kept compiles config excluded).filter (·.stem.size = n)).filter
          (Spared excluded' ·.pattern) := List.filter_comm _ _ _
    _ = ((build compiles config excluded).rules.filter (·.stem.size = n)).filter
          (Spared excluded' ·.pattern) := by rw [filter_size_build]
    _ = ((build compiles config excluded).rules.filter (Spared excluded' ·.pattern)).filter
          (·.stem.size = n) := List.filter_comm _ _ _

theorem find?_more_of_spared (more : excluded ⊆ excluded')
    (found : (build compiles config excluded).find? name = some r)
    (spared : Spared excluded' r.pattern) :
    (build compiles config excluded').find? name = some r := by
  obtain ⟨accepted, before, after, whole, refused⟩ := List.find?_eq_some_iff_append.mp found
  rw [find?, rules_more more, whole, List.filter_append, List.filter_cons_of_pos (by simpa)]
  refine List.find?_eq_some_iff_append.mpr ⟨accepted, _, _, rfl, fun s hs => ?_⟩
  exact refused s (List.mem_of_mem_filter hs)

theorem find?_more_of_none (more : excluded ⊆ excluded')
    (unanswered : (build compiles config excluded).find? name = none) :
    (build compiles config excluded').find? name = none := by
  rw [find?, rules_more more, List.find?_eq_none]
  exact fun s hs => List.find?_eq_none.mp unanswered s (List.mem_of_mem_filter hs)

end more

/-- With more tokens excluded, the table has the rules with none of the tokens in their pattern, in
the order as before. A name keeps its rule if that is one of them, and a name that no rule answered
for stays without one; so the answers that change are those of rules that are left out. -/
theorem build_excluding (compiles : Text → Bool) (config : Config)
    (excluded excluded' : List Text) (name : Text) (more : excluded ⊆ excluded') :
    let table := build compiles config excluded
    let table' := build compiles config excluded'
    table'.rules = table.rules.filter (Spared excluded' ·.pattern) ∧
    (∀ r, table.find? name = some r → Spared excluded' r.pattern →
      table'.find? name = some r) ∧
    (table.find? name = none → table'.find? name = none) ∧
    (table'.find? name ≠ table.find? name →
      ∃ r, table.find? name = some r ∧ ¬Spared excluded' r.pattern) := by
  intro table table'
  refine ⟨rules_more more, fun r => find?_more_of_spared more, find?_more_of_none more, ?_⟩
  intro changed
  cases found : table.find? name with
  | none => exact absurd ((find?_more_of_none more found).trans found.symm) changed
  | some r =>
    refine ⟨r, rfl, fun spared => changed ?_⟩
    rw [found]
    exact find?_more_of_spared more found spared

/- A token takes out the rule with the longer stem, and a name that it did not answer for keeps its
rule. -/
theorem build_excluding_core :
    let app : Alias := ⟨"@app/*".toList, ["src/*".toList]⟩
    let core : Alias := ⟨"@app/core/*".toList, ["core/*".toList, "src/core/*".toList]⟩
    let web : Alias := ⟨"@web".toList, ["web.ts".toList]⟩
    let config : Config := ⟨⟨"/r".toList⟩, [app, web, core]⟩
    let excluded := ["@web".toList]
    let excluded' := [" ".toList, " core/ ".toList, "@web".toList]
    let rule : Rule := ⟨app.pattern, ⟨"/r/src".toList⟩⟩
    let compiles (_ : Text) := true
    excluded ⊆ excluded' ∧ (build compiles config excluded).find? "@app/x".toList = some rule ∧
      Spared excluded' app.pattern ∧ ¬Spared excluded' core.pattern ∧
      (build compiles config excluded').find? "@app/x".toList = some rule := by
  intro app core web config excluded excluded' rule compiles
  have more : excluded ⊆ excluded' := by decide
  have found : (build compiles config excluded).find? "@app/x".toList = some rule :=
    find?_eq_some_iff_first.mpr (by decide)
  have spared : Spared excluded' rule.pattern := by decide
  obtain ⟨-, keeps, -⟩ := build_excluding compiles config excluded excluded' "@app/x".toList more
  exact ⟨more, found, spared, by decide, keeps rule found spared⟩

end Table
end Unalias
