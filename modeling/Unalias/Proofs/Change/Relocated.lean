import Unalias.Proofs.Alias.Order
import Unalias.Proofs.Change.Again
import Unalias.Proofs.Path.Under

/-! A project in another root folder. Its rules aim at the same folders as seen from the root, so
its files are changed to the same text, as long as nothing climbs out of the project. -/
namespace Unalias

namespace Rule

/-- The rule of a project that lies in a root folder. -/
def under (root : Path) (r : Rule) : Rule := { r with folder := root.join r.folder }

@[simp] theorem pattern_under (root : Path) (r : Rule) : (r.under root).pattern = r.pattern := rfl

@[simp] theorem folder_under (root : Path) (r : Rule) :
    (r.under root).folder = root.join r.folder := rfl

@[simp] theorem remainder_under (root : Path) (r : Rule) (name : Text) :
    (r.under root).remainder name = r.remainder name := rfl

/-- The folder of the rule is relative, and does not climb out of where it starts. -/
def Inner (r : Rule) : Prop := r.folder.isAbsolute = false ∧ r.folder.Inside

/- A file has a folder of its own as soon as its path takes a step. Else the folder of the file
under a root is the one that holds the root. -/
theorem relativeName_under {root file : Path} {r : Rule} (absolute : root.isAbsolute = true)
    (relative : file.isAbsolute = false) (named : ∃ c ∈ file.components, c ≠ .here)
    (inside : (file.parent?.getD ⟨[]⟩).Inside) (inner : r.Inner) (name : Text) :
    (r.under root).relativeName (root.join file) name = r.relativeName file name := by
  have moves := Path.steps_ne_nil relative named
  obtain ⟨folder, hfolder, -⟩ := Path.exists_parent? moves
  rw [hfolder, Option.getD_some] at inside
  obtain ⟨above, habove, start⟩ := Path.exists_parent?_join absolute relative moves hfolder inside
  have goal : (root.join r.folder).normal = root.normal ++ r.folder.normal :=
    Path.normal_join absolute inner.1 inner.2
  have way : Path.relativeTo above (root.join r.folder) = Path.relativeTo folder r.folder :=
    Path.relativeTo_of_normal_append start goal
  simp only [relativeName, hfolder, habove, Option.getD_some, folder_under, remainder_under, way]

end Rule

namespace Alias

/-- The first target is relative, and from the base it does not climb out of the project. -/
def Inner (base : Path) (a : Alias) : Prop :=
  ∀ t ∈ a.targets.head?, Path.isAbsolute ⟨t⟩ = false ∧ (base.join ⟨stem t⟩).Inside

instance (base : Path) (a : Alias) : Decidable (a.Inner base) :=
  inferInstanceAs (Decidable (∀ t ∈ a.targets.head?, _))

theorem rule?_judge_join (compiles : Text → Bool) (root base : Path) (tokens : List Text)
    (a : Alias) :
    (a.judge compiles (root.join base) tokens).rule? =
      (a.judge compiles base tokens).rule?.map (Rule.under root) := by
  unfold judge
  split
  · rfl
  · rfl
  · split
    · rw [Path.join_join]
      rfl
    · rfl

end Alias

namespace Table

open Alias

/-- The table of a project that lies in a root folder. -/
def under (root : Path) (table : Table) : Table := ⟨table.rules.map (Rule.under root)⟩

theorem build_join (compiles : Text → Bool) (root base : Path) (aliases : List Alias)
    (excluded : List Text) :
    build compiles ⟨root.join base, aliases⟩ excluded =
      (build compiles ⟨base, aliases⟩ excluded).under root := by
  have rules : kept compiles ⟨root.join base, aliases⟩ excluded =
      (kept compiles ⟨base, aliases⟩ excluded).map (Rule.under root) := by
    rw [kept, kept, List.map_filterMap]
    exact congrArg (aliases.filterMap ·) (funext (rule?_judge_join compiles root base _))
  have sorted :
      ((kept compiles ⟨base, aliases⟩ excluded).mergeSort precedes).map (Rule.under root) =
      ((kept compiles ⟨base, aliases⟩ excluded).map (Rule.under root)).mergeSort precedes :=
    List.map_mergeSort fun _ _ _ _ => rfl
  rw [under, build_rules, sorted, ← rules]
  rfl

theorem inner_of_mem_build {compiles : Text → Bool} {base : Path} {aliases : List Alias}
    {excluded : List Text} {r : Rule} (relative : base.isAbsolute = false)
    (inner : ∀ a ∈ aliases, a.Inner base)
    (h : r ∈ (build compiles ⟨base, aliases⟩ excluded).rules) : r.Inner := by
  obtain ⟨a, ha, kept⟩ := List.mem_filterMap.mp (mem_build_iff.mp h)
  obtain ⟨t, ht, hr⟩ := exists_target_of_judge kept
  obtain ⟨short, inside⟩ := inner a ha t ht
  have cut : Path.isAbsolute ⟨stem t⟩ = false := by
    obtain ⟨tail, htail⟩ := stem_prefix t
    rw [Bool.eq_false_iff] at short ⊢
    exact mt (Path.isAbsolute_of_begins ⟨tail, htail.symm⟩) short
  rw [hr]
  exact ⟨Path.isAbsolute_join_of_relative relative cut, inside⟩

theorem find?_under (root : Path) (table : Table) (name : Text) :
    (table.under root).find? name = (table.find? name).map (Rule.under root) :=
  List.find?_map

theorem ruleFor?_under (root : Path) (table : Table) (s : Statement) :
    (table.under root).ruleFor? s = (table.ruleFor? s).map (Rule.under root) := by
  unfold ruleFor?
  split
  · rfl
  · exact find?_under root table s.literal

section change

variable {root file : Path} {table : Table}

section same

variable (same : ∀ r ∈ table.rules, ∀ name,
  (r.under root).relativeName (root.join file) name = r.relativeName file name)

include same

/- A rule counts for a file only by its pattern and by the relative names that it gives there. -/
theorem updated_under (stretch : Stretch) :
    (table.under root).updated (root.join file) stretch = table.updated file stretch := by
  cases stretch with
  | other c => rfl
  | statement s =>
    cases hr : table.ruleFor? s with
    | none => simp only [updated, ruleFor?_under, hr, Option.map_none]
    | some r =>
      have name := same r (mem_rules_of_ruleFor? hr) s.literal
      simp only [updated, ruleFor?_under, hr, Option.map_some, name]

theorem replacement?_under (stretch : Stretch) :
    (table.under root).replacement? (root.join file) stretch = table.replacement? file stretch := by
  cases stretch with
  | other c => rfl
  | statement s =>
    cases hr : table.ruleFor? s with
    | none => simp only [replacement?, ruleFor?_under, hr, Option.map_none]
    | some r =>
      have name := same r (mem_rules_of_ruleFor? hr) s.literal
      simp only [replacement?, ruleFor?_under, hr, Option.map_some, Rule.pattern_under, name]

end same

/-- Under a root a file is changed as it is without one. -/
theorem change_under (absolute : root.isAbsolute = true) (relative : file.isAbsolute = false)
    (named : ∃ c ∈ file.components, c ≠ .here) (inside : (file.parent?.getD ⟨[]⟩).Inside)
    (inner : ∀ r ∈ table.rules, r.Inner) (text : Text) :
    (table.under root).change (root.join file) text =
      { table.change file text with path := root.join file } := by
  have same : ∀ r ∈ table.rules, ∀ name,
      (r.under root).relativeName (root.join file) name = r.relativeName file name :=
    fun r hr => Rule.relativeName_under absolute relative named inside (inner r hr)
  simp only [change, funext (updated_under same), funext (replacement?_under same)]

end change

/-- Where a project lies has no say in how its files are changed, as long as no target and no file
lies out of the project. -/
theorem change_relocated (compiles : Text → Bool) (root root' base file : Path)
    (aliases : List Alias) (excluded : List Text) (text : Text) (absolute : root.isAbsolute = true)
    (absolute' : root'.isAbsolute = true) (base_relative : base.isAbsolute = false)
    (file_relative : file.isAbsolute = false) (named : ∃ c ∈ file.components, c ≠ .here)
    (targets_inner : ∀ a ∈ aliases, a.Inner base)
    (folder_inside : (file.parent?.getD ⟨[]⟩).Inside) :
    let changed (root : Path) :=
      (build compiles ⟨root.join base, aliases⟩ excluded).change (root.join file) text
    (changed root).content = (changed root').content ∧
      (changed root).replacements = (changed root').replacements := by
  intro changed
  have alone {root : Path} (absolute : root.isAbsolute = true) :
      changed root =
        { (build compiles ⟨base, aliases⟩ excluded).change file text with
          path := root.join file } := by
    have inner : ∀ r ∈ (build compiles ⟨base, aliases⟩ excluded).rules, r.Inner :=
      fun r hr => inner_of_mem_build base_relative targets_inner hr
    rw [← change_under absolute file_relative named folder_inside inner, ← build_join]
  rw [alone absolute, alone absolute']
  exact ⟨rfl, rfl⟩

/- The base goes down and up again, and so does the way from the file to the target. -/
theorem change_relocated_from_pages :
    let root : Path := ⟨"/".toList⟩
    let root' : Path := ⟨"/home/../srv/web/".toList⟩
    let base : Path := ⟨"./packages/../app".toList⟩
    let file : Path := ⟨"app/pages//./home.ts".toList⟩
    let aliases : List Alias := [⟨"@/*".toList, ["../lib/./*".toList]⟩, ⟨"#*".toList, []⟩]
    let excluded := ["web".toList]
    let text := "import { x } from '@/x';".toList
    let compiles (_ : Text) := true
    let changed (root : Path) :=
      (build compiles ⟨root.join base, aliases⟩ excluded).change (root.join file) text
    (root.isAbsolute = true ∧ root'.isAbsolute = true ∧ base.isAbsolute = false ∧
      file.isAbsolute = false ∧ (∃ c ∈ file.components, c ≠ .here) ∧
      (∀ a ∈ aliases, a.Inner base) ∧ (file.parent?.getD ⟨[]⟩).Inside) ∧
      (changed root).content = (changed root').content ∧
      (changed root).replacements = (changed root').replacements := by
  intro root root' base file aliases excluded text compiles changed
  have named : ∃ c ∈ file.components, c ≠ .here := by decide
  have targets_inner : ∀ a ∈ aliases, a.Inner base := by decide
  have folder_inside : (file.parent?.getD ⟨[]⟩).Inside := by decide
  exact ⟨⟨rfl, rfl, rfl, rfl, named, targets_inner, folder_inside⟩,
    change_relocated compiles root root' base file aliases excluded text rfl rfl rfl rfl named
      targets_inner folder_inside⟩

/-- A path of `.` alone names the root itself, whose folder is out of the project, although the
path does not climb. -/
theorem dot_follows_root :
    let root : Path := ⟨"/a".toList⟩
    let root' : Path := ⟨"/b".toList⟩
    let base : Path := ⟨".".toList⟩
    let file : Path := ⟨".".toList⟩
    let aliases : List Alias := [⟨"@/*".toList, ["src/*".toList]⟩]
    let text := "import x from '@/x';".toList
    let compiles (_ : Text) := true
    let changed (root : Path) :=
      (build compiles ⟨root.join base, aliases⟩ []).change (root.join file) text
    (root.isAbsolute = true ∧ root'.isAbsolute = true ∧ base.isAbsolute = false ∧
      file.isAbsolute = false ∧ (∀ a ∈ aliases, a.Inner base) ∧
      (file.parent?.getD ⟨[]⟩).Inside) ∧
      (changed root).content = "import x from './a/src/x';".toList ∧
      (changed root').content = "import x from './b/src/x';".toList ∧
      (changed root).content ≠ (changed root').content := by
  intro root root' base file aliases text compiles changed
  have one (root : Path) : build compiles ⟨root.join base, aliases⟩ [] =
      ⟨[⟨"@/*".toList, (root.join base).join ⟨"src".toList⟩⟩]⟩ :=
    congrArg Table.mk (List.mergeSort_singleton _)
  have first : (changed root).content = "import x from './a/src/x';".toList := by
    simp only [changed, one]
    decide +kernel
  have second : (changed root').content = "import x from './b/src/x';".toList := by
    simp only [changed, one]
    decide +kernel
  refine ⟨⟨rfl, rfl, rfl, rfl, by decide, by decide⟩, first, second, ?_⟩
  rw [first, second]
  decide

end Table
end Unalias
