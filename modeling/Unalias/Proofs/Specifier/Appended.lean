import Unalias.Proofs.Alias.Specific

/-! A star at the end of an alias and of its target. What the star stands for is put under the
folder that the target names without its star. This is the target with the same text in the place of
its star whenever that star is a name of its own; what stands right before a star is the name of the
folder, and not the beginning of a name in it. -/
namespace Unalias

namespace Rule

open Alias Table

/- A star that is a name of its own is a way under its folder: what is put in its place is walked
from there. -/
theorem walk_place_stem (base : Path) {target w : Text} (named : target ≠ ['/'])
    (below : w.head? ≠ some '/') (own : target = [] ∨ target.getLast? = some '/' ∨ w = []) :
    (base.join ⟨Alias.stem (target ++ ['*'])⟩).place.walk w = (base.join ⟨target ++ w⟩).place := by
  rcases stem_star_cases target with bare | slash
  · have whole : base.join ⟨Alias.stem (target ++ ['*'])⟩ = base.join ⟨target⟩ :=
      congrArg (fun t => base.join ⟨t⟩) bare.symm
    rw [whole]
    rcases own with empty | last | none
    · have relative : Path.isAbsolute ⟨w⟩ = false := by simpa [Path.isAbsolute] using below
      rw [empty, List.nil_append, Path.place_join_of_relative _ relative,
        Path.place_join_of_relative base rfl]
      rfl
    · obtain ⟨t, rfl⟩ := List.getLast?_eq_some_iff.mp last
      rw [List.append_assoc, List.singleton_append, stem_folder] at bare
      simp at bare
    · rw [none, List.append_nil]
      rfl
  · have some : Alias.stem (target ++ ['*']) ≠ [] := by
      intro empty
      rw [empty] at slash
      exact named slash
    have cut : target ++ w = Alias.stem (target ++ ['*']) ++ '/' :: w := by
      have front := congrArg (· ++ w) slash
      rwa [List.append_assoc, List.singleton_append] at front
    rw [cut, Path.place_join_slash base some]

/- The slash before the star of an alias is not part of its stem. It is left at the front of what is
walked under the folder, where it leads nowhere. -/
theorem walk_relativeName_star (front w : Text) {file directory : Path}
    (file_absolute : file.isAbsolute = true) (directory_absolute : directory.isAbsolute = true)
    (folder_foldable : (file.parent?.getD ⟨[]⟩).Foldable) (directory_foldable : directory.Foldable) :
    (file.parent?.getD ⟨[]⟩).place.walk
        (relativeName ⟨front ++ ['*'], directory⟩ file (front ++ w)) = directory.place.walk w := by
  let r : Rule := ⟨front ++ ['*'], directory⟩
  rcases stem_star_cases front with bare | slash
  · have rest : front ++ w = r.stem ++ w := congrArg (· ++ w) bare
    exact walk_relativeName rest file_absolute directory_absolute folder_foldable
      directory_foldable
  · have rest : front ++ w = r.stem ++ '/' :: w := by
      have cut := congrArg (· ++ w) slash
      rwa [List.append_assoc, List.singleton_append] at cut
    have walked := walk_relativeName rest file_absolute directory_absolute folder_foldable
      directory_foldable
    rw [walked]
    exact Place.walk_slash directory.place [] w

/-- The text in the place of the star of an alias is put under the folder that the target names
without its star, as long as the pattern of the alias can be compiled. If the star of the target is
a name of its own, or no text is there to be put, that is the target with the text in the place of
its star. -/
theorem relativeName_appends (compiles : Text → Bool) (config : Config) (excluded : List Text)
    (front target w : Text) (others : List Text) (file : Path)
    (base_absolute : config.base.isAbsolute = true) (file_absolute : file.isAbsolute = true)
    (member : ⟨front ++ ['*'], (target ++ ['*']) :: others⟩ ∈ config.aliases)
    (allowed : ∀ token ∈ tokens excluded, Text.contains token (front ++ ['*']) = false)
    (compiled : compiles (front ++ ['*']) = true)
    (front_star : '*' ∉ front) (named : target ≠ ['/'])
    (line : '\n' ∉ w) (below : w.head? ≠ some '/')
    (folder_foldable : (file.parent?.getD ⟨[]⟩).Foldable)
    (target_foldable : (config.base.join ⟨Alias.stem (target ++ ['*'])⟩).Foldable) :
    let folder := file.parent?.getD ⟨[]⟩
    let directory := config.base.join ⟨Alias.stem (target ++ ['*'])⟩
    let r : Rule := ⟨front ++ ['*'], directory⟩
    let name := front ++ w
    r ∈ (build compiles config excluded).rules ∧ r.accepts name = true ∧
      folder.place.walk (r.relativeName file name) = directory.place.walk w ∧
      (target = [] ∨ target.getLast? = some '/' ∨ w = [] →
        folder.place.walk (r.relativeName file name) = (config.base.join ⟨target ++ w⟩).place) := by
  intro folder directory r name
  have built : r ∈ (build compiles config excluded).rules := mem_build member rfl allowed compiled
  have accepted : r.accepts name = true := (fits_star_iff front_star).mpr ⟨w, rfl, line⟩
  have absolute : directory.isAbsolute = true := Path.isAbsolute_join base_absolute _
  have walked : folder.place.walk (r.relativeName file name) = directory.place.walk w :=
    walk_relativeName_star front w file_absolute absolute folder_foldable target_foldable
  exact ⟨built, accepted, walked, fun own => walked.trans (walk_place_stem _ named below own)⟩

/- A star right after a letter in the alias, a star after a slash in the target, and a text that
goes up and down again. -/
theorem relativeName_appends_up :
    let config : Config := ⟨⟨"/repo/./web".toList⟩,
      [⟨"@/*".toList, ["src/*".toList]⟩, ⟨"@lib-*".toList, ["c:/..lib//*".toList]⟩]⟩
    let excluded := [" old ".toList, []]
    let front := "@lib-".toList
    let target := "c:/..lib//".toList
    let w := "../x/./../../y/".toList
    let file : Path := ⟨"/repo/c:/pages/..//home.ts".toList⟩
    let folder := file.parent?.getD ⟨[]⟩
    let directory := config.base.join ⟨Alias.stem (target ++ ['*'])⟩
    let r : Rule := ⟨front ++ ['*'], directory⟩
    let name := front ++ w
    let compiles (_ : Text) := true
    (config.base.isAbsolute = true ∧ file.isAbsolute = true ∧
      ⟨front ++ ['*'], [target ++ ['*']]⟩ ∈ config.aliases ∧
      (∀ token ∈ tokens excluded, Text.contains token (front ++ ['*']) = false) ∧
      compiles (front ++ ['*']) = true ∧ '*' ∉ front ∧ target ≠ ['/'] ∧ '\n' ∉ w ∧
      w.head? ≠ some '/' ∧ folder.Foldable ∧ directory.Foldable) ∧
    r ∈ (build compiles config excluded).rules ∧ r.accepts name = true ∧
      folder.place.walk (r.relativeName file name) = directory.place.walk w ∧
      (target = [] ∨ target.getLast? = some '/' ∨ w = [] →
        folder.place.walk (r.relativeName file name) = (config.base.join ⟨target ++ w⟩).place) := by
  intro config excluded front target w file folder directory r name compiles
  have member : ⟨front ++ ['*'], [target ++ ['*']]⟩ ∈ config.aliases := by decide
  have allowed : ∀ token ∈ tokens excluded, Text.contains token (front ++ ['*']) = false := by
    decide
  have shapes : '*' ∉ front ∧ target ≠ ['/'] := by decide
  have plain : '\n' ∉ w ∧ w.head? ≠ some '/' := by decide
  have foldable : folder.Foldable ∧ directory.Foldable := by decide
  exact ⟨⟨rfl, rfl, member, allowed, rfl, shapes.1, shapes.2, plain.1, plain.2, foldable⟩,
    relativeName_appends compiles config excluded front target w [] file rfl rfl member allowed rfl
      shapes.1 shapes.2 plain.1 plain.2 foldable.1 foldable.2⟩

/-- A star after a letter begins a new name, a lone slash before a star is lost, and a name that
ends in a colon is not stepped back from: none of these targets leads where it would with the text
in the place of its star. -/
theorem relativeName_not_substituted :
    let base : Path := ⟨"/r".toList⟩
    let file : Path := ⟨"/r/main.ts".toList⟩
    let folder : Path := ⟨"/r".toList⟩
    let compiles (_ : Text) := true
    let rule (target : Text) : Rule := ⟨"@x/*".toList, base.join ⟨Alias.stem (target ++ ['*'])⟩⟩
    let misses (target : Text) : Prop :=
      '*' ∉ target ∧
        (build compiles ⟨base, [⟨"@x/*".toList, [target ++ ['*']]⟩]⟩ []).rules = [rule target] ∧
        folder.place.walk ((rule target).relativeName file "@x/a".toList) ≠
          (base.join ⟨target ++ ['a']⟩).place
    base.isAbsolute = true ∧ file.isAbsolute = true ∧ file.parent? = some folder ∧
      misses "src/v".toList ∧ misses ['/'] ∧ misses "c:/../src/".toList := by
  intro base file folder compiles rule misses
  have built (target : Text) :
      (build compiles ⟨base, [⟨"@x/*".toList, [target ++ ['*']]⟩]⟩ []).rules = [rule target] :=
    List.mergeSort_singleton _
  refine ⟨rfl, rfl, by decide, ⟨by decide, built _, ?_⟩, ⟨by decide, built _, ?_⟩,
    ⟨by decide, built _, ?_⟩⟩
  · decide +kernel
  · decide +kernel
  · decide +kernel

end Rule
end Unalias
