import Unalias.Proofs.Alias.Stem
import Unalias.Proofs.Path.Normal
import Unalias.Proofs.Specifier.Dressed

/-! The relative name of a module means what the alias meant: walked from the folder of the
file, it ends where the rest of the name ends that is walked from the folder of the rule. -/
namespace Unalias.Rule

theorem stem_prefix_of_accepts {r : Rule} {name : Text} (star : '*' ∉ r.pattern.dropLast)
    (accepted : r.accepts name = true) : ∃ rest, name = r.stem ++ rest := by
  obtain ⟨tail, htail⟩ := Alias.stem_prefix r.pattern
  have fits : Fits (Alias.compile r.pattern) name := Pattern.fits_iff.mp accepted
  rw [htail, Alias.compile_append] at fits
  obtain ⟨rest, hrest, _⟩ := Alias.fits_compile_append (Alias.not_mem_stem star) fits
  exact ⟨rest, hrest⟩

/-- The relative name, walked from the folder of the file, ends where the rest of the old name ends
that is walked from the folder of the rule. -/
theorem walk_relativeName {r : Rule} {file : Path} {name rest : Text} (hrest : name = r.stem ++ rest)
    (file_absolute : file.isAbsolute = true) (target_absolute : r.folder.isAbsolute = true)
    (folder_foldable : (file.parent?.getD ⟨[]⟩).Foldable) (target_foldable : r.folder.Foldable) :
    (file.parent?.getD ⟨[]⟩).place.walk (r.relativeName file name) = r.folder.place.walk rest := by
  have way : (file.parent?.getD ⟨[]⟩).place.walk
      (Path.relativeTo (file.parent?.getD ⟨[]⟩) r.folder) = r.folder.place := by
    rcases Path.parent?_of_isAbsolute file_absolute with none | ⟨folder, parent, absolute⟩
    · rw [none, Option.getD_none]
      exact Path.walk_relativeTo_of_nowhere target_absolute target_foldable
    · rw [parent, Option.getD_some] at folder_foldable ⊢
      exact Path.walk_relativeTo_of_foldable absolute target_absolute folder_foldable
        target_foldable
  rw [relativeName, walk_dressed, Route.walk_join, way, remainder_of_append hrest]

/- All paths are absolute here, so that both normal forms begin at the root. -/
theorem relativeName_keeps_meaning (r : Rule) (name : Text) (file folder : Path)
    (star : '*' ∉ r.pattern.dropLast) (accepted : r.accepts name = true)
    (inside : file.parent? = some folder)
    (folder_absolute : folder.isAbsolute = true) (target_absolute : r.folder.isAbsolute = true)
    (folder_colonless : folder.Colonless) (target_colonless : r.folder.Colonless) :
    ∃ rest, name = r.stem ++ rest ∧
      folder.place.walk (r.relativeName file name) =
        Place.root.walk (r.folder.text ++ '/' :: rest) := by
  obtain ⟨rest, hrest⟩ := stem_prefix_of_accepts star accepted
  have way := Path.walk_relativeTo folder_absolute target_absolute folder_colonless target_colonless
  refine ⟨rest, hrest, ?_⟩
  simp only [relativeName, inside, Option.getD_some]
  rw [walk_dressed, Route.walk_join, way, remainder_of_append hrest, Place.walk_slash]
  rfl

/- The rest climbs past the root, and comes back down. -/
theorem relativeName_keeps_meaning_past_root :
    let r : Rule := ⟨"@app/*".toList, ⟨"/repo/./src//app".toList⟩⟩
    let name := "@app/../../../../x/./y/".toList
    let file : Path := ⟨"/repo/web/../pages/home.ts".toList⟩
    let folder : Path := ⟨"/repo/web/../pages".toList⟩
    '*' ∉ r.pattern.dropLast ∧ r.accepts name = true ∧ file.parent? = some folder ∧
      folder.isAbsolute = true ∧ r.folder.isAbsolute = true ∧ folder.Colonless ∧
      r.folder.Colonless ∧
      ∃ rest, name = r.stem ++ rest ∧
        folder.place.walk (r.relativeName file name) =
          Place.root.walk (r.folder.text ++ '/' :: rest) := by
  intro r name file folder
  have star : '*' ∉ r.pattern.dropLast := by decide
  have accepted : r.accepts name = true := by decide
  have inside : file.parent? = some folder := by decide
  have colonless : folder.Colonless ∧ r.folder.Colonless := by decide
  exact ⟨star, accepted, inside, rfl, rfl, colonless.1, colonless.2,
    relativeName_keeps_meaning r name file folder star accepted inside rfl rfl
      colonless.1 colonless.2⟩

end Unalias.Rule
