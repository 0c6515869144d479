import Unalias.Proofs.Disk.Joined
import Unalias.Proofs.Disk.Named
import Unalias.Proofs.Path.Ancestors
import Unalias.Settings.Location

/-! The nearest settings file. The folder from which the search starts and the folders above it are
looked at in turn, and the first that holds the file is the deepest one that does. -/
namespace Unalias

namespace Disk

variable {d : Disk} {p q : Path} {name : Text}

/- Whether a name is there does not depend on how its folder is written. -/
theorem isFile_join_congr (proper : IsName name) (same : p.isAbsolute = q.isAbsolute)
    (steps : p.steps = q.steps) : d.isFile (p.join ⟨name⟩) = d.isFile (q.join ⟨name⟩) := by
  rw [isFile, isFile, node?, node?, locate_join_eq d p proper, locate_join_eq d q proper, home, home,
    same, steps]

/- Names are gone down one after another. -/
theorem locate_join_of_names {names : List Text} (each : ∀ n ∈ names, IsName n)
    (proper : IsName name) (whole : p.steps = names.map .name) {here : Location}
    (h : d.locate (p.join ⟨name⟩) = .ok here) : here = d.home p ++ names ++ [name] := by
  have texts : p.steps.map Component.text = names := by
    rw [whole, List.map_map]
    exact List.map_id' names
  have all : ∀ n ∈ names ++ [name], IsName n :=
    List.forall_mem_append.mpr ⟨each, List.forall_mem_singleton.mpr proper⟩
  rw [locate_join_eq d p proper, texts] at h
  rw [walk_eq_foldl h, Place.foldl_enter_names _ all]
  simp

end Disk

namespace Settings

variable {d : Disk} {start : Path}

theorem isName_fileName : IsName fileName.text := by
  unfold IsName
  decide +kernel

theorem nearest_eq_ok_iff {file : Path} : nearest d start = .ok file ↔
    (start.lineage.map (·.join fileName)).find? d.isFile = some file := by
  unfold nearest
  split <;> rename_i found <;> simp [found]

theorem nearest_eq_error_iff {error : Error} : nearest d start = .error error ↔
    error = .settingsNotFound start ∧ ∀ folder ∈ start.lineage,
      d.isFile (folder.join fileName) = false := by
  have none : (start.lineage.map (·.join fileName)).find? d.isFile = none ↔
      ∀ folder ∈ start.lineage, d.isFile (folder.join fileName) = false := by
    simp [List.find?_eq_none]
  rw [← none]
  unfold nearest
  split <;> rename_i found <;> simp [found, eq_comm]

/- A file that is found is in a folder on the way up, and in none that was looked at before. -/
theorem exists_folder_of_nearest {file : Path} (h : nearest d start = .ok file) :
    ∃ before folder after, start.lineage = before ++ folder :: after ∧
      file = folder.join fileName ∧ d.isFile file = true ∧
      ∀ deeper ∈ before, d.isFile (deeper.join fileName) = false := by
  obtain ⟨holds, before, after, cut, none⟩ :=
    List.find?_eq_some_iff_append.mp (nearest_eq_ok_iff.mp h)
  obtain ⟨front, back, whole, rfl, rest⟩ := List.map_eq_append_iff.mp cut
  obtain ⟨folder, after, rfl, same, -⟩ := List.map_eq_cons_iff.mp rest
  refine ⟨front, folder, after, whole, same.symm, holds, fun deeper hd => ?_⟩
  simpa using none _ (List.mem_map_of_mem hd)

/- What no folder on the way holds, however it is written, is held by none that is looked at. -/
theorem forall_lineage_iff : (∀ folder ∈ start.lineage, d.isFile (folder.join fileName) = false) ↔
    ∀ folder : Path, folder.Above start → d.isFile (folder.join fileName) = false := by
  constructor
  · intro none folder above
    obtain ⟨q, hq, same, steps⟩ := above.exists_mem_lineage
    exact (Disk.isFile_join_congr isName_fileName same steps).trans (none q hq)
  · exact fun none folder hf => none folder (Path.above_of_mem_lineage hf)

/-- The search for a settings file ends, after at most two folders more than the start takes steps.
It finds the file in the deepest folder on the way up that holds one, and only a regular file
counts. It says that there is none, and names the start, just when no folder on the way holds one.
All folders of a disk can be entered, so a file that is there is seen. -/
theorem nearest_exact (level : .up ∉ start.components) :
    start.lineage.length ≤ start.steps.length + 2 ∧
    (∀ file, nearest d start = .ok file → ∃ (folder : Path) (names : List Text),
      folder.Above start ∧ file = folder.join fileName ∧ folder.steps = names.map .name ∧
      d.Names file (d.home start ++ names ++ [fileName.text]) ∧
      ∀ deeper : Path, deeper.Above start → folder.steps.length < deeper.steps.length →
        d.isFile (deeper.join fileName) = false) ∧
    ∀ error, nearest d start = .error error ↔ error = .settingsNotFound start ∧
      ∀ folder : Path, folder.Above start → d.isFile (folder.join fileName) = false := by
  refine ⟨start.length_lineage_le, fun file found => ?_, fun error => ?_⟩
  · obtain ⟨before, folder, after, whole, rfl, holds, none⟩ := exists_folder_of_nearest found
    have among : folder ∈ start.lineage := whole ▸ by simp
    have above := Path.above_of_mem_lineage among
    have going : .up ∉ folder.steps :=
      fun up => level (Path.mem_components_of_mem_steps (above.2.subset up))
    obtain ⟨names, each, steps⟩ := Path.exists_names_of_level going
    obtain ⟨here, leads⟩ := Disk.exists_names_of_isFile holds
    have home : d.home folder = d.home start := by rw [Disk.home, Disk.home, above.1]
    have place := Disk.locate_join_of_names each isName_fileName steps leads.1
    refine ⟨folder, names, above, rfl, steps, home ▸ place ▸ leads, ?_⟩
    -- a folder that takes more steps was looked at before
    intro deeper within further
    obtain ⟨q, hq, same, steps'⟩ := within.exists_mem_lineage
    rw [steps'] at further
    have earlier : q ∈ before := Path.mem_before_of_length_lt whole hq further
    exact (Disk.isFile_join_congr isName_fileName same steps').trans (none q earlier)
  · rw [nearest_eq_error_iff, forall_lineage_iff]

/- A settings file in a folder, and below it a folder of that name. -/
def nested : Disk :=
  ⟨[("w".toList, .folder [("a".toList, .folder [("tsconfig.json".toList, .folder [])]),
    ("tsconfig.json".toList, .file (.text []))])], []⟩

theorem nearest_exact_nested :
    let start : Path := ⟨"/w//a/./none".toList⟩
    .up ∉ start.components ∧ nearest nested start = .ok ⟨"/w/tsconfig.json".toList⟩ ∧
      start.lineage.length ≤ start.steps.length + 2 ∧
      (∀ file, nearest nested start = .ok file → ∃ (folder : Path) (names : List Text),
        folder.Above start ∧ file = folder.join fileName ∧ folder.steps = names.map .name ∧
        nested.Names file (nested.home start ++ names ++ [fileName.text]) ∧
        ∀ deeper : Path, deeper.Above start → folder.steps.length < deeper.steps.length →
          nested.isFile (deeper.join fileName) = false) ∧
      ∀ error, nearest nested start = .error error ↔ error = .settingsNotFound start ∧
        ∀ folder : Path, folder.Above start → nested.isFile (folder.join fileName) = false := by
  intro start
  have level : .up ∉ start.components := by decide +kernel
  exact ⟨level, by decide +kernel, nearest_exact level⟩

end Settings

end Unalias
