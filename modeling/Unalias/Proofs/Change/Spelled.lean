import Unalias.Change
import Unalias.Proofs.Path.Steps

/-! The path of a file counts for its change only by its components. However the path is written,
the same names are put in. -/
namespace Unalias

variable {p q : Path}

theorem Rule.relativeName_congr (same : p.components = q.components) (r : Rule) (name : Text) :
    r.relativeName p name = r.relativeName q name := by
  simp only [relativeName, Path.relativeTo, Path.normal_folder_congr same]

namespace Table

variable (table : Table)

theorem updated_congr (same : p.components = q.components) (stretch : Stretch) :
    table.updated p stretch = table.updated q stretch := by
  cases stretch with
  | other c => rfl
  | statement s => simp only [updated, Rule.relativeName_congr same]

theorem replacement?_congr (same : p.components = q.components) (stretch : Stretch) :
    table.replacement? p stretch = table.replacement? q stretch := by
  cases stretch with
  | other c => rfl
  | statement s => simp only [replacement?, Rule.relativeName_congr same]

/-- A file is changed alike under all spellings of its path. -/
theorem change_congr (same : p.components = q.components) (text : Text) :
    table.change p text = { table.change q text with path := p } := by
  simp only [change, funext (table.updated_congr same), funext (table.replacement?_congr same)]

end Table

end Unalias
