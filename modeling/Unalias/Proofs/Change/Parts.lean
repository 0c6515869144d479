import Unalias.Proofs.Change.Found
import Unalias.Proofs.Statement.LineEnd

/-! A file is changed part by part: of two texts, the first of which ends in a semicolon and a
newline, neither has a say in what is found in the other or in what it is changed to. -/
namespace Unalias

/-- The match in a text that has so many bytes put before it. -/
def Match.moved (n : Nat) (m : Match) : Match := { m with start := n + m.start }

namespace Statement

open Stretch

theorem placed_append (start : Nat) (l l' : List Stretch) :
    placed start (l ++ l') = placed start l ++ placed (start + (join l).size) l' := by
  induction l generalizing start with
  | nil => rfl
  | cons stretch l ih =>
    cases stretch with
    | other c => simp [placed, ih, Nat.add_assoc]
    | statement s => simp [placed, ih, Nat.add_assoc]

theorem placed_add (n start : Nat) (l : List Stretch) :
    placed (n + start) l = (placed start l).map fun p => (n + p.1, p.2) := by
  induction l generalizing start with
  | nil => rfl
  | cons stretch l ih =>
    cases stretch with
    | other c => rw [placed, placed, Nat.add_assoc, ih]
    | statement s => rw [placed, placed, Nat.add_assoc, ih, List.map_cons]

theorem placed_scan_append {a : Text} (ends : lineEnd <:+ a) (b : Text) :
    placed 0 (scan (a ++ b)) =
      placed 0 (scan a) ++ (placed 0 (scan b)).map fun p => (a.size + p.1, p.2) := by
  have whole : join (scan a) = a := scan_text a
  rw [scan_append ends, placed_append, whole, Nat.add_comm, placed_add]

end Statement

namespace Table

open Statement

theorem matchAt?_moved (table : Table) (n : Nat) (p : Nat × Statement) :
    table.matchAt? (n + p.1, p.2) = (table.matchAt? p).map (Match.moved n) := by
  simp only [matchAt?, Option.map_map]
  rfl

theorem found_append (table : Table) {a : Text} (ends : lineEnd <:+ a) (b : Text) :
    table.found (a ++ b) = table.found a ++ (table.found b).map (Match.moved a.size) := by
  rw [found_eq, found_eq, found_eq, placed_scan_append ends, List.filterMap_append,
    List.filterMap_map, List.map_filterMap]
  exact congrArg (_ ++ (placed 0 (scan b)).filterMap ·) (funext (table.matchAt?_moved a.size))

/-- What is found in two such texts together is what is found in the first, and what is found in
the second as many bytes further on as the first has; and the two texts are changed apart. -/
theorem change_parts (table : Table) (file : Path) (front b : Text) :
    let a := front ++ lineEnd
    let whole := table.change file (a ++ b)
    table.found (a ++ b) = table.found a ++ (table.found b).map (Match.moved a.size) ∧
      whole.content = (table.change file a).content ++ (table.change file b).content ∧
      whole.replacements =
        (table.change file a).replacements ++ (table.change file b).replacements := by
  intro a whole
  have ends : lineEnd <:+ a := List.suffix_append front lineEnd
  have cut : scan (a ++ b) = scan a ++ scan b := scan_append ends b
  refine ⟨table.found_append ends b, ?_, ?_⟩
  · simp only [whole, change, cut, List.flatMap_append]
  · simp only [whole, change, cut, List.filterMap_append]

end Table
end Unalias
