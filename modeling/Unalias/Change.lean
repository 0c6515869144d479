import Unalias.Alias.Table
import Unalias.Specifier
import Unalias.Statement.Scan

/-! The change of a file: every statement that names a module by an alias gets the relative name
instead. All other text stays as it is, byte for byte. -/
namespace Unalias

structure Replacement where
  pattern : Text
  old : Text
  new : Text
deriving DecidableEq

structure Change where
  path : Path
  content : Text
  replacements : List Replacement
deriving DecidableEq

/-- A statement found in a file, the rule for it, and the number of bytes before it. -/
structure Match where
  start : Nat
  statement : Statement
  rule : Rule
deriving DecidableEq

namespace Match

def span (m : Match) : Nat × Nat := (m.start, m.start + m.statement.text.size)

def literalSpan (m : Match) : Nat × Nat :=
  let first := m.start + m.statement.head.size
  (first, first + m.statement.literal.size)

end Match

namespace Table

/-- The rule for a statement. Names that begin with a dot are relative already. -/
def ruleFor? (table : Table) (s : Statement) : Option Rule :=
  if s.literal.head? = some '.' then none else table.find? s.literal

def found (table : Table) (text : Text) : List Match :=
  (Statement.placed 0 (Statement.scan text)).filterMap fun (start, s) =>
    (table.ruleFor? s).map (⟨start, s, ·⟩)

def replacement? (table : Table) (file : Path) : Stretch → Option Replacement
  | .other _ => none
  | .statement s => (table.ruleFor? s).map fun r =>
    ⟨r.pattern, s.literal, r.relativeName file s.literal⟩

def updated (table : Table) (file : Path) : Stretch → Text
  | .other c => [c]
  | .statement s => match table.ruleFor? s with
    | some r => (s.aimedAt (r.relativeName file s.literal)).text
    | none => s.text

def change (table : Table) (file : Path) (text : Text) : Change :=
  let stretches := Statement.scan text
  ⟨file, stretches.flatMap (table.updated file), stretches.filterMap (table.replacement? file)⟩

end Table

namespace Replacement

def shown (r : Replacement) : Text :=
  r.old ++ [' ', '-', '>', ' '] ++ r.new ++ [' ', ' ', '('] ++ r.pattern ++ [')']

end Replacement
end Unalias
