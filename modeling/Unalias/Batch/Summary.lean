import Unalias.Error

/-! The totals of a batch. -/
namespace Unalias

structure Summary where
  scanned : Nat
  changed : Nat
  imports : Nat
  written : Nat
  failures : List (Path × Fault)
deriving DecidableEq

namespace Summary

def plural (n : Nat) : String := if n = 1 then "" else "s"

def counted (n : Nat) (noun : String) : String := toString n ++ " " ++ noun ++ plural n

def shown (s : Summary) : String :=
  let imports := counted s.imports "import"
  let files := counted s.scanned "file"
  let failed := if s.failures = [] then "" else s!", {s.failures.length} failed"
  s!"{imports} in {s.changed} of {files}{failed}"

end Summary
end Unalias
