/-! Character classes given as tables of code point ranges, both ends included. -/
namespace Unalias

def within (table : List (Nat × Nat)) (c : Char) : Bool :=
  table.any fun range => range.1 ≤ c.toNat && c.toNat ≤ range.2

end Unalias
