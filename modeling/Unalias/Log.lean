import Unalias.Text.Quoted

/-! Notes for the log: a level, a message, and named fields after it. -/
namespace Unalias

inductive Level
  | error
  | warn
  | info
  | debug
deriving DecidableEq

namespace Level

def rank : Level → Nat
  | .error => 1
  | .warn => 2
  | .info => 3
  | .debug => 4

/-- The name in a column of five. -/
def tag : Level → String
  | .error => "ERROR"
  | .warn => " WARN"
  | .info => " INFO"
  | .debug => "DEBUG"

end Level

/-- The rank up to which notes are shown; zero shows none. -/
abbrev Threshold := Nat

def Threshold.ofName? : String → Option Threshold
  | "off" => some 0
  | "error" => some Level.error.rank
  | "warn" => some Level.warn.rank
  | "info" => some Level.info.rank
  | "debug" => some Level.debug.rank
  | _ => none

structure Note where
  level : Level
  message : String
  fields : List (String × Text)
deriving DecidableEq

namespace Note

def isShown (threshold : Threshold) (n : Note) : Bool := n.level.rank ≤ threshold

def line (n : Note) : String :=
  let fields := n.fields.map fun f => s!" {f.1}={String.ofList f.2}"
  s!"{n.level.tag} {n.message}{String.join fields}\n"

def count (n : Nat) : Text := (toString n).toList

end Note
end Unalias
