import Unalias.Path.Basic

/-! The normal form of a path, and the way from one folder to another by their normal forms. -/
namespace Unalias.Path

/-- One component further in normal form, the innermost component first. `..` stays at the
root and at a name that ends in a colon, takes back any other name, and climbs from nothing. -/
def advance (trail : List Component) : Component → List Component
  | .here => trail
  | .up => match trail with
    | [] => [.up]
    | .root :: _ => trail
    | .name n :: rest => if n.getLast? = some ':' then trail else rest
    | c :: rest => .up :: c :: rest
  | c => c :: trail

def normal (p : Path) : List Component := (p.components.foldl advance []).reverse

def shared {α : Type} [DecidableEq α] : List α → List α → Nat
  | a :: as, b :: bs => if a = b then shared as bs + 1 else 0
  | _, _ => 0

/-- The way between two normal forms: up from the first to what they share, then down. -/
def between (start goal : List Component) : List Component :=
  let n := shared start goal
  List.replicate (start.length - n) .up ++ goal.drop n

/-- The way from one folder to another, as text; empty when they are the same folder. -/
def relativeTo (start goal : Path) : Text :=
  ['/'].intercalate ((between start.normal goal.normal).map Component.text)

end Unalias.Path
