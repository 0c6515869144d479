import Unalias.Path.Basic
import Unalias.Pattern.Basic

/-! Aliases as they are configured, and the rules that they give. A star in an alias stands for
any text on one line; all else stands for itself. -/
namespace Unalias

structure Alias where
  pattern : Text
  targets : List Text
deriving DecidableEq

/-- All aliases of a project, in the order written, and the folder that targets start from. -/
structure Config where
  base : Path
  aliases : List Alias
deriving DecidableEq

namespace Alias

/-- The pattern without its last star, and without the slash before that star. -/
def stem (pattern : Text) : Text :=
  match pattern.reverse with
  | '*' :: '/' :: rest => rest.reverse
  | '*' :: rest => rest.reverse
  | _ => pattern

def compile (pattern : Text) : Pattern :=
  pattern.map fun c => if c = '*' then .many (.except '\n') else .one (.exactly c)

end Alias

structure Rule where
  pattern : Text
  folder : Path
deriving DecidableEq

namespace Rule

def stem (r : Rule) : Text := Alias.stem r.pattern

def accepts (r : Rule) (name : Text) : Bool := (Alias.compile r.pattern).fits name

end Rule
end Unalias
