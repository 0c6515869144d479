import Unalias.Alias.Basic
import Unalias.Path.Relative
import Unalias.Route

/-! The name under which a file sees a module: the way from the file's folder to the folder of
the rule, then what the name has after the rule's stem. It always begins with a dot. -/
namespace Unalias

namespace Rule

/-- What a name has after the stem; all of it, when it does not begin with the stem. -/
def remainder (r : Rule) (name : Text) : Text := (r.stem.isPrefixOf? name).getD name

/-- A route written as a module name: a closing slash where one is asked for, and a leading
dot. -/
def dressed (closing : Bool) (route : Text) : Text :=
  if route = [] then ['.', '/']
  else
    let name := if closing then route ++ ['/'] else route
    if name.head? = some '.' then name else ['.', '/'] ++ name

def relativeName (r : Rule) (file : Path) (name : Text) : Text :=
  let folder := file.parent?.getD ⟨[]⟩
  let route := Route.join (Path.relativeTo folder r.folder) (r.remainder name)
  dressed (name.getLast? = some '/') route

end Rule
end Unalias
