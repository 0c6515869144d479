import Unalias.Error
import Unalias.Glob.Expansion

/-! The files of a project that targets select and excludes leave in. Relative targets start
from the root of the project, whose own name is taken literally. Files come in the order of the
targets, and a path that says the same as an earlier one is dropped. -/
namespace Unalias.Discovery

/-- An exclude is held against the path below the root, and against the whole path. -/
def isExcluded (excludes : List Pattern) (root p : Path) : Bool :=
  excludes.any fun e => e.fits (Path.below root p).text || e.fits p.text

def compileExclude (glob : Text) : Except Error Pattern :=
  (Glob.compile glob).mapError (Error.glob glob)

def anchored (root : Path) (target : Text) : Path :=
  Path.join ⟨Glob.escape root.text⟩ ⟨target⟩

def compileTarget (root : Path) (target : Text) : Except Error Glob.Search :=
  (Glob.Search.ofGlob (anchored root target).text).mapError (Error.glob target)

def distinct (ps : List Path) : List Path :=
  ps.foldl (fun kept p =>
    if kept.any (·.components = p.components) then kept else kept ++ [p]) []

/-- Excludes are all looked at before targets. -/
def discover (d : Disk) (root : Path) (targets excludes : List Text) :
    Except Error (List Path) := do
  let excludes ← excludes.mapM compileExclude
  let searches ← targets.mapM (compileTarget root)
  let selected := searches.flatMap (·.results d)
  return distinct (selected.filter fun p => d.isFile p && !isExcluded excludes root p)

end Unalias.Discovery
