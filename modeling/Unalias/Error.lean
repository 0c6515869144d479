import Unalias.Fault
import Unalias.Glob.Basic
import Unalias.Settings.Basic

/-! What can go wrong, by cause. -/
namespace Unalias

inductive Error
  | file (path : Path) (fault : Fault)
  | settingsNotFound (path : Path)
  | settings (path : Path) (flaw : Settings.Flaw)
  | glob (pattern : Text) (flaw : Glob.Flaw)
  | noTargets
  | prompt (fault : Fault)
deriving DecidableEq

def Error.message : Error → String
  | .file path fault => path.shown ++ ": " ++ fault.message
  | .settingsNotFound path => "tsconfig not found: " ++ path.shown
  | .settings path flaw => path.shown ++ ": " ++ flaw.message
  | .glob pattern flaw =>
    "invalid glob pattern '" ++ String.ofList pattern ++ "': " ++ flaw.message
  | .noTargets => "no target glob given"
  | .prompt fault => "prompt: " ++ fault.message

end Unalias
