import Unalias.Alias.Basic
import Unalias.Json.Reader
import Unalias.Jsonc

/-! The settings file of a project, and the aliases that it holds. Of two flaws the first in
reading order is named: the text, then the members that lead to the aliases, then the aliases
themselves in the order of their names. -/
namespace Unalias.Settings

inductive Flaw
  | notJson (problem : Json.Problem)
  | noAliases
  | aliasesNotObject
  | targetsNotList (pattern : Text)
  | targetNotString (pattern : Text)
deriving DecidableEq

def Flaw.message : Flaw → String
  | .notJson problem => "invalid tsconfig: " ++ problem.message
  | .noAliases => "missing compilerOptions.paths"
  | .aliasesNotObject => "compilerOptions.paths must be an object"
  | .targetsNotList pattern => "paths['" ++ String.ofList pattern ++ "'] must be an array"
  | .targetNotString pattern => "paths['" ++ String.ofList pattern ++ "'] entries must be strings"

def member (name : String) (v : Json.Value) : Except Flaw Json.Value :=
  match v.field? name.toList with
  | some w => .ok w
  | none => .error .noAliases

def aliasOf (pattern : Text) : Json.Value → Except Flaw Alias
  | .array items =>
    match items.mapM Json.Value.string? with
    | some targets => .ok ⟨pattern, targets⟩
    | none => .error (.targetNotString pattern)
  | _ => .error (.targetsNotList pattern)

/-- The folder that targets start from. Only a string counts as one. -/
def baseOf (folder : Path) (options : Json.Value) : Path :=
  match (options.field? "baseUrl".toList).bind Json.Value.string? with
  | some base => folder.join ⟨base⟩
  | none => folder

def configOf (folder : Path) (v : Json.Value) : Except Flaw Config := do
  let options ← member "compilerOptions" v
  match ← member "paths" options with
  | .object fields =>
    let aliases ← fields.mapM fun f => aliasOf f.1 f.2
    return ⟨baseOf folder options, aliases⟩
  | _ => throw .aliasesNotObject

def ofText (folder : Path) (t : Text) : Except Flaw Config := do
  let v ← (Json.Value.ofText (Jsonc.plain t)).mapError Flaw.notJson
  configOf folder v

def folderOf (file : Path) : Path := file.parent?.getD ⟨['.']⟩

end Unalias.Settings
