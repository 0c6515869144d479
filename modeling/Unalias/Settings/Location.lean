import Unalias.Disk.Basic
import Unalias.Error
import Unalias.Path.Lineage

/-! Where the settings of a project are: in the file that is named, in the folder that is
named, or in the nearest folder above that has them. A folder of that name does not count. -/
namespace Unalias.Settings

def fileName : Path := .ofString "tsconfig.json"

def nearest (d : Disk) (start : Path) : Except Error Path :=
  match (start.lineage.map (·.join fileName)).find? d.isFile with
  | some file => .ok file
  | none => .error (.settingsNotFound start)

/-- The settings file as a path from the root. -/
def locate (d : Disk) (explicit? : Option Path) (start : Path) : Except Error Path := do
  let file ← match explicit? with
    | some p => .ok (if d.isFolder p then p.join fileName else p)
    | none => nearest d start
  if d.isFile file then (d.canonical file).mapError (Error.file file)
  else throw (.settingsNotFound file)

def read (d : Disk) (file : Path) : Except Error Config := do
  let t ← (d.read file).mapError (Error.file file)
  (ofText (folderOf file) t).mapError (Error.settings file)

end Unalias.Settings
