import Unalias.Disk.Node
import Unalias.Fault
import Unalias.Path.Basic

/-! A disk as a program sees it: the tree from the root, and the folder that relative paths
start from. A path is walked segment by segment, and each segment needs a folder to stand in. All
folders can be entered and listed, nothing is a link, and only a single name can be too long. -/
namespace Unalias

structure Disk where
  entries : List (Text × Node)
  working : Location

namespace Disk

def root (d : Disk) : Node := .folder d.entries

def maxNameBytes : Nat := 255

def step (d : Disk) (here : Location) (segment : Text) : Except Fault Location :=
  match d.root.at? here with
  | some (.folder es) =>
    if Path.isIdle segment then .ok here
    else if segment = ['.', '.'] then .ok here.dropLast
    else if maxNameBytes < segment.size then .error .nameTooLong
    else if (Node.lookup segment es).isSome then .ok (here ++ [segment])
    else .error .noEntry
  | _ => .error .notFolder

def start (d : Disk) : Anchor → Location
  | .root => []
  | _ => d.working

def walk (d : Disk) (here : Location) (segments : List Text) : Except Fault Location :=
  segments.foldlM d.step here

def locate (d : Disk) (p : Path) : Except Fault Location :=
  if p.text = [] then .error .noEntry else d.walk (d.start p.split.1) p.split.2

def node? (d : Disk) (p : Path) : Option Node :=
  match d.locate p with
  | .ok here => d.root.at? here
  | .error _ => none

def holds (d : Disk) (p : Path) : Bool := (d.node? p).isSome

def isFolder (d : Disk) (p : Path) : Bool := (d.node? p).any (·.isFolder)

def isFile (d : Disk) (p : Path) : Bool := (d.node? p).any (!·.isFolder)

/-- The path from the root that has no idle segments and no `..`. -/
def canonical (d : Disk) (p : Path) : Except Fault Path :=
  (d.locate p).map (Path.ofParts .root)

def read (d : Disk) (p : Path) : Except Fault Text := do
  match d.root.at? (← d.locate p) with
  | some (.file _ .barred) => throw .denied
  | some (.file (.text t) _) => return t
  | some (.file (.binary _ _) _) => throw .notText
  | some (.folder _) => throw .isFolder
  | none => throw .noEntry

/-- Where a file can be written: in a folder that is there, under a last segment that is a name
and is not followed by a slash. -/
def target (d : Disk) (p : Path) : Except Fault Location :=
  if p.text = [] then .error .noEntry
  else match p.split.2.reverse.dropWhile (· = []) with
  | [] => .error .isFolder
  | last :: before => do
    let here := d.start p.split.1
    if last = ['.'] ∨ last = ['.', '.'] then
      let _ ← d.walk here p.split.2
      throw .isFolder
    let folder ← d.walk here before.reverse
    match d.root.at? folder with
    | some (.folder es) =>
      if p.text.getLast? = some '/' then throw .isFolder
      if maxNameBytes < Text.size last then throw .nameTooLong
      if (Node.lookup last es).any (·.isFolder) then throw .isFolder
      return folder ++ [last]
    | _ => throw .notFolder

def put (d : Disk) (here : Location) (content : Content) : Disk :=
  { d with entries := (Node.put content here d.root).entries }

def write (d : Disk) (p : Path) (t : Text) : Except Fault Disk := do
  let here ← d.target p
  if (d.root.at? here).any (·.isLocked) then throw .denied
  return d.put here (.text t)

def files (d : Disk) : List (Location × Content) := d.root.files

end Disk
end Unalias
