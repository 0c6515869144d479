import Unalias.Disk.Basic
import Unalias.Glob.Basic

/-! The paths that a glob selects on a disk, depth first and in ascending order of name. A glob
is taken segment by segment: a plain segment is looked up and any other is matched against the
entries of the folder. -/
namespace Unalias.Glob

/-- One segment of a glob: plain text, a pattern for the names in a folder, or any depth. -/
inductive Segment
  | plain (name : Text)
  | listed (pattern : Pattern)
  | recursive
deriving DecidableEq

namespace Segment

def plain? (p : Pattern) : Option Text :=
  p.mapM fun
    | .one (.exactly c) => some c
    | _ => none

def compile (t : Text) : Except Flaw Segment :=
  if t = ['*', '*'] then .ok .recursive
  else (Glob.compile t).map fun p => match plain? p with
    | some name => .plain name
    | none => .listed p

def takes : Segment → Text → Bool
  | .plain n, name => n = name
  | .listed p, name => p.fits name
  | .recursive, _ => true

/-- The folder itself and the folder above it, for a pattern that asks for them by a dot. -/
def dots : Segment → List Text
  | .listed (.one (.exactly '.') :: p) =>
    [['.', '.'], ['.']].filter fun name => Pattern.fits (.one (.exactly '.') :: p) name
  | _ => []

end Segment

/-- An entry of the folder at a path. The folder where a relative search starts is not named. -/
def child (folder : Path) (name : Text) : Path :=
  if folder.components = [.here] then ⟨name⟩ else folder.join ⟨name⟩

mutual

/-- All that lies below a node at a path: each entry before what lies below it. -/
def below (p : Path) : Node → List (Path × Text × Node)
  | .file _ _ => []
  | .folder es => belowEntries p es

def belowEntries (p : Path) : List (Text × Node) → List (Path × Text × Node)
  | [] => []
  | (name, x) :: es => (child p name, name, x) :: below (child p name) x ++ belowEntries p es

end

def belowPath (d : Disk) (p : Path) : List (Path × Text × Node) :=
  (d.node? p).elim [] (below p)

def entriesAt (d : Disk) (p : Path) : List (Text × Node) := (d.node? p).elim [] Node.entries

/-- Whether a plain segment can be followed from a path, to its child of that name. -/
def leads (d : Disk) (p : Path) (name : Text) : Bool :=
  if name = ['.'] ∨ name = ['.', '.'] then d.isFolder p else d.holds (child p name)

def expandFrom (d : Disk) : List Segment → Path → List Path
  | [], p => [p]
  | .plain name :: rest, p => if leads d p name then expandFrom d rest (child p name) else []
  | .listed pattern :: rest, p =>
    if d.isFolder p then
      ((Segment.listed pattern).dots.flatMap fun name => expandFrom d rest (p.join ⟨name⟩)) ++
        (entriesAt d p).flatMap fun e =>
          if pattern.fits e.1 then expandFrom d rest (child p e.1) else []
    else []
  | [.recursive], p =>
    (belowPath d p).filterMap fun e => if e.2.2.isFolder then some e.1 else none
  | .recursive :: next :: rest, p =>
    (belowPath d p).flatMap fun e => if next.takes e.2.1 then expandFrom d rest e.1 else []

/-- Neighbouring recursive segments say no more than one of them. -/
def merge : List Segment → List Segment
  | .recursive :: .recursive :: rest => merge (.recursive :: rest)
  | s :: rest => s :: merge rest
  | [] => []

/-- A glob made ready for a search: where the search starts, the segments, and whether only
folders are wanted. -/
structure Search where
  start : Path
  segments : List Segment
  foldersOnly : Bool
deriving DecidableEq

def segmentsOf (t : Text) : List Text :=
  match (t.splitOn '/').reverse with
  | [] :: rest => rest.reverse
  | all => all.reverse

/-- Checks the whole glob first, and then each of its segments. -/
def Search.ofGlob (glob : Text) : Except Flaw Search := do
  let _ ← compile glob
  let rooted := glob.head? = some '/'
  let segments ← (segmentsOf (if rooted then glob.tail else glob)).mapM Segment.compile
  return ⟨⟨if rooted then ['/'] else ['.']⟩, merge segments, glob.getLast? = some '/'⟩

def Search.results (s : Search) (d : Disk) : List Path :=
  let all := expandFrom d s.segments s.start
  if s.foldersOnly then all.filter d.isFolder else all

end Unalias.Glob
