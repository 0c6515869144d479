import Unalias.Text.Basic

/-! File paths, kept as written. A leading slash is the root; empty segments and `.` say
nothing, but for a `.` at the very start of a relative path; `..` is kept.
Only the parts are compared, never the spelling. -/
namespace Unalias

structure Path where
  text : Text
deriving DecidableEq

/-- Where a path starts: at the root, at a written `.`, or at its first name. -/
inductive Anchor
  | root
  | here
  | bare
deriving DecidableEq

inductive Component
  | root
  | here
  | up
  | name (text : Text)
deriving DecidableEq

namespace Anchor

def components : Anchor → List Component
  | .root => [.root]
  | .here => [.here]
  | .bare => []

end Anchor

namespace Component

def ofSegment (segment : Text) : Option Component :=
  if segment = [] ∨ segment = ['.'] then none
  else if segment = ['.', '.'] then some .up
  else some (.name segment)

def text : Component → Text
  | .root => ['/']
  | .here => ['.']
  | .up => ['.', '.']
  | .name t => t

end Component

namespace Path

def ofString (s : String) : Path := ⟨s.toList⟩

def shown (p : Path) : String := String.ofList p.text

/-- The anchor and the segments after it, empty ones included. -/
def split (p : Path) : Anchor × List Text :=
  match p.text.splitOn '/' with
  | [] :: s :: rest => (.root, s :: rest)
  | ['.'] :: rest => (.here, rest)
  | all => (.bare, all)

def ofParts : Anchor → List Text → Path
  | .root, ss => ⟨'/' :: ['/'].intercalate ss⟩
  | .here, ss => ⟨['/'].intercalate (['.'] :: ss)⟩
  | .bare, ss => ⟨['/'].intercalate ss⟩

theorem ofParts_split (p : Path) : ofParts p.split.1 p.split.2 = p := by
  have whole : ['/'].intercalate (p.text.splitOn '/') = p.text := List.intercalate_splitOn '/'
  obtain ⟨text⟩ := p
  simp only [split] at *
  split <;> rename_i h <;> simp_all [ofParts]

def components (p : Path) : List Component :=
  p.split.1.components ++ p.split.2.filterMap Component.ofSegment

def isAbsolute (p : Path) : Bool := p.text.head? = some '/'

/-- The path as seen from a base folder: itself when absolute. -/
def join (base p : Path) : Path :=
  if p.isAbsolute then p
  else if base.text = [] ∨ base.text.getLast? = some '/' then ⟨base.text ++ p.text⟩
  else ⟨base.text ++ '/' :: p.text⟩

def isIdle (segment : Text) : Bool := segment = [] || segment = ['.']

def settle (ss : List Text) : List Text := (ss.reverse.dropWhile isIdle).reverse

/-- The folder that holds the path: its last component is cut off, and the separators
before it. A lone `.` lies in the empty path; the root and the empty path lie nowhere. -/
def parent? (p : Path) : Option Path :=
  match p.split.2.reverse.dropWhile isIdle with
  | _ :: before => some (ofParts p.split.1 (settle before.reverse))
  | [] => match p.split.1 with
    | .here => some ⟨[]⟩
    | _ => none

/-- Drops as many components as given, and the idle segments around them. -/
def dropComponents : Nat → List Text → List Text
  | 0, ss => ss.dropWhile isIdle
  | _ + 1, [] => []
  | n + 1, s :: ss => if isIdle s then dropComponents (n + 1) ss else dropComponents n ss

/-- What is left of a path below a folder, when its components begin with the folder's. -/
def stripPrefix? (folder p : Path) : Option Path :=
  if folder.components = [] then some (ofParts p.split.1 (settle p.split.2))
  else if folder.components.isPrefixOf p.components then
    let named := folder.components.length - p.split.1.components.length
    some (ofParts .bare (settle (dropComponents named p.split.2)))
  else none

def below (folder p : Path) : Path := (stripPrefix? folder p).getD p

end Path
end Unalias
