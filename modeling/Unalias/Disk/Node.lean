import Unalias.Disk.Content

/-! Folders and files as a tree. The entries of a folder stand in ascending order of name, and
each name once; setting an entry keeps this. All folders can be entered. -/
namespace Unalias

/-- What can be done with a file: both read and write it, read it only, or neither. -/
inductive Access
  | full
  | reading
  | barred
deriving DecidableEq

inductive Node
  | file (content : Content) (access : Access := .full)
  | folder (entries : List (Text × Node))

/-- The names that lead from the root to a file or folder. -/
abbrev Location := List Text

namespace Node

def entries : Node → List (Text × Node)
  | .file _ _ => []
  | .folder es => es

def isFolder : Node → Bool
  | .file _ _ => false
  | .folder _ => true

/-- Whether there is a file that cannot be written. -/
def isLocked : Node → Bool
  | .file _ access => access ≠ .full
  | .folder _ => false

def lookup (name : Text) (es : List (Text × Node)) : Option Node :=
  (es.find? fun e => e.1 = name).map (·.2)

def setEntry (name : Text) (x : Node) : List (Text × Node) → List (Text × Node)
  | [] => [(name, x)]
  | (n, y) :: es =>
    if name = n then (n, x) :: es
    else if name < n then (name, x) :: (n, y) :: es
    else (n, y) :: setEntry name x es

def at? : Node → Location → Option Node
  | x, [] => some x
  | x, name :: names => (lookup name x.entries).bind (·.at? names)

/-- Sets a file or folder, and makes the folders on the way to it where there are none. -/
def set (y : Node) : Location → Node → Node
  | [], _ => y
  | name :: names, x =>
    .folder (setEntry name (set y names ((lookup name x.entries).getD (.folder []))) x.entries)

def put (content : Content) (here : Location) (x : Node) : Node := set (.file content) here x

def makeFolder (here : Location) (x : Node) : Node :=
  if (x.at? here).any isFolder then x else set (.folder []) here x

/-- Each name once, in ascending order. -/
def Ordered (es : List (Text × Node)) : Prop := es.Pairwise fun a b => a.1 < b.1

theorem lookup_setEntry (name other : Text) (x : Node) (es : List (Text × Node)) :
    lookup other (setEntry name x es) = if name = other then some x else lookup other es := by
  induction es with
  | nil => by_cases h : name = other <;> simp [setEntry, lookup, h]
  | cons e es ih =>
    obtain ⟨n, y⟩ := e
    simp only [lookup] at ih
    by_cases hn : name = n
    · subst hn
      by_cases h : name = other <;> simp [setEntry, lookup, h]
    · by_cases hl : name < n
      · by_cases h : name = other <;> simp_all [setEntry, lookup]
      · by_cases ho : n = other
        · subst ho
          simp [setEntry, lookup, hn, hl]
        · simp [setEntry, lookup, hn, hl, ho, ih]

mutual

def files : Node → List (Location × Content)
  | .file c _ => [([], c)]
  | .folder es => filesAmong es

def filesAmong : List (Text × Node) → List (Location × Content)
  | [] => []
  | (name, x) :: es => x.files.map (fun f => (name :: f.1, f.2)) ++ filesAmong es

end

end Node
end Unalias
