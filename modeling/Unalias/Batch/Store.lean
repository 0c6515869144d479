import Unalias.Disk.Basic

/-! What a batch needs of the place where files are kept, and a shelf that keeps them in memory
under labels of their paths. -/
namespace Unalias

class FileStore (σ : Type) where
  read : σ → Path → Except Fault Text
  write : σ → Path → Text → Except Fault σ

instance : FileStore Disk := ⟨Disk.read, Disk.write⟩

/-- What a file in memory is kept under. Two paths with one label have the same components, so they
may be written differently but never lead to different places. -/
class Label (κ : Type) where
  of : Path → κ
  components_eq {p q : Path} : of p = of q → p.components = q.components

/-- Paths with the same components are one. -/
instance : Label (List Component) := ⟨Path.components, id⟩

/-- Paths are told apart as they are written. -/
instance : Label Path := ⟨id, congrArg Path.components⟩

example :
    let p := Path.ofString "src/a.ts"
    let q := Path.ofString "src//./a.ts"
    Label.of p = (Label.of q : List Component) ∧ Label.of p ≠ (Label.of q : Path) := by decide

/-- Files in memory. A locked path can be read and cannot be written. -/
structure Shelf (κ : Type) where
  files : List (κ × Content)
  locked : List κ

namespace Shelf

variable {κ : Type} [DecidableEq κ]

def setFile (k : κ) (c : Content) : List (κ × Content) → List (κ × Content)
  | [] => [(k, c)]
  | (l, d) :: rest => if l = k then (l, c) :: rest else (l, d) :: setFile k c rest

theorem find?_setFile (k l : κ) (c : Content) (fs : List (κ × Content)) :
    ((setFile k c fs).find? fun f => f.1 = l).map (·.2) =
      if k = l then some c else (fs.find? fun f => f.1 = l).map (·.2) := by
  induction fs with
  | nil => by_cases h : k = l <;> simp [setFile, h]
  | cons f fs ih =>
    obtain ⟨m, d⟩ := f
    by_cases hm : m = k
    · by_cases h : k = l <;> simp_all [setFile]
    · by_cases hl : m = l
      · subst hl
        simp [setFile, hm, Ne.symm hm]
      · simp [setFile, hm, hl, ih]

variable [Label κ]

def find? (s : Shelf κ) (p : Path) : Option Content :=
  (s.files.find? fun f => f.1 = Label.of p).map (·.2)

def Locks (s : Shelf κ) (p : Path) : Prop := Label.of p ∈ s.locked

instance (s : Shelf κ) : DecidablePred s.Locks :=
  fun p => inferInstanceAs (Decidable (Label.of p ∈ s.locked))

def put (s : Shelf κ) (p : Path) (c : Content) : Shelf κ :=
  { s with files := setFile (Label.of p) c s.files }

def read (s : Shelf κ) (p : Path) : Except Fault Text :=
  match s.find? p with
  | some (.text t) => .ok t
  | some (.binary _ _) => .error .badData
  | none => .error .absent

def write (s : Shelf κ) (p : Path) (t : Text) : Except Fault (Shelf κ) :=
  if s.Locks p then .error .forbidden else .ok (s.put p (.text t))

theorem find?_put (s : Shelf κ) (p q : Path) (c : Content) :
    (s.put p c).find? q = if Label.of p = (Label.of q : κ) then some c else s.find? q :=
  find?_setFile _ _ c s.files

end Shelf

instance {κ : Type} [DecidableEq κ] [Label κ] : FileStore (Shelf κ) := ⟨Shelf.read, Shelf.write⟩

end Unalias
