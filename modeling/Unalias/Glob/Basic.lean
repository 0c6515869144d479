import Unalias.Pattern.Basic

/-! Globs, the patterns over file paths. `?` takes a character and `*` any number of them, but
neither takes a slash; `**` as a whole segment takes any number of folders, and at the end, with
or without a slash after it, all the rest; brackets take one of a set of characters, or one
outside it. -/
namespace Unalias.Glob

inductive Reason
  | starRun
  | loneRecursion
  | openClass
deriving DecidableEq

def Reason.message : Reason → String
  | .starRun => "wildcards are either regular `*` or recursive `**`"
  | .loneRecursion => "recursive wildcards must form a single path component"
  | .openClass => "invalid range pattern"

/-- Why a text is no glob, and how many characters stand before the place. -/
structure Flaw where
  position : Nat
  reason : Reason
deriving DecidableEq

def Flaw.message (f : Flaw) : String :=
  s!"Pattern syntax error near position {f.position}: {f.reason.message}"

/-- The ranges between brackets. A hyphen between two characters makes a range of them. -/
def ranges : Text → List (Char × Char)
  | a :: '-' :: b :: t => (a, b) :: ranges t
  | a :: t => (a, a) :: ranges t
  | [] => []

/-- The class after an opening bracket, and how many characters it takes with its closing
bracket. It holds at least one character, and the first may be a closing bracket. -/
def readClass? : Text → Option (CharClass × Nat)
  | '!' :: x :: t => (t.findIdx? (· = ']')).map fun n => (.noneOf (ranges (x :: t.take n)), n + 3)
  | '!' :: [] => none
  | x :: t => (t.findIdx? (· = ']')).map fun n => (.oneOf (ranges (x :: t.take n)), n + 2)
  | [] => none

/-- Compiles the rest of a glob after so many characters. A recursive star must stand at the
start of a segment, and before a slash or the end. -/
def compileFrom (position : Nat) (segmentStart : Bool) : Text → Except Flaw Pattern
  | [] => .ok []
  | '?' :: t => (compileFrom (position + 1) false t).map (.one (.except '/') :: ·)
  | '*' :: '*' :: '*' :: _ => .error ⟨position + 2, .starRun⟩
  | '*' :: '*' :: t =>
    if segmentStart then
      match t with
      | [] => .ok [.many .anything]
      | ['/'] => .ok [.many .anything]
      | '/' :: t => (compileFrom (position + 3) true t).map (.folders :: ·)
      | _ => .error ⟨position + 2, .loneRecursion⟩
    else .error ⟨position - 1, .loneRecursion⟩
  | '*' :: t => (compileFrom (position + 1) false t).map (.many (.except '/') :: ·)
  | '[' :: t =>
    match readClass? t with
    | some (k, taken) => (compileFrom (position + 1 + taken) false (t.drop taken)).map (.one k :: ·)
    | none => .error ⟨position, .openClass⟩
  | c :: t => (compileFrom (position + 1) (c = '/') t).map (.one (.exactly c) :: ·)
termination_by t => t.length

def compile (t : Text) : Except Flaw Pattern := compileFrom 0 true t

def isSpecial (c : Char) : Bool := c = '?' || c = '*' || c = '[' || c = ']'

/-- A glob that takes just the given text. -/
def escape (t : Text) : Text := t.flatMap fun c => if isSpecial c then ['[', c, ']'] else [c]

end Unalias.Glob
