import Unalias.Text.Basic

/-! Patterns over text: a row of pieces, each of which takes a stretch of the text.
`Fits` says what a pattern means; `Pattern.fits` decides it in time proportional to the
product of the two lengths, from verdicts on all endings of the text at once. -/
namespace Unalias

inductive CharClass
  | exactly (c : Char)
  | except (c : Char)
  | anything
  | oneOf (ranges : List (Char × Char))
  | noneOf (ranges : List (Char × Char))
deriving DecidableEq

namespace CharClass

/-- Ranges hold both their ends and never a slash, whether named or left out. -/
def holds : CharClass → Char → Bool
  | .exactly c, x => x = c
  | .except c, x => x ≠ c
  | .anything, _ => true
  | .oneOf ranges, x => x ≠ '/' && ranges.any fun r => r.1 ≤ x && x ≤ r.2
  | .noneOf ranges, x => x ≠ '/' && !ranges.any fun r => r.1 ≤ x && x ≤ r.2

end CharClass

/-- What a piece takes: one character, any number of characters, or whole folders, that is
nothing or a stretch that ends in a slash. -/
inductive Piece
  | one (k : CharClass)
  | many (k : CharClass)
  | folders
deriving DecidableEq

abbrev Pattern := List Piece

inductive Fits : Pattern → Text → Prop
  | nil : Fits [] []
  | one {k c ps t} : k.holds c → Fits ps t → Fits (.one k :: ps) (c :: t)
  | many {k w ps t} : (∀ c ∈ w, k.holds c) → Fits ps t → Fits (.many k :: ps) (w ++ t)
  | stay {ps t} : Fits ps t → Fits (.folders :: ps) t
  | descend {ps t} (w : Text) : Fits ps t → Fits (.folders :: ps) (w ++ '/' :: t)

/-! A row of verdicts has one entry for each ending of a text, the whole text first and the
empty ending last. -/
namespace Verdicts

def atEnd (t : Text) : List Bool := t.map (fun _ => false) ++ [true]

def one (k : CharClass) : Text → List Bool → List Bool
  | c :: t, _ :: vs => (k.holds c && vs.headD false) :: one k t vs
  | _, _ => [false]

def many (k : CharClass) : Text → List Bool → List Bool
  | c :: t, v :: vs =>
    let after := many k t vs
    (v || (k.holds c && after.headD false)) :: after
  | _, vs => vs

/-- Whether a slash lies ahead that is followed by an ending with a good verdict. -/
def pastSlash : Text → List Bool → List Bool
  | c :: t, _ :: vs =>
    let after := pastSlash t vs
    ((c = '/' && vs.headD false) || after.headD false) :: after
  | _, _ => [false]

def folders (t : Text) (vs : List Bool) : List Bool :=
  List.zipWith (· || ·) vs (pastSlash t vs)

def before : Piece → Text → List Bool → List Bool
  | .one k => one k
  | .many k => many k
  | .folders => folders

def all (ps : Pattern) (t : Text) : List Bool := ps.foldr (fun p vs => before p t vs) (atEnd t)

end Verdicts

def Pattern.fits (ps : Pattern) (t : Text) : Bool := (Verdicts.all ps t).headD false

end Unalias
