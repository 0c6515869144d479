import Unalias.Text.Basic

/-! Routes between folders, written with slashes: so many steps up, then names down. A text
followed from a route leads to a route again, so all that is followed has a normal form. -/
namespace Unalias

/-- A route in normal form: steps up, then names, the innermost name first. -/
structure Route where
  up : Nat
  trail : List Text
deriving DecidableEq

namespace Route

def here : Route := ⟨0, []⟩

/-- One segment further. An empty segment and `.` stay; `..` takes back a name or climbs. -/
def step (r : Route) (segment : Text) : Route :=
  if segment = [] ∨ segment = ['.'] then r
  else if segment = ['.', '.'] then
    match r.trail with
    | [] => ⟨r.up + 1, []⟩
    | _ :: rest => ⟨r.up, rest⟩
  else ⟨r.up, segment :: r.trail⟩

def follow (r : Route) (text : Text) : Route := (text.splitOn '/').foldl step r

def ofText (text : Text) : Route := here.follow text

def segments (r : Route) : List Text := List.replicate r.up ['.', '.'] ++ r.trail.reverse

def toText (r : Route) : Text := ['/'].intercalate r.segments

/-- Both texts followed one after the other, in normal form. -/
def join (base rest : Text) : Text := ((ofText base).follow rest).toText

end Route
end Unalias
