import Unalias.Proofs.Segment
import Unalias.Route

/-! Folders by their names from the root, and where a way written with slashes leads from a
folder. A route in normal form leads where the text leads that it was made from. -/
namespace Unalias

/-- A folder as the names that lead to it from the root, the innermost first. -/
abbrev Place := List Text

namespace Place

def root : Place := []

/-- One segment further. An empty segment and `.` stay; `..` takes the last name back, and
stays at the root. -/
def enter (here : Place) (segment : Text) : Place :=
  if segment = [] ∨ segment = ['.'] then here
  else if segment = ['.', '.'] then here.tail
  else segment :: here

def walk (here : Place) (way : Text) : Place := (way.splitOn '/').foldl enter here

@[simp] theorem enter_nil (here : Place) : here.enter [] = here := rfl

@[simp] theorem enter_up (here : Place) : here.enter ['.', '.'] = here.tail := rfl

theorem enter_name (here : Place) {t : Text} (h : IsName t) : here.enter t = t :: here := by
  have idle : ¬(t = [] ∨ t = ['.']) := not_or.mpr ⟨h.1, h.2.1⟩
  rw [enter, if_neg idle, if_neg h.2.2.1]

/-- Two ways with a slash between them are walked one after the other. -/
theorem walk_slash (here : Place) (first second : Text) :
    here.walk (first ++ '/' :: second) = (here.walk first).walk second := by
  rw [walk, List.splitOn_append_cons_self, List.foldl_append]
  rfl

theorem walk_intercalate (here : Place) {names : List Text} (clean : ∀ n ∈ names, '/' ∉ n) :
    here.walk (['/'].intercalate names) = names.foldl enter here := by
  cases names with
  | nil => rfl
  | cons n names => rw [walk, List.splitOn_intercalate '/' clean (List.cons_ne_nil n names)]

theorem foldl_enter_ups (here : Place) (n : Nat) :
    (List.replicate n ['.', '.']).foldl enter here = here.drop n := by
  induction n generalizing here with
  | zero => rfl
  | succ n ih => rw [List.replicate_succ, List.foldl_cons, enter_up, ih, List.drop_tail]

theorem foldl_enter_names (here : Place) {names : List Text} (h : ∀ n ∈ names, IsName n) :
    names.foldl enter here = names.reverse ++ here := by
  induction names generalizing here with
  | nil => rfl
  | cons n names ih =>
    rw [List.foldl_cons, enter_name here (h n List.mem_cons_self),
      ih _ fun m hm => h m (List.mem_cons_of_mem n hm)]
    simp

theorem names_enter {here : Place} {segment : Text} (clean : '/' ∉ segment)
    (names : ∀ n ∈ here, IsName n) : ∀ n ∈ here.enter segment, IsName n := by
  unfold enter
  split
  · exact names
  · rename_i idle
    split
    · exact fun n hn => names n (List.mem_of_mem_tail hn)
    · rename_i up
      have name : IsName segment := isName_of_clean idle up clean
      intro n hn
      rcases List.mem_cons.mp hn with hn | hn
      · exact hn ▸ name
      · exact names n hn

/-- Only names are ever entered. -/
theorem names_foldl_enter {here : Place} {segments : List Text} (clean : ∀ s ∈ segments, '/' ∉ s)
    (names : ∀ n ∈ here, IsName n) : ∀ n ∈ segments.foldl enter here, IsName n := by
  apply List.foldlRecOn (motive := fun place => ∀ n ∈ place, IsName n) segments enter names
  intro place names s hs
  exact names_enter (clean s hs) names

theorem names_walk {here : Place} (way : Text) (names : ∀ n ∈ here, IsName n) :
    ∀ n ∈ here.walk way, IsName n :=
  names_foldl_enter (fun _ hs => not_mem_of_mem_splitOn hs) names

end Place

namespace Route

/-- Where a route leads from a folder. -/
def lead (r : Route) (here : Place) : Place := r.trail ++ here.drop r.up

/-- All that the route goes down by are names. -/
def Proper (r : Route) : Prop := ∀ n ∈ r.trail, IsName n

@[simp] theorem lead_here (here : Place) : Route.here.lead here = here := rfl

/-- A step of the route is a step of the walker. The root is no exception: steps up that a
route holds beyond the root are lost there one by one. -/
theorem lead_step (r : Route) (segment : Text) (here : Place) :
    (r.step segment).lead here = (r.lead here).enter segment := by
  unfold step Place.enter
  split
  · rfl
  · split
    · cases ht : r.trail with
      | nil => simp [lead, ht, List.tail_drop]
      | cons n rest => simp [lead, ht]
    · rfl

theorem lead_follow (r : Route) (text : Text) (here : Place) :
    (r.follow text).lead here = (r.lead here).walk text := by
  rw [follow, Place.walk]
  induction text.splitOn '/' generalizing r with
  | nil => rfl
  | cons s segments ih => rw [List.foldl_cons, List.foldl_cons, ih, lead_step]

theorem proper_here : Route.here.Proper := by simp [Proper, here]

theorem proper_step {r : Route} {segment : Text} (clean : '/' ∉ segment) (h : r.Proper) :
    (r.step segment).Proper := by
  unfold step
  split
  · exact h
  · rename_i idle
    split
    · cases ht : r.trail with
      | nil => simp [Proper]
      | cons n rest => exact fun m hm => h m (ht ▸ List.mem_cons_of_mem n hm)
    · rename_i up
      have name : IsName segment := isName_of_clean idle up clean
      intro n hn
      rcases List.mem_cons.mp hn with hn | hn
      · exact hn ▸ name
      · exact h n hn

theorem proper_foldl_step {r : Route} {segments : List Text} (clean : ∀ s ∈ segments, '/' ∉ s)
    (h : r.Proper) : (segments.foldl step r).Proper := by
  apply List.foldlRecOn (motive := Proper) segments step h
  intro route proper s hs
  exact proper_step (clean s hs) proper

theorem proper_follow {r : Route} (text : Text) (h : r.Proper) : (r.follow text).Proper :=
  proper_foldl_step (fun _ hs => not_mem_of_mem_splitOn hs) h

theorem proper_ofText (text : Text) : (ofText text).Proper := proper_follow text proper_here

theorem clean_segments {r : Route} (h : r.Proper) : ∀ s ∈ r.segments, '/' ∉ s := by
  intro s hs
  rcases List.mem_append.mp hs with hs | hs
  · rw [List.eq_of_mem_replicate hs]
    decide
  · exact (h s (List.mem_reverse.mp hs)).2.2.2

theorem ne_nil_of_mem_segments {r : Route} (h : r.Proper) {s : Text} (hs : s ∈ r.segments) :
    s ≠ [] := by
  rcases List.mem_append.mp hs with up | name
  · rw [List.eq_of_mem_replicate up]
    decide
  · exact (h s (List.mem_reverse.mp name)).1

theorem splitOn_toText {r : Route} (h : r.Proper) (moves : r.segments ≠ []) :
    r.toText.splitOn '/' = r.segments :=
  List.splitOn_intercalate '/' (clean_segments h) moves

theorem toText_eq_nil_iff {r : Route} (h : r.Proper) : r.toText = [] ↔ r.segments = [] :=
  intercalate_eq_nil_iff fun _ hs => ne_nil_of_mem_segments h hs

/-- The text of a route in normal form leads where the route leads. -/
theorem walk_toText {r : Route} (h : r.Proper) (here : Place) :
    here.walk r.toText = r.lead here := by
  have names : ∀ n ∈ r.trail.reverse, IsName n := fun n hn => h n (List.mem_reverse.mp hn)
  rw [toText, Place.walk_intercalate here (clean_segments h), segments, List.foldl_append,
    Place.foldl_enter_ups, Place.foldl_enter_names _ names, List.reverse_reverse]
  rfl

/-- Reducing two texts to one route first, or walking them one after the other: the end is
the same folder. -/
theorem walk_join (here : Place) (base rest : Text) :
    here.walk (join base rest) = (here.walk base).walk rest := by
  rw [join, walk_toText (proper_follow rest (proper_ofText base)), lead_follow, ofText,
    lead_follow, lead_here]

end Route
end Unalias
