import Unalias.Proofs.Path.Steps
import Unalias.Proofs.Place

/-! The normal form of an absolute path names a folder, and the way between two normal forms leads
from the one folder to the other. `..` stays at a name that ends in a colon, so the folder is the
one that the path leads to only if the path never steps back from such a name. -/
namespace Unalias

namespace Place

/-- The folder's own name ends in a colon. The normal form takes it for a root. -/
def isFixed (here : Place) : Bool := here.head?.any (·.getLast? = some ':')

/-- One segment further in the normal form: `..` stays at a fixed folder. -/
def keep (here : Place) (segment : Text) : Place :=
  if segment = ['.', '.'] ∧ here.isFixed = true then here else here.enter segment

/-- No `..` among the segments steps back from a fixed folder. -/
def Folds : Place → List Text → Prop
  | _, [] => True
  | here, s :: rest => ¬(s = ['.', '.'] ∧ here.isFixed = true) ∧ Folds (here.enter s) rest

instance decidableFolds : (here : Place) → (segments : List Text) →
    Decidable (Folds here segments)
  | _, [] => inferInstanceAs (Decidable True)
  | here, s :: rest =>
    have := decidableFolds (here.enter s) rest
    inferInstanceAs (Decidable (_ ∧ _))

theorem foldl_keep_of_folds {here : Place} {segments : List Text} (h : Folds here segments) :
    segments.foldl keep here = segments.foldl enter here := by
  induction segments generalizing here with
  | nil => rfl
  | cons s segments ih =>
    obtain ⟨moves, rest⟩ := h
    rw [List.foldl_cons, List.foldl_cons, keep, if_neg moves, ih rest]

theorem names_keep {here : Place} {segment : Text} (clean : '/' ∉ segment)
    (names : ∀ n ∈ here, IsName n) : ∀ n ∈ here.keep segment, IsName n := by
  unfold keep
  split
  · exact names
  · exact names_enter clean names

/-- The way from one folder to another: up to the last folder that the two have in common, and
down from there. -/
def wayTo (here goal : Place) : List Text :=
  let n := Path.shared here.reverse goal.reverse
  List.replicate (here.length - n) ['.', '.'] ++ goal.reverse.drop n

end Place

namespace Path

/-- Where an absolute path leads. -/
def place (p : Path) : Place := Place.root.walk p.text

/-- The folder that the normal form of an absolute path names. -/
def kept (p : Path) : Place := (p.text.splitOn '/').foldl Place.keep Place.root

/-- Every `..` is folded: none steps back from a name that ends in a colon. -/
def Foldable (p : Path) : Prop := Place.Folds Place.root (p.text.splitOn '/')

instance (p : Path) : Decidable p.Foldable := inferInstanceAs (Decidable (Place.Folds _ _))

/-- No component ends in a colon. -/
def Colonless (p : Path) : Prop := ∀ c ∈ p.components, c.text.getLast? ≠ some ':'

instance (p : Path) : Decidable p.Colonless :=
  inferInstanceAs (Decidable (∀ c ∈ p.components, c.text.getLast? ≠ some ':'))

theorem names_place (p : Path) : ∀ n ∈ p.place, IsName n :=
  Place.names_walk p.text fun n hn => by cases hn

theorem names_kept (p : Path) : ∀ n ∈ p.kept, IsName n := by
  apply List.foldlRecOn (motive := fun here => ∀ n ∈ here, IsName n) _ Place.keep
  · intro n hn
    cases hn
  · intro here names s hs
    exact Place.names_keep (not_mem_of_mem_splitOn hs) names

theorem kept_of_foldable {p : Path} (h : p.Foldable) : p.kept = p.place :=
  Place.foldl_keep_of_folds h

theorem mem_enter {here : Place} {s n : Text} (h : n ∈ here.enter s) :
    n ∈ here ∨ Component.ofSegment s = some (.name n) := by
  unfold Place.enter at h
  unfold Component.ofSegment
  split at h
  · exact .inl h
  · rename_i idle
    split at h
    · exact .inl (List.mem_of_mem_tail h)
    · rename_i up
      rcases List.mem_cons.mp h with h | h
      · exact .inr (by rw [if_neg idle, if_neg up, h])
      · exact .inl h

theorem folds_of_colonless {here : Place} {segments : List Text}
    (plain : ∀ n ∈ here, n.getLast? ≠ some ':')
    (colonless : ∀ c ∈ segments.filterMap Component.ofSegment, c.text.getLast? ≠ some ':') :
    here.Folds segments := by
  induction segments generalizing here with
  | nil => trivial
  | cons s segments ih =>
    constructor
    · rintro ⟨-, fixed⟩
      obtain ⟨n, hn, colon⟩ := (Option.any_eq_true _ _).mp fixed
      exact plain n (List.mem_of_head? hn) (of_decide_eq_true colon)
    · apply ih
      · intro n hn
        rcases mem_enter hn with old | new
        · exact plain n old
        · exact colonless (.name n) (List.mem_filterMap.mpr ⟨s, List.mem_cons_self, new⟩)
      · intro c hc
        obtain ⟨t, ht, hc⟩ := List.mem_filterMap.mp hc
        exact colonless c (List.mem_filterMap.mpr ⟨t, List.mem_cons_of_mem s ht, hc⟩)

theorem foldable_of_colonless {p : Path} (h : p.Colonless) : p.Foldable := by
  apply folds_of_colonless
  · intro n hn
    cases hn
  · intro c hc
    rw [← steps_eq] at hc
    exact h c (List.mem_append_right _ hc)

/-- The names of a folder as components of a path, in the order of a reversed normal form. -/
def trailOf (here : Place) : List Component := here.map .name ++ [.root]

/-- A segment that is no component does not move the walker. -/
theorem enter_of_ofSegment_none {s : Text} (h : Component.ofSegment s = none) (here : Place) :
    here.enter s = here := by
  unfold Component.ofSegment at h
  split at h
  · rename_i idle
    exact if_pos idle
  · split at h <;> contradiction

theorem keep_of_ofSegment_none {s : Text} (h : Component.ofSegment s = none) (here : Place) :
    here.keep s = here := by
  unfold Place.keep
  split
  · rfl
  · exact enter_of_ofSegment_none h here

/-- A component takes the normal form where its segment takes the folder. -/
theorem advance_trailOf {s : Text} {c : Component} (h : Component.ofSegment s = some c)
    (here : Place) : advance (trailOf here) c = trailOf (here.keep s) := by
  unfold Component.ofSegment at h
  split at h
  · contradiction
  · rename_i idle
    split at h
    · rename_i up
      cases Option.some.inj h
      rw [up, Place.keep]
      cases here with
      | nil => rfl
      | cons n here =>
        by_cases colon : n.getLast? = some ':'
        · rw [if_pos ⟨rfl, decide_eq_true colon⟩]
          exact if_pos colon
        · rw [if_neg fun fixed => colon (of_decide_eq_true fixed.2)]
          exact if_neg colon
    · rename_i up
      cases Option.some.inj h
      rw [Place.keep, if_neg fun fixed => up fixed.1, Place.enter, if_neg idle, if_neg up]
      rfl

theorem foldl_advance_trailOf (here : Place) (segments : List Text) :
    (segments.filterMap Component.ofSegment).foldl advance (trailOf here) =
      trailOf (segments.foldl Place.keep here) := by
  induction segments generalizing here with
  | nil => rfl
  | cons s segments ih =>
    rw [List.foldl_cons]
    cases hs : Component.ofSegment s with
    | none => rw [List.filterMap_cons_none hs, keep_of_ofSegment_none hs, ih]
    | some c => rw [List.filterMap_cons_some hs, List.foldl_cons, advance_trailOf hs, ih]

/-- The root, and then the names of the folder. -/
theorem normal_of_isAbsolute {p : Path} (absolute : p.isAbsolute = true) :
    p.normal = .root :: p.kept.reverse.map .name := by
  have fold := foldl_advance_trailOf Place.root (p.text.splitOn '/')
  have start : trailOf Place.root = [.root] := rfl
  rw [start] at fold
  rw [normal_eq, origin, if_pos absolute, steps_eq, fold, kept, trailOf]
  simp

section shared

variable {α : Type} [DecidableEq α]

theorem take_shared (as bs : List α) : as.take (shared as bs) = bs.take (shared as bs) := by
  induction as generalizing bs with
  | nil => cases bs <;> rfl
  | cons a as ih =>
    cases bs with
    | nil => rfl
    | cons b bs =>
      unfold shared
      split
      · rename_i same
        rw [List.take_succ_cons, List.take_succ_cons, same, ih]
      · rfl

theorem shared_map {β : Type} [DecidableEq β] {f : α → β} (inj : ∀ a b, f a = f b → a = b)
    (as bs : List α) : shared (as.map f) (bs.map f) = shared as bs := by
  induction as generalizing bs with
  | nil => rfl
  | cons a as ih =>
    cases bs with
    | nil => rfl
    | cons b bs =>
      rw [List.map_cons, List.map_cons, shared, shared, ih]
      by_cases same : a = b
      · rw [if_pos same, if_pos (congrArg f same)]
      · rw [if_neg same, if_neg (mt (inj a b) same)]

end shared

/-- The way between the folders that two normal forms name. -/
theorem relativeTo_eq {start goal : Path} (start_absolute : start.isAbsolute = true)
    (goal_absolute : goal.isAbsolute = true) :
    relativeTo start goal = ['/'].intercalate (start.kept.wayTo goal.kept) := by
  have more : shared (Component.root :: start.kept.reverse.map .name)
      (.root :: goal.kept.reverse.map .name) = shared start.kept.reverse goal.kept.reverse + 1 := by
    rw [shared, if_pos rfl, shared_map fun _ _ h => Component.name.inj h]
  have texts (names : List Text) : (names.map Component.name).map Component.text = names := by
    rw [List.map_map]
    exact List.map_id names
  rw [relativeTo, normal_of_isAbsolute start_absolute, normal_of_isAbsolute goal_absolute, between,
    more, List.map_append, List.map_replicate, List.drop_succ_cons, ← List.map_drop, texts,
    Place.wayTo]
  simp [Component.text]

end Path

namespace Place

theorem names_wayTo {here goal : Place} (names : ∀ n ∈ goal, IsName n) :
    ∀ n ∈ goal.reverse.drop (Path.shared here.reverse goal.reverse), IsName n :=
  fun n hn => names n (List.mem_reverse.mp (List.mem_of_mem_drop hn))

theorem clean_wayTo {here goal : Place} (names : ∀ n ∈ goal, IsName n) :
    ∀ s ∈ here.wayTo goal, '/' ∉ s := by
  intro s hs
  rcases List.mem_append.mp hs with up | down
  · rw [List.eq_of_mem_replicate up]
    decide
  · exact (names_wayTo names s down).2.2.2

theorem foldl_enter_wayTo {here goal : Place} (names : ∀ n ∈ goal, IsName n) :
    (here.wayTo goal).foldl enter here = goal := by
  have climbed : here.drop (here.length - Path.shared here.reverse goal.reverse) =
      (goal.reverse.take (Path.shared here.reverse goal.reverse)).reverse := by
    rw [← Path.take_shared, List.reverse_take, List.reverse_reverse, List.length_reverse]
  rw [wayTo, List.foldl_append, foldl_enter_ups, foldl_enter_names _ (names_wayTo names), climbed,
    ← List.reverse_append, List.take_append_drop, List.reverse_reverse]

end Place

namespace Path

theorem place_join_of_relative (base : Path) {p : Path} (relative : p.isAbsolute = false) :
    (base.join p).place = base.place.walk p.text := by
  rw [join_of_relative base relative, place, place, separator]
  by_cases empty : base.text = []
  · rw [if_pos (.inl empty), empty]
    rfl
  · by_cases closed : base.text.getLast? = some '/'
    · obtain ⟨front, hfront⟩ := List.getLast?_eq_some_iff.mp closed
      rw [if_pos (.inr closed), List.append_nil, hfront, List.append_assoc, List.singleton_append,
        Place.walk_slash, Place.walk_slash]
      rfl
    · rw [if_neg (not_or.mpr ⟨empty, closed⟩), List.append_assoc, List.singleton_append,
        Place.walk_slash]

theorem place_join_slash (base : Path) {front : Text} (some : front ≠ []) (rest : Text) :
    (base.join ⟨front ++ '/' :: rest⟩).place = (base.join ⟨front⟩).place.walk rest := by
  have same := isAbsolute_append some ('/' :: rest)
  cases absolute : isAbsolute ⟨front⟩ with
  | true =>
    rw [join_of_isAbsolute base (same.trans absolute), join_of_isAbsolute base absolute]
    exact Place.walk_slash Place.root front rest
  | false =>
    rw [place_join_of_relative base (same.trans absolute), place_join_of_relative base absolute]
    exact Place.walk_slash base.place front rest

/-- The way from one absolute folder to another, walked from the first, ends in the second. -/
theorem walk_relativeTo_of_foldable {start goal : Path} (start_absolute : start.isAbsolute = true)
    (goal_absolute : goal.isAbsolute = true) (start_foldable : start.Foldable)
    (goal_foldable : goal.Foldable) :
    start.place.walk (relativeTo start goal) = goal.place := by
  rw [relativeTo_eq start_absolute goal_absolute,
    Place.walk_intercalate _ (Place.clean_wayTo goal.names_kept), kept_of_foldable start_foldable,
    kept_of_foldable goal_foldable, Place.foldl_enter_wayTo goal.names_place]

/- A file without a folder is taken to lie in the empty path. The way from there starts with the
root, which is lost in the name of a module. -/
theorem walk_relativeTo_of_nowhere {goal : Path} (absolute : goal.isAbsolute = true)
    (foldable : goal.Foldable) : Place.root.walk (relativeTo ⟨[]⟩ goal) = goal.place := by
  have start : normal ⟨[]⟩ = [] := rfl
  have whole (l : List Component) : between [] l = l := rfl
  have names : ∀ n ∈ goal.place.reverse, IsName n :=
    fun n hn => names_place goal n (List.mem_reverse.mp hn)
  have way : relativeTo ⟨[]⟩ goal = ['/'].intercalate (['/'] :: goal.place.reverse) := by
    rw [relativeTo, start, whole, normal_of_isAbsolute absolute, kept_of_foldable foldable,
      List.map_cons, List.map_map]
    exact congrArg (fun l => ['/'].intercalate (['/'] :: l)) (List.map_id _)
  have slash (t : Text) : Place.root.walk ('/' :: t) = Place.root.walk t :=
    Place.walk_slash Place.root [] t
  rw [way]
  cases turned : goal.place.reverse with
  | nil =>
    rw [← List.reverse_reverse goal.place, turned]
    rfl
  | cons n rest =>
    rw [turned] at names
    rw [List.intercalate_cons_cons, List.append_assoc, List.singleton_append, List.singleton_append,
      slash, slash, Place.walk_intercalate _ fun m hm => (names m hm).2.2.2,
      Place.foldl_enter_names _ names, ← turned, List.reverse_reverse]
    exact List.append_nil _

theorem walk_relativeTo {start goal : Path} (start_absolute : start.isAbsolute = true)
    (goal_absolute : goal.isAbsolute = true) (start_colonless : start.Colonless)
    (goal_colonless : goal.Colonless) :
    start.place.walk (relativeTo start goal) = goal.place :=
  walk_relativeTo_of_foldable start_absolute goal_absolute (foldable_of_colonless start_colonless)
    (foldable_of_colonless goal_colonless)

end Path
end Unalias
