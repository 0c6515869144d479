import Unalias.Proofs.Path.Normal

/-! The way from one folder to another is the shortest there is, and it is decided by the two
folders alone, however their paths are spelled. A folder counts as its normal form names it: that is
where its path leads exactly when every `..` of the path is folded. -/
namespace Unalias

namespace Place

section keep

variable {here ahead : Place}

/- A fixed folder is never left, so once a `..` has stayed there the names kept are more than the
names that a walker has, for good. -/
theorem length_enter_lt_keep (fixed : ∃ n ∈ ahead, n.getLast? = some ':')
    (more : here.length < ahead.length) (s : Text) :
    (∃ n ∈ ahead.keep s, n.getLast? = some ':') ∧
      (here.enter s).length < (ahead.keep s).length := by
  obtain ⟨n, hn, colon⟩ := fixed
  unfold keep
  split
  · rename_i stays
    refine ⟨⟨n, hn, colon⟩, ?_⟩
    rw [stays.1, enter_up, List.length_tail]
    omega
  · rename_i moves
    unfold enter
    split
    · exact ⟨⟨n, hn, colon⟩, more⟩
    · split
      · rename_i up
        obtain ⟨m, rest, rfl⟩ := List.exists_cons_of_ne_nil (List.ne_nil_of_mem hn)
        have left : n ∈ rest := by
          rcases List.mem_cons.mp hn with rfl | hn
          · exact absurd ⟨up, decide_eq_true colon⟩ moves
          · exact hn
        refine ⟨⟨n, left, colon⟩, ?_⟩
        have some := List.length_pos_of_mem left
        rw [List.length_cons] at more
        rw [List.length_tail, List.tail_cons]
        omega
      · refine ⟨⟨n, List.mem_cons_of_mem s hn, colon⟩, ?_⟩
        rw [List.length_cons, List.length_cons]
        omega

theorem length_foldl_enter_lt_keep (fixed : ∃ n ∈ ahead, n.getLast? = some ':')
    (more : here.length < ahead.length) (segments : List Text) :
    (segments.foldl enter here).length < (segments.foldl keep ahead).length := by
  induction segments generalizing here ahead with
  | nil => exact more
  | cons s segments ih =>
    obtain ⟨fixed, more⟩ := length_enter_lt_keep fixed more s
    exact ih fixed more

theorem foldl_keep_eq_iff (segments : List Text) :
    segments.foldl keep here = segments.foldl enter here ↔ here.Folds segments := by
  refine ⟨fun same => ?_, foldl_keep_of_folds⟩
  induction segments generalizing here with
  | nil => trivial
  | cons s segments ih =>
    rw [List.foldl_cons, List.foldl_cons, keep] at same
    by_cases stays : s = ['.', '.'] ∧ here.isFixed = true
    · obtain ⟨n, hn, colon⟩ := (Option.any_eq_true _ _).mp stays.2
      have member : n ∈ here := List.mem_of_head? hn
      have less : (here.enter s).length < here.length := by
        have some := List.length_pos_of_mem member
        rw [stays.1, enter_up, List.length_tail]
        omega
      have apart := length_foldl_enter_lt_keep ⟨n, member, of_decide_eq_true colon⟩ less segments
      rw [if_pos stays] at same
      rw [same] at apart
      exact absurd apart (Nat.lt_irrefl _)
    · rw [if_neg stays] at same
      exact ⟨stays, ih same⟩

end keep

section wayTo

variable {here goal : Place}

/- A walk never leaves some folder that both its ends lie in, and every name of theirs below that
folder takes a segment. -/
theorem exists_base_of_walk (segments : List Text) (arrives : segments.foldl enter here = goal) :
    ∃ base : Place, base <:+ here ∧ base <:+ goal ∧
      here.length + goal.length ≤ segments.length + 2 * base.length := by
  induction segments generalizing here with
  | nil =>
    obtain rfl : here = goal := arrives
    refine ⟨here, List.suffix_rfl, List.suffix_rfl, ?_⟩
    rw [List.length_nil]
    omega
  | cons s segments ih =>
    obtain ⟨base, front, back, total⟩ := ih arrives
    rw [List.length_cons]
    unfold enter at front total
    split at front
    · rename_i idle
      rw [if_pos idle] at total
      exact ⟨base, front, back, by omega⟩
    · rename_i idle
      rw [if_neg idle] at total
      split at front
      · rename_i up
        rw [if_pos up, List.length_tail] at total
        exact ⟨base, front.trans (List.tail_suffix here), back, by omega⟩
      · rename_i up
        rw [if_neg up, List.length_cons] at total
        rcases List.suffix_cons_iff.mp front with rfl | front
        · rw [List.length_cons] at total
          exact ⟨here, List.suffix_rfl, (List.suffix_cons s here).trans back, by omega⟩
        · exact ⟨base, front, back, by omega⟩

theorem length_le_shared {α : Type} [DecidableEq α] {front as bs : List α} (h : front <+: as)
    (h' : front <+: bs) : front.length ≤ Path.shared as bs := by
  induction front generalizing as bs with
  | nil => exact Nat.zero_le _
  | cons c front ih =>
    obtain ⟨s, rfl⟩ := h
    obtain ⟨t, rfl⟩ := h'
    rw [List.cons_append, List.cons_append, Path.shared, if_pos rfl, List.length_cons]
    exact Nat.succ_le_succ (ih (List.prefix_append front s) (List.prefix_append front t))

theorem ne_nil_of_mem_wayTo (names : ∀ n ∈ goal, IsName n) : ∀ s ∈ here.wayTo goal, s ≠ [] := by
  intro s hs
  rcases List.mem_append.mp hs with up | down
  · rw [List.eq_of_mem_replicate up]
    decide
  · exact (names_wayTo names s down).1

/-- No walk between the two folders takes fewer segments. -/
theorem length_wayTo_le (segments : List Text) (arrives : segments.foldl enter here = goal) :
    (here.wayTo goal).length ≤ segments.length := by
  obtain ⟨base, front, back, total⟩ := exists_base_of_walk segments arrives
  have common := length_le_shared (List.reverse_prefix.mpr front) (List.reverse_prefix.mpr back)
  have inside := front.length_le
  have inside' := back.length_le
  rw [List.length_reverse] at common
  rw [wayTo, List.length_append, List.length_replicate, List.length_drop, List.length_reverse]
  omega

theorem wayTo_eq_nil_iff (names : ∀ n ∈ goal, IsName n) : here.wayTo goal = [] ↔ here = goal := by
  constructor
  · intro none
    have arrives : (here.wayTo goal).foldl enter here = goal := foldl_enter_wayTo names
    rwa [none] at arrives
  · intro same
    have short := length_wayTo_le [] same
    exact List.length_eq_zero_iff.mp (Nat.le_zero.mp short)

end wayTo

end Place

namespace Path

/-- The normal form names the folder that the path leads to if and only if every `..` is folded. -/
theorem normal_eq_iff {p : Path} (absolute : p.isAbsolute = true) :
    p.normal = .root :: p.place.reverse.map .name ↔ p.Foldable := by
  rw [normal_of_isAbsolute absolute, List.cons_inj_right,
    List.map_inj_right fun _ _ h => Component.name.inj h, List.reverse_inj]
  exact Place.foldl_keep_eq_iff (p.text.splitOn '/')

/-- The way from one folder to another leads there, climbs before it goes down, and has the fewest
segments. It is empty only if the folders are the same, and does not depend on the spelling of the
two paths. All that holds as long as the normal forms name the folders, which is exactly when no
`..` of a path steps back from a name that ends in a colon. -/
theorem relativeTo_shortest (start goal : Path) (start_absolute : start.isAbsolute = true)
    (goal_absolute : goal.isAbsolute = true) (start_foldable : start.Foldable)
    (goal_foldable : goal.Foldable) :
    start.place.walk (relativeTo start goal) = goal.place ∧
    (relativeTo start goal = [] ↔ start.place = goal.place) ∧
    (∃ ups names,
      relativeTo start goal = ['/'].intercalate (List.replicate ups ['.', '.'] ++ names) ∧
      (∀ n ∈ names, IsName n) ∧
      ∀ segments : List Text, segments.foldl Place.enter start.place = goal.place →
        ups + names.length ≤ segments.length) ∧
    (∀ start' goal' : Path, start'.isAbsolute = true → goal'.isAbsolute = true →
      start'.Foldable → goal'.Foldable → start'.place = start.place → goal'.place = goal.place →
        relativeTo start' goal' = relativeTo start goal) ∧
    ∀ p : Path, p.isAbsolute = true →
      (p.normal = .root :: p.place.reverse.map .name ↔ p.Foldable) := by
  have form {start goal : Path} (start_absolute : start.isAbsolute = true)
      (goal_absolute : goal.isAbsolute = true) (start_foldable : start.Foldable)
      (goal_foldable : goal.Foldable) :
      relativeTo start goal = ['/'].intercalate (start.place.wayTo goal.place) := by
    rw [relativeTo_eq start_absolute goal_absolute, kept_of_foldable start_foldable,
      kept_of_foldable goal_foldable]
  have way := form start_absolute goal_absolute start_foldable goal_foldable
  refine ⟨walk_relativeTo_of_foldable start_absolute goal_absolute start_foldable goal_foldable,
    ?_, ?_, ?_, fun p absolute => normal_eq_iff absolute⟩
  · rw [way, intercalate_eq_nil_iff (Place.ne_nil_of_mem_wayTo goal.names_place),
      Place.wayTo_eq_nil_iff goal.names_place]
  · refine ⟨_, _, way, Place.names_wayTo goal.names_place, fun segments arrives => ?_⟩
    have short := Place.length_wayTo_le segments arrives
    rw [Place.wayTo, List.length_append, List.length_replicate] at short
    exact short
  · intro start' goal' start_absolute' goal_absolute' start_foldable' goal_foldable' same same'
    rw [form start_absolute' goal_absolute' start_foldable' goal_foldable', same, same', way]

/- Names that end in a colon do no harm where nothing steps back from them. -/
theorem relativeTo_shortest_past_colons :
    let start : Path := ⟨"/repo//c:/./web/../pages".toList⟩
    let goal : Path := ⟨"/../repo/c:/lib/d:/".toList⟩
    (start.isAbsolute = true ∧ goal.isAbsolute = true ∧ start.Foldable ∧ goal.Foldable) ∧
    start.place.walk (relativeTo start goal) = goal.place ∧
    (relativeTo start goal = [] ↔ start.place = goal.place) ∧
    (∃ ups names,
      relativeTo start goal = ['/'].intercalate (List.replicate ups ['.', '.'] ++ names) ∧
      (∀ n ∈ names, IsName n) ∧
      ∀ segments : List Text, segments.foldl Place.enter start.place = goal.place →
        ups + names.length ≤ segments.length) ∧
    (∀ start' goal' : Path, start'.isAbsolute = true → goal'.isAbsolute = true →
      start'.Foldable → goal'.Foldable → start'.place = start.place → goal'.place = goal.place →
        relativeTo start' goal' = relativeTo start goal) ∧
    ∀ p : Path, p.isAbsolute = true →
      (p.normal = .root :: p.place.reverse.map .name ↔ p.Foldable) := by
  intro start goal
  have foldable : start.Foldable ∧ goal.Foldable := by decide
  exact ⟨⟨rfl, rfl, foldable⟩, relativeTo_shortest start goal rfl rfl foldable.1 foldable.2⟩

/-- A step back from a name that ends in a colon is lost: the two paths are the same folder, and yet
the way between them is not empty and leads to another one. -/
theorem relativeTo_unfolded :
    let start : Path := ⟨"/".toList⟩
    let goal : Path := ⟨"/a:/..".toList⟩
    start.isAbsolute = true ∧ goal.isAbsolute = true ∧ start.place = goal.place ∧
      relativeTo start goal = "a:".toList ∧
      start.place.walk (relativeTo start goal) ≠ goal.place := by
  intro start goal
  have way : relativeTo start goal = "a:".toList := by decide
  refine ⟨rfl, rfl, by decide, way, ?_⟩
  rw [way]
  decide

end Path
end Unalias
