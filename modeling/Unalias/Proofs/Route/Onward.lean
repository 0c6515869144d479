import Unalias.Proofs.Place

/-! Routes one after the other. What a text does to a route is decided by the route that the text
is itself, so it does not matter which of several texts are brought to normal form first. A normal
form is known by where it leads from folders that lie deep enough. -/
namespace Unalias

/-- A name that is longer than all names of a list, and so none of them. -/
theorem exists_isName_not_mem (names : List Text) : ∃ fresh, IsName fresh ∧ fresh ∉ names := by
  let fresh : Text := List.replicate (names.flatten.length + 1) 'a'
  have begins : fresh = 'a' :: List.replicate names.flatten.length 'a' := List.replicate_succ
  have letters : ∀ c ∈ fresh, c = 'a' := fun c hc => List.eq_of_mem_replicate hc
  refine ⟨fresh, ⟨?_, ?_, ?_, ?_⟩, fun member => ?_⟩
  · rw [begins]
    exact List.cons_ne_nil _ _
  · rw [begins]
    simp
  · rw [begins]
    simp
  · intro slash
    exact absurd (letters '/' slash) (by decide)
  · have short := (List.sublist_flatten_of_mem member).length_le
    rw [List.length_replicate] at short
    omega

namespace Route

/-- The one route and then the other. Steps up of the second take back names of the first, the
innermost ones, and climb on from there if they are more. -/
def onward (r q : Route) : Route :=
  ⟨r.up + (q.up - r.trail.length), q.trail ++ r.trail.drop q.up⟩

@[simp] theorem onward_here (r : Route) : r.onward here = r := by simp [onward, here]

theorem onward_step (r q : Route) (segment : Text) :
    r.onward (q.step segment) = (r.onward q).step segment := by
  unfold step
  split
  · rfl
  · split
    · cases hq : q.trail with
      | cons n rest => simp [onward, hq]
      | nil =>
        cases hr : r.trail.drop q.up with
        | nil =>
          have climbed : r.trail.length ≤ q.up := List.drop_eq_nil_iff.mp hr
          have further : r.trail.drop (q.up + 1) = [] :=
            List.drop_eq_nil_iff.mpr (Nat.le_succ_of_le climbed)
          simp only [onward, hq, hr, further, List.nil_append, mk.injEq, and_true]
          omega
        | cons n rest =>
          have inside : q.up < r.trail.length := by
            apply Nat.lt_of_not_le
            intro beyond
            rw [List.drop_eq_nil_iff.mpr beyond] at hr
            contradiction
          have further : r.trail.drop (q.up + 1) = rest := by
            rw [← List.tail_drop, hr, List.tail_cons]
          simp only [onward, hq, hr, further, List.nil_append, mk.injEq, and_true]
          omega
    · simp [onward]

/-- A text followed from a route is the text's own route put after it. -/
theorem follow_eq_onward (r : Route) (text : Text) : r.follow text = r.onward (ofText text) := by
  have along (segments : List Text) (q : Route) :
      segments.foldl step (r.onward q) = r.onward (segments.foldl step q) := by
    induction segments generalizing q with
    | nil => rfl
    | cons s segments ih => rw [List.foldl_cons, List.foldl_cons, ← onward_step, ih]
  have start := along (text.splitOn '/') here
  rwa [onward_here] at start

theorem follow_slash (r : Route) (first second : Text) :
    r.follow (first ++ '/' :: second) = (r.follow first).follow second := by
  rw [follow, List.splitOn_append_cons_self, List.foldl_append]
  rfl

@[simp] theorem follow_nil (r : Route) : r.follow [] = r := rfl

theorem foldl_step_ups (n k : Nat) :
    (List.replicate n ['.', '.']).foldl step ⟨k, []⟩ = ⟨k + n, []⟩ := by
  induction n generalizing k with
  | zero => rfl
  | succ n ih =>
    have climb : step ⟨k, []⟩ ['.', '.'] = ⟨k + 1, []⟩ := rfl
    rw [List.replicate_succ, List.foldl_cons, climb, ih]
    congr 1
    omega

theorem step_name (r : Route) {n : Text} (h : IsName n) : r.step n = ⟨r.up, n :: r.trail⟩ := by
  have idle : ¬(n = [] ∨ n = ['.']) := not_or.mpr ⟨h.1, h.2.1⟩
  rw [step, if_neg idle, if_neg h.2.2.1]

theorem foldl_step_names (r : Route) {names : List Text} (h : ∀ n ∈ names, IsName n) :
    names.foldl step r = ⟨r.up, names.reverse ++ r.trail⟩ := by
  induction names generalizing r with
  | nil => rfl
  | cons n names ih =>
    rw [List.foldl_cons, step_name r (h n List.mem_cons_self),
      ih _ fun m hm => h m (List.mem_cons_of_mem n hm)]
    simp

theorem foldl_step_segments {r : Route} (h : r.Proper) : r.segments.foldl step here = r := by
  have names : ∀ n ∈ r.trail.reverse, IsName n := fun n hn => h n (List.mem_reverse.mp hn)
  rw [segments, List.foldl_append, here, foldl_step_ups, foldl_step_names _ names]
  simp

/-- The text of a route in normal form is read as that route. -/
theorem ofText_toText {r : Route} (h : r.Proper) : ofText r.toText = r := by
  have whole := foldl_step_segments h
  by_cases stays : r.segments = []
  · rw [stays] at whole
    rw [(toText_eq_nil_iff h).mpr stays]
    exact whole
  · rw [ofText, follow, splitOn_toText h stays, whole]

theorem proper_join (a b : Text) : ((ofText a).follow b).Proper :=
  proper_follow b (proper_ofText a)

theorem ofText_join (a b : Text) : ofText (join a b) = (ofText a).follow b :=
  ofText_toText (proper_join a b)

/-- The segments of a text are steps up and then names; the empty text has none. -/
def IsNormal (text : Text) : Prop :=
  text = [] ∨ ∃ ups names, text.splitOn '/' = List.replicate ups ['.', '.'] ++ names ∧
    ∀ n ∈ names, IsName n

theorem isNormal_toText {r : Route} (h : r.Proper) : IsNormal r.toText := by
  by_cases stays : r.segments = []
  · exact .inl ((toText_eq_nil_iff h).mpr stays)
  · exact .inr ⟨r.up, r.trail.reverse, splitOn_toText h stays,
      fun n hn => h n (List.mem_reverse.mp hn)⟩

/-- Two routes that lead to the same place from one folder are the same, if the names on the way
to that folder are all alike, in neither of the routes, and enough for both. -/
theorem eq_of_lead_replicate {r q : Route} {fresh : Text} {depth : Nat} (new : fresh ∉ r.trail)
    (new' : fresh ∉ q.trail) (deep : r.up ≤ depth) (deep' : q.up ≤ depth)
    (same : r.lead (List.replicate depth fresh) = q.lead (List.replicate depth fresh)) : r = q := by
  simp only [lead, List.drop_replicate] at same
  have left : depth - r.up = depth - q.up := by
    have count := congrArg (List.count fresh) same
    simpa only [List.count_append, List.count_eq_zero.mpr new, List.count_eq_zero.mpr new',
      List.count_replicate_self, Nat.zero_add] using count
  have up : r.up = q.up := by omega
  rw [left] at same
  have trail : r.trail = q.trail := List.append_cancel_right same
  calc r = ⟨r.up, r.trail⟩ := rfl
    _ = ⟨q.up, q.trail⟩ := by rw [up, trail]

theorem eq_of_lead_eq {r q : Route} (depth : Nat)
    (same : ∀ folder : Place, (∀ n ∈ folder, IsName n) → depth ≤ folder.length →
      r.lead folder = q.lead folder) : r = q := by
  obtain ⟨fresh, name, new⟩ := exists_isName_not_mem (r.trail ++ q.trail)
  rw [List.mem_append, not_or] at new
  let enough := depth + r.up + q.up
  have lead := same (List.replicate enough fresh)
    (fun n hn => List.eq_of_mem_replicate hn ▸ name) (by rw [List.length_replicate]; omega)
  exact eq_of_lead_replicate new.1 new.2 (by omega) (by omega) lead

/-- Two texts have one normal form if and only if they lead to the same place from all folders that
lie deep enough. -/
theorem join_nil_eq_iff (a b : Text) :
    join [] a = join [] b ↔ ∃ depth, ∀ folder : Place, (∀ n ∈ folder, IsName n) →
      depth ≤ folder.length → folder.walk a = folder.walk b := by
  constructor
  · intro same
    refine ⟨0, fun folder _ _ => ?_⟩
    have walked := walk_join folder [] a
    rw [same, walk_join] at walked
    exact walked.symm
  · rintro ⟨depth, same⟩
    have equal : ofText a = ofText b := by
      apply eq_of_lead_eq depth
      intro folder names deep
      rw [ofText, ofText, lead_follow, lead_follow, lead_here]
      exact same folder names deep
    exact congrArg toText equal

/-- Putting texts together and bringing them to normal form is associative and can be put off to
the end; a normal form stays as it is; and it stands for all texts that lead to the same places. -/
theorem join_composes :
    (∀ a b c, join (join a b) c = join a (join b c) ∧
      join a (join b c) = join a (b ++ '/' :: c)) ∧
    (∀ a, join a [] = join [] a) ∧
    (∀ a b, join (join a b) [] = join a b ∧ IsNormal (join a b)) ∧
    ∀ a b, join [] a = join [] b ↔ ∃ depth, ∀ folder : Place, (∀ n ∈ folder, IsName n) →
      depth ≤ folder.length → folder.walk a = folder.walk b := by
  refine ⟨fun a b c => ?_, fun a => rfl, fun a b => ⟨?_, ?_⟩, join_nil_eq_iff⟩
  · have outer : (ofText (join a b)).follow c = (ofText a).follow (b ++ '/' :: c) := by
      rw [ofText_join, follow_slash]
    have inner : (ofText a).follow (join b c) = (ofText a).follow (b ++ '/' :: c) := by
      have second : ofText (join b c) = ofText (b ++ '/' :: c) := by
        rw [ofText_join, ofText, ofText, follow_slash]
      rw [follow_eq_onward, follow_eq_onward, second]
    exact ⟨congrArg toText (outer.trans inner.symm), congrArg toText inner⟩
  · rw [join, ofText_join, follow_nil]
    rfl
  · exact isNormal_toText (proper_join a b)

end Route
end Unalias
