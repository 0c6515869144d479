import Unalias.Proofs.Glob.Segments

/-! The pattern of a whole glob takes what a search by its segments goes down: the names on the way,
with slashes between them. -/
namespace Unalias

theorem Fits.append {ps qs : Pattern} {s t : Text} (h : Fits ps s) (h' : Fits qs t) :
    Fits (ps ++ qs) (s ++ t) := by
  induction h with
  | nil => exact h'
  | one hc _ ih => exact .one hc ih
  | many hw _ ih =>
    rw [List.append_assoc]
    exact .many hw ih
  | stay _ ih => exact .stay ih
  | descend w _ ih =>
    rw [List.append_assoc]
    exact .descend w ih

namespace Glob

/-- The pattern of a glob, segment by segment. -/
def joined : List Segment → Pattern
  | [] => []
  | [s] => s.pieces
  | .recursive :: t :: rest => .folders :: joined (t :: rest)
  | s :: t :: rest => s.pieces ++ .one (.exactly '/') :: joined (t :: rest)

theorem joined_cons {s : Segment} (shallow : s ≠ .recursive) {segments : List Segment}
    (more : segments ≠ []) :
    joined (s :: segments) = s.pieces ++ .one (.exactly '/') :: joined segments := by
  obtain ⟨t, rest, rfl⟩ := List.exists_cons_of_ne_nil more
  cases s with
  | recursive => contradiction
  | plain name => rfl
  | listed pattern => rfl

/-- A glob is compiled to what its segments are compiled to. -/
theorem compiled_joined {texts : List Text} {segments : List Segment} (some : texts ≠ [])
    (clean : ∀ t ∈ texts, '/' ∉ t) (filled : ∀ t ∈ texts, t ≠ [])
    (compiled : texts.mapM Segment.compile = .ok segments) :
    Compiled true (['/'].intercalate texts) (joined segments) := by
  induction texts generalizing segments with
  | nil => contradiction
  | cons t texts ih =>
    rw [List.mapM_cons] at compiled
    obtain ⟨s, first, compiled⟩ := bind_eq_ok_iff.mp compiled
    obtain ⟨rest, later, compiled⟩ := bind_eq_ok_iff.mp compiled
    cases Except.ok.inj compiled
    obtain ⟨read, deep⟩ := Segment.compiled_of_compile first
    cases texts with
    | nil =>
      cases Except.ok.inj later
      rw [List.intercalate_singleton]
      exact read
    | cons u texts =>
      have tail := ih (List.cons_ne_nil u texts) (List.forall_mem_cons.mp clean).2
        (List.forall_mem_cons.mp filled).2 later
      have more : rest ≠ [] := by
        rintro rfl
        exact absurd (mapM_ok_iff.mp later) (by simp)
      rw [List.intercalate_cons_cons, List.append_assoc]
      by_cases recursive : s = .recursive
      · have below : ['/'].intercalate (u :: texts) ≠ [] := fun empty => List.cons_ne_nil u texts
          ((intercalate_eq_nil_iff (List.forall_mem_cons.mp filled).2).mp empty)
        obtain ⟨s', rest, rfl⟩ := List.exists_cons_of_ne_nil more
        rw [deep.mp recursive, recursive]
        exact .folders below tail
      · rw [joined_cons recursive more]
        exact read.append_slash (List.forall_mem_cons.mp clean).1 (fun _ => mt deep.mpr recursive)
          tail

theorem Trail.ne_nil {segments : List Segment} {names : List Text} (h : Trail segments names)
    (some : segments ≠ []) : names ≠ [] := by
  cases h with
  | done => contradiction
  | plain | dot | listed => exact List.cons_ne_nil _ _
  | deep some => exact some
  | descend => simp

theorem merge_ne_nil {segments : List Segment} (some : segments ≠ []) : merge segments ≠ [] := by
  fun_induction merge segments with
  | case1 rest ih => exact ih (List.cons_ne_nil _ _)
  | case2 => exact List.cons_ne_nil _ _
  | case3 => contradiction

theorem merge_cons {s : Segment} (shallow : s ≠ .recursive) (segments : List Segment) :
    merge (s :: segments) = s :: merge segments := by
  rw [merge]
  rintro rest rfl
  contradiction

/- A proper name that a segment takes anywhere is also taken as the next name. -/
theorem Trail.of_takes {s : Segment} {segments : List Segment} {name : Text} {names : List Text}
    (shallow : s ≠ .recursive) (proper : IsName name) (takes : s.takes name = true)
    (rest : Trail segments names) : Trail (s :: segments) (name :: names) := by
  cases s with
  | plain n =>
    rw [← of_decide_eq_true takes]
    exact .plain rest
  | listed pattern => exact .listed proper takes rest
  | recursive => contradiction

theorem fits_anything (t : Text) : Fits [.many .anything] t := by
  have all := Fits.many (w := t) (k := .anything) (fun _ _ => rfl) .nil
  rwa [List.append_nil] at all

/-- What a search goes down is taken by the pattern of the whole glob. -/
theorem fits_joined {segments : List Segment} {names : List Text}
    (h : Trail (merge segments) names) :
    Fits (joined segments) (['/'].intercalate names) := by
  fun_induction merge segments generalizing names with
  | case1 rest ih => exact .stay (ih h)
  | case2 s rest single ih =>
    by_cases recursive : s = .recursive
    · subst recursive
      cases rest with
      | nil => exact fits_anything _
      | cons t rest =>
        have shallow : t ≠ .recursive := by
          rintro rfl
          exact single rest rfl rfl
        rw [merge_cons shallow] at h ih
        cases h with
        | @descend _ name _ names more proper last takes below =>
          have next := ih (.of_takes shallow last takes below)
          cases names with
          | nil => exact .stay next
          | cons n names =>
            rw [intercalate_append (List.cons_ne_nil n names) (List.cons_ne_nil name more)]
            exact .descend _ next
    · obtain ⟨name, more, rfl, fits, later⟩ := h.head recursive
      cases rest with
      | nil =>
        cases later
        rw [List.intercalate_singleton]
        exact fits
      | cons t rest =>
        have some := later.ne_nil (merge_ne_nil (List.cons_ne_nil t rest))
        rw [joined_cons recursive (List.cons_ne_nil t rest),
          List.intercalate_cons_of_ne_nil some, List.append_assoc]
        exact fits.append (.one rfl (ih later))
  | case3 =>
    cases h
    exact .nil

theorem head_merge (s : Segment) (segments : List Segment) :
    ∃ rest, merge (s :: segments) = s :: rest := by
  induction segments generalizing s with
  | nil => exact ⟨[], by simp [merge]⟩
  | cons t segments ih =>
    by_cases both : s = .recursive ∧ t = .recursive
    · obtain ⟨rfl, rfl⟩ := both
      rw [merge]
      exact ih .recursive
    · refine ⟨merge (t :: segments), ?_⟩
      rw [merge]
      rintro rest rfl same
      exact both ⟨rfl, (List.cons.inj same).1⟩

/- A dot at the start of the way is asked for by the first segment. -/
theorem Trail.of_here {s : Segment} {segments : List Segment} {more : List Text}
    (h : Trail (s :: segments) (['.'] :: more)) : s ≠ .recursive ∧ Fits s.pieces ['.'] ∧
      ∃ q, s.pieces = .one (.exactly '.') :: q := by
  have improper : ¬IsName ['.'] := fun name => name.2.1 rfl
  generalize whole : ['.'] :: more = names at h
  cases h with
  | plain =>
    cases whole
    exact ⟨by simp, fits_exact_iff.mpr rfl, _, rfl⟩
  | dot dotted =>
    cases whole
    exact ⟨by simp, (Segment.mem_dots dotted).2⟩
  | listed name =>
    cases whole
    exact absurd name improper
  | deep _ all => exact absurd (all _ (whole ▸ List.mem_cons_self)) improper
  | @descend _ name _ names _ all last =>
    cases names with
    | nil =>
      obtain ⟨rfl, -⟩ := List.cons.inj whole
      exact absurd last improper
    | cons n names =>
      obtain ⟨rfl, -⟩ := List.cons.inj whole
      exact absurd (all _ List.mem_cons_self) improper

/- The search goes down to the root by the segments of the root. -/
theorem exists_trail_of_front {front : List Text} {rootSegments segments : List Segment}
    {names : List Text} (compiled : (front.map escape).mapM Segment.compile = .ok rootSegments)
    (trail : Trail (merge (rootSegments ++ segments)) names) :
    ∃ more, names = front ++ more ∧ Trail (merge segments) more := by
  induction front generalizing rootSegments names with
  | nil =>
    cases Except.ok.inj compiled
    exact ⟨names, rfl, trail⟩
  | cons t front ih =>
    rw [List.map_cons, List.mapM_cons] at compiled
    obtain ⟨s, first, compiled⟩ := bind_eq_ok_iff.mp compiled
    obtain ⟨rest, later, compiled⟩ := bind_eq_ok_iff.mp compiled
    cases Except.ok.inj compiled
    obtain ⟨shallow, only⟩ := pieces_of_escape first
    rw [List.cons_append, merge_cons shallow] at trail
    obtain ⟨name, more, rfl, fits, trail⟩ := trail.head shallow
    obtain ⟨more, rfl, below⟩ := ih later trail
    rw [(only name).mp fits]
    exact ⟨more, rfl, below⟩

end Glob

end Unalias
