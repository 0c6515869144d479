import Mathlib.Data.List.Basic
import Unalias.Alias.Table
import Unalias.Proofs.Specifier.Dressed

/-! The form of a relative name. Its segments are always in normal form, and it ends in a slash
where the old name does. It is looked up from the folder of the file, unless it begins with a name
that begins with a dot itself: then no dot and slash are put in front. -/
namespace Unalias

theorem head?_of_splitOn {text first : Text} {rest : List Text}
    (h : text.splitOn '/' = first :: rest) (some : first ≠ []) : text.head? = first.head? := by
  obtain ⟨c, first, rfl⟩ := List.exists_cons_of_ne_nil some
  have whole : ['/'].intercalate ((c :: first) :: rest) = text := by
    rw [← h]
    exact List.intercalate_splitOn '/'
  rw [← whole]
  cases rest with
  | nil => rfl
  | cons s rest =>
    rw [List.intercalate_cons_cons]
    rfl

namespace Route

/-- The route goes straight down, and first to a name that begins with a dot. -/
def Hidden (r : Route) : Prop := r.up = 0 ∧ ∃ n, r.trail.getLast? = some n ∧ n.head? = some '.'

variable {r : Route}

theorem Hidden.segments_ne_nil (hidden : r.Hidden) : r.segments ≠ [] := by
  obtain ⟨-, n, last, -⟩ := hidden
  exact List.append_ne_nil_of_right_ne_nil _
    (mt List.reverse_eq_nil_iff.mp (List.ne_nil_of_mem (List.mem_of_getLast? last)))

variable (h : r.Proper)

include h

/- As no segment is empty, the text of a route ends in none. -/
theorem getLast?_toText : r.toText.getLast? ≠ some '/' := by
  intro slash
  obtain ⟨t, ht⟩ := List.getLast?_eq_some_iff.mp slash
  have moves : r.segments ≠ [] := by
    rw [Ne, ← toText_eq_nil_iff h, ht]
    exact List.append_ne_nil_of_right_ne_nil t (List.cons_ne_nil _ _)
  have cut : r.segments = t.splitOn '/' ++ [[]] := by
    rw [← splitOn_toText h moves, ht]
    exact List.splitOn_append_cons_self t []
  exact ne_nil_of_mem_segments h (cut ▸ List.mem_append_right _ List.mem_cons_self) rfl

/- The first segment is a step up, or else the outermost name. -/
theorem first_segment {first : Text} {rest : List Text} (hs : r.segments = first :: rest) :
    (first = ['.', '.'] ∧ ¬r.Hidden) ∨
      (IsName first ∧ (r.Hidden ↔ first.head? = some '.')) := by
  cases hu : r.up with
  | succ up =>
    left
    rw [segments, hu] at hs
    refine ⟨(List.cons.inj hs).1.symm, fun hidden => ?_⟩
    rw [hidden.1] at hu
    contradiction
  | zero =>
    right
    have down : r.trail.reverse = first :: rest := by
      rw [← hs, segments, hu]
      rfl
    have last : r.trail.getLast? = some first := by
      rw [← List.head?_reverse, down, List.head?_cons]
    refine ⟨h first (List.mem_of_getLast? last), ?_, fun dot => ⟨hu, first, last, dot⟩⟩
    rintro ⟨-, n, hn, dot⟩
    obtain rfl : first = n := Option.some.inj (last.symm.trans hn)
    exact dot

end Route

/-- The name of a module that is looked up from the folder of the file. -/
def IsRelative (name : Text) : Prop :=
  ['.', '/'] <+: name ∨ ['.', '.', '/'] <+: name ∨ name = ['.', '.']

instance (name : Text) : Decidable (IsRelative name) :=
  inferInstanceAs (Decidable (_ ∨ _ ∨ _))

/-- Steps up and then names, with a dot in front or none, and a slash behind or none. -/
def IsCanonical (name : Text) : Prop :=
  ∃ front ups names behind,
    name.splitOn '/' = front ++ (List.replicate ups ['.', '.'] ++ names ++ behind) ∧
      (front = [] ∨ front = [['.']]) ∧ (∀ n ∈ names, IsName n) ∧ (behind = [] ∨ behind = [[]])

theorem first_of_isRelative {name : Text} (h : IsRelative name) :
    ∃ first rest, name.splitOn '/' = first :: rest ∧ ¬IsName first := by
  rcases h with ⟨t, rfl⟩ | ⟨t, rfl⟩ | rfl
  · exact ⟨['.'], t.splitOn '/', List.splitOn_append_cons_self ['.'] t, fun name => name.2.1 rfl⟩
  · exact ⟨['.', '.'], t.splitOn '/', List.splitOn_append_cons_self ['.', '.'] t,
      fun name => name.2.2.1 rfl⟩
  · exact ⟨['.', '.'], [], rfl, fun name => name.2.2.1 rfl⟩

theorem isRelative_of_splitOn {name : Text} {rest : List Text}
    (h : name.splitOn '/' = ['.', '.'] :: rest ∨ name.splitOn '/' = ['.'] :: rest ∧ rest ≠ []) :
    IsRelative name := by
  have whole : ['/'].intercalate (name.splitOn '/') = name := List.intercalate_splitOn '/'
  rw [← whole]
  rcases h with cut | ⟨cut, more⟩
  · rw [cut]
    cases rest with
    | nil => exact .inr (.inr rfl)
    | cons s rest =>
      rw [List.intercalate_cons_cons]
      exact .inr (.inl ⟨_, rfl⟩)
  · obtain ⟨s, rest, rfl⟩ := List.exists_cons_of_ne_nil more
    rw [cut, List.intercalate_cons_cons]
    exact .inl ⟨_, rfl⟩

namespace Rule

/-- What stands behind the last slash of a name, if that is to close it. -/
def behind (closing : Bool) : List Text := if closing then [[]] else []

section dressed

variable (closing : Bool) {r : Route} (h : r.Proper)

include h

/- A route that moves keeps its segments, and they get a dot in front if they have none. -/
theorem splitOn_dressed :
    (r.segments = [] ∧ dressed closing r.toText = ['.', '/']) ∨
    ∃ first rest, r.segments = first :: rest ∧
      ((first.head? = some '.' ∧
          (dressed closing r.toText).splitOn '/' = r.segments ++ behind closing) ∨
        (first.head? ≠ some '.' ∧
          (dressed closing r.toText).splitOn '/' = ['.'] :: (r.segments ++ behind closing))) := by
  rcases dressed_cases closing r.toText with ⟨empty, hd⟩ | ⟨moves, name, hname, hd⟩
  · exact .inl ⟨(Route.toText_eq_nil_iff h).mp empty, hd⟩
  · right
    have more : r.segments ≠ [] := mt (Route.toText_eq_nil_iff h).mpr moves
    obtain ⟨first, rest, hs⟩ := List.exists_cons_of_ne_nil more
    have cut : name.splitOn '/' = r.segments ++ behind closing := by
      rw [hname, ← Route.splitOn_toText h more]
      cases closing with
      | false => exact (List.append_nil _).symm
      | true => exact List.splitOn_append_cons_self r.toText []
    have begins : name.splitOn '/' = first :: (rest ++ behind closing) := by
      rw [cut, hs, List.cons_append]
    have front : name.head? = first.head? :=
      head?_of_splitOn begins (Route.ne_nil_of_mem_segments h (hs ▸ List.mem_cons_self))
    refine ⟨first, rest, hs, ?_⟩
    rw [← front]
    rcases hd with ⟨dot, hd⟩ | ⟨bare, hd⟩
    · exact .inl ⟨dot, hd ▸ cut⟩
    · refine .inr ⟨bare, ?_⟩
      rw [hd, ← cut]
      exact List.splitOn_append_cons_self ['.'] name

theorem isCanonical_dressed : IsCanonical (dressed closing r.toText) := by
  have names : ∀ n ∈ r.trail.reverse, IsName n := fun n hn => h n (List.mem_reverse.mp hn)
  have last : behind closing = [] ∨ behind closing = [[]] := by cases closing <;> simp [behind]
  rcases splitOn_dressed closing h with ⟨-, hd⟩ | ⟨first, rest, -, ⟨-, cut⟩ | ⟨-, cut⟩⟩
  · rw [hd]
    exact ⟨[['.']], 0, [], [[]], rfl, .inr rfl, by simp, .inr rfl⟩
  · exact ⟨[], r.up, r.trail.reverse, behind closing, cut, .inl rfl, names, last⟩
  · exact ⟨[['.']], r.up, r.trail.reverse, behind closing, cut, .inr rfl, names, last⟩

theorem getLast?_dressed :
    (dressed closing r.toText).getLast? = some '/' ↔
      closing = true ∨ dressed closing r.toText = ['.', '/'] := by
  rcases dressed_cases closing r.toText with ⟨-, hd⟩ | ⟨moves, name, hname, hd⟩
  · rw [hd]
    exact iff_of_true rfl (.inr rfl)
  · cases closing with
    | true =>
      refine iff_of_true ?_ (.inl rfl)
      have last : name = r.toText ++ ['/'] := hname
      rcases hd with ⟨-, hd⟩ | ⟨-, hd⟩
      · rw [hd, last, List.getLast?_concat]
      · rw [hd, last, ← List.append_assoc, List.getLast?_concat]
    | false =>
      have last : name = r.toText := hname
      have plain := Route.getLast?_toText h
      have unslashed : (dressed false r.toText).getLast? ≠ some '/' := by
        rcases hd with ⟨-, hd⟩ | ⟨-, hd⟩
        · rwa [hd, last]
        · rwa [hd, last, List.getLast?_append_of_ne_nil _ moves]
      refine iff_of_false unslashed ?_
      rintro (closed | hd)
      · contradiction
      · rw [hd] at unslashed
        exact unslashed rfl

theorem isRelative_dressed : IsRelative (dressed closing r.toText) ↔ ¬r.Hidden := by
  rcases splitOn_dressed closing h with ⟨stays, hd⟩ | ⟨first, rest, hs, ⟨dot, cut⟩ | ⟨bare, cut⟩⟩
  · rw [hd]
    exact iff_of_true (.inl List.prefix_rfl) fun hidden => hidden.segments_ne_nil stays
  · rw [hs] at cut
    rcases Route.first_segment h hs with ⟨rfl, seen⟩ | ⟨name, hidden⟩
    · exact iff_of_true (isRelative_of_splitOn (.inl cut)) seen
    · refine iff_of_false (fun relative => ?_) (not_not_intro (hidden.mpr dot))
      obtain ⟨front, more, other, unnamed⟩ := first_of_isRelative relative
      obtain ⟨rfl, -⟩ := List.cons.inj (cut.symm.trans other)
      exact unnamed name
  · have more : r.segments ++ behind closing ≠ [] := by
      rw [hs]
      exact List.cons_ne_nil _ _
    refine iff_of_true (isRelative_of_splitOn (.inr ⟨cut, more⟩)) ?_
    rcases Route.first_segment h hs with ⟨-, seen⟩ | ⟨-, hidden⟩
    · exact seen
    · exact mt hidden.mp bare

end dressed

/-- The way from the folder of the file to the module, in normal form. -/
def route (r : Rule) (file : Path) (name : Text) : Route :=
  (Route.ofText (Path.relativeTo (file.parent?.getD ⟨[]⟩) r.folder)).follow (r.remainder name)

theorem proper_route (r : Rule) (file : Path) (name : Text) : (r.route file name).Proper :=
  Route.proper_follow _ (Route.proper_ofText _)

/-- The new name of a module is canonical and ends as the old one does. It is a relative one
exactly when the way to the module does not begin with a name that begins with a dot. -/
theorem relativeName_canonical (r : Rule) (file : Path) (name : Text) :
    let new := r.relativeName file name
    IsCanonical new ∧
      (new.getLast? = some '/' ↔ name.getLast? = some '/' ∨ new = ['.', '/']) ∧
      (IsRelative new ↔ ¬(r.route file name).Hidden) := by
  intro new
  let closing : Bool := name.getLast? = some '/'
  have proper := proper_route r file name
  have form : new = dressed closing (r.route file name).toText := rfl
  rw [form]
  refine ⟨isCanonical_dressed closing proper, ?_, isRelative_dressed closing proper⟩
  exact (getLast?_dressed closing proper).trans (or_congr_left decide_eq_true_iff)

/-- A module in a folder whose name begins with a dot gets a bare name, as if it came from
outside of the project. -/
theorem relativeName_hidden :
    let config : Config := ⟨⟨"/r".toList⟩, [⟨"@c/*".toList, [".config/*".toList]⟩]⟩
    let r : Rule := ⟨"@c/*".toList, ⟨"/r/.config".toList⟩⟩
    let file : Path := ⟨"/r/main.ts".toList⟩
    let folder : Path := ⟨"/r".toList⟩
    let name := "@c/x".toList
    let compiles (_ : Text) := true
    r ∈ (Table.build compiles config []).rules ∧ r.accepts name = true ∧
      file.parent? = some folder ∧ folder.isAbsolute = true ∧ r.folder.isAbsolute = true ∧
      r.relativeName file name = ".config/x".toList ∧ ¬IsRelative (r.relativeName file name) := by
  intro config r file folder name compiles
  have built : Table.build compiles config [] = ⟨[r]⟩ :=
    congrArg Table.mk (List.mergeSort_singleton _)
  have inside : file.parent? = some folder := by decide
  have new : r.relativeName file name = ".config/x".toList := by decide
  refine ⟨?_, by decide, inside, rfl, rfl, new, ?_⟩
  · rw [built]
    exact List.mem_singleton_self r
  · rw [new]
    decide

end Rule
end Unalias
