import Mathlib.Data.List.TakeWhile
import Unalias.Path.Relative
import Unalias.Proofs.Segment

/-! A path as the steps that it takes from its root or from nowhere, and what putting one path
under another and cutting off the last component do to the steps. -/
namespace Unalias.Path

/-- The components after the root, without a `.` at the start. -/
def steps (p : Path) : List Component := p.split.2.filterMap Component.ofSegment

/- Where the steps start from. -/
def origin (p : Path) : List Component := if p.isAbsolute then [.root] else []

theorem split_cases (p : Path) :
    (p.split.1 = .root ∧ p.text.splitOn '/' = [] :: p.split.2) ∨
    (p.split.1 = .here ∧ p.text.splitOn '/' = ['.'] :: p.split.2) ∨
    (p.split.1 = .bare ∧ p.text.splitOn '/' = p.split.2) := by
  unfold split
  split
  · exact .inl ⟨rfl, by assumption⟩
  · exact .inr (.inl ⟨rfl, by assumption⟩)
  · exact .inr (.inr ⟨rfl, rfl⟩)

theorem mem_split {p : Path} {s : Text} (h : s ∈ p.split.2) : s ∈ p.text.splitOn '/' := by
  rcases p.split_cases with ⟨-, cut⟩ | ⟨-, cut⟩ | ⟨-, cut⟩ <;> rw [cut]
  · exact List.mem_cons_of_mem _ h
  · exact List.mem_cons_of_mem _ h
  · exact h

theorem steps_eq (p : Path) : p.steps = (p.text.splitOn '/').filterMap Component.ofSegment := by
  rcases p.split_cases with ⟨-, h⟩ | ⟨-, h⟩ | ⟨-, h⟩ <;> rw [h] <;> rfl

theorem anchor_eq_root_iff {p : Path} : p.split.1 = .root ↔ p.isAbsolute = true := by
  constructor
  · intro h
    have whole := p.ofParts_split
    rw [h] at whole
    rw [← whole]
    rfl
  · intro h
    obtain ⟨text⟩ := p
    have slash : text.head? = some '/' := by simpa [isAbsolute] using h
    obtain ⟨rest, rfl⟩ := List.head?_eq_some_iff.mp slash
    have cut : ('/' :: rest).splitOn '/' = [] :: rest.splitOn '/' :=
      List.splitOn_append_cons_self [] rest
    obtain ⟨s, segments, hs⟩ := List.exists_cons_of_ne_nil (List.splitOn_ne_nil '/' rest)
    simp only [split, cut, hs]

theorem splitOn_of_isAbsolute {p : Path} (absolute : p.isAbsolute = true) :
    p.text.splitOn '/' = [] :: p.split.2 := by
  have root := anchor_eq_root_iff.mpr absolute
  rcases p.split_cases with ⟨-, cut⟩ | ⟨other, -⟩ | ⟨other, -⟩
  · exact cut
  · exact absurd (root.symm.trans other) (by decide)
  · exact absurd (root.symm.trans other) (by decide)

theorem normal_eq (p : Path) : p.normal = (p.steps.foldl advance p.origin).reverse := by
  have start : p.split.1.components.foldl advance [] = p.origin := by
    rw [origin]
    by_cases h : p.split.1 = .root
    · rw [if_pos (anchor_eq_root_iff.mp h), h]
      rfl
    · rw [if_neg (mt anchor_eq_root_iff.mpr h)]
      cases ha : p.split.1 with
      | root => exact absurd ha h
      | here => rfl
      | bare => rfl
  rw [normal, components, List.foldl_append, start, steps]

theorem steps_ne_nil {p : Path} (relative : p.isAbsolute = false)
    (named : ∃ c ∈ p.components, c ≠ .here) : p.steps ≠ [] := by
  obtain ⟨c, hc, other⟩ := named
  rcases List.mem_append.mp hc with hc | hc
  · cases ha : p.split.1 with
    | root =>
      rw [anchor_eq_root_iff.mp ha] at relative
      contradiction
    | here =>
      rw [ha] at hc
      exact absurd (List.mem_singleton.mp hc) other
    | bare =>
      rw [ha] at hc
      cases hc
  · exact List.ne_nil_of_mem hc

section join

/- What stands between a folder and a path that is put under it. -/
def separator (t : Text) : Text := if t = [] ∨ t.getLast? = some '/' then [] else ['/']

theorem separator_append (s : Text) {t : Text} (some : t ≠ []) :
    separator (s ++ t) = separator t := by
  obtain ⟨c, hc⟩ := Option.ne_none_iff_exists'.mp (mt List.getLast?_eq_none_iff.mp some)
  simp [separator, some, List.getLast?_append, hc]

theorem separator_closed (t : Text) : separator (t ++ separator t) = [] := by
  by_cases closed : t = [] ∨ t.getLast? = some '/'
  · rw [separator, separator, if_pos closed, List.append_nil, if_pos closed]
  · rw [separator, separator, if_neg closed, if_pos (.inr (by simp))]

theorem join_of_isAbsolute (base : Path) {p : Path} (h : p.isAbsolute = true) : base.join p = p :=
  if_pos h

theorem join_of_relative (base : Path) {p : Path} (h : p.isAbsolute = false) :
    base.join p = ⟨base.text ++ separator base.text ++ p.text⟩ := by
  unfold join separator
  rw [if_neg (by simp [h])]
  split <;> simp

theorem isAbsolute_of_clean {name : Text} (clean : '/' ∉ name) : isAbsolute ⟨name⟩ = false :=
  decide_eq_false fun slash => clean (List.mem_of_mem_head? slash)

theorem text_ne_nil_of_isAbsolute {p : Path} (h : p.isAbsolute = true) : p.text ≠ [] := by
  intro empty
  simp [isAbsolute, empty] at h

theorem isAbsolute_append {s : Text} (some : s ≠ []) (t : Text) :
    isAbsolute ⟨s ++ t⟩ = isAbsolute ⟨s⟩ := by
  obtain ⟨c, s, rfl⟩ := List.exists_cons_of_ne_nil some
  rfl

theorem isAbsolute_of_begins {p q : Path} (h : p.text <+: q.text) (absolute : p.isAbsolute = true) :
    q.isAbsolute = true := by
  obtain ⟨rest, hrest⟩ := h
  have same := isAbsolute_append (text_ne_nil_of_isAbsolute absolute) rest
  rw [hrest] at same
  exact same.trans absolute

theorem isAbsolute_join {base : Path} (h : base.isAbsolute = true) (p : Path) :
    (base.join p).isAbsolute = true := by
  have some := text_ne_nil_of_isAbsolute h
  cases hp : p.isAbsolute with
  | true => rw [join_of_isAbsolute _ hp, hp]
  | false => rw [join_of_relative base hp, List.append_assoc, isAbsolute_append some, h]

theorem isAbsolute_join_of_relative {base p : Path} (hb : base.isAbsolute = false)
    (h : p.isAbsolute = false) : (base.join p).isAbsolute = false := by
  rw [join_of_relative base h]
  by_cases empty : base.text = []
  · rw [empty]
    exact h
  · rw [List.append_assoc, isAbsolute_append empty, hb]

/-- A path is the same whether it is put under two folders one by one or under both at once. -/
theorem join_join (a b c : Path) : (a.join b).join c = a.join (b.join c) := by
  cases hc : c.isAbsolute with
  | true => rw [join_of_isAbsolute _ hc, join_of_isAbsolute _ hc, join_of_isAbsolute _ hc]
  | false =>
    cases hb : b.isAbsolute with
    | true => rw [join_of_isAbsolute _ hb, join_of_isAbsolute _ (isAbsolute_join hb c)]
    | false =>
      rw [join_of_relative _ hc, join_of_relative _ hb,
        join_of_relative a (isAbsolute_join_of_relative hb hc), join_of_relative b hc]
      by_cases empty : b.text = []
      · simp only [empty, List.append_nil, List.nil_append, separator_closed]
        rfl
      · rw [separator_append _ empty]
        simp only [List.append_assoc]

theorem steps_join (base : Path) {p : Path} (h : p.isAbsolute = false) :
    (base.join p).steps = base.steps ++ p.steps := by
  have slash (s t : Text) : ((s ++ '/' :: t).splitOn '/').filterMap Component.ofSegment =
      (s.splitOn '/').filterMap Component.ofSegment ++
        (t.splitOn '/').filterMap Component.ofSegment := by
    rw [List.splitOn_append_cons_self, List.filterMap_append]
  rw [join_of_relative base h, steps_eq, steps_eq, steps_eq, separator]
  by_cases empty : base.text = []
  · rw [if_pos (.inl empty), empty]
    rfl
  · by_cases closed : base.text.getLast? = some '/'
    · obtain ⟨front, hfront⟩ := List.getLast?_eq_some_iff.mp closed
      rw [if_pos (.inr closed), List.append_nil, hfront, List.append_assoc, List.singleton_append,
        slash, slash]
      exact congrArg (· ++ _) (List.append_nil _).symm
    · rw [if_neg (not_or.mpr ⟨empty, closed⟩), List.append_assoc, List.singleton_append, slash]

end join

section parent

theorem ofSegment_eq_none_iff {s : Text} : Component.ofSegment s = none ↔ isIdle s = true := by
  unfold Component.ofSegment isIdle
  by_cases idle : s = [] ∨ s = ['.']
  · rw [if_pos idle]
    simpa using idle
  · rw [if_neg idle]
    split <;> simpa using idle

theorem text_of_ofSegment {s : Text} {c : Component} (h : Component.ofSegment s = some c) :
    c.text = s := by
  unfold Component.ofSegment at h
  split at h
  · contradiction
  · split at h
    · rename_i up
      rw [← Option.some.inj h, up]
      rfl
    · rw [← Option.some.inj h]
      rfl

theorem filterMap_dropWhile (segments : List Text) :
    (segments.dropWhile isIdle).filterMap Component.ofSegment =
      segments.filterMap Component.ofSegment := by
  induction segments with
  | nil => rfl
  | cons s segments ih =>
    cases idle : isIdle s with
    | true =>
      rw [List.dropWhile_cons_of_pos idle, List.filterMap_cons_none (ofSegment_eq_none_iff.mpr idle),
        ih]
    | false => rw [List.dropWhile_cons_of_neg (by simp [idle])]

theorem filterMap_settle (segments : List Text) :
    (settle segments).filterMap Component.ofSegment =
      segments.filterMap Component.ofSegment := by
  rw [settle, List.filterMap_reverse, filterMap_dropWhile, ← List.filterMap_reverse,
    List.reverse_reverse]

theorem settle_begins (segments : List Text) : settle segments <+: segments := by
  have suffix := List.dropWhile_suffix (l := segments.reverse) isIdle
  simpa [settle] using List.reverse_prefix.mpr suffix

theorem steps_ofParts {segments : List Text} (clean : ∀ s ∈ segments, '/' ∉ s) (a : Anchor) :
    (ofParts a segments).steps = segments.filterMap Component.ofSegment := by
  have kept {segments : List Text} (clean : ∀ s ∈ segments, '/' ∉ s) :
      ((['/'].intercalate segments).splitOn '/').filterMap Component.ofSegment =
        segments.filterMap Component.ofSegment := by
    cases segments with
    | nil => rfl
    | cons s segments => rw [List.splitOn_intercalate '/' clean (List.cons_ne_nil s segments)]
  rw [steps_eq]
  cases a with
  | root =>
    have cut : ('/' :: ['/'].intercalate segments).splitOn '/' =
        [] :: (['/'].intercalate segments).splitOn '/' :=
      List.splitOn_append_cons_self [] _
    rw [ofParts, cut, ← kept clean]
    rfl
  | here =>
    have dotted : ∀ s ∈ ['.'] :: segments, '/' ∉ s :=
      List.forall_mem_cons.mpr ⟨by decide, clean⟩
    exact kept dotted
  | bare => exact kept clean

theorem text_ofParts_begins {front segments : List Text} (h : front <+: segments) (a : Anchor) :
    (ofParts a front).text <+: (ofParts a segments).text := by
  have joined {front segments : List Text} (h : front <+: segments) :
      ['/'].intercalate front <+: ['/'].intercalate segments := by
    obtain ⟨rest, rfl⟩ := h
    induction front with
    | nil => exact List.nil_prefix
    | cons s front ih =>
      cases front with
      | nil =>
        cases rest with
        | nil => exact List.prefix_refl _
        | cons t rest =>
          rw [List.singleton_append, List.intercalate_cons_cons, List.append_assoc,
            List.intercalate_singleton]
          exact List.prefix_append _ _
      | cons t front =>
        rw [List.cons_append, List.cons_append, List.intercalate_cons_cons,
          List.intercalate_cons_cons]
        exact List.prefix_append_right_inj _ |>.mpr ih
  cases a with
  | root => exact (List.prefix_cons_inj '/').mpr (joined h)
  | here => exact joined ((List.prefix_cons_inj ['.']).mpr h)
  | bare => exact joined h

/-- A path that takes a step lies in a folder, which takes all steps but the last. -/
theorem exists_parent? {p : Path} (moves : p.steps ≠ []) :
    ∃ folder, p.parent? = some folder ∧ folder.steps = p.steps.dropLast ∧
      folder.isAbsolute = p.isAbsolute := by
  have turned : (p.split.2.reverse.dropWhile isIdle).filterMap Component.ofSegment =
      p.steps.reverse := by
    rw [filterMap_dropWhile, List.filterMap_reverse, steps]
  cases cut : p.split.2.reverse.dropWhile isIdle with
  | nil =>
    rw [cut] at turned
    exact absurd (List.reverse_eq_nil_iff.mp turned.symm) moves
  | cons s before =>
    have busy : isIdle s = false := by
      have first := List.head?_dropWhile_not isIdle p.split.2.reverse
      simpa [cut] using first
    obtain ⟨c, hc⟩ := Option.ne_none_iff_exists'.mp
      (mt ofSegment_eq_none_iff.mp (by simp [busy] : ¬isIdle s = true))
    rw [cut, List.filterMap_cons_some hc] at turned
    have last : p.steps = before.reverse.filterMap Component.ofSegment ++ [c] := by
      rw [← List.reverse_reverse p.steps, ← turned, List.reverse_cons, List.filterMap_reverse]
    have front : settle before.reverse <+: p.split.2 := by
      have suffix : before <:+ p.split.2.reverse :=
        (List.suffix_cons s before).trans (cut ▸ List.dropWhile_suffix isIdle)
      exact (settle_begins before.reverse).trans
        (by simpa using List.reverse_prefix.mpr suffix)
    have clean : ∀ s ∈ settle before.reverse, '/' ∉ s :=
      fun s hs => not_mem_of_mem_splitOn (mem_split (front.subset hs))
    refine ⟨ofParts p.split.1 (settle before.reverse), by simp [parent?, cut], ?_, ?_⟩
    · rw [steps_ofParts clean, filterMap_settle, last, List.dropLast_concat]
    · cases absolute : p.isAbsolute with
      | true =>
        rw [anchor_eq_root_iff.mpr absolute]
        rfl
      | false =>
        rw [Bool.eq_false_iff]
        intro above
        have begins := text_ofParts_begins front p.split.1
        rw [ofParts_split] at begins
        rw [isAbsolute_of_begins begins above] at absolute
        contradiction

/- Without steps there is no segment to cut off. -/
theorem dropWhile_of_steps_eq_nil {p : Path} (still : p.steps = []) :
    p.split.2.reverse.dropWhile isIdle = [] := by
  rw [List.dropWhile_eq_nil_iff]
  intro s hs
  exact ofSegment_eq_none_iff.mp (List.filterMap_eq_nil_iff.mp still s (List.mem_reverse.mp hs))

/-- An absolute path lies in an absolute folder, or it is the root and lies nowhere. -/
theorem parent?_of_isAbsolute {p : Path} (absolute : p.isAbsolute = true) :
    p.parent? = none ∨ ∃ folder, p.parent? = some folder ∧ folder.isAbsolute = true := by
  by_cases moves : p.steps = []
  · left
    simp [parent?, dropWhile_of_steps_eq_nil moves, anchor_eq_root_iff.mpr absolute]
  · right
    obtain ⟨folder, parent, -, same⟩ := exists_parent? moves
    exact ⟨folder, parent, same.trans absolute⟩

theorem parent?_getD_of_steps_eq_nil {p : Path} (still : p.steps = []) :
    p.parent?.getD ⟨[]⟩ = ⟨[]⟩ := by
  rw [parent?, dropWhile_of_steps_eq_nil still]
  cases p.split.1 <;> rfl

end parent

section spelling

variable {p q : Path}

theorem plain_of_mem_steps {c : Component} (h : c ∈ p.steps) : c ≠ .root ∧ c ≠ .here := by
  obtain ⟨s, -, step⟩ := List.mem_filterMap.mp h
  unfold Component.ofSegment at step
  split at step
  · contradiction
  · split at step <;> exact Option.some.inj step ▸ ⟨nofun, nofun⟩

theorem steps_eq_filter (p : Path) :
    p.steps = p.components.filter fun c => c ≠ .root ∧ c ≠ .here := by
  have anchor : p.split.1.components.filter (fun c => c ≠ .root ∧ c ≠ .here) = [] := by
    cases p.split.1 <;> rfl
  rw [components, List.filter_append, anchor, List.nil_append]
  exact (List.filter_eq_self.mpr fun c hc => decide_eq_true (plain_of_mem_steps hc)).symm

theorem root_mem_components_iff : .root ∈ p.components ↔ p.isAbsolute = true := by
  have starts : .root ∈ p.split.1.components ↔ p.split.1 = .root := by
    cases p.split.1 <;> decide
  have goes : .root ∉ p.steps := fun h => (plain_of_mem_steps h).1 rfl
  rw [← anchor_eq_root_iff, ← starts]
  exact List.mem_append.trans (or_iff_left goes)

/-- Paths with the same components start from the same place and take the same steps. -/
theorem steps_congr (same : p.components = q.components) :
    p.steps = q.steps ∧ p.isAbsolute = q.isAbsolute := by
  constructor
  · rw [steps_eq_filter, steps_eq_filter, same]
  · rw [Bool.eq_iff_iff, ← root_mem_components_iff, ← root_mem_components_iff, same]

/-- The folder of a file is known from the components of the file. -/
theorem normal_folder_congr (same : p.components = q.components) :
    (p.parent?.getD ⟨[]⟩).normal = (q.parent?.getD ⟨[]⟩).normal := by
  obtain ⟨steps, start⟩ := steps_congr same
  by_cases still : p.steps = []
  · rw [parent?_getD_of_steps_eq_nil still, parent?_getD_of_steps_eq_nil (steps ▸ still)]
  · obtain ⟨above, hp, short, from_p⟩ := exists_parent? still
    obtain ⟨above', hq, short', from_q⟩ := exists_parent? (steps ▸ still)
    have start' : above.isAbsolute = above'.isAbsolute := from_p.trans (start.trans from_q.symm)
    rw [hp, hq, Option.getD_some, Option.getD_some, normal_eq, normal_eq, origin, origin, start',
      short, short', steps]

end spelling

end Unalias.Path
