import Unalias.CommandLine.Options
import Unalias.Proofs.Discovery.Mirrored

/-! The exclude that stands when none is given takes what lies in a folder of one name, at any
depth. It asks for a slash behind the name, so a path that is written with a slash at its end is
taken for its last component too. -/
namespace Unalias

theorem exists_of_mem_dropLast {α : Type} {as : List α} {a : α} (h : a ∈ as.dropLast) :
    ∃ before after, as = before ++ a :: after ∧ after ≠ [] := by
  obtain ⟨before, after, front⟩ := List.append_of_mem h
  rcases List.eq_nil_or_concat' as with rfl | ⟨all, last, rfl⟩
  · cases h
  · rw [List.dropLast_concat] at front
    exact ⟨before, after ++ [last], by simp [front], by simp⟩

theorem mem_dropLast_of_infix {α : Type} {as bs : List α} {a : α} (h : a ∈ as.dropLast)
    (inside : as <:+: bs) : a ∈ bs.dropLast := by
  obtain ⟨before, after, rfl, more⟩ := exists_of_mem_dropLast h
  obtain ⟨front, back, rfl⟩ := inside
  have later : after ++ back ≠ [] := List.append_ne_nil_of_left_ne_nil more back
  rw [List.append_assoc, List.append_assoc, List.cons_append,
    List.dropLast_append_of_ne_nil (by simp), List.dropLast_append_of_ne_nil (by simp),
    List.dropLast_cons_of_ne_nil later]
  simp

theorem mem_dropLast_cons_iff {α : Type} {as : List α} {a b : α} (other : a ≠ b) :
    a ∈ (b :: as).dropLast ↔ a ∈ as.dropLast := by
  cases as with
  | nil => simp
  | cons c as =>
    rw [List.dropLast_cons_of_ne_nil (List.cons_ne_nil c as), List.mem_cons, or_iff_right other]

/- A segment that is not the last one has a slash behind it, and a slash or nothing before it. -/
theorem mem_dropLast_splitOn_iff {name t : Text} (clean : '/' ∉ name) :
    name ∈ (t.splitOn '/').dropLast ↔ (∃ rest, t = name ++ '/' :: rest) ∨
      ∃ above rest, t = above ++ '/' :: (name ++ '/' :: rest) := by
  have cut (rest : Text) : (name ++ '/' :: rest).splitOn '/' = name :: rest.splitOn '/' := by
    rw [List.splitOn_append_cons_self, List.splitOn_eq_singleton clean]
    rfl
  have first (rest : Text) : name ∈ ((name ++ '/' :: rest).splitOn '/').dropLast := by
    rw [cut, List.dropLast_cons_of_ne_nil (List.splitOn_ne_nil '/' rest)]
    exact List.mem_cons_self
  constructor
  · intro h
    obtain ⟨before, after, whole, more⟩ := exists_of_mem_dropLast h
    have joined : ['/'].intercalate (t.splitOn '/') = t := List.intercalate_splitOn '/'
    have behind : ['/'].intercalate (name :: after) = name ++ '/' :: ['/'].intercalate after := by
      rw [List.intercalate_cons_of_ne_nil more, List.append_assoc]
      rfl
    rw [whole] at joined
    by_cases some : before = []
    · rw [some, List.nil_append, behind] at joined
      exact .inl ⟨_, joined.symm⟩
    · rw [intercalate_append some (List.cons_ne_nil name after), behind] at joined
      exact .inr ⟨_, _, joined.symm⟩
  · rintro (⟨rest, rfl⟩ | ⟨above, rest, rfl⟩)
    · exact first rest
    · rw [List.splitOn_append_cons_self]
      exact mem_dropLast_of_infix (first rest) (List.suffix_append _ _).isInfix

namespace Glob

/-- What a name between two recursive stars is compiled to. -/
def inside (name : Text) : Pattern :=
  .folders :: (exact name ++ [.one (.exactly '/'), .many .anything])

theorem fits_exact_append_iff {name t : Text} {q : Pattern} :
    Fits (exact name ++ q) t ↔ ∃ rest, t = name ++ rest ∧ Fits q rest := by
  induction name generalizing t with
  | nil => exact ⟨fun h => ⟨t, rfl, h⟩, fun ⟨_, same, h⟩ => same ▸ h⟩
  | cons c name ih =>
    constructor
    · intro h
      cases h with
      | one holds later =>
        obtain ⟨rest, rfl, fits⟩ := ih.mp later
        rw [of_decide_eq_true holds]
        exact ⟨rest, rfl, fits⟩
    · rintro ⟨rest, rfl, fits⟩
      exact .one (decide_eq_true rfl) (ih.mpr ⟨rest, rfl, fits⟩)

theorem fits_slash_iff {t : Text} :
    Fits [.one (.exactly '/'), .many .anything] t ↔ ∃ rest, t = '/' :: rest := by
  constructor
  · intro h
    cases h with
    | one holds _ =>
      rw [of_decide_eq_true holds]
      exact ⟨_, rfl⟩
  · rintro ⟨rest, rfl⟩
    exact .one rfl (fits_anything rest)

/-- It takes the texts in which the name is a segment, and not the last. -/
theorem fits_inside_iff {name t : Text} (clean : '/' ∉ name) :
    Fits (inside name) t ↔ name ∈ (t.splitOn '/').dropLast := by
  have after {u : Text} : Fits (exact name ++ [.one (.exactly '/'), .many .anything]) u ↔
      ∃ rest, u = name ++ '/' :: rest := by
    rw [fits_exact_append_iff]
    constructor
    · rintro ⟨_, rfl, fits⟩
      obtain ⟨rest, rfl⟩ := fits_slash_iff.mp fits
      exact ⟨rest, rfl⟩
    · rintro ⟨rest, rfl⟩
      exact ⟨_, rfl, fits_slash_iff.mpr ⟨rest, rfl⟩⟩
  rw [mem_dropLast_splitOn_iff clean]
  constructor
  · intro h
    cases h with
    | stay fits => exact .inl (after.mp fits)
    | descend above fits =>
      obtain ⟨rest, rfl⟩ := after.mp fits
      exact .inr ⟨above, rest, rfl⟩
  · rintro (found | ⟨above, rest, rfl⟩)
    · exact .stay (after.mpr found)
    · exact .descend above (after.mpr ⟨rest, rfl⟩)

end Glob

namespace Path

/-- No `.`, no `..` and no slash behind a slash. -/
def Plain (p : Path) : Prop :=
  ¬['/', '/'] <:+: p.text ∧ ∀ s ∈ p.text.splitOn '/', s ≠ ['.'] ∧ s ≠ ['.', '.']

instance : DecidablePred Plain := fun _ => inferInstanceAs (Decidable (_ ∧ _))

variable {p root : Path}

theorem dropComponents_suffix (n : Nat) (segments : List Text) :
    dropComponents n segments <:+ segments := by
  induction segments generalizing n with
  | nil => cases n <;> exact List.suffix_refl _
  | cons s segments ih =>
    cases n with
    | zero => exact List.dropWhile_suffix isIdle
    | succ n =>
      rw [dropComponents]
      split
      · exact (ih (n + 1)).trans (List.suffix_cons s segments)
      · exact (ih n).trans (List.suffix_cons s segments)

/- Below a folder there are only segments of the path. -/
theorem exists_below (root_absolute : root.isAbsolute = true)
    (under : root.components <+: p.components) :
    ∃ segments, segments <:+: p.split.2 ∧ below root p = ofParts .bare segments := by
  have some : root.components ≠ [] := by
    rw [components_of_isAbsolute root_absolute]
    exact List.cons_ne_nil _ _
  refine ⟨_, ?_, by
    rw [below, stripPrefix?, if_neg some, if_pos (List.isPrefixOf_iff_prefix.mpr under)]
    rfl⟩
  exact (settle_begins _).isInfix.trans (dropComponents_suffix _ _).isInfix

/- What has a slash behind it below a folder has one in the whole path. -/
theorem mem_dropLast_of_below (root_absolute : root.isAbsolute = true) (absolute : p.isAbsolute = true)
    (under : root.components <+: p.components) {name : Text}
    (h : name ∈ ((below root p).text.splitOn '/').dropLast) :
    name ∈ (p.text.splitOn '/').dropLast := by
  obtain ⟨segments, inside, same⟩ := exists_below root_absolute under
  cases segments with
  | nil =>
    rw [same] at h
    cases h
  | cons s segments =>
    have clean : ∀ t ∈ s :: segments, '/' ∉ t :=
      fun t ht => not_mem_of_mem_splitOn (mem_split (inside.subset ht))
    rw [same, ofParts, List.splitOn_intercalate '/' clean (List.cons_ne_nil s segments)] at h
    rw [splitOn_of_isAbsolute absolute]
    exact mem_dropLast_of_infix h (inside.trans (List.suffix_cons [] _).isInfix)

/- Only the last segment of a plain path may be empty, which is when the path ends in a slash. -/
theorem Plain.exists_names (plain : p.Plain) (absolute : p.isAbsolute = true) :
    ∃ names : List Text, p.components = .root :: names.map .name ∧
      (p.text.getLast? = some '/' ∧ p.split.2 = names ++ [[]] ∨
        p.text.getLast? ≠ some '/' ∧ p.split.2 = names) := by
  have rooted := splitOn_of_isAbsolute absolute
  have whole : ['/'].intercalate (p.text.splitOn '/') = p.text := List.intercalate_splitOn '/'
  have moves (s : Text) (hs : s ∈ p.split.2) (filled : s ≠ []) :
      Component.ofSegment s = some (.name s) := by
    obtain ⟨here, up⟩ := plain.2 s (mem_split hs)
    rw [Component.ofSegment, if_neg (not_or.mpr ⟨filled, here⟩), if_neg up]
  have named (names : List Text) (h : ∀ s ∈ names, s ∈ p.split.2 ∧ s ≠ []) :
      names.filterMap Component.ofSegment = names.map .name := by
    rw [← List.filterMap_eq_map]
    exact List.filterMap_congr fun s hs => moves s (h s hs).1 (h s hs).2
  rw [components_of_isAbsolute absolute, steps]
  -- an empty segment with others behind it would be a slash behind a slash
  have single {before after : List Text} (cut : p.split.2 = before ++ [] :: after) : after = [] := by
    by_contra more
    apply plain.1
    rw [← whole, rooted, cut, ← List.cons_append,
      intercalate_append (List.cons_ne_nil _ _) (List.cons_ne_nil _ _),
      List.intercalate_cons_of_ne_nil more]
    exact ⟨_, _, by rw [List.append_assoc]; rfl⟩
  by_cases closed : p.text.getLast? = some '/'
  · obtain ⟨above, ends⟩ := List.getLast?_eq_some_iff.mp closed
    obtain ⟨s, names, first⟩ := List.exists_cons_of_ne_nil (List.splitOn_ne_nil '/' above)
    have cut : p.split.2 = names ++ [[]] := by
      rw [ends, List.splitOn_append_cons_self, first] at rooted
      exact (List.cons.inj rooted).2.symm
    refine ⟨names, ?_, .inl ⟨closed, cut⟩⟩
    rw [cut, List.filterMap_append, named names fun s hs => ⟨cut ▸ List.mem_append_left _ hs, ?_⟩]
    · exact congrArg _ (List.append_nil _)
    · rintro rfl
      obtain ⟨before, after, rfl⟩ := List.append_of_mem hs
      rw [List.append_assoc, List.cons_append] at cut
      exact absurd (single cut) (by simp)
  · refine ⟨p.split.2, ?_, .inr ⟨closed, rfl⟩⟩
    rw [named p.split.2 fun s hs => ⟨hs, ?_⟩]
    rintro rfl
    obtain ⟨before, after, cut⟩ := List.append_of_mem hs
    rw [single cut] at cut
    apply closed
    rw [← whole, rooted, cut, ← List.cons_append,
      intercalate_append (List.cons_ne_nil _ _) (List.cons_ne_nil _ _)]
    simp

end Path

namespace Discovery

variable {root p : Path}

theorem compile_default : Options.defaultExcludes.mapM compileExclude =
    .ok [Glob.inside "node_modules".toList] := by decide +kernel

/- Below the root the exclude takes nothing that it does not take of the whole path. -/
theorem isExcluded_inside_iff {name : Text} (clean : '/' ∉ name)
    (root_absolute : root.isAbsolute = true) (absolute : p.isAbsolute = true)
    (under : root.components <+: p.components) :
    isExcluded [Glob.inside name] root p = true ↔ name ∈ (p.text.splitOn '/').dropLast := by
  rw [isExcluded, List.any_cons, List.any_nil, Bool.or_false, Bool.or_eq_true, Pattern.fits_iff,
    Pattern.fits_iff, Glob.fits_inside_iff clean, Glob.fits_inside_iff clean]
  exact or_iff_right_of_imp (Path.mem_dropLast_of_below root_absolute absolute under)

/-- The exclude that stands when none is given takes a path under the root, its own or above, just
when a component with a slash behind it is `node_modules`: any but the last, and the last one when
the path is written with a slash at its end. -/
theorem isExcluded_default (root_absolute : root.isAbsolute = true) (absolute : p.isAbsolute = true)
    (plain : p.Plain) (under : root.components <+: p.components) :
    ∃ patterns, Options.defaultExcludes.mapM compileExclude = .ok patterns ∧
      (isExcluded patterns root p = true ↔ .name "node_modules".toList ∈
        if p.text.getLast? = some '/' then p.components else p.components.dropLast) := by
  refine ⟨_, compile_default, ?_⟩
  have clean : '/' ∉ "node_modules".toList := by decide +kernel
  have filled : "node_modules".toList ≠ [] := by decide +kernel
  generalize "node_modules".toList = name at clean filled
  rw [isExcluded_inside_iff clean root_absolute absolute under, Path.splitOn_of_isAbsolute absolute]
  obtain ⟨names, whole, ⟨closed, cut⟩ | ⟨opened, cut⟩⟩ := plain.exists_names absolute
  · rw [if_pos closed, whole, cut, ← List.cons_append, List.dropLast_concat]
    simp [filled]
  · have first : Component.name name ≠ .root := by simp
    rw [if_neg opened, whole, cut, mem_dropLast_cons_iff filled, mem_dropLast_cons_iff first,
      ← List.map_dropLast]
    simp only [List.mem_map, Component.name.injEq, exists_eq_right]

/- A name that only contains the other, and then the folder itself. -/
theorem isExcluded_default_at_depth :
    let root : Path := ⟨"/r//app/.".toList⟩
    let p : Path := ⟨"/r/app/my_node_modules/node_modules/x.ts".toList⟩
    root.isAbsolute = true ∧ p.isAbsolute = true ∧ p.Plain ∧ root.components <+: p.components ∧
      ∃ patterns, Options.defaultExcludes.mapM compileExclude = .ok patterns ∧
        (isExcluded patterns root p = true ↔ .name "node_modules".toList ∈
          if p.text.getLast? = some '/' then p.components else p.components.dropLast) := by
  intro root p
  have plain : p.Plain := by decide +kernel
  have under : root.components <+: p.components := by decide +kernel
  exact ⟨rfl, rfl, plain, under, isExcluded_default rfl rfl plain under⟩

/-- A slash at the end is enough for the last component to be taken. -/
theorem isExcluded_closed :
    let root : Path := ⟨"/r".toList⟩
    let p : Path := ⟨"/r/node_modules/".toList⟩
    root.isAbsolute = true ∧ p.isAbsolute = true ∧ p.Plain ∧ root.components <+: p.components ∧
      ∃ patterns, Options.defaultExcludes.mapM compileExclude = .ok patterns ∧
        isExcluded patterns root p = true ∧
        .name "node_modules".toList ∉ p.components.dropLast := by
  refine ⟨rfl, rfl, ?_, ?_, _, compile_default, ?_, ?_⟩ <;> decide +kernel

end Discovery

end Unalias
