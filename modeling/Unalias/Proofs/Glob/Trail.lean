import Unalias.Glob.Expansion
import Unalias.Proofs.Disk.Named

/-! The names by which a search goes down from the root. A path that is selected is the start of the
search with one name after another put under it, and each segment of the glob says which. -/
namespace Unalias.Glob

open Node (NamedEntries)

/-- The names that the segments allow, in a tree in which all entries have proper names. -/
inductive Trail : List Segment → List Text → Prop
  | done : Trail [] []
  | plain {name : Text} {rest : List Segment} {names : List Text} : Trail rest names →
      Trail (.plain name :: rest) (name :: names)
  | dot {pattern : Pattern} {name : Text} {rest : List Segment} {names : List Text} :
      name ∈ (Segment.listed pattern).dots → Trail rest names →
      Trail (.listed pattern :: rest) (name :: names)
  | listed {pattern : Pattern} {name : Text} {rest : List Segment} {names : List Text} :
      IsName name → pattern.fits name = true → Trail rest names →
      Trail (.listed pattern :: rest) (name :: names)
  | deep {names : List Text} : names ≠ [] → (∀ n ∈ names, IsName n) → Trail [.recursive] names
  | descend {next : Segment} {name : Text} {rest : List Segment} {names more : List Text} :
      (∀ n ∈ names, IsName n) → IsName name → next.takes name = true → Trail rest more →
      Trail (.recursive :: next :: rest) (names ++ name :: more)

mutual

/- What lies below a path is reached by names. -/
theorem exists_names_of_below {p : Path} {x : Node} (named : x.Named) {e : Path × Text × Node}
    (h : e ∈ below p x) : ∃ names, (∀ n ∈ names, IsName n) ∧ IsName e.2.1 ∧
      e.1 = (names ++ [e.2.1]).foldl child p := by
  match x with
  | .file _ _ => cases h
  | .folder es => exact exists_names_of_belowEntries named h

theorem exists_names_of_belowEntries {p : Path} {es : List (Text × Node)}
    (named : NamedEntries es) {e : Path × Text × Node} (h : e ∈ belowEntries p es) :
    ∃ names, (∀ n ∈ names, IsName n) ∧ IsName e.2.1 ∧
      e.1 = (names ++ [e.2.1]).foldl child p := by
  match es with
  | [] => cases h
  | (name, x) :: es =>
    obtain ⟨hname, hx, rest⟩ := named
    rw [belowEntries, List.mem_append] at h
    rcases h with h | h
    · rcases List.mem_cons.mp h with rfl | h
      · exact ⟨[], by simp, hname, rfl⟩
      · obtain ⟨names, all, last, hp⟩ := exists_names_of_below hx h
        exact ⟨name :: names, List.forall_mem_cons.mpr ⟨hname, all⟩, last, hp⟩
    · exact exists_names_of_belowEntries rest h

end

theorem child_of_isAbsolute {p : Path} (absolute : p.isAbsolute = true) (name : Text) :
    child p name = p.join ⟨name⟩ := by
  refine if_neg fun here => ?_
  rw [Path.components, Path.anchor_eq_root_iff.mpr absolute] at here
  exact absurd (List.cons.inj here).1 (by decide)

theorem isAbsolute_child {p : Path} (absolute : p.isAbsolute = true) (name : Text) :
    (child p name).isAbsolute = true := by
  rw [child_of_isAbsolute absolute]
  exact Path.isAbsolute_join absolute _

theorem isAbsolute_foldl_child {p : Path} (absolute : p.isAbsolute = true) (names : List Text) :
    (names.foldl child p).isAbsolute = true := by
  apply List.foldlRecOn (motive := fun p => p.isAbsolute = true) names child absolute
  exact fun q h n _ => isAbsolute_child h n

theorem text_child {p : Path} (absolute : p.isAbsolute = true) {name : Text} (clean : '/' ∉ name) :
    (child p name).text = p.text ++ Path.separator p.text ++ name := by
  rw [child_of_isAbsolute absolute, Path.join_of_relative p (Path.isAbsolute_of_clean clean)]

/- One segment put under a path is one more step, if it is a step at all. -/
theorem steps_foldl_child {p : Path} (absolute : p.isAbsolute = true) {names : List Text}
    (clean : ∀ n ∈ names, '/' ∉ n) :
    (names.foldl child p).steps = p.steps ++ names.filterMap Component.ofSegment := by
  induction names generalizing p with
  | nil => exact (List.append_nil _).symm
  | cons name names ih =>
    obtain ⟨solid, clean⟩ := List.forall_mem_cons.mp clean
    have single : Path.steps ⟨name⟩ = [name].filterMap Component.ofSegment := by
      rw [Path.steps_eq, List.splitOn_eq_singleton solid]
    rw [List.foldl_cons, ih (isAbsolute_child absolute name) clean, child_of_isAbsolute absolute,
      Path.steps_join p (Path.isAbsolute_of_clean solid), single, List.append_assoc,
      ← List.filterMap_append]
    rfl

section search

variable {d : Disk} (named : d.root.Named)

include named

theorem named_of_node? {p : Path} {x : Node} (h : d.node? p = some x) : x.Named := by
  unfold Disk.node? at h
  split at h
  · exact named.at? h
  · contradiction

theorem isName_of_mem_entriesAt {p : Path} {e : Text × Node} (h : e ∈ entriesAt d p) :
    IsName e.1 := by
  unfold entriesAt at h
  cases found : d.node? p with
  | none =>
    rw [found] at h
    cases h
  | some x =>
    rw [found] at h
    exact ((named_of_node? named found).entries.of_mem h).1

theorem exists_names_of_belowPath {p : Path} {e : Path × Text × Node} (h : e ∈ belowPath d p) :
    ∃ names, (∀ n ∈ names, IsName n) ∧ IsName e.2.1 ∧
      e.1 = (names ++ [e.2.1]).foldl child p := by
  unfold belowPath at h
  cases found : d.node? p with
  | none =>
    rw [found] at h
    cases h
  | some x =>
    rw [found] at h
    exact exists_names_of_below (named_of_node? named found) h

theorem exists_trail {segments : List Segment} {p q : Path} (absolute : p.isAbsolute = true)
    (h : q ∈ expandFrom d segments p) : ∃ names, Trail segments names ∧ q = names.foldl child p := by
  fun_induction expandFrom d segments p with
  | case1 p =>
    rw [List.mem_singleton.mp h]
    exact ⟨[], .done, rfl⟩
  | case2 name rest p leads ih =>
    obtain ⟨names, trail, rfl⟩ := ih (isAbsolute_child absolute name) h
    exact ⟨name :: names, .plain trail, rfl⟩
  | case3 => cases h
  | case4 pattern rest p folder dot entry =>
    rcases List.mem_append.mp h with h | h
    · obtain ⟨name, hname, h⟩ := List.mem_flatMap.mp h
      obtain ⟨names, trail, rfl⟩ := dot name (Path.isAbsolute_join absolute _) h
      refine ⟨name :: names, .dot hname trail, ?_⟩
      rw [List.foldl_cons, child_of_isAbsolute absolute]
    · obtain ⟨e, he, h⟩ := List.mem_flatMap.mp h
      split at h
      · rename_i fits
        obtain ⟨names, trail, rfl⟩ := entry e (isAbsolute_child absolute e.1) h
        exact ⟨e.1 :: names, .listed (isName_of_mem_entriesAt named he) fits trail, rfl⟩
      · cases h
  | case5 => cases h
  | case6 p =>
    obtain ⟨e, he, h⟩ := List.mem_filterMap.mp h
    obtain ⟨names, all, last, reached⟩ := exists_names_of_belowPath named he
    split at h
    · refine ⟨names ++ [e.2.1], .deep (by simp) fun n hn => ?_,
        (Option.some.inj h).symm.trans reached⟩
      rcases List.mem_append.mp hn with hn | hn
      · exact all n hn
      · exact List.mem_singleton.mp hn ▸ last
    · contradiction
  | case7 next rest p ih =>
    obtain ⟨e, he, h⟩ := List.mem_flatMap.mp h
    obtain ⟨names, all, last, reached⟩ := exists_names_of_belowPath named he
    split at h
    · rename_i takes
      have absolute' : e.1.isAbsolute = true := reached ▸ isAbsolute_foldl_child absolute _
      obtain ⟨more, trail, rfl⟩ := ih e absolute' h
      refine ⟨names ++ e.2.1 :: more, .descend all last takes trail, ?_⟩
      rw [reached, ← List.foldl_append, List.append_assoc, List.singleton_append]
    · cases h

end search

end Unalias.Glob
