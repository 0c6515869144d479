import Unalias.Proofs.Disk.Write
import Unalias.Proofs.Path.Normal

/-! Trees in which all entries have proper names, trees in which all folders are in order, and where
an absolute path leads in any tree: as there are no links, just where its segments say. -/
namespace Unalias

namespace Node

mutual

/-- No entry at any depth is called `.` or `..`, has no name, or has a slash in it. -/
def Named : Node → Prop
  | .file _ _ => True
  | .folder es => NamedEntries es

def NamedEntries : List (Text × Node) → Prop
  | [] => True
  | (name, x) :: es => IsName name ∧ x.Named ∧ NamedEntries es

end

theorem NamedEntries.of_mem {es : List (Text × Node)} (h : NamedEntries es) {e : Text × Node}
    (he : e ∈ es) : IsName e.1 ∧ e.2.Named := by
  induction es with
  | nil => cases he
  | cons f es ih =>
    obtain ⟨name, x⟩ := f
    obtain ⟨hname, hx, rest⟩ := h
    rcases List.mem_cons.mp he with rfl | he
    · exact ⟨hname, hx⟩
    · exact ih rest he

theorem Named.entries {x : Node} (h : x.Named) : NamedEntries x.entries := by
  cases x with
  | file => trivial
  | folder es => exact h

theorem Named.at? {x y : Node} {here : Location} (h : x.Named) (hy : x.at? here = some y) :
    y.Named := by
  induction here generalizing x with
  | nil => exact Option.some.inj hy ▸ h
  | cons name names ih =>
    obtain ⟨z, hz, rest⟩ := Option.bind_eq_some_iff.mp hy
    obtain ⟨e, found, rfl⟩ := Option.map_eq_some_iff.mp hz
    exact ih (h.entries.of_mem (List.mem_of_find?_eq_some found)).2 rest

mutual

/-- The entries of each folder, at any depth, stand in ascending order and have each name once. -/
def Tidy : Node → Prop
  | .file _ _ => True
  | .folder es => Ordered es ∧ TidyEntries es

def TidyEntries : List (Text × Node) → Prop
  | [] => True
  | (_, x) :: es => x.Tidy ∧ TidyEntries es

end

theorem TidyEntries.of_mem {es : List (Text × Node)} (h : TidyEntries es) {e : Text × Node}
    (he : e ∈ es) : e.2.Tidy := by
  induction es with
  | nil => cases he
  | cons f es ih =>
    obtain ⟨name, x⟩ := f
    rcases List.mem_cons.mp he with rfl | he
    · exact h.1
    · exact ih h.2 he

theorem Tidy.at? {x y : Node} {here : Location} (h : x.Tidy) (hy : x.at? here = some y) :
    y.Tidy := by
  induction here generalizing x with
  | nil => exact Option.some.inj hy ▸ h
  | cons name names ih =>
    obtain ⟨z, hz, rest⟩ := Option.bind_eq_some_iff.mp hy
    obtain ⟨e, found, rfl⟩ := Option.map_eq_some_iff.mp hz
    cases x with
    | file => cases found
    | folder es => exact ih (h.2.of_mem (List.mem_of_find?_eq_some found)) rest

theorem lookup_cons (name : Text) (e : Text × Node) (es : List (Text × Node)) :
    lookup name (e :: es) = if e.1 = name then some e.2 else lookup name es := by
  by_cases same : e.1 = name <;> simp [lookup, same]

/- In a folder that has each name once, one entry at most is taken by a name. -/
theorem flatMap_entries {es : List (Text × Node)} (ordered : Ordered es) (name : Text)
    {β : Type} (f : Text → List β) : (es.flatMap fun e => if e.1 = name then f e.1 else []) =
      if (lookup name es).isSome then f name else [] := by
  induction es with
  | nil => rfl
  | cons e es ih =>
    obtain ⟨first, rest⟩ := List.pairwise_cons.mp ordered
    rw [List.flatMap_cons, ih rest, lookup_cons]
    by_cases same : e.1 = name
    · have once : lookup name es = none := by
        rw [lookup, Option.map_eq_none_iff, List.find?_eq_none]
        intro g hg
        have later := first g hg
        rw [same] at later
        simpa using fun here : g.1 = name => List.lt_irrefl name (here ▸ later)
      simp [same, once]
    · simp [same]

end Node

namespace Disk

variable {d : Disk} {p : Path} {here there : Location}

theorem step_eq_enter {s : Text} (h : d.step here s = .ok there) :
    there = (Place.enter here.reverse s).reverse := by
  unfold step at h
  split at h
  · split at h
    · rename_i idle
      have stays : s = [] ∨ s = ['.'] := by simpa [Path.isIdle] using idle
      rw [Place.enter, if_pos stays, List.reverse_reverse, Except.ok.inj h]
    · rename_i moves
      have moves : ¬(s = [] ∨ s = ['.']) := by simpa [Path.isIdle] using moves
      rw [Place.enter, if_neg moves]
      split at h
      · rename_i up
        rw [if_pos up, ← Except.ok.inj h, List.tail_reverse, List.reverse_reverse]
      · rename_i up
        rw [if_neg up, List.reverse_cons, List.reverse_reverse]
        split at h
        · contradiction
        · split at h
          · exact (Except.ok.inj h).symm
          · contradiction
  · contradiction

theorem walk_eq_foldl {segments : List Text} (h : d.walk here segments = .ok there) :
    there = (segments.foldl Place.enter here.reverse).reverse := by
  induction segments generalizing here with
  | nil =>
    rw [List.foldl_nil, List.reverse_reverse]
    exact (Except.ok.inj h).symm
  | cons s segments ih =>
    rw [walk, List.foldlM_cons] at h
    cases first : d.step here s with
    | error f =>
      rw [first] at h
      contradiction
    | ok mid =>
      rw [first] at h
      rw [ih h, step_eq_enter first, List.reverse_reverse]
      rfl

/-- Nothing but the text of an absolute path says where it leads. -/
theorem location_eq_place (absolute : p.isAbsolute = true) (h : d.locate p = .ok here) :
    here = p.place.reverse := by
  rw [locate, if_neg (Path.text_ne_nil_of_isAbsolute absolute),
    Path.anchor_eq_root_iff.mpr absolute] at h
  rw [Path.place, Place.walk, Path.splitOn_of_isAbsolute absolute, List.foldl_cons,
    Place.enter_nil]
  exact walk_eq_foldl h

theorem isFile_of_isFolder (folder : d.isFolder p = true) : d.isFile p = false := by
  unfold isFolder at folder
  unfold isFile
  cases found : d.node? p with
  | none => rfl
  | some x =>
    rw [found] at folder
    simpa using folder

theorem exists_names_of_isFile (file : d.isFile p = true) : ∃ here, d.Names p here := by
  unfold isFile node? at file
  cases located : d.locate p with
  | error f => simp [located] at file
  | ok here =>
    cases held : d.root.at? here with
    | none => simp [located, held] at file
    | some x =>
      cases x with
      | file c access => exact ⟨here, located, c, access, held⟩
      | folder es => simp [located, held, Node.isFolder] at file

/- The way to a file ends in its name. -/
theorem last_of_isFile (file : d.isFile p = true) {front names : List Text}
    (split : p.split.2 = front ++ names) : ∀ n ∈ names.getLast?, Path.isIdle n = false := by
  intro n hn
  obtain ⟨before, rfl⟩ := List.getLast?_eq_some_iff.mp hn
  obtain ⟨here, names⟩ := exists_names_of_isFile file
  rcases names.cases with none | ⟨ss, s, -, -, ends, -, -, -, filled, other, -⟩
  · simp [split] at none
  · rw [split, ← List.append_assoc] at ends
    obtain ⟨-, last⟩ := List.append_inj' ends rfl
    rw [(List.cons.inj last).1]
    simp [Path.isIdle, filled, other]

end Disk

end Unalias
