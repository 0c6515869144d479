import Unalias.Proofs.Discovery.Distinct
import Unalias.Proofs.Disk.Joined
import Unalias.Proofs.Glob.Joined

/-! One glob as a target and as an exclude. As a target it is searched for below the root, segment
by segment; as an exclude it is held against what is left of a path below the root. -/
namespace Unalias

namespace Path

section child

variable {p : Path} {name : Text}

/- The segment that is put under a path is the last one, after the steps of the path. -/
theorem exists_split_child (absolute : p.isAbsolute = true) (clean : '/' ∉ name) :
    ∃ front, (Glob.child p name).split.2 = front ++ [name] ∧
      front.filterMap Component.ofSegment = p.steps := by
  obtain ⟨front, before, joined⟩ := exists_split_join (text_ne_nil_of_isAbsolute absolute) clean
  rw [Glob.child_of_isAbsolute absolute, joined, steps]
  refine ⟨front, rfl, ?_⟩
  rcases before with same | same
  · rw [same]
  · rw [same, List.filterMap_append]
    exact (List.append_nil _).symm

/- Behind a name there is no slash yet, so the next one is only put after it. -/
theorem split_child_of_open (absolute : p.isAbsolute = true) (opened : p.text.getLast? ≠ some '/')
    (clean : '/' ∉ name) : (Glob.child p name).split.2 = p.split.2 ++ [name] := by
  have slash : separator p.text = ['/'] :=
    if_neg (not_or.mpr ⟨text_ne_nil_of_isAbsolute absolute, opened⟩)
  have rooted := splitOn_of_isAbsolute (Glob.isAbsolute_child absolute name)
  rw [Glob.text_child absolute clean, slash, List.append_assoc, List.singleton_append,
    splitOn_name clean, splitOn_of_isAbsolute absolute, List.cons_append] at rooted
  exact (List.cons.inj rooted).2.symm

theorem open_child (absolute : p.isAbsolute = true) (clean : '/' ∉ name) (filled : name ≠ []) :
    (Glob.child p name).text.getLast? ≠ some '/' := by
  rw [Glob.text_child absolute clean, List.getLast?_append_of_ne_nil _ filled]
  exact fun last => clean (List.mem_of_getLast? last)

theorem split_foldl_child {names : List Text} (absolute : p.isAbsolute = true)
    (opened : p.text.getLast? ≠ some '/') (clean : ∀ n ∈ names, '/' ∉ n)
    (filled : ∀ n ∈ names, n ≠ []) :
    (names.foldl Glob.child p).split.2 = p.split.2 ++ names := by
  induction names generalizing p with
  | nil => exact (List.append_nil _).symm
  | cons n names ih =>
    obtain ⟨solid, clean⟩ := List.forall_mem_cons.mp clean
    obtain ⟨some, filled⟩ := List.forall_mem_cons.mp filled
    rw [List.foldl_cons, ih (Glob.isAbsolute_child absolute n) (open_child absolute solid some)
      clean filled, split_child_of_open absolute opened solid, List.append_assoc]
    rfl

theorem exists_split_foldl_child (absolute : p.isAbsolute = true) {names : List Text}
    (some : names ≠ []) (clean : ∀ n ∈ names, '/' ∉ n) (filled : ∀ n ∈ names, n ≠ []) :
    ∃ front, (names.foldl Glob.child p).split.2 = front ++ names ∧
      front.filterMap Component.ofSegment = p.steps := by
  cases names with
  | nil => contradiction
  | cons n names =>
    obtain ⟨solid, clean⟩ := List.forall_mem_cons.mp clean
    obtain ⟨some, filled⟩ := List.forall_mem_cons.mp filled
    obtain ⟨front, split, steps⟩ := exists_split_child absolute solid
    refine ⟨front, ?_, steps⟩
    rw [List.foldl_cons, split_foldl_child (Glob.isAbsolute_child absolute n)
      (open_child absolute solid some) clean filled, split, List.append_assoc]
    rfl

end child

section below

theorem dropComponents_append (front rest : List Text) :
    dropComponents (front.filterMap Component.ofSegment).length (front ++ rest) =
      rest.dropWhile isIdle := by
  induction front with
  | nil => simp [dropComponents]
  | cons s front ih =>
    cases step : Component.ofSegment s with
    | none =>
      have idle := ofSegment_eq_none_iff.mp step
      rw [List.filterMap_cons_none step, List.cons_append]
      cases count : (front.filterMap Component.ofSegment).length with
      | zero =>
        rw [count, dropComponents] at ih
        rw [dropComponents, List.dropWhile_cons_of_pos idle, ih]
      | succ n =>
        rw [count] at ih
        rw [dropComponents, if_pos idle, ih]
    | some c =>
      have moves : ¬isIdle s = true := fun idle => by
        rw [ofSegment_eq_none_iff.mpr idle] at step
        contradiction
      rw [List.filterMap_cons_some step, List.length_cons, List.cons_append, dropComponents,
        if_neg moves, ih]

theorem dropWhile_of_head {names : List Text} (h : ∀ n ∈ names.head?, isIdle n = false) :
    names.dropWhile isIdle = names := by
  cases names with
  | nil => rfl
  | cons n names => rw [List.dropWhile_cons_of_neg (by simpa using h)]

/- What is left below the root, when no idle segments are at its ends. -/
theorem below_of_split {root p : Path} {front names : List Text}
    (root_absolute : root.isAbsolute = true) (absolute : p.isAbsolute = true)
    (split : p.split.2 = front ++ names) (steps : front.filterMap Component.ofSegment = root.steps)
    (first : ∀ n ∈ names.head?, isIdle n = false) (last : ∀ n ∈ names.getLast?, isIdle n = false) :
    below root p = ofParts .bare names := by
  have begins : root.components.isPrefixOf p.components = true := by
    have moved : p.steps = root.steps ++ names.filterMap Component.ofSegment := by
      rw [← steps, ← List.filterMap_append, ← split, Path.steps]
    rw [List.isPrefixOf_iff_prefix, components_of_isAbsolute root_absolute,
      components_of_isAbsolute absolute, moved]
    exact ⟨_, rfl⟩
  have some : root.components ≠ [] := by
    rw [components_of_isAbsolute root_absolute]
    exact List.cons_ne_nil _ _
  have count : root.components.length - p.split.1.components.length =
      (front.filterMap Component.ofSegment).length := by
    rw [components_of_isAbsolute root_absolute, anchor_eq_root_iff.mpr absolute, steps]
    rfl
  have settled : settle names = names := by
    rw [settle, dropWhile_of_head (by simpa using last), List.reverse_reverse]
  rw [below, stripPrefix?, if_neg some, if_pos begins]
  dsimp only
  rw [count, split, dropComponents_append, dropWhile_of_head first, settled]
  rfl

end below

end Path

namespace Discovery

/-- The glob can be compiled as a whole, as an exclude is, and segment by segment, as a target
is. -/
def Usable (glob : Text) : Prop :=
  (∃ p, Glob.compile glob = .ok p) ∧
    ∀ s ∈ Glob.segmentsOf glob, ∃ x, Glob.Segment.compile s = .ok x

instance decidableSucceeds {α ε : Type} (result : Except ε α) : Decidable (∃ a, result = .ok a) :=
  match result with
  | .ok a => .isTrue ⟨a, rfl⟩
  | .error _ => .isFalse nofun

instance : DecidablePred Usable := fun _ => inferInstanceAs (Decidable (_ ∧ _))

/-- Only folders are wanted, or no segment is empty and the first of several does not stand for the
folder where the search starts. -/
def Direct (glob : Text) : Prop :=
  glob.getLast? = some '/' ∨ (∀ s ∈ Glob.segmentsOf glob, s ≠ []) ∧
    ∀ s ∈ (Glob.segmentsOf glob).dropLast.head?, s ≠ ['.'] ∧ s ≠ ['.', '*']

instance : DecidablePred Direct := fun _ => inferInstanceAs (Decidable (_ ∨ _ ∧ _))

section mirrored

variable {d : Disk} {root : Path} {glob : Text}

/- The search for a relative glob goes down the segments of the root, which are the same for all
globs, and then those of the glob. -/
theorem exists_searches (absolute : root.isAbsolute = true) :
    ∃ (front : List Text) (rootSegments : List Glob.Segment),
      front.filterMap Component.ofSegment = root.steps ∧ (∀ s ∈ front, '/' ∉ s) ∧
      ([] ∉ root.split.2 → front = root.split.2) ∧
      (front.map Glob.escape).mapM Glob.Segment.compile = .ok rootSegments ∧
      ∀ glob, Path.isAbsolute ⟨glob⟩ = false → Usable glob → ∃ segments,
        (Glob.segmentsOf glob).mapM Glob.Segment.compile = .ok segments ∧
        compileTarget root glob = .ok ⟨⟨['/']⟩, Glob.merge (rootSegments ++ segments),
          decide (glob = [] ∨ glob.getLast? = some '/')⟩ := by
  obtain ⟨front, steps, clean, full, cut⟩ := exists_front absolute
  have literally : ∀ t ∈ front.map Glob.escape, ∃ s, Glob.Segment.compile t = .ok s := by
    intro t ht
    obtain ⟨u, -, rfl⟩ := List.mem_map.mp ht
    have read := Glob.compiled_escape (t := u) true fun _ => .done
    rw [List.append_nil] at read
    exact Glob.Segment.exists_compile read
  obtain ⟨rootSegments, rooted⟩ := exists_mapM_ok literally
  refine ⟨front, rootSegments, steps, clean, full, rooted, fun glob relative usable => ?_⟩
  obtain ⟨⟨p, whole⟩, each⟩ := usable
  obtain ⟨segments, compiled⟩ := exists_mapM_ok each
  refine ⟨segments, compiled, ?_⟩
  obtain ⟨above, _, slash, -⟩ := Path.exists_above absolute
  have text := text_anchored relative (Path.text_ne_nil_of_isAbsolute absolute) slash
  have read : ∃ p, Glob.compile (anchored root glob).text = .ok p := by
    rw [text]
    have below (b : Bool) : Glob.Compiled b ('/' :: glob) (.one (.exactly '/') :: p) :=
      .exactly (by decide) (by decide) (by decide) (Glob.compile_eq_ok_iff.mp whole)
    exact ⟨_, Glob.compile_eq_ok_iff.mpr (Glob.compiled_escape true below)⟩
  have last : (anchored root glob).text.getLast? = some '/' ↔
      glob = [] ∨ glob.getLast? = some '/' := by
    rw [text, List.getLast?_append_of_ne_nil _ (List.cons_ne_nil _ _)]
    cases glob <;> simp
  have all : (Glob.segmentsOf (anchored root glob).text.tail).mapM Glob.Segment.compile =
      .ok (rootSegments ++ segments) := by
    rw [Glob.segmentsOf_of_splitOn (cut glob relative)]
    exact mapM_append_ok rooted compiled
  have slashed := of_decide_eq_true (isAbsolute_anchored absolute glob)
  simp only [← last]
  exact mapError_eq_ok_iff.mpr ((Glob.ofGlob_eq_ok_iff slashed).mpr ⟨read, _, all, rfl⟩)

theorem exists_search (absolute : root.isAbsolute = true)
    (relative : Path.isAbsolute ⟨glob⟩ = false) (usable : Usable glob) :
    ∃ (front : List Text) (rootSegments segments : List Glob.Segment),
      front.filterMap Component.ofSegment = root.steps ∧
      (∀ s ∈ front, '/' ∉ s) ∧
      (front.map Glob.escape).mapM Glob.Segment.compile = .ok rootSegments ∧
      (Glob.segmentsOf glob).mapM Glob.Segment.compile = .ok segments ∧
      compileTarget root glob = .ok ⟨⟨['/']⟩, Glob.merge (rootSegments ++ segments),
        decide (glob = [] ∨ glob.getLast? = some '/')⟩ := by
  obtain ⟨front, rootSegments, steps, clean, -, rooted, ready⟩ := exists_searches absolute
  obtain ⟨segments, compiled, same⟩ := ready glob relative usable
  exact ⟨front, rootSegments, segments, steps, clean, rooted, compiled, same⟩

/- A way that starts in the folder where it is was asked for by the first of several segments. -/
theorem head_of_trail {texts more : List Text} {segments : List Glob.Segment}
    (compiled : texts.mapM Glob.Segment.compile = .ok segments)
    (first : ∀ t ∈ texts.dropLast.head?, t ≠ ['.'] ∧ t ≠ ['.', '*'])
    (trail : Glob.Trail (Glob.merge segments) more) (filled : ∀ n ∈ more, n ≠ [])
    (last : ∀ n ∈ more.getLast?, Path.isIdle n = false) :
    ∀ n ∈ more.head?, Path.isIdle n = false := by
  intro n hn
  by_contra idle
  obtain ⟨later, rfl⟩ := List.head?_eq_some_iff.mp hn
  have here : n = ['.'] := by
    simpa [Path.isIdle, filled n List.mem_cons_self] using idle
  subst here
  have some : later ≠ [] := by
    rintro rfl
    exact idle (last _ rfl)
  cases texts with
  | nil =>
    cases Except.ok.inj compiled
    cases trail
  | cons t texts =>
    rw [List.mapM_cons] at compiled
    obtain ⟨s, read, compiled⟩ := bind_eq_ok_iff.mp compiled
    obtain ⟨rest, others, compiled⟩ := bind_eq_ok_iff.mp compiled
    cases Except.ok.inj compiled
    have shape := (Glob.Segment.compiled_of_compile read).1
    obtain ⟨_, merged⟩ := Glob.head_merge s rest
    obtain ⟨shallow, fits, q, dotted⟩ := Glob.Trail.of_here (merged ▸ trail)
    rw [Glob.merge_cons shallow] at trail
    obtain ⟨_, _, same, -, below⟩ := trail.head shallow
    obtain ⟨-, rfl⟩ := List.cons.inj same
    cases texts with
    | nil =>
      cases Except.ok.inj others
      cases below
      exact some rfl
    | cons u us =>
      have allowed := first t rfl
      rw [dotted] at shape fits
      exact (Glob.eq_of_fits_dot shape fits).elim allowed.1 allowed.2

/- A file that is selected stands below the root by the names that the segments of the glob took. -/
theorem exists_trail_below (named : d.root.Named) (absolute : root.isAbsolute = true)
    (some : Glob.segmentsOf glob ≠ []) (filled : ∀ t ∈ Glob.segmentsOf glob, t ≠ [])
    (first : ∀ t ∈ (Glob.segmentsOf glob).dropLast.head?, t ≠ ['.'] ∧ t ≠ ['.', '*'])
    {front : List Text} (steps : front.filterMap Component.ofSegment = root.steps)
    (clean : ∀ s ∈ front, '/' ∉ s) {rootSegments segments : List Glob.Segment}
    (rooted : (front.map Glob.escape).mapM Glob.Segment.compile = .ok rootSegments)
    (compiled : (Glob.segmentsOf glob).mapM Glob.Segment.compile = .ok segments) {p : Path}
    (selected : p ∈ Glob.expandFrom d (Glob.merge (rootSegments ++ segments)) ⟨['/']⟩)
    (file : d.isFile p = true) : ∃ names, Glob.Trail (Glob.merge segments) names ∧
      (Path.below root p).text = ['/'].intercalate names := by
  obtain ⟨whole, trail, rfl⟩ := Glob.exists_trail named rfl selected
  obtain ⟨names, rfl, below⟩ := Glob.exists_trail_of_front rooted trail
  refine ⟨names, below, ?_⟩
  have going : names ≠ [] := by
    refine below.ne_nil (Glob.merge_ne_nil fun none => some ?_)
    rw [none] at compiled
    simpa using mapM_ok_iff.mp compiled
  have solid := clean_trail compiled below
  have full : ∀ n ∈ names, n ≠ [] :=
    Glob.Trail.forall_of_texts filled (fun name h => h.1) (by decide) (by decide) compiled below
  have rootedPath := Glob.isAbsolute_foldl_child (p := ⟨['/']⟩) rfl front
  obtain ⟨before, split, ahead⟩ := Path.exists_split_foldl_child rootedPath going solid full
  rw [steps_of_trail clean, steps] at ahead
  rw [List.foldl_append] at file ⊢
  have last := Disk.last_of_isFile file split
  have head := head_of_trail compiled first below full last
  rw [Path.below_of_split absolute (Glob.isAbsolute_foldl_child rootedPath names) split ahead head
    last]
  rfl

/- The glob takes the names that its segments took. -/
theorem fits_below_of_isFile (named : d.root.Named) (absolute : root.isAbsolute = true)
    (relative : Path.isAbsolute ⟨glob⟩ = false) (usable : Usable glob) (direct : Direct glob)
    {search : Glob.Search} (ready : compileTarget root glob = .ok search) {p : Path}
    (selected : p ∈ search.results d) (file : d.isFile p = true) {e : Pattern}
    (compiled : Glob.compile glob = .ok e) : e.fits (Path.below root p).text = true := by
  obtain ⟨front, rootSegments, segments, steps, clean, rooted, each, same⟩ :=
    exists_search absolute relative usable
  rw [same] at ready
  cases Except.ok.inj ready
  unfold Glob.Search.results at selected
  split at selected
  · rw [Disk.isFile_of_isFolder (List.mem_filter.mp selected).2] at file
    contradiction
  · rename_i files
    obtain ⟨some, opened⟩ := not_or.mp (mt (decide_eq_true (p := _ ∨ _)) files)
    obtain ⟨filled, first⟩ := direct.resolve_left opened
    have cut := Glob.segmentsOf_of_open some opened
    have texts : Glob.segmentsOf glob ≠ [] := cut ▸ List.splitOn_ne_nil '/' glob
    obtain ⟨names, trail, rest⟩ :=
      exists_trail_below named absolute texts filled first steps clean rooted each selected file
    have whole : e = Glob.joined segments := by
      have solid (t : Text) (ht : t ∈ Glob.segmentsOf glob) : '/' ∉ t :=
        not_mem_of_mem_splitOn (Glob.mem_of_mem_segmentsOf ht)
      have joined := Glob.compiled_joined texts solid filled each
      rw [cut, List.intercalate_splitOn] at joined
      exact (Glob.compile_eq_ok_iff.mp compiled).unique joined
    rw [rest, whole]
    exact Pattern.fits_iff.mpr (Glob.fits_joined trail)

/-- A glob that is given as a target and as an exclude selects nothing, whatever the tree and the
root, when it can be taken as both and goes down from the root. As a target alone it selects files
whose paths below the root it takes. -/
theorem discover_mirrored (named : d.root.Named) (absolute : root.isAbsolute = true)
    (relative : Path.isAbsolute ⟨glob⟩ = false) (usable : Usable glob) (direct : Direct glob) :
    ∃ e files, Glob.compile glob = .ok e ∧ discover d root [glob] [] = .ok files ∧
      (∀ p ∈ files, e.fits (Path.below root p).text = true) ∧
      discover d root [glob] [glob] = .ok [] := by
  obtain ⟨_, _, _, -, -, -, -, ready⟩ := exists_search absolute relative usable
  obtain ⟨e, compiled⟩ := usable.1
  have targets := mapM_singleton_ok ready
  have excludes : [glob].mapM compileExclude = .ok [e] :=
    mapM_singleton_ok (mapError_eq_ok_iff.mpr compiled)
  have takes {p : Path} := @fits_below_of_isFile d root glob named absolute relative usable direct
    _ ready p
  refine ⟨e, _, compiled, discover_eq_ok_iff.mpr ⟨[], _, rfl, targets, rfl⟩, fun p hp => ?_,
    discover_eq_ok_iff.mpr ⟨[e], _, excludes, targets, ?_⟩⟩
  · obtain ⟨selected, kept⟩ := List.mem_filter.mp ((distinct_spec _).2 hp)
    rw [List.flatMap_singleton] at selected
    exact takes selected (Bool.and_eq_true_iff.mp kept).1 compiled
  · refine congrArg distinct (List.filter_eq_nil_iff.mpr fun p selected kept => ?_).symm
    rw [List.flatMap_singleton] at selected
    obtain ⟨file, spared⟩ := Bool.and_eq_true_iff.mp kept
    rw [isExcluded, List.any_cons, takes selected file compiled] at spared
    contradiction

/- A glob with a step to where it is, a step up, any depth and a class. -/
theorem discover_mirrored_one_file :
    let root : Path := ⟨"/w".toList⟩
    let glob := "src/./../**/[a-c].t*".toList
    oneFile.root.Named ∧ root.isAbsolute = true ∧ Path.isAbsolute ⟨glob⟩ = false ∧ Usable glob ∧
      Direct glob ∧ discover oneFile root [glob] [] = .ok [⟨"/w/src/./../src/a.ts".toList⟩] ∧
      ∃ e files, Glob.compile glob = .ok e ∧ discover oneFile root [glob] [] = .ok files ∧
        (∀ p ∈ files, e.fits (Path.below root p).text = true) ∧
        discover oneFile root [glob] [glob] = .ok [] := by
  intro root glob
  have usable : Usable glob := by decide +kernel
  have direct : Direct glob := by decide +kernel
  refine ⟨named_oneFile, rfl, rfl, usable, direct, ?_, ?_⟩
  · decide +kernel
  · exact discover_mirrored named_oneFile rfl rfl usable direct

/-- A glob that starts with a dot, or says a slash twice, selects a file that it does not leave
out: below the root there is no dot, and no second slash, for the glob to take. -/
theorem discover_unmirrored :
    let root : Path := ⟨"/w".toList⟩
    let dotted := "./src/*.ts".toList
    let starred := ".*/src/*.ts".toList
    let doubled := "src//*.ts".toList
    oneFile.root.Named ∧ root.isAbsolute = true ∧
      (∀ glob ∈ [dotted, starred, doubled], Path.isAbsolute ⟨glob⟩ = false ∧ Usable glob) ∧
      discover oneFile root [dotted] [dotted] = .ok [⟨"/w/./src/a.ts".toList⟩] ∧
      discover oneFile root [starred] [starred] = .ok [⟨"/w/./src/a.ts".toList⟩] ∧
      discover oneFile root [doubled] [doubled] = .ok [⟨"/w/src/a.ts".toList⟩] := by
  refine ⟨named_oneFile, rfl, ?_, ?_, ?_, ?_⟩ <;> decide +kernel

end mirrored

end Discovery

end Unalias
