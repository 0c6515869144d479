import Unalias.Proofs.Discovery.Anchored

/-! The files of a project come once each. Two paths with the same components never come both; two
paths to the same file can come only where one of them has a `..`, which is never folded, and a `..`
has to be asked for by the root or by a target. -/
namespace Unalias

namespace Path

theorem ofSegment_eq_up_iff {s : Text} : Component.ofSegment s = some .up ↔ s = ['.', '.'] := by
  constructor
  · intro h
    unfold Component.ofSegment at h
    split at h
    · contradiction
    · split at h
      · assumption
      · cases h
  · rintro rfl
    rfl

theorem enter_of_ofSegment_some {s : Text} {c : Component} (h : Component.ofSegment s = some c)
    (level : c ≠ .up) (here : Place) : here.enter s = s :: here ∧ c = .name s := by
  unfold Component.ofSegment at h
  unfold Place.enter
  split at h
  · contradiction
  · rename_i moves
    split at h
    · exact absurd (Option.some.inj h).symm level
    · rename_i up
      rw [if_neg moves, if_neg up]
      exact ⟨rfl, (Option.some.inj h).symm⟩

/- Without steps up, the walker keeps every name that it enters. -/
theorem foldl_enter_of_level {segments : List Text} {here : Place}
    (level : Component.up ∉ segments.filterMap Component.ofSegment) :
    (segments.foldl Place.enter here).reverse.map Component.name =
      here.reverse.map .name ++ segments.filterMap Component.ofSegment := by
  induction segments generalizing here with
  | nil => simp
  | cons s segments ih =>
    rw [List.foldl_cons]
    cases hs : Component.ofSegment s with
    | none =>
      rw [List.filterMap_cons_none hs] at level ⊢
      rw [enter_of_ofSegment_none hs, ih level]
    | some c =>
      rw [List.filterMap_cons_some hs] at level ⊢
      obtain ⟨other, later⟩ := not_or.mp (mt List.mem_cons.mpr level)
      obtain ⟨entered, rfl⟩ := enter_of_ofSegment_some hs (Ne.symm other) here
      rw [entered, ih later]
      simp

theorem components_eq_of_level {p : Path} (absolute : p.isAbsolute = true)
    (level : .up ∉ p.components) : p.components = .root :: p.place.reverse.map .name := by
  rw [components_of_isAbsolute absolute] at level ⊢
  rw [steps_eq] at level ⊢
  have fold := @foldl_enter_of_level _ Place.root (mt (List.mem_cons_of_mem _) level)
  rw [place, Place.walk, fold]
  rfl

end Path

namespace Discovery

/-- A segment of the target begins with a dot and takes `..`. -/
def StepsUp (target : Text) : Prop :=
  ∃ s ∈ target.splitOn '/', s.head? = some '.' ∧
    ∃ e, Glob.compile s = .ok e ∧ e.fits ['.', '.'] = true

theorem distinct_spec (ps : List Path) :
    (distinct ps).Pairwise (fun p q => p.components ≠ q.components) ∧ distinct ps ⊆ ps := by
  unfold distinct
  apply List.foldlRecOn (motive := fun kept : List Path =>
    kept.Pairwise (fun p q => p.components ≠ q.components) ∧ kept ⊆ ps)
  · exact ⟨.nil, List.nil_subset ps⟩
  · rintro kept ⟨pairwise, subset⟩ p hp
    split
    · exact ⟨pairwise, subset⟩
    · rename_i fresh
      have other : ∀ q ∈ kept, q.components ≠ p.components := by simpa using fresh
      refine ⟨List.pairwise_append.mpr ⟨pairwise, List.pairwise_singleton _ p, ?_⟩, ?_⟩
      · intro q hq p' hp'
        rw [List.mem_singleton.mp hp']
        exact other q hq
      · exact List.append_subset.mpr ⟨subset, List.cons_subset.mpr ⟨hp, List.nil_subset ps⟩⟩

section found

variable {d : Disk} {root : Path} {targets excludes : List Text} {files : List Path}

theorem discover_eq_ok_iff : discover d root targets excludes = .ok files ↔
    ∃ patterns searches, excludes.mapM compileExclude = .ok patterns ∧
      targets.mapM (compileTarget root) = .ok searches ∧
      files = distinct ((searches.flatMap (·.results d)).filter fun p =>
        d.isFile p && !isExcluded patterns root p) := by
  constructor
  · intro found
    obtain ⟨patterns, compiled, found⟩ := bind_eq_ok_iff.mp found
    obtain ⟨searches, ready, found⟩ := bind_eq_ok_iff.mp found
    exact ⟨patterns, searches, compiled, ready, (Except.ok.inj found).symm⟩
  · rintro ⟨patterns, searches, compiled, ready, rfl⟩
    exact bind_eq_ok_iff.mpr ⟨patterns, compiled, bind_eq_ok_iff.mpr ⟨searches, ready, rfl⟩⟩

/- A file that is found is selected by a target. -/
theorem exists_target_of_mem (found : discover d root targets excludes = .ok files) {p : Path}
    (hp : p ∈ files) : ∃ target ∈ targets, ∃ search,
      Glob.Search.ofGlob (anchored root target).text = .ok search ∧ p ∈ search.results d ∧
        d.isFile p = true := by
  obtain ⟨patterns, searches, -, ready, rfl⟩ := discover_eq_ok_iff.mp found
  obtain ⟨selected, kept⟩ := List.mem_filter.mp ((distinct_spec _).2 hp)
  obtain ⟨search, hs, results⟩ := List.mem_flatMap.mp selected
  have compiled : Except.ok search ∈ targets.map (compileTarget root) := by
    rw [mapM_ok_iff.mp ready]
    exact List.mem_map_of_mem hs
  obtain ⟨target, ht, same⟩ := List.mem_map.mp compiled
  exact ⟨target, ht, search, mapError_eq_ok_iff.mp same, results, (Bool.and_eq_true_iff.mp kept).1⟩

end found

section files

variable {d : Disk} {root : Path} {targets excludes : List Text} {files : List Path} {p : Path}

theorem clean_trail {t : Text} {segments : List Glob.Segment} {names : List Text}
    (compiled : (Glob.segmentsOf t).mapM Glob.Segment.compile = .ok segments)
    (trail : Glob.Trail (Glob.merge segments) names) : ∀ n ∈ names, '/' ∉ n := by
  have clean (s : Text) (hs : s ∈ Glob.segmentsOf t) : '/' ∉ s :=
    not_mem_of_mem_splitOn (Glob.mem_of_mem_segmentsOf hs)
  exact Glob.Trail.forall_of_texts clean (fun name h => h.2.2.2) (by decide) (by decide) compiled
    trail

/- A file that is found has the steps that the names on the way to it say. -/
theorem steps_of_trail {names : List Text} (clean : ∀ n ∈ names, '/' ∉ n) :
    (names.foldl Glob.child ⟨['/']⟩).steps = names.filterMap Component.ofSegment :=
  Glob.steps_foldl_child rfl clean

theorem isAbsolute_of_mem (named : d.root.Named) (absolute : root.isAbsolute = true)
    (found : discover d root targets excludes = .ok files) (hp : p ∈ files) :
    p.isAbsolute = true := by
  obtain ⟨target, -, search, ready, results, -⟩ := exists_target_of_mem found hp
  have rooted := of_decide_eq_true (isAbsolute_anchored absolute target)
  obtain ⟨_, names, -, -, rfl⟩ := Glob.exists_trail_of_mem_results named rooted ready results
  exact Glob.isAbsolute_foldl_child rfl names

theorem locate_of_mem (found : discover d root targets excludes = .ok files) (hp : p ∈ files)
    (absolute : p.isAbsolute = true) : d.locate p = .ok p.place.reverse := by
  obtain ⟨_, -, _, -, -, file⟩ := exists_target_of_mem found hp
  cases located : d.locate p with
  | error f => simp [Disk.isFile, Disk.node?, located] at file
  | ok here => rw [Disk.location_eq_place absolute located]

/- Where a step up in a file that is found comes from. -/
theorem stepsUp_of_mem (named : d.root.Named) (absolute : root.isAbsolute = true)
    (found : discover d root targets excludes = .ok files) (hp : p ∈ files)
    (up : .up ∈ p.components) : .up ∈ root.components ∨ ∃ target ∈ targets, StepsUp target := by
  have rootedPath := isAbsolute_of_mem named absolute found hp
  obtain ⟨target, ht, search, ready, results, -⟩ := exists_target_of_mem found hp
  have rooted := of_decide_eq_true (isAbsolute_anchored absolute target)
  obtain ⟨segments, names, compiled, trail, rfl⟩ :=
    Glob.exists_trail_of_mem_results named rooted ready results
  -- the step is one of the names, and the segment for it asks for it
  rw [Path.components_of_isAbsolute rootedPath, steps_of_trail (clean_trail compiled trail)] at up
  obtain ⟨n, hn, step⟩ := List.mem_filterMap.mp ((List.mem_cons.mp up).resolve_left (by simp))
  obtain ⟨s, hs, fits, q, dotted⟩ :=
    trail.exists_of_mem_up (Path.ofSegment_eq_up_iff.mp step ▸ hn)
  obtain ⟨t, htext, same⟩ := Glob.exists_text_of_mem compiled (Glob.mem_of_mem_merge hs)
  have read := (Glob.Segment.compiled_of_compile same).1
  have asks (h : t ∈ target.splitOn '/') : StepsUp target := by
    obtain ⟨u, begins, -⟩ := (dotted ▸ read).exists_of_exactly
    exact ⟨t, h, begins ▸ rfl, s.pieces, Glob.compile_eq_ok_iff.mpr read,
      Pattern.fits_iff.mpr fits⟩
  have htext := Glob.mem_of_mem_segmentsOf htext
  cases relative : Path.isAbsolute ⟨target⟩ with
  | true =>
    rw [anchored, Path.join_of_isAbsolute _ relative] at htext
    refine .inr ⟨target, ht, asks ?_⟩
    rw [Path.splitOn_rooted relative]
    exact List.mem_cons_of_mem _ htext
  | false =>
    obtain ⟨front, steps, -, -, cut⟩ := exists_front absolute
    rw [cut target relative] at htext
    rcases List.mem_append.mp htext with inRoot | inTarget
    · obtain ⟨f, hf, rfl⟩ := List.mem_map.mp inRoot
      have dots := ((Glob.pieces_of_escape same).2 _).mp fits
      rw [Path.components_of_isAbsolute absolute, ← steps]
      exact .inl (List.mem_cons_of_mem _ (List.mem_filterMap.mpr ⟨f, hf, dots ▸ rfl⟩))
    · exact .inr ⟨target, ht, asks inTarget⟩

/-- No two of the files that are found have the same components, so no spelling of `.` segments and
repeated slashes, and no choice between a relative and an absolute target, gives a file twice. Each
file is where its path says, and two paths say the same only where one of them has a `..`. That
comes from the root or from a target, and without it no two of the paths lead to the same file. -/
theorem discover_distinct (named : d.root.Named) (absolute : root.isAbsolute = true)
    (found : discover d root targets excludes = .ok files) :
    files.Pairwise (fun p q => p.components ≠ q.components ∧
      (p.place = q.place → .up ∈ p.components ∨ .up ∈ q.components)) ∧
    (∀ p ∈ files, p.isAbsolute = true ∧ d.locate p = .ok p.place.reverse ∧
      (.up ∈ p.components → .up ∈ root.components ∨ ∃ target ∈ targets, StepsUp target)) ∧
    (.up ∉ root.components → (∀ target ∈ targets, ¬StepsUp target) →
      files.Pairwise fun p q => d.locate p ≠ d.locate q) := by
  have each (p : Path) (hp : p ∈ files) : p.isAbsolute = true ∧ d.locate p = .ok p.place.reverse ∧
      (.up ∈ p.components → .up ∈ root.components ∨ ∃ target ∈ targets, StepsUp target) := by
    have rooted := isAbsolute_of_mem named absolute found hp
    exact ⟨rooted, locate_of_mem found hp rooted, stepsUp_of_mem named absolute found hp⟩
  have pairs : files.Pairwise (fun p q => p.components ≠ q.components ∧
      (p.place = q.place → .up ∈ p.components ∨ .up ∈ q.components)) := by
    obtain ⟨patterns, searches, -, -, same⟩ := discover_eq_ok_iff.mp found
    have apart := same ▸ (distinct_spec _).1
    refine List.Pairwise.imp_of_mem (fun {p q} hp hq other => ⟨other, fun place => ?_⟩) apart
    by_contra level
    obtain ⟨level, level'⟩ := not_or.mp level
    apply other
    rw [Path.components_eq_of_level (each p hp).1 level,
      Path.components_eq_of_level (each q hq).1 level', place]
  refine ⟨pairs, each, fun level targets_level => ?_⟩
  have never (p : Path) (hp : p ∈ files) : .up ∉ p.components := by
    intro up
    rcases (each p hp).2.2 up with root_up | ⟨target, ht, up⟩
    · exact level root_up
    · exact targets_level target ht up
  refine List.Pairwise.imp_of_mem (fun {p q} hp hq apart same => ?_) pairs
  rw [(each p hp).2.1, (each q hq).2.1] at same
  have place : p.place = q.place := List.reverse_inj.mp (Except.ok.inj same)
  exact (apart.2 place).elim (never p hp) (never q hq)

end files

/- A folder with one file in it. -/
def oneFile : Disk :=
  ⟨[("w".toList, .folder [("src".toList, .folder [("a.ts".toList, .file (.text []))])])], []⟩

theorem named_oneFile : oneFile.root.Named := by
  simp [oneFile, Disk.root, Node.Named, Node.NamedEntries, IsName]

/- Many spellings of one file, one of which has a step up. -/
theorem discover_distinct_one_file :
    let root : Path := ⟨"/w".toList⟩
    let targets := ["src/*.ts".toList, "src//a.ts".toList, "./src/a.ts".toList,
      "/w/**/a.ts".toList, "src/../src/a.ts".toList]
    let files : List Path := [⟨"/w/src/a.ts".toList⟩, ⟨"/w/src/../src/a.ts".toList⟩]
    oneFile.root.Named ∧ root.isAbsolute = true ∧ discover oneFile root targets [] = .ok files ∧
    files.Pairwise (fun p q => p.components ≠ q.components ∧
      (p.place = q.place → .up ∈ p.components ∨ .up ∈ q.components)) ∧
    (∀ p ∈ files, p.isAbsolute = true ∧ oneFile.locate p = .ok p.place.reverse ∧
      (.up ∈ p.components → .up ∈ root.components ∨ ∃ target ∈ targets, StepsUp target)) ∧
    (.up ∉ root.components → (∀ target ∈ targets, ¬StepsUp target) →
      files.Pairwise fun p q => oneFile.locate p ≠ oneFile.locate q) := by
  intro root targets files
  have found : discover oneFile root targets [] = .ok files := by decide +kernel
  exact ⟨named_oneFile, rfl, found, discover_distinct named_oneFile rfl found⟩

/-- A step up that takes back the folder before it is not folded, so a file comes twice. -/
theorem discover_repeats :
    let root : Path := ⟨"/w".toList⟩
    let p : Path := ⟨"/w/src/a.ts".toList⟩
    let q : Path := ⟨"/w/src/../src/a.ts".toList⟩
    oneFile.root.Named ∧ root.isAbsolute = true ∧
      discover oneFile root ["src/a.ts".toList, "src/../src/a.ts".toList] [] = .ok [p, q] ∧
      p.place = q.place ∧ p.normal = q.normal ∧ oneFile.locate p = oneFile.locate q := by
  refine ⟨named_oneFile, rfl, ?_, ?_, ?_, ?_⟩ <;> decide +kernel

end Discovery

end Unalias
