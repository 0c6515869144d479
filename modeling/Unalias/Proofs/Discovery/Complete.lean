import Unalias.Proofs.Discovery.Rooted

/-! What is found, exactly. Either the first text that is no glob is to blame, or each target
selects what it selects from the root, and of all that comes the first of each file that no exclude
takes is kept, in order. -/
namespace Unalias.Discovery

/-- The first of the texts that cannot be read, and what is wrong with it. -/
def FirstFlaw {β : Type} (read : Text → Except Glob.Flaw β) (texts : List Text) (t : Text)
    (flaw : Glob.Flaw) : Prop :=
  ∃ before after, texts = before ++ t :: after ∧ (∀ s ∈ before, ∃ b, read s = .ok b) ∧
    read t = .error flaw

/-- What a target selects: an absolute one from the root of the tree, and a relative one from the
start instead. -/
def selected (d : Disk) (start : Path) (target : Text) : List Path :=
  if Path.isAbsolute ⟨target⟩ then
    (Glob.Search.ofGlob target).toOption.elim [] fun search => search.results d
  else
    (Glob.Search.ofGlob ('/' :: target)).toOption.elim [] fun search =>
      { search with start := start }.results d

/-- A regular file that no exclude takes, neither by its path below the root nor by its whole
path. -/
def Admits (d : Disk) (root : Path) (patterns : List Pattern) (p : Path) : Prop :=
  d.isFile p = true ∧
    ∀ e ∈ patterns, e.fits (Path.below root p).text = false ∧ e.fits p.text = false

instance (d : Disk) (root : Path) (patterns : List Pattern) :
    DecidablePred (Admits d root patterns) := fun _ => inferInstanceAs (Decidable (_ ∧ _))

/-- Of all that the targets select, in their order, the first of each file that is admitted. -/
def kept (d : Disk) (root start : Path) (targets : List Text) (patterns : List Pattern) :
    List Path :=
  ((targets.flatMap (selected d start)).filter (Admits d root patterns)).eraseDupsBy
    (·.components = ·.components)

section flaws

variable {β : Type} {read : Text → Except Glob.Flaw β} {texts : List Text} {error : Error}

/- When texts are read one after another, the first that cannot be read is named. -/
theorem mapM_glob_error_iff :
    texts.mapM (fun t => (read t).mapError (Error.glob t)) = .error error ↔
      ∃ t flaw, FirstFlaw read texts t flaw ∧ error = .glob t flaw := by
  simp only [mapM_error_iff, mapError_eq_ok_iff, mapError_eq_error_iff]
  constructor
  · rintro ⟨before, t, after, whole, fine, flaw, wrong, rfl⟩
    exact ⟨t, flaw, ⟨before, after, whole, fine, wrong⟩, rfl⟩
  · rintro ⟨t, flaw, ⟨before, after, whole, fine, wrong⟩, rfl⟩
    exact ⟨before, t, after, whole, fine, flaw, wrong, rfl⟩

theorem discover_eq_error_iff {d : Disk} {root : Path} {targets excludes : List Text} :
    discover d root targets excludes = .error error ↔
      (∃ e flaw, FirstFlaw Glob.compile excludes e flaw ∧ error = .glob e flaw) ∨
      (∀ e ∈ excludes, ∃ p, Glob.compile e = .ok p) ∧ ∃ t flaw,
        FirstFlaw (fun t => Glob.Search.ofGlob (anchored root t).text) targets t flaw ∧
          error = .glob t flaw := by
  have read : (∃ patterns, excludes.mapM compileExclude = .ok patterns) ↔
      ∀ e ∈ excludes, ∃ p, Glob.compile e = .ok p := by
    simp only [exists_mapM_ok_iff, compileExclude, mapError_eq_ok_iff]
  have blamed : excludes.mapM compileExclude = .error error ↔ _ := mapM_glob_error_iff
  have blamed' : targets.mapM (compileTarget root) = .error error ↔ _ := mapM_glob_error_iff
  rw [← read, ← blamed, ← blamed', discover, bind_eq_error_iff]
  refine or_congr_right ?_
  rw [← exists_and_right]
  refine exists_congr fun patterns => and_congr_right fun _ => ?_
  rw [bind_eq_error_iff]
  exact or_iff_left fun ⟨_, _, done⟩ => nomatch done

end flaws

section targets

variable {d : Disk} {root : Path} {target : Text}

/-- Whether a target can be searched for does not depend on the root. -/
theorem exists_search_iff (absolute : root.isAbsolute = true) :
    (∃ search, compileTarget root target = .ok search) ↔ Usable target := by
  simp only [compileTarget, mapError_eq_ok_iff]
  have slashed := of_decide_eq_true (isAbsolute_anchored absolute target)
  cases relative : Path.isAbsolute ⟨target⟩ with
  | true =>
    obtain ⟨t, rfl⟩ := List.head?_eq_some_iff.mp (of_decide_eq_true relative)
    rw [Glob.exists_ofGlob_iff slashed, anchored, Path.join_of_isAbsolute _ relative, Usable,
      Glob.segmentsOf_rooted]
    refine and_congr_right fun _ => ?_
    have empty : ∃ x, Glob.Segment.compile [] = .ok x := ⟨.plain [], by decide +kernel⟩
    exact ⟨fun each => List.forall_mem_cons.mpr ⟨empty, each⟩, fun each =>
      (List.forall_mem_cons.mp each).2⟩
  | false =>
    constructor
    · rintro ⟨search, ready⟩
      obtain ⟨⟨q, whole⟩, each⟩ := (Glob.exists_ofGlob_iff slashed).mp ⟨search, ready⟩
      obtain ⟨above, _, slash, -⟩ := Path.exists_above absolute
      rw [text_anchored relative (Path.text_ne_nil_of_isAbsolute absolute) slash,
        Glob.compile_eq_ok_iff] at whole
      obtain ⟨p, read⟩ := Glob.exists_compiled_of_escape whole
      obtain ⟨front, -, -, -, cut⟩ := exists_front absolute
      rw [Glob.segmentsOf_of_splitOn (cut target relative)] at each
      exact ⟨⟨p, Glob.compile_eq_ok_iff.mpr read⟩, (List.forall_mem_append.mp each).2⟩
    · intro usable
      obtain ⟨_, _, -, -, -, -, ready⟩ := exists_searches absolute
      obtain ⟨_, -, same⟩ := ready target relative usable
      exact ⟨_, mapError_eq_ok_iff.mp same⟩

theorem selected_of_relative {start : Path} {segments : List Glob.Segment}
    (relative : Path.isAbsolute ⟨target⟩ = false) (usable : Usable target)
    (compiled : (Glob.segmentsOf target).mapM Glob.Segment.compile = .ok segments) :
    selected d start target = (Glob.Search.mk start (Glob.merge segments)
      (decide (target = [] ∨ target.getLast? = some '/'))).results d := by
  have last : ('/' :: target).getLast? = some '/' ↔ target = [] ∨ target.getLast? = some '/' := by
    cases target <;> simp
  have slashed : ('/' :: target).head? = some '/' := rfl
  have ready := (Glob.ofGlob_eq_ok_iff slashed).mpr
    ⟨Glob.compile_rooted_iff.mpr usable.1, segments, compiled, rfl⟩
  rw [selected, relative, ready]
  simp only [last]
  rfl

/- What is neither folders only nor segments is no search at all. -/
theorem opened_of_compiled {segments : List Glob.Segment}
    (compiled : (Glob.segmentsOf target).mapM Glob.Segment.compile = .ok segments) :
    Glob.merge segments ≠ [] ∨ decide (target = [] ∨ target.getLast? = some '/') = true := by
  by_cases folders : target = [] ∨ target.getLast? = some '/'
  · exact .inr (decide_eq_true folders)
  · obtain ⟨filled, opened⟩ := not_or.mp folders
    refine .inl (Glob.merge_ne_nil ?_)
    rintro rfl
    have none : (Glob.segmentsOf target).map Glob.Segment.compile = [] := mapM_ok_iff.mp compiled
    rw [List.map_eq_nil_iff, Glob.segmentsOf_of_open filled opened] at none
    exact List.splitOn_ne_nil '/' target none

/-- The root is taken literally: a relative target selects what it selects from a start that says
the same as the root, and is the root when that is written without empty segments. -/
theorem exists_start (tidy : d.root.Tidy) (absolute : root.isAbsolute = true) :
    ∃ start : Path, start.components = root.components ∧ ([] ∉ root.split.2 → start = root) ∧
      ∀ target search, compileTarget root target = .ok search →
        search.results d = selected d start target := by
  obtain ⟨front, fore, steps, clean, full, rooted, ready⟩ := exists_searches absolute
  refine ⟨front.foldl Glob.child ⟨['/']⟩, ?_, fun filled => ?_, fun target search found => ?_⟩
  · rw [Path.components_of_isAbsolute absolute, ← steps, ← steps_of_trail clean]
    exact Path.components_of_isAbsolute (Glob.isAbsolute_foldl_child rfl front)
  · rw [full filled]
    exact Path.foldl_child_split absolute filled
  · cases relative : Path.isAbsolute ⟨target⟩ with
    | true =>
      have itself : compileTarget root target =
          (Glob.Search.ofGlob target).mapError (Error.glob target) := by
        rw [compileTarget, anchored, Path.join_of_isAbsolute _ relative]
      have read := mapError_eq_ok_iff.mp (itself.symm.trans found)
      rw [selected, relative, read]
      rfl
    | false =>
      have usable := (exists_search_iff absolute).mp ⟨search, found⟩
      obtain ⟨segments, compiled, same⟩ := ready target relative usable
      rw [same] at found
      cases Except.ok.inj found
      have solid (name : Text) (h : .plain name ∈ Glob.merge segments) : '/' ∉ name := by
        obtain ⟨t, ht, read⟩ := Glob.exists_text_of_mem compiled (Glob.mem_of_mem_merge h)
        rw [← Glob.Segment.eq_of_plain read]
        exact not_mem_of_mem_splitOn (Glob.mem_of_mem_segmentsOf ht)
      rw [selected_of_relative relative usable compiled, Glob.merge_append rooted]
      exact Glob.Search.results_append tidy rooted clean rfl (opened_of_compiled compiled) solid

end targets

section distinct

variable {ps : List Path} {p : Path}

/- The paths that are kept, one after another. -/
theorem foldl_distinct (kept : List Path) : ps.foldl (fun kept p =>
      if kept.any (·.components = p.components) then kept else kept ++ [p]) kept =
    kept ++ (ps.filter fun p => !kept.any (·.components = p.components)).eraseDupsBy
      (·.components = ·.components) := by
  induction ps generalizing kept with
  | nil => exact (List.append_nil kept).symm
  | cons p ps ih =>
    rw [List.foldl_cons]
    cases seen : kept.any (·.components = p.components) with
    | true =>
      rw [if_pos rfl, ih, List.filter_cons_of_neg (by simp [seen])]
    | false =>
      rw [if_neg (by simp), ih, List.filter_cons_of_pos (by simp [seen]), List.eraseDupsBy_cons,
        List.filter_filter, List.append_assoc, List.singleton_append]
      refine congrArg (fun rest => kept ++ p :: List.eraseDupsBy _ rest)
        (List.filter_congr fun q _ => ?_)
      by_cases same : p.components = q.components
      · simp [same]
      · simp [same, Ne.symm same]

/-- Of the paths that say the same, the first is kept. -/
theorem distinct_eq (ps : List Path) :
    distinct ps = ps.eraseDupsBy (·.components = ·.components) :=
  (foldl_distinct []).trans (by simp)

theorem distinct_append (ps qs : List Path) : distinct ps <+: distinct (ps ++ qs) := by
  rw [distinct, distinct, List.foldl_append]
  exact ⟨_, (foldl_distinct _).symm⟩

/- No path is dropped but for one that says the same. -/
theorem exists_mem_distinct (hp : p ∈ ps) : ∃ q ∈ distinct ps, q.components = p.components := by
  obtain ⟨before, after, rfl⟩ := List.append_of_mem hp
  have here : ∃ q ∈ distinct (before ++ [p]), q.components = p.components := by
    rw [distinct, List.foldl_append, List.foldl_cons, List.foldl_nil]
    split
    · rename_i seen
      simpa using seen
    · exact ⟨p, by simp, rfl⟩
  obtain ⟨q, hq, same⟩ := here
  refine ⟨q, ?_, same⟩
  rw [← List.singleton_append, ← List.append_assoc]
  exact (distinct_append _ after).subset hq

end distinct

section exact

variable {d : Disk} {root start : Path} {targets excludes : List Text} {patterns : List Pattern}
  {files : List Path}

theorem admits_iff (p : Path) :
    (d.isFile p && !isExcluded patterns root p) = true ↔ Admits d root patterns p := by
  simp [Admits, isExcluded]

theorem kept_append (more : List Text) :
    kept d root start targets patterns <+: kept d root start (targets ++ more) patterns := by
  rw [kept, kept, List.flatMap_append, List.filter_append, ← distinct_eq, ← distinct_eq]
  exact distinct_append _ _

/- With one more exclude, no file is kept that was not kept before. -/
theorem exists_mem_kept {e : Pattern} {p : Path}
    (hp : p ∈ kept d root start targets (patterns ++ [e])) :
    ∃ q ∈ kept d root start targets patterns, q.components = p.components := by
  rw [kept, ← distinct_eq] at hp ⊢
  obtain ⟨selected, admits⟩ := List.mem_filter.mp ((distinct_spec _).2 hp)
  obtain ⟨file, spared⟩ := of_decide_eq_true admits
  refine exists_mem_distinct (List.mem_filter.mpr ⟨selected, decide_eq_true ⟨file, fun g hg => ?_⟩⟩)
  exact spared g (List.mem_append_left _ hg)

/-- Files are found just when all excludes and all targets can be read. -/
theorem discover_eq_ok_iff_kept (absolute : root.isAbsolute = true)
    (literally : ∀ target search, compileTarget root target = .ok search →
      search.results d = selected d start target) :
    discover d root targets excludes = .ok files ↔
      ∃ patterns, excludes.map Glob.compile = patterns.map Except.ok ∧
        (∀ t ∈ targets, Usable t) ∧ files = kept d root start targets patterns := by
  have each : (∃ searches, targets.mapM (compileTarget root) = .ok searches) ↔
      ∀ t ∈ targets, Usable t := by
    simp only [exists_mapM_ok_iff, exists_search_iff absolute]
  have filtered (searches : List Glob.Search)
      (ready : targets.mapM (compileTarget root) = .ok searches) (patterns : List Pattern) :
      distinct ((searches.flatMap (·.results d)).filter fun p =>
        d.isFile p && !isExcluded patterns root p) = kept d root start targets patterns := by
    rw [flatMap_of_mapM ready literally, distinct_eq, kept]
    refine congrArg _ (List.filter_congr fun p _ => ?_)
    rw [Bool.eq_iff_iff, admits_iff, decide_eq_true_iff]
  rw [discover_eq_ok_iff]
  constructor
  · rintro ⟨patterns, searches, compiled, ready, rfl⟩
    exact ⟨patterns, mapM_mapError_ok_iff.mp compiled, each.mp ⟨searches, ready⟩,
      filtered searches ready patterns⟩
  · rintro ⟨patterns, compiled, usable, rfl⟩
    obtain ⟨searches, ready⟩ := each.mpr usable
    exact ⟨patterns, searches, mapM_mapError_ok_iff.mpr compiled, ready,
      (filtered searches ready patterns).symm⟩

/-- What is found below a root, when relative targets are searched for from the start. -/
structure Exact (d : Disk) (root start : Path) (targets excludes : List Text) : Prop where
  /-- The first exclude that is no glob is to blame and, when all are, the first such target. -/
  error_iff : ∀ error, discover d root targets excludes = .error error ↔
    (∃ e flaw, FirstFlaw Glob.compile excludes e flaw ∧ error = .glob e flaw) ∨
    (∀ e ∈ excludes, ∃ p, Glob.compile e = .ok p) ∧ ∃ t flaw,
      FirstFlaw (fun t => Glob.Search.ofGlob (anchored root t).text) targets t flaw ∧
        error = .glob t flaw
  ok_iff : ∀ files, discover d root targets excludes = .ok files ↔
    ∃ patterns, excludes.map Glob.compile = patterns.map Except.ok ∧
      (∀ t ∈ targets, Usable t) ∧ files = kept d root start targets patterns
  /-- One more target leaves the files as they are, and may bring more after them. -/
  longer : ∀ files, discover d root targets excludes = .ok files → ∀ t, Usable t →
    ∃ more, discover d root (targets ++ [t]) excludes = .ok (files ++ more)
  /-- One more exclude brings no file. -/
  fewer : ∀ files, discover d root targets excludes = .ok files → ∀ e p, Glob.compile e = .ok p →
    ∃ left, discover d root targets (excludes ++ [e]) = .ok left ∧
      ∀ f ∈ left, ∃ g ∈ files, g.components = f.components

/-- Discovery fails as a whole, with the first exclude that is no glob or, when all excludes are,
with the first target that is none. Otherwise the files are what the targets select one after
another below the root, as it is written, without what is no regular file, what an exclude takes,
and what says the same as a file before it. On a disk whose folders can all be listed, the search
itself does not fail. -/
theorem discover_exact (tidy : d.root.Tidy) (absolute : root.isAbsolute = true) :
    ∃ start : Path, start.components = root.components ∧ ([] ∉ root.split.2 → start = root) ∧
      ∀ targets excludes, Exact d root start targets excludes := by
  obtain ⟨start, same, full, literally⟩ := exists_start tidy absolute
  refine ⟨start, same, full, fun targets excludes => ?_⟩
  have exactly (targets excludes : List Text) (files : List Path) :=
    @discover_eq_ok_iff_kept d root start targets excludes files absolute literally
  refine ⟨fun error => discover_eq_error_iff, exactly targets excludes, fun files found t ht => ?_,
    fun files found e p he => ?_⟩
  · obtain ⟨patterns, compiled, usable, rfl⟩ := (exactly targets excludes files).mp found
    have grows := @kept_append d root start targets patterns [t]
    obtain ⟨more, longer⟩ := grows
    have all : ∀ s ∈ targets ++ [t], Usable s :=
      List.forall_mem_append.mpr ⟨usable, List.forall_mem_singleton.mpr ht⟩
    exact ⟨more, (exactly _ _ _).mpr ⟨patterns, compiled, all, longer⟩⟩
  · obtain ⟨patterns, compiled, usable, rfl⟩ := (exactly targets excludes files).mp found
    have both : (excludes ++ [e]).map Glob.compile = (patterns ++ [p]).map Except.ok := by
      rw [List.map_append, List.map_append, compiled, List.map_singleton, List.map_singleton, he]
    exact ⟨_, (exactly _ _ _).mpr ⟨_, both, usable, rfl⟩, fun f hf => exists_mem_kept hf⟩

/- Two files in a folder whose name is written with brackets. -/
def twoFiles : Disk :=
  ⟨[("w[1]".toList, .folder [("src".toList, .folder [("a.ts".toList, .file (.text [])),
    ("b.tsx".toList, .file (.text []))])])], []⟩

theorem discover_exact_two_files :
    let root : Path := ⟨"/w[1]".toList⟩
    let globs : List Text := ["src/*.tsx".toList, "src/*".toList]
    twoFiles.root.Tidy ∧ root.isAbsolute = true ∧ [] ∉ root.split.2 ∧
      discover twoFiles root globs [] = .ok [⟨"/w[1]/src/b.tsx".toList⟩, ⟨"/w[1]/src/a.ts".toList⟩] ∧
      discover twoFiles root (globs ++ ["src/***".toList]) [] =
        .error (.glob "src/***".toList ⟨16, .starRun⟩) ∧
      ∃ start : Path, start.components = root.components ∧ ([] ∉ root.split.2 → start = root) ∧
        ∀ targets excludes, Exact twoFiles root start targets excludes := by
  intro root globs
  have tidy : twoFiles.root.Tidy := by
    have order : ['a', '.', 't', 's'] < ['b', '.', 't', 's', 'x'] := by decide
    simp [twoFiles, Disk.root, Node.Tidy, Node.TidyEntries, Node.Ordered, order]
  refine ⟨tidy, rfl, ?_, ?_, ?_, discover_exact tidy rfl⟩ <;> decide +kernel

end exact

end Unalias.Discovery
