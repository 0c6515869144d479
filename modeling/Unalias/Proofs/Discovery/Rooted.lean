import Unalias.Proofs.Discovery.Mirrored

/-! A search below a root is a search from the root. The segments of the root take nothing but the
root, whatever characters its name has, and when there is no such folder both searches are empty. -/
namespace Unalias

namespace Glob

variable {d : Disk} {p : Path}

theorem node?_child_of_none (absolute : p.isAbsolute = true) {name : Text} (clean : '/' ∉ name)
    (h : d.node? p = none) : d.node? (child p name) = none := by
  rw [child_of_isAbsolute absolute]
  refine Disk.node?_join_of_not_folder (Path.text_ne_nil_of_isAbsolute absolute) clean ?_
  rw [Disk.isFolder, h]
  rfl

theorem node?_foldl_child_of_none (absolute : p.isAbsolute = true) {names : List Text}
    (clean : ∀ n ∈ names, '/' ∉ n) (h : d.node? p = none) :
    d.node? (names.foldl child p) = none := by
  induction names generalizing p with
  | nil => exact h
  | cons n names ih =>
    obtain ⟨solid, clean⟩ := List.forall_mem_cons.mp clean
    exact ih (isAbsolute_child absolute n) clean (node?_child_of_none absolute solid h)

/- An escaped name that is listed, and not looked up, is a proper one: dots are not escaped. -/
theorem isName_of_listed {name : Text} {pattern : Pattern} (clean : '/' ∉ name)
    (h : Segment.compile (escape name) = .ok (.listed pattern)) : IsName name := by
  refine ⟨?_, ?_, ?_, clean⟩
  · rintro rfl
    have plain : Segment.compile (escape []) = .ok (.plain []) := by decide +kernel
    rw [plain] at h
    cases h
  · rintro rfl
    have plain : Segment.compile (escape ['.']) = .ok (.plain ['.']) := by decide +kernel
    rw [plain] at h
    cases h
  · rintro rfl
    have plain : Segment.compile (escape ['.', '.']) = .ok (.plain ['.', '.']) := by decide +kernel
    rw [plain] at h
    cases h

/-- An escaped segment goes on to the entry of that name, or stops where there is none. -/
theorem expandFrom_escape (tidy : d.root.Tidy) {name : Text} {s : Segment} (clean : '/' ∉ name)
    (read : Segment.compile (escape name) = .ok s) (rest : List Segment)
    (absolute : p.isAbsolute = true) :
    expandFrom d (s :: rest) p = expandFrom d rest (child p name) ∨
      expandFrom d (s :: rest) p = [] ∧ d.node? (child p name) = none := by
  have some := Path.text_ne_nil_of_isAbsolute absolute
  obtain ⟨shallow, only⟩ := pieces_of_escape read
  cases s with
  | recursive => contradiction
  | plain n =>
    obtain rfl : n = name := (only n).mp (fits_exact_iff.mpr rfl)
    rw [expandFrom]
    cases goes : leads d p n with
    | true => exact .inl (if_pos rfl)
    | false =>
      refine .inr ⟨if_neg (by simp), ?_⟩
      unfold leads at goes
      split at goes
      · rw [child_of_isAbsolute absolute]
        exact Disk.node?_join_of_not_folder some clean goes
      · simpa [Disk.holds] using goes
  | listed pattern =>
    have proper := isName_of_listed clean read
    rw [expandFrom]
    cases folder : d.isFolder p with
    | false =>
      refine .inr ⟨if_neg (by simp), ?_⟩
      rw [child_of_isAbsolute absolute]
      exact Disk.node?_join_of_not_folder some clean folder
    | true =>
      obtain ⟨here, es, located, held, node⟩ := Disk.exists_of_isFolder folder
      have dotless : (Segment.listed pattern).dots = [] := by
        refine List.eq_nil_iff_forall_not_mem.mpr fun n hn => ?_
        obtain ⟨dotted, fits, -⟩ := Segment.mem_dots hn
        rw [(only n).mp fits] at dotted
        exact dotted.elim proper.2.2.1 proper.2.1
      have entries : entriesAt d p = es := by
        rw [entriesAt, node]
        rfl
      have taken (e : Text × Node) : pattern.fits e.1 = true ↔ e.1 = name :=
        Pattern.fits_iff.trans (only e.1)
      have once := Node.flatMap_entries (tidy.at? held).1 name fun n => expandFrom d rest (child p n)
      simp only [if_true, dotless, entries, taken, List.flatMap_nil, List.nil_append, once]
      cases found : Node.lookup name es with
      | none =>
        refine .inr ⟨rfl, ?_⟩
        rw [child_of_isAbsolute absolute]
        exact Disk.node?_join_of_lookup some proper located held found
      | some x => exact .inl rfl

namespace Search

/- A search that starts nowhere finds nothing. -/
theorem results_of_none {search : Search} (opened : search.segments ≠ [] ∨ search.foldersOnly = true)
    (h : d.node? search.start = none) (clean : ∀ name, .plain name ∈ search.segments → '/' ∉ name)
    (absolute : search.start.isAbsolute = true) : search.results d = [] := by
  have folder : d.isFolder search.start = false := by
    rw [Disk.isFolder, h]
    rfl
  obtain ⟨start, segments, foldersOnly⟩ := search
  unfold results
  cases segments with
  | nil =>
    have only : foldersOnly = true := opened.resolve_left (· rfl)
    simpa [only, expandFrom] using folder
  | cons s rest =>
    have none : expandFrom d (s :: rest) start = [] := by
      cases s with
      | plain name =>
        have solid := clean name List.mem_cons_self
        have gone := node?_child_of_none absolute solid h
        have stops : leads d start name = false := by
          unfold leads
          split
          · exact folder
          · rw [Disk.holds, gone]
            rfl
        rw [expandFrom, stops]
        rfl
      | listed pattern =>
        rw [expandFrom]
        exact if_neg (by simpa using folder)
      | recursive =>
        have nothing : belowPath d start = [] := by
          rw [belowPath, h]
          rfl
        cases rest with
        | nil => rw [expandFrom, nothing]; rfl
        | cons next rest => rw [expandFrom, nothing]; rfl
    simp [none]

/-- Literal segments before a search are the same as the search from where they lead. -/
theorem results_append (tidy : d.root.Tidy) {front : List Text} {fore : List Segment}
    (compiled : (front.map escape).mapM Segment.compile = .ok fore)
    (solid : ∀ s ∈ front, '/' ∉ s) (absolute : p.isAbsolute = true) {segments : List Segment}
    {foldersOnly : Bool} (opened : segments ≠ [] ∨ foldersOnly = true)
    (clean : ∀ name, .plain name ∈ segments → '/' ∉ name) :
    (Search.mk p (fore ++ segments) foldersOnly).results d =
      (Search.mk (front.foldl child p) segments foldersOnly).results d := by
  induction front generalizing fore p with
  | nil =>
    cases Except.ok.inj compiled
    rfl
  | cons n front ih =>
    rw [List.map_cons, List.mapM_cons] at compiled
    obtain ⟨s, read, compiled⟩ := bind_eq_ok_iff.mp compiled
    obtain ⟨rest, later, compiled⟩ := bind_eq_ok_iff.mp compiled
    cases Except.ok.inj compiled
    obtain ⟨first, solid⟩ := List.forall_mem_cons.mp solid
    have rooted := isAbsolute_child absolute n
    rw [List.foldl_cons, List.cons_append]
    rcases expandFrom_escape tidy first read (rest ++ segments) absolute with same | ⟨none, gone⟩
    · rw [← ih later solid rooted, results, results, same]
    · have lost := node?_foldl_child_of_none rooted solid gone
      have nowhere :
          (Search.mk (front.foldl child (child p n)) segments foldersOnly).results d = [] :=
        results_of_none opened lost clean (isAbsolute_foldl_child rooted front)
      rw [nowhere, results, none]
      simp

end Search

/- Segments that are escaped are not merged with anything. -/
theorem merge_append {front : List Text} {fore : List Segment}
    (compiled : (front.map escape).mapM Segment.compile = .ok fore) (segments : List Segment) :
    merge (fore ++ segments) = fore ++ merge segments := by
  induction front generalizing fore with
  | nil =>
    cases Except.ok.inj compiled
    rfl
  | cons n front ih =>
    rw [List.map_cons, List.mapM_cons] at compiled
    obtain ⟨s, read, compiled⟩ := bind_eq_ok_iff.mp compiled
    obtain ⟨rest, later, compiled⟩ := bind_eq_ok_iff.mp compiled
    cases Except.ok.inj compiled
    rw [List.cons_append, merge_cons (pieces_of_escape read).1, ih later]
    rfl

end Glob

namespace Path

/- The names of a path put one under another from the root give the path back. -/
theorem foldl_child_split {p : Path} (absolute : p.isAbsolute = true) (full : [] ∉ p.split.2) :
    p.split.2.foldl Glob.child ⟨['/']⟩ = p := by
  have whole := p.ofParts_split
  rw [anchor_eq_root_iff.mpr absolute] at whole
  have solid : ∀ s ∈ p.split.2, '/' ∉ s := fun s hs => not_mem_of_mem_splitOn (mem_split hs)
  have filled : ∀ s ∈ p.split.2, s ≠ [] := fun s hs empty => full (empty ▸ hs)
  generalize p.split.2 = names at whole solid filled
  cases names with
  | nil => exact whole
  | cons n names =>
    obtain ⟨clean, solid⟩ := List.forall_mem_cons.mp solid
    obtain ⟨some, filled⟩ := List.forall_mem_cons.mp filled
    have rooted : (Glob.child ⟨['/']⟩ n).isAbsolute = true := Glob.isAbsolute_child rfl n
    have first : (Glob.child ⟨['/']⟩ n).split.2 = [n] := by
      have cut := splitOn_of_isAbsolute rooted
      rw [Glob.text_child rfl clean] at cut
      have slash : ('/' :: n).splitOn '/' = [] :: n.splitOn '/' := List.splitOn_append_cons_self [] n
      rw [List.splitOn_eq_singleton clean] at slash
      exact (List.cons.inj (cut.symm.trans slash)).2
    have split := split_foldl_child rooted (open_child rfl clean some) solid filled
    have joined := (names.foldl Glob.child (Glob.child ⟨['/']⟩ n)).ofParts_split
    rw [anchor_eq_root_iff.mpr (Glob.isAbsolute_foldl_child rooted names), split, first] at joined
    exact joined.symm.trans whole

end Path

end Unalias
