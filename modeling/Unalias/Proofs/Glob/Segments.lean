import Unalias.Proofs.Glob.Compiled
import Unalias.Proofs.Glob.Trail

/-! A glob and its segments. A search asks of each name what the segment for it is compiled to, and
what the whole glob is compiled to asks the same of the names with slashes between them. -/
namespace Unalias.Glob

namespace Segment

/-- What the segment is compiled to by itself. -/
def pieces : Segment → Pattern
  | .plain name => exact name
  | .listed pattern => pattern
  | .recursive => [.many .anything]

theorem plain?_eq_some_iff {p : Pattern} {name : Text} : plain? p = some name ↔ p = exact name := by
  unfold plain? exact
  induction p generalizing name with
  | nil => cases name <;> simp
  | cons piece p ih =>
    rw [List.mapM_cons]
    simp only [Option.bind_eq_bind, Option.bind_eq_some_iff, ih, Option.pure_def, Option.some.injEq]
    constructor
    · rintro ⟨c, first, rest, rfl, rfl⟩
      split at first
      · rw [Option.some.inj first]
        rfl
      · contradiction
    · intro whole
      cases name with
      | nil => contradiction
      | cons c rest =>
        obtain ⟨rfl, later⟩ := List.cons.inj whole
        exact ⟨c, rfl, rest, later, rfl⟩

theorem compiled_of_compile {t : Text} {s : Segment} (h : compile t = .ok s) :
    Compiled true t s.pieces ∧ (s = .recursive ↔ t = ['*', '*']) := by
  unfold compile at h
  split at h
  · rename_i deep
    cases Except.ok.inj h
    exact ⟨deep ▸ .deep, iff_of_true rfl deep⟩
  · rename_i shallow
    obtain ⟨p, compiled, same⟩ := map_eq_ok_iff.mp h
    have read := compile_eq_ok_iff.mp compiled
    split at same
    · rename_i name plain
      cases same
      rw [plain?_eq_some_iff.mp plain] at read
      exact ⟨read, iff_of_false (by simp) shallow⟩
    · cases same
      exact ⟨read, iff_of_false (by simp) shallow⟩

theorem exists_compile {t : Text} {p : Pattern} (h : Compiled true t p) :
    ∃ s, compile t = .ok s := by
  unfold compile
  split
  · exact ⟨_, rfl⟩
  · exact ⟨_, by rw [compile_eq_ok_iff.mpr h]; rfl⟩

theorem eq_of_plain {t name : Text} (h : compile t = .ok (.plain name)) : t = name :=
  (compiled_of_compile h).1.eq_of_exact

/- A dot is asked for by a dot. -/
theorem mem_dots {s : Segment} {name : Text} (h : name ∈ s.dots) :
    (name = ['.', '.'] ∨ name = ['.']) ∧ Fits s.pieces name ∧
      ∃ q, s.pieces = .one (.exactly '.') :: q := by
  unfold dots at h
  split at h
  · obtain ⟨dotted, fits⟩ := List.mem_filter.mp h
    exact ⟨by simpa using dotted, Pattern.fits_iff.mp fits, _, rfl⟩
  · cases h

end Segment

namespace Trail

variable {s : Segment} {segments : List Segment} {names : List Text}

theorem head (h : Trail (s :: segments) names) (shallow : s ≠ .recursive) :
    ∃ name more, names = name :: more ∧ Fits s.pieces name ∧ Trail segments more := by
  cases h with
  | plain rest => exact ⟨_, _, rfl, fits_exact_iff.mpr rfl, rest⟩
  | dot dotted rest => exact ⟨_, _, rfl, (Segment.mem_dots dotted).2.1, rest⟩
  | listed _ fits rest => exact ⟨_, _, rfl, Pattern.fits_iff.mp fits, rest⟩
  | deep => contradiction
  | descend => contradiction

/- A step up is asked for by a segment that begins with a dot. -/
theorem exists_of_mem_up (h : Trail segments names) (up : ['.', '.'] ∈ names) :
    ∃ s ∈ segments, Fits s.pieces ['.', '.'] ∧ ∃ q, s.pieces = .one (.exactly '.') :: q := by
  induction h with
  | done => cases up
  | @plain name rest names _ ih =>
    rcases List.mem_cons.mp up with here | up
    · refine ⟨.plain name, List.mem_cons_self, fits_exact_iff.mpr here, ?_⟩
      rw [← here]
      exact ⟨_, rfl⟩
    · obtain ⟨s, hs, found⟩ := ih up
      exact ⟨s, List.mem_cons_of_mem _ hs, found⟩
  | dot dotted _ ih =>
    rcases List.mem_cons.mp up with rfl | up
    · exact ⟨_, List.mem_cons_self, (Segment.mem_dots dotted).2⟩
    · obtain ⟨s, hs, found⟩ := ih up
      exact ⟨s, List.mem_cons_of_mem _ hs, found⟩
  | listed name _ _ ih =>
    rcases List.mem_cons.mp up with rfl | up
    · exact absurd rfl name.2.2.1
    · obtain ⟨s, hs, found⟩ := ih up
      exact ⟨s, List.mem_cons_of_mem _ hs, found⟩
  | deep _ all => exact absurd rfl (all _ up).2.2.1
  | descend all name _ _ ih =>
    rcases List.mem_append.mp up with up | up
    · exact absurd rfl (all _ up).2.2.1
    · rcases List.mem_cons.mp up with rfl | up
      · exact absurd rfl name.2.2.1
      · obtain ⟨s, hs, found⟩ := ih up
        exact ⟨s, List.mem_cons_of_mem _ (List.mem_cons_of_mem _ hs), found⟩

/- What holds of proper names, of dots and of the plain segments holds of all names. -/
theorem forall_mem {P : Text → Prop} (h : Trail segments names)
    (plain : ∀ name, .plain name ∈ segments → P name) (proper : ∀ name, IsName name → P name)
    (here : P ['.']) (up : P ['.', '.']) : ∀ n ∈ names, P n := by
  induction h with
  | done => simp
  | plain _ ih =>
    refine List.forall_mem_cons.mpr ⟨plain _ List.mem_cons_self, ih fun name hn => ?_⟩
    exact plain name (List.mem_cons_of_mem _ hn)
  | dot dotted _ ih =>
    refine List.forall_mem_cons.mpr ⟨?_, ih fun name hn => plain name (List.mem_cons_of_mem _ hn)⟩
    rcases (Segment.mem_dots dotted).1 with rfl | rfl
    · exact up
    · exact here
  | listed name _ _ ih =>
    refine List.forall_mem_cons.mpr ⟨proper _ name, ih fun name hn => ?_⟩
    exact plain name (List.mem_cons_of_mem _ hn)
  | deep _ all => exact fun n hn => proper n (all n hn)
  | descend all name _ _ ih =>
    refine List.forall_mem_append.mpr ⟨fun n hn => proper n (all n hn), ?_⟩
    refine List.forall_mem_cons.mpr ⟨proper _ name, ih fun name hn => ?_⟩
    exact plain name (List.mem_cons_of_mem _ (List.mem_cons_of_mem _ hn))

end Trail

section escape

theorem escape_intercalate (segments : List Text) :
    escape (['/'].intercalate segments) = ['/'].intercalate (segments.map escape) := by
  induction segments with
  | nil => rfl
  | cons s segments ih =>
    cases segments with
    | nil => simp
    | cons t segments =>
      rw [List.intercalate_cons_cons, List.map_cons, List.map_cons, List.intercalate_cons_cons,
        ← List.map_cons, ← ih, escape, List.flatMap_append, List.flatMap_append]
      rfl

theorem not_mem_escape {t : Text} (clean : '/' ∉ t) : '/' ∉ escape t := by
  intro h
  obtain ⟨c, hc, h⟩ := List.mem_flatMap.mp h
  split at h
  · rcases List.mem_cons.mp h with h | h
    · exact absurd h (by decide)
    · rcases List.mem_cons.mp h with rfl | h
      · exact clean hc
      · exact absurd (List.mem_singleton.mp h) (by decide)
  · exact clean (List.mem_singleton.mp h ▸ hc)

/-- No slash is lost or made by escaping. -/
theorem splitOn_escape (t : Text) : (escape t).splitOn '/' = (t.splitOn '/').map escape := by
  have clean : ∀ s ∈ (t.splitOn '/').map escape, '/' ∉ s := by
    intro s hs
    obtain ⟨u, hu, rfl⟩ := List.mem_map.mp hs
    exact not_mem_escape (not_mem_of_mem_splitOn hu)
  have some : (t.splitOn '/').map escape ≠ [] := by simp [List.splitOn_ne_nil]
  rw [← List.splitOn_intercalate '/' clean some, ← escape_intercalate, List.intercalate_splitOn]

/- A segment that was escaped takes only the name that it was made from. -/
theorem pieces_of_escape {t : Text} {s : Segment} (h : Segment.compile (escape t) = .ok s) :
    s ≠ .recursive ∧ ∀ name, Fits s.pieces name ↔ name = t := by
  have literally : Compiled true (escape t) (literal t) := by
    simpa using compiled_escape (t := t) true fun _ => .done
  have same : s.pieces = literal t := (Segment.compiled_of_compile h).1.unique literally
  refine ⟨?_, fun name => same ▸ fits_literal_iff⟩
  rintro rfl
  cases t with
  | nil => contradiction
  | cons c t => exact absurd (List.cons.inj same).1 (by simp)

end escape

section ending

variable {t u : Text} {front : List Text}

theorem segmentsOf_of_splitOn (h : t.splitOn '/' = front ++ u.splitOn '/') :
    segmentsOf t = front ++ segmentsOf u := by
  obtain ⟨last, before, hu⟩ := List.exists_cons_of_ne_nil
    (mt List.reverse_eq_nil_iff.mp (List.splitOn_ne_nil '/' u))
  rw [segmentsOf, segmentsOf, h, List.reverse_append, hu, List.cons_append]
  cases last with
  | nil => simp
  | cons c last => simp

/- Nothing is left out of a text that does not end in a slash. -/
theorem segmentsOf_of_open (filled : t ≠ []) (opened : t.getLast? ≠ some '/') :
    segmentsOf t = t.splitOn '/' := by
  unfold segmentsOf
  split
  · rename_i before whole
    have cut : t.splitOn '/' = before.reverse ++ [[]] := by
      rw [← List.reverse_reverse (t.splitOn '/'), whole, List.reverse_cons]
    have joined : ['/'].intercalate (t.splitOn '/') = t := List.intercalate_splitOn '/'
    rw [cut] at joined
    cases before with
    | nil => exact absurd joined.symm filled
    | cons s before =>
      rw [intercalate_append (by simp) (List.cons_ne_nil _ _)] at joined
      refine absurd ?_ opened
      rw [← joined]
      simp
  · exact List.reverse_reverse _

end ending

section search

theorem mem_of_mem_merge {s : Segment} {segments : List Segment} (h : s ∈ merge segments) :
    s ∈ segments := by
  fun_induction merge segments with
  | case1 rest ih => exact List.mem_cons_of_mem _ (ih h)
  | case2 t rest _ ih =>
    rcases List.mem_cons.mp h with rfl | h
    · exact List.mem_cons_self
    · exact List.mem_cons_of_mem _ (ih h)
  | case3 => cases h

theorem mem_of_mem_segmentsOf {t segment : Text} (h : segment ∈ segmentsOf t) :
    segment ∈ t.splitOn '/' := by
  unfold segmentsOf at h
  split at h
  · rename_i rest whole
    rw [← List.mem_reverse, whole]
    exact List.mem_cons_of_mem _ (List.mem_reverse.mp h)
  · simpa using h

variable {glob : Text}

theorem ofGlob_eq_ok_iff {search : Search} (rooted : glob.head? = some '/') :
    Search.ofGlob glob = .ok search ↔ (∃ p, compile glob = .ok p) ∧
      ∃ segments, (segmentsOf glob.tail).mapM Segment.compile = .ok segments ∧
        search = ⟨⟨['/']⟩, merge segments, glob.getLast? = some '/'⟩ := by
  simp only [Search.ofGlob, rooted, if_true]
  constructor
  · intro h
    obtain ⟨p, whole, h⟩ := bind_eq_ok_iff.mp h
    obtain ⟨segments, compiled, h⟩ := bind_eq_ok_iff.mp h
    exact ⟨⟨p, whole⟩, segments, compiled, (Except.ok.inj h).symm⟩
  · rintro ⟨⟨p, whole⟩, segments, compiled, rfl⟩
    exact bind_eq_ok_iff.mpr ⟨p, whole, bind_eq_ok_iff.mpr ⟨segments, compiled, rfl⟩⟩

/- A slash in front changes nothing of what stands behind it. -/
theorem segmentsOf_rooted (t : Text) : segmentsOf ('/' :: t) = [] :: segmentsOf t :=
  segmentsOf_of_splitOn (List.splitOn_append_cons_self [] t)

theorem compile_rooted_iff {t : Text} :
    (∃ p, compile ('/' :: t) = .ok p) ↔ ∃ p, compile t = .ok p := by
  simp only [compile_eq_ok_iff]
  constructor
  · rintro ⟨p, read⟩
    exact exists_compiled_of_escape (t := []) read
  · rintro ⟨p, read⟩
    exact ⟨_, .exactly (by decide) (by decide) (by decide) read⟩

theorem exists_ofGlob_iff {glob : Text} (rooted : glob.head? = some '/') :
    (∃ search, Search.ofGlob glob = .ok search) ↔ (∃ p, compile glob = .ok p) ∧
      ∀ s ∈ segmentsOf glob.tail, ∃ x, Segment.compile s = .ok x := by
  rw [← exists_mapM_ok_iff]
  simp only [ofGlob_eq_ok_iff rooted]
  constructor
  · rintro ⟨_, whole, segments, each, -⟩
    exact ⟨whole, segments, each⟩
  · rintro ⟨whole, segments, each⟩
    exact ⟨_, whole, segments, each, rfl⟩

theorem exists_text_of_mem {texts : List Text} {segments : List Segment}
    (h : texts.mapM Segment.compile = .ok segments) {s : Segment} (hs : s ∈ segments) :
    ∃ t ∈ texts, Segment.compile t = .ok s := by
  have mapped := mapM_ok_iff.mp h
  have compiled : Except.ok s ∈ texts.map Segment.compile := by
    rw [mapped]
    exact List.mem_map_of_mem hs
  obtain ⟨t, ht, same⟩ := List.mem_map.mp compiled
  exact ⟨t, ht, same⟩

/- What holds of proper names, of dots and of the texts of the segments holds of all names. -/
theorem Trail.forall_of_texts {P : Text → Prop} {texts names : List Text} {segments : List Segment}
    (each : ∀ t ∈ texts, P t) (proper : ∀ name, IsName name → P name) (here : P ['.'])
    (up : P ['.', '.']) (compiled : texts.mapM Segment.compile = .ok segments)
    (trail : Trail (merge segments) names) : ∀ n ∈ names, P n := by
  refine trail.forall_mem (fun name hn => ?_) proper here up
  obtain ⟨t, ht, plain⟩ := exists_text_of_mem compiled (mem_of_mem_merge hn)
  exact Segment.eq_of_plain plain ▸ each t ht

theorem exists_trail_of_mem_results {d : Disk} (named : d.root.Named) {search : Search}
    (rooted : glob.head? = some '/') (h : Search.ofGlob glob = .ok search) {p : Path}
    (hp : p ∈ search.results d) : ∃ segments names,
      (segmentsOf glob.tail).mapM Segment.compile = .ok segments ∧
        Trail (merge segments) names ∧ p = names.foldl child ⟨['/']⟩ := by
  obtain ⟨-, segments, compiled, rfl⟩ := (ofGlob_eq_ok_iff rooted).mp h
  have selected : p ∈ expandFrom d (merge segments) ⟨['/']⟩ := by
    unfold Search.results at hp
    split at hp
    · exact (List.mem_filter.mp hp).1
    · exact hp
  obtain ⟨names, trail, rfl⟩ := exists_trail named rfl selected
  exact ⟨segments, names, compiled, trail, rfl⟩

end search

end Unalias.Glob
