import Unalias.Alias.Table
import Unalias.Proofs.Position
import Unalias.Proofs.Specifier.Meaning

/-! The rule that answers for a name is the most specific one of those that accept it. The length
of a stem says how specific a rule is, where each pattern is for one name, for the names in a
folder, or for all names. -/
namespace Unalias

namespace Alias

/-- The patterns for one name, for all names in a folder, and for all names. -/
inductive Shape : Text → Prop
  | name {p : Text} : p ≠ [] → '*' ∉ p → Shape p
  | folder {p : Text} : p ≠ [] → '*' ∉ p → Shape (p ++ ['/', '*'])
  | all : Shape ['*']

theorem fits_name_iff {p name : Text} (star : '*' ∉ p) :
    (compile p).fits name = true ↔ name = p := by
  rw [Pattern.fits_iff, ← List.append_nil (compile p), fits_compile_append_iff star]
  constructor
  · rintro ⟨rest, rfl, h⟩
    cases h
    exact List.append_nil p
  · rintro rfl
    exact ⟨[], (List.append_nil name).symm, .nil⟩

/- A star at the end stands for any text on one line. -/
theorem fits_star_iff {p name : Text} (star : '*' ∉ p) :
    (compile (p ++ ['*'])).fits name = true ↔ ∃ w, name = p ++ w ∧ '\n' ∉ w := by
  have last : compile ['*'] = [.many (.except '\n')] := rfl
  rw [Pattern.fits_iff, compile_append, last, fits_compile_append_iff star]
  simp only [fits_line_iff]
  constructor
  · rintro ⟨rest, rfl, w, tail, rfl, line, h⟩
    cases h
    exact ⟨w ++ [], rfl, by simpa using line⟩
  · rintro ⟨w, rfl, line⟩
    exact ⟨w, rfl, w, [], (List.append_nil w).symm, line, .nil⟩

theorem stem_of_not_mem {p : Text} (star : '*' ∉ p) : stem p = p := by
  rcases stem_cases p with ⟨h, -⟩ | h | h
  · exact h.symm
  · exact absurd (by rw [h]; simp) star
  · exact absurd (by rw [h]; simp) star

theorem stem_folder (p : Text) : stem (p ++ ['/', '*']) = p := by simp [stem]

/- What a pattern puts before its star: nothing, or a stem and a slash. -/
def Front (pattern front : Text) : Prop :=
  front = [] ∧ stem pattern = [] ∨ front = stem pattern ++ ['/'] ∧ stem pattern ≠ []

theorem Shape.cases {p : Text} (h : Shape p) :
    (p ≠ [] ∧ '*' ∉ p ∧ stem p = p) ∨
      ∃ front, p = front ++ ['*'] ∧ '*' ∉ front ∧ Front p front := by
  cases h with
  | name some star => exact .inl ⟨some, star, stem_of_not_mem star⟩
  | @folder p some star =>
    refine .inr ⟨p ++ ['/'], by simp, by simpa using star, .inr ?_⟩
    rw [stem_folder]
    exact ⟨rfl, some⟩
  | all => exact .inr ⟨[], rfl, by simp, .inl ⟨rfl, rfl⟩⟩

theorem Shape.not_mem_dropLast {p : Text} (h : Shape p) : '*' ∉ p.dropLast := by
  rcases h.cases with ⟨-, star, -⟩ | ⟨front, hf, star, -⟩
  · exact fun hp => star (List.dropLast_subset p hp)
  · rwa [hf, List.dropLast_concat]

/- A pattern with a star has a shorter stem than any name that it covers, but for the empty one. -/
theorem Front.size_stem_lt {p front w : Text} (h : Front p front) (some : front ++ w ≠ []) :
    (stem p).size < (front ++ w).size := by
  rcases h with ⟨-, hs⟩ | ⟨hf, -⟩
  · rw [hs]
    exact Text.size_pos some
  · have slash := Text.size_pos (t := '/' :: w) (by simp)
    rw [hf, List.append_assoc, Text.size_append]
    exact Nat.lt_add_of_pos_right slash

theorem Front.size_le {p q front front' : Text} (h : Front p front) (h' : Front q front')
    (shorter : (stem p).size ≤ (stem q).size) : front.size ≤ front'.size := by
  rcases h with ⟨hf, -⟩ | ⟨hf, some⟩
  · simp [hf]
  · have pos := Text.size_pos some
    rcases h' with ⟨-, hs'⟩ | ⟨hf', -⟩
    · rw [hs', Text.size_nil] at shorter
      omega
    · simpa [hf, hf'] using shorter

end Alias

namespace Rule

open Alias

variable {r s : Rule} {name : Text}

theorem accepts_of_eq_append {front : Text} (hr : r.pattern = front ++ ['*']) (star : '*' ∉ front) :
    r.accepts name = true ↔ ∃ w, name = front ++ w ∧ '\n' ∉ w := by
  rw [accepts, hr]
  exact fits_star_iff star

/-- Of two rules that accept a name, the one with the longer stem accepts no more names. -/
theorem accepts_of_size_stem_le (hr : Shape r.pattern) (hs : Shape s.pattern)
    (accepted : r.accepts name = true) (accepted' : s.accepts name = true)
    (shorter : s.stem.size ≤ r.stem.size) {other : Text} (h : r.accepts other = true) :
    s.accepts other = true := by
  rcases hr.cases with ⟨-, star, -⟩ | ⟨front, hf, star, hfront⟩
  · -- the first rule is for this one name
    have same : other = name :=
      ((fits_name_iff star).mp h).trans ((fits_name_iff star).mp accepted).symm
    rwa [same]
  · obtain ⟨w, hw, -⟩ := (accepts_of_eq_append hf star).mp accepted
    rcases hs.cases with ⟨some, star', whole⟩ | ⟨front', hf', star', hfront'⟩
    · -- the second rule is for this one name, and its stem is all of the name
      have hname : name = s.pattern := (fits_name_iff star').mp accepted'
      have longer := hfront.size_stem_lt (w := w) (by rw [← hw, hname]; exact some)
      rw [← hw, hname, ← whole] at longer
      exact absurd longer (Nat.not_lt.mpr shorter)
    · obtain ⟨v, hv, line⟩ := (accepts_of_eq_append hf' star').mp accepted'
      have front_le := hfront'.size_le hfront shorter
      obtain ⟨e, he, hve⟩ := Text.append_of_size_le (hv.symm.trans hw) front_le
      obtain ⟨u, hu, line'⟩ := (accepts_of_eq_append hf star).mp h
      refine (accepts_of_eq_append hf' star').mpr ⟨e ++ u, by rw [hu, he, List.append_assoc], ?_⟩
      intro newline
      rcases List.mem_append.mp newline with newline | newline
      · exact line (hve ▸ List.mem_append_left w newline)
      · exact line' newline

/- With at least as long a stem, a rule for one name leaves room only for itself. -/
theorem pattern_eq_of_not_mem (hr : Shape r.pattern) (star : '*' ∉ s.pattern)
    (some : s.pattern ≠ []) (accepted : r.accepts name = true) (accepted' : s.accepts name = true)
    (shorter : s.stem.size ≤ r.stem.size) : r.pattern = s.pattern := by
  have hname : name = s.pattern := (fits_name_iff star).mp accepted'
  rcases hr.cases with ⟨-, star', -⟩ | ⟨front, hf, star', hfront⟩
  · exact ((fits_name_iff star').mp accepted).symm.trans hname
  · obtain ⟨w, hw, -⟩ := (accepts_of_eq_append hf star').mp accepted
    have longer := hfront.size_stem_lt (w := w) (by rw [← hw, hname]; exact some)
    rw [← hw, hname, ← stem_of_not_mem star] at longer
    exact absurd longer (Nat.not_lt.mpr shorter)

end Rule

namespace Table

open Alias

theorem precedes_iff {r s : Rule} : precedes r s = true ↔ s.stem.size ≤ r.stem.size :=
  decide_eq_true_iff

theorem precedes_trans (r s u : Rule) (hrs : precedes r s = true) (hsu : precedes s u = true) :
    precedes r u = true :=
  precedes_iff.mpr (Nat.le_trans (precedes_iff.mp hsu) (precedes_iff.mp hrs))

theorem precedes_total (r s : Rule) : (precedes r s || precedes s r) = true := by
  simp only [Bool.or_eq_true, precedes_iff]
  omega

theorem pairwise_build (compiles : Text → Bool) (config : Config) (excluded : List Text) :
    (build compiles config excluded).rules.Pairwise fun r s => s.stem.size ≤ r.stem.size :=
  (List.pairwise_mergeSort precedes_trans precedes_total _).imp precedes_iff.mp

section build

variable {compiles : Text → Bool} {config : Config} {excluded : List Text} {a : Alias} {r s : Rule}
  {name : Text}

/- A rule that is kept has all from the alias and its first target. -/
theorem exists_target_of_judge {base : Path} {tokens : List Text}
    (h : (a.judge compiles base tokens).rule? = some r) :
    ∃ t, a.targets.head? = some t ∧ r = ⟨a.pattern, base.join ⟨stem t⟩⟩ := by
  unfold judge at h
  split at h
  · contradiction
  · contradiction
  · rename_i first rest _ targets
    split at h
    · exact ⟨first, by rw [targets, List.head?_cons], (Option.some.inj h).symm⟩
    · contradiction

theorem pattern_of_judge {base : Path} {tokens : List Text}
    (h : (a.judge compiles base tokens).rule? = some r) : r.pattern = a.pattern := by
  obtain ⟨t, -, hr⟩ := exists_target_of_judge h
  rw [hr]

theorem mem_build_iff : r ∈ (build compiles config excluded).rules ↔
    r ∈ config.aliases.filterMap fun a => (a.judge compiles config.base (tokens excluded)).rule? :=
  List.mem_mergeSort

theorem mem_build {target : Text} {others : List Text} (member : a ∈ config.aliases)
    (targets : a.targets = target :: others)
    (allowed : ∀ token ∈ tokens excluded, Text.contains token a.pattern = false)
    (compiled : compiles a.pattern = true) :
    ⟨a.pattern, config.base.join ⟨stem target⟩⟩ ∈ (build compiles config excluded).rules := by
  have free : (tokens excluded).find? (Text.contains · a.pattern) = none := by
    rw [List.find?_eq_none]
    intro token ht
    rw [allowed token ht]
    exact Bool.false_ne_true
  refine mem_build_iff.mpr (List.mem_filterMap.mpr ⟨a, member, ?_⟩)
  simp only [judge, free, targets, compiled, if_true, Verdict.rule?]

theorem exists_alias_of_mem_build (h : r ∈ (build compiles config excluded).rules) :
    ∃ a ∈ config.aliases, r.pattern = a.pattern := by
  obtain ⟨a, ha, hr⟩ := List.mem_filterMap.mp (mem_build_iff.mp h)
  exact ⟨a, ha, pattern_of_judge hr⟩

/- Rules with a longer stem stand before the rule that answers, and none of them accepts. -/
theorem size_stem_le_of_find?
    (found : (build compiles config excluded).find? name = some r)
    (member : s ∈ (build compiles config excluded).rules) (accepted : s.accepts name = true) :
    s.stem.size ≤ r.stem.size := by
  have sorted := pairwise_build compiles config excluded
  obtain ⟨-, before, after, hrules, refused⟩ := List.find?_eq_some_iff_append.mp found
  rw [hrules] at sorted member
  rcases List.mem_append.mp member with hs | hs
  · have no := refused s hs
    rw [accepted] at no
    contradiction
  · rcases List.mem_cons.mp hs with hs | hs
    · exact hs ▸ Nat.le_refl _
    · exact (List.pairwise_cons.mp (List.pairwise_append.mp sorted).2.1).1 s hs

theorem find?_of_longest
    (member : r ∈ (build compiles config excluded).rules) (accepted : r.accepts name = true)
    (longest : ∀ s ∈ (build compiles config excluded).rules, s.accepts name = true →
      s = r ∨ s.stem.size < r.stem.size) :
    (build compiles config excluded).find? name = some r := by
  cases found : (build compiles config excluded).find? name with
  | none =>
    have no := List.find?_eq_none.mp found r member
    exact absurd accepted no
  | some s =>
    have accepted' := (List.find?_eq_some_iff_append.mp found).1
    have shorter := size_stem_le_of_find? found member accepted
    rcases longest s (List.mem_of_find?_eq_some found) accepted' with same | longer
    · rw [same]
    · exact absurd longer (Nat.not_lt.mpr shorter)

end build

/-- The rule that answers for a name accepts nothing that another rule for the name refuses. Its
stem begins with the stem of each such rule, and it is the rule for just this name if there is
one. The order of the configuration does not matter. -/
theorem find?_most_specific (compiles : Text → Bool) (config : Config) (excluded : List Text)
    (name : Text) (r : Rule) (shaped : ∀ a ∈ config.aliases, Shape a.pattern)
    (found : (build compiles config excluded).find? name = some r) :
    r ∈ (build compiles config excluded).rules ∧ r.accepts name = true ∧
      ∀ s ∈ (build compiles config excluded).rules, s.accepts name = true →
        (∀ other, r.accepts other = true → s.accepts other = true) ∧
        s.stem <+: r.stem ∧ ('*' ∉ s.pattern → r.pattern = s.pattern) := by
  have shape {s : Rule} (h : s ∈ (build compiles config excluded).rules) : Shape s.pattern := by
    obtain ⟨a, ha, hs⟩ := exists_alias_of_mem_build h
    exact hs ▸ shaped a ha
  have member : r ∈ (build compiles config excluded).rules := List.mem_of_find?_eq_some found
  have accepted := (List.find?_eq_some_iff_append.mp found).1
  refine ⟨member, accepted, fun s hs accepted' => ?_⟩
  have shorter := size_stem_le_of_find? found hs accepted'
  refine ⟨fun other h => ?_, ?_, fun star => ?_⟩
  · exact Rule.accepts_of_size_stem_le (shape member) (shape hs) accepted accepted' shorter h
  · obtain ⟨rest, hrest⟩ := Rule.stem_prefix_of_accepts (shape member).not_mem_dropLast accepted
    obtain ⟨rest', hrest'⟩ := Rule.stem_prefix_of_accepts (shape hs).not_mem_dropLast accepted'
    obtain ⟨e, he, -⟩ := Text.append_of_size_le (hrest'.symm.trans hrest) shorter
    exact ⟨e, he.symm⟩
  · have some : s.pattern ≠ [] := by
      rcases (shape hs).cases with ⟨some, -, -⟩ | ⟨front, hf, -, -⟩
      · exact some
      · simp [hf]
    exact Rule.pattern_eq_of_not_mem (shape member) star some accepted accepted' shorter

/- All four rules accept the name, and the one for just this name was written last. -/
theorem find?_most_specific_of_four :
    let config : Config := ⟨⟨"/r".toList⟩, [⟨"*".toList, ["lib/*".toList]⟩,
      ⟨"@app/*".toList, ["src/*".toList]⟩, ⟨"@app/core/*".toList, ["src/core/*".toList]⟩,
      ⟨"@app/core/x".toList, ["x.ts".toList, "y.ts".toList]⟩]⟩
    let compiles (_ : Text) := true
    let table := build compiles config [" ".toList, "@web".toList]
    let name := "@app/core/x".toList
    let r : Rule := ⟨name, ⟨"/r/x.ts".toList⟩⟩
    (∀ a ∈ config.aliases, Shape a.pattern) ∧ table.find? name = some r ∧
      r ∈ table.rules ∧ r.accepts name = true ∧
      ∀ s ∈ table.rules, s.accepts name = true →
        (∀ other, r.accepts other = true → s.accepts other = true) ∧
        s.stem <+: r.stem ∧ ('*' ∉ s.pattern → r.pattern = s.pattern) := by
  intro config compiles table name r
  have shaped : ∀ a ∈ config.aliases, Shape a.pattern := by
    simp only [config, List.forall_mem_cons, List.not_mem_nil, false_implies, implies_true,
      and_true]
    exact ⟨.all, .folder (p := "@app".toList) (by decide) (by decide),
      .folder (p := "@app/core".toList) (by decide) (by decide), .name (by decide) (by decide)⟩
  have kept : (config.aliases.filterMap fun a =>
      (a.judge compiles config.base (tokens [" ".toList, "@web".toList])).rule?) =
        [⟨"*".toList, ⟨"/r/lib".toList⟩⟩, ⟨"@app/*".toList, ⟨"/r/src".toList⟩⟩,
          ⟨"@app/core/*".toList, ⟨"/r/src/core".toList⟩⟩, r] := by decide
  have found : table.find? name = some r := by
    refine find?_of_longest (mem_build_iff.mpr ?_) (by decide) fun s hs _ => ?_
    · rw [kept]
      simp
    · rw [mem_build_iff, kept] at hs
      revert s
      decide
  exact ⟨shaped, found, find?_most_specific compiles config _ name r shaped found⟩

end Table
end Unalias
