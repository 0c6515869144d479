import Unalias.Proofs.Alias.Specific

/-! What the order of the aliases in a configuration decides. It decides only between two rules
with one stem that both accept a name, and then the one that was written first answers. -/
namespace Unalias

namespace Alias

/-- A star with no slash before it goes on from its stem in all ways, and so it covers the stem
and all names in the folder of that name. -/
def Overlap (p q : Text) : Prop :=
  p = stem p ++ ['*'] ∧ (q = stem p ∨ q = stem p ++ ['/', '*'])

end Alias

namespace Rule

open Alias

variable {r s : Rule} {name : Text}

/- A name is never in the folder of the same name. -/
theorem not_accepts_name_and_folder {p : Text} (star : '*' ∉ p) (hr : r.pattern = p)
    (hs : s.pattern = p ++ ['/', '*']) (accepted : r.accepts name = true) :
    s.accepts name = false := by
  rw [accepts, hr] at accepted
  have same : name = p := (fits_name_iff star).mp accepted
  have folder : s.pattern = (p ++ ['/']) ++ ['*'] := by rw [hs, List.append_assoc]; rfl
  rw [Bool.eq_false_iff]
  intro accepted'
  obtain ⟨w, hw, -⟩ := (accepts_of_eq_append folder (by simpa using star)).mp accepted'
  have longer := congrArg List.length (same.symm.trans hw)
  simp only [List.length_append, List.length_cons] at longer
  omega

/-- Of two patterns with one stem that cover a name, one has a star with no slash before it. -/
theorem overlap_of_stem_eq (hr : '*' ∉ r.pattern.dropLast) (stems : r.stem = s.stem)
    (accepted : r.accepts name = true) (accepted' : s.accepts name = true)
    (other : r.pattern ≠ s.pattern) :
    Overlap r.pattern s.pattern ∨ Overlap s.pattern r.pattern := by
  have star : '*' ∉ r.stem := not_mem_stem hr
  have stems : Alias.stem r.pattern = Alias.stem s.pattern := stems
  rcases stem_cases r.pattern with ⟨h, -⟩ | h | h <;>
    rcases stem_cases s.pattern with ⟨h', -⟩ | h' | h'
  · exact absurd (by rw [h, h', stems]) other
  · exact .inr ⟨h', .inl (h.trans stems)⟩
  · have no := not_accepts_name_and_folder star h (h'.trans (by rw [← stems]; rfl)) accepted
    rw [accepted'] at no
    contradiction
  · exact .inl ⟨h, .inl (h'.trans stems.symm)⟩
  · exact absurd (by rw [h, h', stems]) other
  · exact .inl ⟨h, .inr (by rw [stems]; exact h')⟩
  · have no := not_accepts_name_and_folder star (h'.trans stems.symm) h accepted'
    rw [accepted] at no
    contradiction
  · exact .inr ⟨h', .inr (by rw [← stems]; exact h)⟩
  · exact absurd (by rw [h, h', stems]) other

/- Both stems begin the name. -/
theorem stem_eq_of_size_eq (hr : '*' ∉ r.pattern.dropLast) (hs : '*' ∉ s.pattern.dropLast)
    (accepted : r.accepts name = true) (accepted' : s.accepts name = true)
    (same : r.stem.size = s.stem.size) : r.stem = s.stem := by
  obtain ⟨rest, hrest⟩ := stem_prefix_of_accepts hr accepted
  obtain ⟨rest', hrest'⟩ := stem_prefix_of_accepts hs accepted'
  exact (Text.append_inj_of_size (hrest.symm.trans hrest') same).1

end Rule

namespace Table

open Alias

/-- The rules in the order of their aliases. -/
def kept (compiles : Text → Bool) (config : Config) (excluded : List Text) : List Rule :=
  config.aliases.filterMap fun a => (a.judge compiles config.base (tokens excluded)).rule?

theorem build_rules (compiles : Text → Bool) (config : Config) (excluded : List Text) :
    (build compiles config excluded).rules =
      (kept compiles config excluded).mergeSort precedes := rfl

/-- Rules with stems of one length keep their order when the table is sorted. -/
theorem filter_size_build (compiles : Text → Bool) (config : Config) (excluded : List Text)
    (n : Nat) :
    (build compiles config excluded).rules.filter (·.stem.size = n) =
      (kept compiles config excluded).filter (·.stem.size = n) := by
  have even : ((kept compiles config excluded).filter (·.stem.size = n)).Pairwise
      fun r s => precedes r s = true := by
    refine List.pairwise_of_forall_mem_list fun r hr s hs => precedes_iff.mpr ?_
    have hr := of_decide_eq_true (List.mem_filter.mp hr).2
    have hs := of_decide_eq_true (List.mem_filter.mp hs).2
    exact Nat.le_of_eq (hs.trans hr.symm)
  have inside : ((kept compiles config excluded).filter (·.stem.size = n)).Sublist
      ((build compiles config excluded).rules.filter (·.stem.size = n)) := by
    have sub := List.sublist_mergeSort precedes_trans precedes_total even List.filter_sublist
    rw [build_rules]
    simpa only [List.filter_filter, Bool.and_self] using sub.filter (·.stem.size = n)
  have same := ((List.mergeSort_perm (kept compiles config excluded) precedes).filter
    (·.stem.size = n)).length_eq
  exact (inside.eq_of_length same.symm).symm

section answer

variable {compiles : Text → Bool} {config : Config} {excluded : List Text} {name : Text}
  {r s : Rule}

theorem mem_and_accepts_of_find? (found : (build compiles config excluded).find? name = some r) :
    r ∈ kept compiles config excluded ∧ r.accepts name = true :=
  ⟨mem_build_iff.mp (List.mem_of_find?_eq_some found),
    (List.find?_eq_some_iff_append.mp found).1⟩

theorem first_of_find? (found : (build compiles config excluded).find? name = some r) :
    ((kept compiles config excluded).filter (·.stem.size = r.stem.size)).find? (·.accepts name) =
      some r := by
  obtain ⟨accepted, before, after, hrules, refused⟩ := List.find?_eq_some_iff_append.mp found
  rw [← filter_size_build, List.find?_filter]
  refine List.find?_eq_some_iff_append.mpr ⟨by simpa using accepted, before, after, hrules, ?_⟩
  intro s hs
  have no := refused s hs
  simp_all

/-- The rule that answers has the longest stem of all that accept the name, and of those with as
long a stem it was written first. -/
theorem find?_eq_some_iff_first :
    (build compiles config excluded).find? name = some r ↔
      (∀ s ∈ kept compiles config excluded, s.accepts name = true → s.stem.size ≤ r.stem.size) ∧
        ((kept compiles config excluded).filter (·.stem.size = r.stem.size)).find?
          (·.accepts name) = some r := by
  constructor
  · intro found
    exact ⟨fun s hs => size_stem_le_of_find? found (mem_build_iff.mpr hs), first_of_find? found⟩
  · rintro ⟨longest, first⟩
    have member : r ∈ kept compiles config excluded :=
      (List.mem_filter.mp (List.mem_of_find?_eq_some first)).1
    have accepted : r.accepts name = true := (List.find?_eq_some_iff_append.mp first).1
    cases found : (build compiles config excluded).find? name with
    | none => exact absurd accepted (List.find?_eq_none.mp found r (mem_build_iff.mpr member))
    | some s =>
      obtain ⟨member', accepted'⟩ := mem_and_accepts_of_find? found
      have same : s.stem.size = r.stem.size := Nat.le_antisymm (longest s member' accepted')
        (size_stem_le_of_find? found (mem_build_iff.mpr member) accepted)
      have again := first_of_find? found
      rw [same, first] at again
      exact again.symm

/- What is found first stands before all else that could be found. -/
theorem sublist_of_find? {rules : List Rule} {p : Rule → Bool} (first : rules.find? p = some r)
    (member : s ∈ rules) (accepted : p s = true) (other : r ≠ s) : [r, s].Sublist rules := by
  obtain ⟨-, before, after, hrules, refused⟩ := List.find?_eq_some_iff_append.mp first
  rw [hrules] at member ⊢
  refine List.Sublist.trans ?_ (List.sublist_append_right before (r :: after))
  rcases List.mem_append.mp member with hs | hs
  · have no := refused s hs
    rw [accepted] at no
    contradiction
  · rcases List.mem_cons.mp hs with hs | hs
    · exact absurd hs.symm other
    · exact (List.singleton_sublist.mpr hs).cons_cons r

/- The rule that answers stands before all others that accept the name with as long a stem. -/
theorem sublist_kept (found : (build compiles config excluded).find? name = some r)
    (member : s ∈ kept compiles config excluded) (accepted : s.accepts name = true)
    (same : s.stem.size = r.stem.size) (other : r ≠ s) :
    [r, s].Sublist (kept compiles config excluded) := by
  have member : s ∈ (kept compiles config excluded).filter (·.stem.size = r.stem.size) :=
    List.mem_filter.mpr ⟨member, decide_eq_true same⟩
  exact (sublist_of_find? (first_of_find? found) member accepted other).trans List.filter_sublist

theorem patterns_kept (compiles : Text → Bool) (config : Config) (excluded : List Text) :
    ((kept compiles config excluded).map (·.pattern)).Sublist (config.aliases.map (·.pattern)) := by
  rw [kept]
  induction config.aliases with
  | nil => exact List.Sublist.slnil
  | cons a aliases ih =>
    cases h : (a.judge compiles config.base (tokens excluded)).rule? with
    | none =>
      rw [List.filterMap_cons, h]
      exact ih.cons a.pattern
    | some r =>
      rw [List.filterMap_cons, h, List.map_cons, List.map_cons, ← pattern_of_judge h]
      exact ih.cons_cons r.pattern

end answer

/-- Two rules between which only the order decides: each stands first in one list of aliases. -/
structure Tied (name : Text) (aliases aliases' : List Alias) (r s : Rule) : Prop where
  stem : r.stem = s.stem
  accepted : r.accepts name = true ∧ s.accepts name = true
  overlap : Overlap r.pattern s.pattern ∨ Overlap s.pattern r.pattern
  order : [r.pattern, s.pattern].Sublist (aliases.map (·.pattern))
  order' : [s.pattern, r.pattern].Sublist (aliases'.map (·.pattern))

section order

variable {compiles : Text → Bool} {base : Path} {excluded : List Text} {name : Text}
  {aliases aliases' : List Alias}

theorem kept_perm (perm : aliases.Perm aliases') :
    (kept compiles ⟨base, aliases⟩ excluded).Perm (kept compiles ⟨base, aliases'⟩ excluded) :=
  perm.filterMap _

theorem isSome_find?_of_perm {r : Rule} (perm : aliases.Perm aliases')
    (found : (build compiles ⟨base, aliases⟩ excluded).find? name = some r) :
    ∃ s, (build compiles ⟨base, aliases'⟩ excluded).find? name = some s := by
  obtain ⟨member, accepted⟩ := mem_and_accepts_of_find? found
  cases found' : (build compiles ⟨base, aliases'⟩ excluded).find? name with
  | some s => exact ⟨s, rfl⟩
  | none =>
    have listed := (kept_perm perm).mem_iff.mp member
    have no := List.find?_eq_none.mp found' r (mem_build_iff.mpr listed)
    exact absurd accepted no

theorem tied_of_ne {r s : Rule} (perm : aliases.Perm aliases')
    (distinct : (aliases.map (·.pattern)).Nodup)
    (closing : ∀ a ∈ aliases, '*' ∉ a.pattern.dropLast)
    (found : (build compiles ⟨base, aliases⟩ excluded).find? name = some r)
    (found' : (build compiles ⟨base, aliases'⟩ excluded).find? name = some s) (other : r ≠ s) :
    Tied name aliases aliases' r s := by
  obtain ⟨member, accepted⟩ := mem_and_accepts_of_find? found
  obtain ⟨member', accepted'⟩ := mem_and_accepts_of_find? found'
  have listed : s ∈ kept compiles ⟨base, aliases⟩ excluded := (kept_perm perm).mem_iff.mpr member'
  have listed' : r ∈ kept compiles ⟨base, aliases'⟩ excluded := (kept_perm perm).mem_iff.mp member
  have plain {u : Rule} (h : u ∈ kept compiles ⟨base, aliases⟩ excluded) :
      '*' ∉ u.pattern.dropLast := by
    obtain ⟨a, ha, hu⟩ := exists_alias_of_mem_build (mem_build_iff.mpr h)
    exact hu ▸ closing a ha
  have size : s.stem.size = r.stem.size :=
    Nat.le_antisymm (size_stem_le_of_find? found (mem_build_iff.mpr listed) accepted')
      (size_stem_le_of_find? found' (mem_build_iff.mpr listed') accepted)
  have stem := Rule.stem_eq_of_size_eq (plain member) (plain listed) accepted accepted' size.symm
  have order : [r.pattern, s.pattern].Sublist (aliases.map (·.pattern)) :=
    ((sublist_kept found listed accepted' size other).map _).trans (patterns_kept _ _ _)
  have order' : [s.pattern, r.pattern].Sublist (aliases'.map (·.pattern)) :=
    ((sublist_kept found' listed' accepted size.symm (Ne.symm other)).map _).trans
      (patterns_kept _ _ _)
  have patterns : r.pattern ≠ s.pattern := by
    have pair := distinct.sublist order
    simpa using pair
  exact ⟨stem, ⟨accepted, accepted'⟩,
    Rule.overlap_of_stem_eq (plain member) stem accepted accepted' patterns, order, order'⟩

end order

/-- With its aliases in another order, a table gives the same answers, but for names on which two
patterns overlap: then both tables give the rule that was written first. -/
theorem find?_perm (compiles : Text → Bool) (base : Path) (excluded : List Text) (name : Text)
    (aliases aliases' : List Alias) (perm : aliases.Perm aliases')
    (distinct : (aliases.map (·.pattern)).Nodup)
    (closing : ∀ a ∈ aliases, '*' ∉ a.pattern.dropLast) :
    Option.Rel (fun r s => r = s ∨ Tied name aliases aliases' r s)
      ((build compiles ⟨base, aliases⟩ excluded).find? name)
      ((build compiles ⟨base, aliases'⟩ excluded).find? name) := by
  cases found : (build compiles ⟨base, aliases⟩ excluded).find? name with
  | none =>
    cases found' : (build compiles ⟨base, aliases'⟩ excluded).find? name with
    | none => exact .none
    | some s =>
      obtain ⟨r, hr⟩ := isSome_find?_of_perm perm.symm found'
      rw [found] at hr
      contradiction
  | some r =>
    obtain ⟨s, found'⟩ := isSome_find?_of_perm perm found
    rw [found']
    by_cases same : r = s
    · exact .some (.inl same)
    · exact .some (.inr (tied_of_ne perm distinct closing found found' same))

/- The pattern for one name ties with the catch-all of its stem, and the longer stem ties with
nothing. -/
theorem find?_perm_of_three :
    let folder : Alias := ⟨"@app/core/*".toList, ["src/core/*".toList, "lib/*".toList]⟩
    let front : Alias := ⟨"@app*".toList, ["src/*".toList]⟩
    let one : Alias := ⟨"@app".toList, ["index.ts".toList]⟩
    let aliases := [front, folder, one]
    let aliases' := [one, folder, front]
    let name := "@app".toList
    let compiles (_ : Text) := true
    aliases.Perm aliases' ∧ (aliases.map (·.pattern)).Nodup ∧
      (∀ a ∈ aliases, '*' ∉ a.pattern.dropLast) ∧
      Option.Rel (fun r s => r = s ∨ Tied name aliases aliases' r s)
        ((build compiles ⟨⟨"/r".toList⟩, aliases⟩ ["web".toList]).find? name)
        ((build compiles ⟨⟨"/r".toList⟩, aliases'⟩ ["web".toList]).find? name) := by
  intro folder front one aliases aliases' name compiles
  have perm : aliases.Perm aliases' := by decide
  have distinct : (aliases.map (·.pattern)).Nodup := by decide
  have closing : ∀ a ∈ aliases, '*' ∉ a.pattern.dropLast := by decide
  exact ⟨perm, distinct, closing,
    find?_perm compiles _ _ name aliases aliases' perm distinct closing⟩

/-- The order of two aliases decides which of them answers for a name that both cover. -/
theorem answer_follows_order :
    let folder : Alias := ⟨"@app/*".toList, ["src/*".toList]⟩
    let front : Alias := ⟨"@app*".toList, ["lib/*".toList]⟩
    let compiles (_ : Text) := true
    let answer (aliases : List Alias) :=
      ((build compiles ⟨⟨"/r".toList⟩, aliases⟩ []).find? "@app/x".toList).map (·.pattern)
    [folder, front].Perm [front, folder] ∧ ([folder, front].map (·.pattern)).Nodup ∧
      (∀ a ∈ [folder, front], '*' ∉ a.pattern.dropLast) ∧
      answer [folder, front] = some folder.pattern ∧
      answer [front, folder] = some front.pattern ∧ folder.pattern ≠ front.pattern := by
  intro folder front compiles answer
  have first : (build compiles ⟨⟨"/r".toList⟩, [folder, front]⟩ []).find? "@app/x".toList =
      some ⟨folder.pattern, ⟨"/r/src".toList⟩⟩ :=
    find?_eq_some_iff_first.mpr (by decide)
  have second : (build compiles ⟨⟨"/r".toList⟩, [front, folder]⟩ []).find? "@app/x".toList =
      some ⟨front.pattern, ⟨"/r/lib".toList⟩⟩ :=
    find?_eq_some_iff_first.mpr (by decide)
  refine ⟨.swap front folder [], by decide, by decide, ?_, ?_, by decide⟩
  · simp only [answer, first, Option.map_some]
  · simp only [answer, second, Option.map_some]

end Table
end Unalias
