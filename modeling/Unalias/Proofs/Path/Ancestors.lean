import Unalias.Path.Lineage
import Unalias.Proofs.Chain
import Unalias.Proofs.Path.Steps

/-! The folders above a path, as far as its text goes: each takes one step less than the one below
it, until no step is left. -/
namespace Unalias.Path

variable {p q : Path}

/-- A folder on the way up from a path: it takes the first steps of the path, or all of them, from
where the path starts. How it is written does not matter. -/
def Above (folder p : Path) : Prop :=
  folder.isAbsolute = p.isAbsolute ∧ folder.steps <+: p.steps

theorem lineage_of_none (h : p.parent? = none) : p.lineage = [p] := by
  rw [lineage]
  split
  · rename_i r hr
    rw [h] at hr
    contradiction
  · rfl

/- A `.` alone is the only path without steps that lies in a folder. -/
theorem parent?_of_steps_eq_nil (still : p.steps = []) (h : p.parent? = some q) :
    p.isAbsolute = false ∧ q = ⟨[]⟩ := by
  rw [parent?, dropWhile_of_steps_eq_nil still] at h
  dsimp only at h
  split at h
  · rename_i here
    refine ⟨Bool.eq_false_iff.mpr fun absolute => ?_, (Option.some.inj h).symm⟩
    rw [anchor_eq_root_iff.mpr absolute] at here
    contradiction
  · contradiction

/-- One folder up is one step less. -/
theorem steps_parent? (h : p.parent? = some q) :
    q.steps = p.steps.dropLast ∧ q.isAbsolute = p.isAbsolute := by
  by_cases still : p.steps = []
  · obtain ⟨relative, rfl⟩ := parent?_of_steps_eq_nil still h
    rw [still, relative]
    exact ⟨rfl, rfl⟩
  · obtain ⟨folder, parent, shorter, same⟩ := exists_parent? still
    obtain rfl := Option.some.inj (h.symm.trans parent)
    exact ⟨shorter, same⟩

theorem steps_of_parent?_eq_none (h : p.parent? = none) : p.steps = [] := by
  by_cases moves : p.steps = []
  · exact moves
  · obtain ⟨folder, parent, -⟩ := exists_parent? moves
    rw [h] at parent
    contradiction

/-- The way up from a path ends, at most two folders after its steps. -/
theorem length_lineage_le (p : Path) : p.lineage.length ≤ p.steps.length + 2 := by
  fun_induction lineage p with
  | case1 p q h _ ih =>
    rw [List.length_cons]
    by_cases still : p.steps = []
    · obtain ⟨-, rfl⟩ := parent?_of_steps_eq_nil still h
      rw [lineage_of_none (by decide +kernel)]
      simp
    · have shorter := (steps_parent? h).1
      have some := List.length_pos_iff.mpr still
      rw [shorter, List.length_dropLast] at ih
      omega
  | case2 p h => simp

theorem above_of_mem_lineage (h : q ∈ p.lineage) : q.Above p := by
  fun_induction lineage p with
  | case1 p r hr _ ih =>
    rcases List.mem_cons.mp h with rfl | h
    · exact ⟨rfl, List.prefix_refl _⟩
    · obtain ⟨shorter, same⟩ := steps_parent? hr
      obtain ⟨same', begins⟩ := ih h
      exact ⟨same'.trans same, begins.trans (shorter ▸ List.dropLast_prefix _)⟩
  | case2 p _ =>
    rw [List.mem_singleton.mp h]
    exact ⟨rfl, List.prefix_refl _⟩

theorem exists_mem_lineage {first : List Component} (h : first <+: p.steps) :
    ∃ q ∈ p.lineage, q.steps = first := by
  fun_induction lineage p with
  | case1 p r hr _ ih =>
    by_cases all : first = p.steps
    · exact ⟨p, List.mem_cons_self, all.symm⟩
    · have shorter : first <+: r.steps := by
        rw [(steps_parent? hr).1]
        by_cases still : p.steps = []
        · rw [still] at h all
          exact absurd (List.prefix_nil.mp h) all
        · rw [← List.dropLast_concat_getLast still] at h all
          exact (List.prefix_concat_iff.mp h).resolve_left all
      obtain ⟨q, hq, same⟩ := ih shorter
      exact ⟨q, List.mem_cons_of_mem _ hq, same⟩
  | case2 p hp =>
    rw [steps_of_parent?_eq_none hp] at h
    exact ⟨p, List.mem_singleton_self p,
      (steps_of_parent?_eq_none hp).trans (List.prefix_nil.mp h).symm⟩

/-- No folder is left out on the way up, though it may be written in another way. -/
theorem Above.exists_mem_lineage (h : q.Above p) :
    ∃ r ∈ p.lineage, q.isAbsolute = r.isAbsolute ∧ q.steps = r.steps := by
  obtain ⟨r, hr, steps⟩ := Path.exists_mem_lineage h.2
  exact ⟨r, hr, h.1.trans (above_of_mem_lineage hr).1.symm, steps.symm⟩

/-- The way goes up: no folder takes more steps than the ones before it. -/
theorem pairwise_lineage (p : Path) :
    p.lineage.Pairwise fun below above => above.steps.length ≤ below.steps.length := by
  fun_induction lineage p with
  | case1 p r hr _ ih =>
    refine List.pairwise_cons.mpr ⟨fun q hq => ?_, ih⟩
    have begins := (above_of_mem_lineage hq).2
    rw [(steps_parent? hr).1] at begins
    exact (begins.trans (List.dropLast_prefix _)).length_le
  | case2 p _ => exact List.pairwise_singleton _ p

/- A folder with more steps comes earlier on the way. -/
theorem mem_before_of_length_lt {before after : List Path} {r : Path}
    (whole : p.lineage = before ++ r :: after) (hq : q ∈ p.lineage)
    (further : r.steps.length < q.steps.length) : q ∈ before := by
  have order := p.pairwise_lineage
  rw [whole] at hq order
  rcases List.mem_append.mp hq with hq | hq
  · exact hq
  · rcases List.mem_cons.mp hq with rfl | hq
    · exact absurd further (Nat.lt_irrefl _)
    · have later := (List.pairwise_cons.mp (List.pairwise_append.mp order).2.1).1 q hq
      exact absurd further (Nat.not_lt.mpr later)

theorem mem_components_of_mem_steps {p : Path} {c : Component} (h : c ∈ p.steps) :
    c ∈ p.components := List.mem_append_right _ h

/- Without steps up, all steps are names. -/
theorem exists_names_of_level {p : Path} (level : .up ∉ p.steps) :
    ∃ names : List Text, (∀ n ∈ names, IsName n) ∧ p.steps = names.map .name := by
  have each : ∀ c ∈ p.steps, ∃ n : { n : Text // IsName n }, c = .name n.1 := by
    intro c hc
    obtain ⟨s, hs, step⟩ := List.mem_filterMap.mp hc
    have clean := not_mem_of_mem_splitOn (mem_split hs)
    unfold Component.ofSegment at step
    split at step
    · contradiction
    · rename_i moves
      split at step
      · exact absurd (Option.some.inj step ▸ hc) level
      · rename_i up
        exact ⟨⟨s, isName_of_clean moves up clean⟩, (Option.some.inj step).symm⟩
  obtain ⟨names, whole⟩ := exists_map each
  refine ⟨names.map (·.1), fun n hn => ?_, by rw [whole, List.map_map]; rfl⟩
  obtain ⟨m, -, rfl⟩ := List.mem_map.mp hn
  exact m.2

end Unalias.Path
