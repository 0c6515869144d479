import Unalias.Text.Basic

/-! The segments of a text between its slashes. -/
namespace Unalias

/-- A name that a folder can have: neither idle nor a step up, and one segment. -/
def IsName (t : Text) : Prop := t ≠ [] ∧ t ≠ ['.'] ∧ t ≠ ['.', '.'] ∧ '/' ∉ t

theorem isName_of_clean {t : Text} (idle : ¬(t = [] ∨ t = ['.'])) (up : t ≠ ['.', '.'])
    (clean : '/' ∉ t) : IsName t :=
  ⟨fun h => idle (.inl h), fun h => idle (.inr h), up, clean⟩

theorem not_mem_of_mem_splitOn {text segment : Text} (h : segment ∈ text.splitOn '/') :
    '/' ∉ segment := by
  induction text generalizing segment with
  | nil =>
    rw [List.splitOn_nil, List.mem_singleton] at h
    simp [h]
  | cons c text ih =>
    rw [List.splitOn_cons_eq_if_modifyHead] at h
    split at h
    · rcases List.mem_cons.mp h with h | h
      · simp [h]
      · exact ih h
    · rename_i hc
      cases hs : text.splitOn '/' with
      | nil => exact absurd hs (List.splitOn_ne_nil '/' text)
      | cons first rest =>
        rw [hs, List.modifyHead_cons] at h
        rcases List.mem_cons.mp h with h | h
        · have clean := ih (hs ▸ List.mem_cons_self)
          have other : c ≠ '/' := by simpa using hc
          simp [h, clean, Ne.symm other]
        · exact ih (hs ▸ List.mem_cons_of_mem _ h)

theorem splitOn_name {name : Text} (clean : '/' ∉ name) (t : Text) :
    (t ++ '/' :: name).splitOn '/' = t.splitOn '/' ++ [name] := by
  rw [List.splitOn_append_cons_self, List.splitOn_eq_singleton clean]

theorem mem_intercalate {c : Char} {segments : List Text}
    (h : c ∈ ['/'].intercalate segments) : c = '/' ∨ ∃ s ∈ segments, c ∈ s := by
  induction segments with
  | nil => cases h
  | cons s rest ih =>
    cases rest with
    | nil => exact .inr ⟨s, List.mem_cons_self, by simpa using h⟩
    | cons t rest =>
      rw [List.intercalate_cons_cons] at h
      rcases List.mem_append.mp h with h | h
      · rcases List.mem_append.mp h with h | h
        · exact .inr ⟨s, List.mem_cons_self, h⟩
        · exact .inl (List.mem_singleton.mp h)
      · rcases ih h with slash | ⟨u, hu, hc⟩
        · exact .inl slash
        · exact .inr ⟨u, List.mem_cons_of_mem s hu, hc⟩

theorem subset_intercalate {segments : List Text} {s : Text} (hs : s ∈ segments) :
    s ⊆ ['/'].intercalate segments := by
  induction segments with
  | nil => cases hs
  | cons t rest ih =>
    cases rest with
    | nil =>
      rw [List.mem_singleton.mp hs]
      simp
    | cons u rest =>
      rw [List.intercalate_cons_cons]
      rcases List.mem_cons.mp hs with hs | hs
      · rw [hs]
        simp
      · exact fun c hc => List.mem_append_right _ (ih hs hc)

theorem intercalate_append {front back : List Text} (hf : front ≠ []) (hb : back ≠ []) :
    ['/'].intercalate (front ++ back) = ['/'].intercalate front ++ '/' :: ['/'].intercalate back := by
  induction front with
  | nil => contradiction
  | cons s front ih =>
    cases front with
    | nil =>
      rw [List.singleton_append, List.intercalate_cons_of_ne_nil hb, List.intercalate_singleton,
        List.append_assoc]
      rfl
    | cons t front =>
      rw [List.cons_append, List.cons_append, List.intercalate_cons_cons, ← List.cons_append,
        ih (List.cons_ne_nil t front), List.intercalate_cons_cons, List.append_assoc,
        List.append_assoc, List.append_assoc]

theorem intercalate_eq_nil_iff {segments : List Text} (h : ∀ s ∈ segments, s ≠ []) :
    ['/'].intercalate segments = [] ↔ segments = [] := by
  constructor
  · intro empty
    cases segments with
    | nil => rfl
    | cons s rest =>
      have first := subset_intercalate (List.mem_cons_self (a := s) (l := rest))
      rw [empty] at first
      exact absurd (List.subset_nil.mp first) (h s List.mem_cons_self)
  · intro none
    rw [none]
    rfl

theorem subset_of_mem_splitOn {text segment : Text} (h : segment ∈ text.splitOn '/') :
    segment ⊆ text := by
  have whole := subset_intercalate h
  rwa [List.intercalate_splitOn] at whole

end Unalias
