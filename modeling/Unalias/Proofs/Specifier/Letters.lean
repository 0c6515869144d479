import Unalias.Proofs.Path.Steps
import Unalias.Proofs.Specifier.Dressed

/-! Where the characters of a relative name come from: dots and slashes apart, from the folder
of the rule and from the old name. The path of the file gives none. -/
namespace Unalias

namespace Path

/- A separator stands for the dots and slashes that a path is written with. -/
def isSeparator (x : Char) : Bool := x = '.' || x = '/'

theorem mem_components {p : Path} {c : Component} {x : Char} (hc : c ∈ p.components)
    (hx : x ∈ c.text) : isSeparator x = true ∨ x ∈ p.text := by
  rcases List.mem_append.mp hc with hc | hc
  · left
    cases ha : p.split.1 with
    | root =>
      rw [ha] at hc
      rw [List.mem_singleton.mp hc] at hx
      rw [List.mem_singleton.mp hx]
      rfl
    | here =>
      rw [ha] at hc
      rw [List.mem_singleton.mp hc] at hx
      rw [List.mem_singleton.mp hx]
      rfl
    | bare =>
      rw [ha] at hc
      cases hc
  · right
    obtain ⟨s, hs, hsc⟩ := List.mem_filterMap.mp hc
    rw [text_of_ofSegment hsc] at hx
    exact subset_of_mem_splitOn (mem_split hs) hx

theorem mem_advance {trail : List Component} {c d : Component} (h : d ∈ advance trail c) :
    d ∈ trail ∨ d = c := by
  unfold advance at h
  split at h
  · exact .inl h
  · split at h
    · exact .inr (List.mem_singleton.mp h)
    · exact .inl h
    · split at h
      · exact .inl h
      · exact .inl (List.mem_cons_of_mem _ h)
    · rcases List.mem_cons.mp h with h | h
      · exact .inr h
      · exact .inl h
  · rcases List.mem_cons.mp h with h | h
    · exact .inr h
    · exact .inl h

theorem mem_components_of_mem_normal {p : Path} {c : Component} (h : c ∈ p.normal) :
    c ∈ p.components := by
  have fold : ∀ d ∈ p.components.foldl advance [], d ∈ p.components := by
    apply List.foldlRecOn (motive := fun trail => ∀ d ∈ trail, d ∈ p.components)
    · intro d hd
      cases hd
    · intro trail old d hd e he
      rcases mem_advance he with he | he
      · exact old e he
      · exact he ▸ hd
  exact fold c (List.mem_reverse.mp h)

theorem mem_relativeTo {start goal : Path} {x : Char} (h : x ∈ relativeTo start goal) :
    isSeparator x = true ∨ x ∈ goal.text := by
  rcases mem_intercalate h with h | ⟨s, hs, hx⟩
  · exact .inl (h ▸ rfl)
  · obtain ⟨c, hc, rfl⟩ := List.mem_map.mp hs
    rcases List.mem_append.mp hc with up | down
    · rw [List.eq_of_mem_replicate up] at hx
      have dot : x = '.' := by simpa [Component.text] using hx
      exact .inl (dot ▸ rfl)
    · exact mem_components (mem_components_of_mem_normal (List.mem_of_mem_drop down)) hx

end Path

namespace Route

open Unalias.Path

theorem mem_trail_step {r : Route} {segment n : Text} (h : n ∈ (r.step segment).trail) :
    n ∈ r.trail ∨ n = segment := by
  unfold step at h
  split at h
  · exact .inl h
  · split at h
    · split at h
      · cases h
      · rename_i ht
        rw [ht]
        exact .inl (List.mem_cons_of_mem _ h)
    · rcases List.mem_cons.mp h with h | h
      · exact .inr h
      · exact .inl h

theorem mem_trail_foldl_step {r : Route} {segments : List Text} {n : Text}
    (h : n ∈ (segments.foldl step r).trail) : n ∈ r.trail ∨ n ∈ segments := by
  have fold : ∀ m ∈ (segments.foldl step r).trail, m ∈ r.trail ∨ m ∈ segments := by
    apply List.foldlRecOn (motive := fun q : Route => ∀ m ∈ q.trail, m ∈ r.trail ∨ m ∈ segments)
    · exact fun m hm => .inl hm
    · intro q old s hs m hm
      rcases mem_trail_step hm with hm | hm
      · exact old m hm
      · exact .inr (hm ▸ hs)
  exact fold n h

theorem mem_toText {r : Route} {x : Char} (h : x ∈ r.toText) :
    isSeparator x = true ∨ ∃ n ∈ r.trail, x ∈ n := by
  rcases mem_intercalate h with h | ⟨s, hs, hx⟩
  · exact .inl (h ▸ rfl)
  · rcases List.mem_append.mp hs with up | down
    · rw [List.eq_of_mem_replicate up] at hx
      have dot : x = '.' := by simpa using hx
      exact .inl (dot ▸ rfl)
    · exact .inr ⟨s, List.mem_reverse.mp down, hx⟩

theorem mem_join {base rest : Text} {x : Char} (h : x ∈ join base rest) :
    isSeparator x = true ∨ x ∈ base ∨ x ∈ rest := by
  rcases mem_toText h with h | ⟨n, hn, hx⟩
  · exact .inl h
  · right
    rcases mem_trail_foldl_step hn with hn | hn
    · rcases mem_trail_foldl_step hn with hn | hn
      · cases hn
      · exact .inl (subset_of_mem_splitOn hn hx)
    · exact .inr (subset_of_mem_splitOn hn hx)

end Route

namespace Rule

open Unalias.Path

theorem mem_dressed {closing : Bool} {route : Text} {x : Char} (h : x ∈ dressed closing route) :
    isSeparator x = true ∨ x ∈ route := by
  have closed (hx : x ∈ if closing then route ++ ['/'] else route) :
      isSeparator x = true ∨ x ∈ route := by
    split at hx
    · rcases List.mem_append.mp hx with hx | hx
      · exact .inr hx
      · exact .inl (List.mem_singleton.mp hx ▸ rfl)
    · exact .inr hx
  have front (hx : x ∈ ['.', '/']) : isSeparator x = true := by
    simp only [List.mem_cons, List.not_mem_nil, or_false] at hx
    rcases hx with hx | hx <;> exact hx ▸ rfl
  rcases dressed_cases closing route with
    ⟨-, hd⟩ | ⟨-, name, hname, ⟨-, hd⟩ | ⟨-, hd⟩⟩ <;> rw [hd] at h
  · exact .inl (front h)
  · exact closed (hname ▸ h)
  · rcases List.mem_append.mp h with h | h
    · exact .inl (front h)
    · exact closed (hname ▸ h)

/-- Dots and slashes apart, a relative name is made of the rule's folder and the old name. -/
theorem mem_relativeName {r : Rule} {file : Path} {name : Text} {x : Char}
    (h : x ∈ r.relativeName file name) : isSeparator x = true ∨ x ∈ r.folder.text ∨ x ∈ name := by
  rcases mem_dressed h with h | h
  · exact .inl h
  · rcases Route.mem_join h with h | h | h
    · exact .inl h
    · exact (mem_relativeTo h).imp_right .inl
    · exact .inr (.inr (remainder_subset r name h))

end Rule
end Unalias
