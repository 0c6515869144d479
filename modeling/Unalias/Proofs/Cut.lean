import Unalias.Proofs.Position

/-! Texts cut at positions. A cut past the end or inside of a character fails, and so does a slice
whose end comes before its start; a slice that does not fail is what the text holds there. -/
namespace Unalias.Text

/-- What stands before a position and what comes after it. -/
def cut? : Nat → Text → Option (Text × Text)
  | 0, t => some ([], t)
  | _ + 1, [] => none
  | n + 1, c :: t =>
    if c.utf8Size ≤ n + 1 then (cut? (n + 1 - c.utf8Size) t).map fun p => (c :: p.1, p.2)
    else none

/-- The number of bytes from one position to another that does not come before it. -/
def distance? (first last : Nat) : Option Nat :=
  if first ≤ last then some (last - first) else none

/-- What stands between two positions. -/
def slice? (t : Text) (first last : Nat) : Option Text := do
  let long ← distance? first last
  let rest ← cut? first t
  let part ← cut? long rest.2
  some part.1

theorem distance?_add (first n : Nat) : distance? first (first + n) = some n := by
  rw [distance?, if_pos (Nat.le_add_right first n), Nat.add_sub_cancel_left]

theorem distance?_eq_some_iff {first last n : Nat} :
    distance? first last = some n ↔ last = first + n := by
  constructor
  · intro h
    unfold distance? at h
    split at h
    · cases Option.some.inj h
      omega
    · contradiction
  · rintro rfl
    exact distance?_add first n

theorem cut?_cons (c : Char) (t : Text) (n : Nat) :
    cut? (c.utf8Size + n) (c :: t) = (cut? n t).map fun p => (c :: p.1, p.2) := by
  obtain ⟨k, hk⟩ := Nat.exists_eq_add_one.mpr c.utf8Size_pos
  have more : c.utf8Size + n = (k + n) + 1 := by omega
  have fits : c.utf8Size ≤ (k + n) + 1 := by omega
  have left : (k + n) + 1 - c.utf8Size = n := by omega
  rw [more, cut?, if_pos fits, left]

theorem cut?_append (a b : Text) : cut? a.size (a ++ b) = some (a, b) := by
  induction a with
  | nil => cases b <;> rfl
  | cons c a ih =>
    rw [size_cons, List.cons_append, cut?_cons, ih]
    rfl

theorem append_of_cut? {n : Nat} {t : Text} {p : Text × Text} (h : cut? n t = some p) :
    t = p.1 ++ p.2 ∧ p.1.size = n := by
  induction t generalizing n p with
  | nil =>
    cases n with
    | zero =>
      cases Option.some.inj h
      exact ⟨rfl, rfl⟩
    | succ n => contradiction
  | cons c t ih =>
    cases n with
    | zero =>
      cases Option.some.inj h
      exact ⟨rfl, rfl⟩
    | succ n =>
      rw [cut?] at h
      split at h
      · rename_i fits
        obtain ⟨q, hq, rfl⟩ := Option.map_eq_some_iff.mp h
        obtain ⟨whole, size⟩ := ih hq
        refine ⟨congrArg (c :: ·) whole, ?_⟩
        rw [size_cons, size]
        omega
      · contradiction

theorem cut?_eq_some_iff {n : Nat} {t a b : Text} :
    cut? n t = some (a, b) ↔ t = a ++ b ∧ a.size = n := by
  constructor
  · exact append_of_cut?
  · rintro ⟨rfl, rfl⟩
    exact cut?_append a b

theorem slice?_eq_some_iff {t part : Text} {first last : Nat} :
    t.slice? first last = some part ↔ t.Holds (first, last) part := by
  simp only [slice?, Option.bind_eq_bind, Option.bind_eq_some_iff]
  constructor
  · rintro ⟨n, hn, ⟨before, later⟩, hp, ⟨inner, after⟩, hq, h⟩
    obtain rfl : inner = part := Option.some.inj h
    obtain ⟨whole, size⟩ := cut?_eq_some_iff.mp hp
    obtain ⟨rest, size'⟩ := cut?_eq_some_iff.mp hq
    refine ⟨before, after, by rw [List.append_assoc, ← rest, whole], size, ?_⟩
    rw [size_append, size, size', distance?_eq_some_iff.mp hn]
  · rintro ⟨before, after, rfl, rfl, rfl⟩
    refine ⟨part.size, ?_, (before, part ++ after), ?_, (part, after), cut?_append part after, rfl⟩
    · rw [size_append, distance?_add]
    · rw [List.append_assoc, cut?_append]

end Unalias.Text
