import Unalias.Path.Basic

/-! A path and the folders above it, as far up as its text goes. -/
namespace Unalias.Path

theorem length_intercalate (c : Char) (ss : List Text) :
    ([c].intercalate ss).length = ss.flatten.length + (ss.length - 1) := by
  induction ss with
  | nil => rfl
  | cons s ss ih =>
    cases ss with
    | nil => simp
    | cons t ts =>
      rw [List.intercalate_cons_cons]
      simp only [List.length_append, ih, List.flatten_cons, List.length_cons, List.length_nil]
      omega

theorem length_ofParts (a : Anchor) (ss : List Text) :
    (ofParts a ss).text.length = (if a = .bare then 0 else 1) + ss.flatten.length +
      (if a = .here then ss.length else ss.length - 1) := by
  cases a with
  | root => simp [ofParts, length_intercalate]; omega
  | here => simp [ofParts, length_intercalate]; omega
  | bare => simp [ofParts, length_intercalate]

theorem length_flatten_reverse (ss : List Text) :
    ss.reverse.flatten.length = ss.flatten.length := by
  induction ss with
  | nil => rfl
  | cons s ss ih =>
    simp only [List.reverse_cons, List.flatten_append, List.flatten_cons, List.flatten_nil,
      List.append_nil, List.length_append, ih]
    omega

theorem length_dropWhile_le (f : Text → Bool) (ss : List Text) :
    (ss.dropWhile f).flatten.length ≤ ss.flatten.length ∧
      (ss.dropWhile f).length ≤ ss.length := by
  induction ss with
  | nil => simp
  | cons s ss ih =>
    rw [List.dropWhile_cons]
    split
    · simp only [List.flatten_cons, List.length_append, List.length_cons]
      omega
    · simp

theorem length_parent? {p q : Path} (h : p.parent? = some q) : q.text.length < p.text.length := by
  have whole := congrArg (fun p => p.text.length) (ofParts_split p)
  simp only [length_ofParts] at whole
  unfold parent? at h
  split at h
  · rename_i s before hd
    cases Option.some.inj h
    have named : isIdle s = false := by
      have := List.head?_dropWhile_not isIdle p.split.2.reverse
      simpa [hd] using this
    have long : 1 ≤ s.length := by
      cases s with
      | nil => simp [isIdle] at named
      | cons c t => simp
    have most := length_dropWhile_le isIdle p.split.2.reverse
    have rest := length_dropWhile_le isIdle before
    simp only [hd, length_flatten_reverse, List.length_reverse, List.flatten_cons,
      List.length_append, List.length_cons] at most
    simp only [length_ofParts, settle, length_flatten_reverse, List.reverse_reverse,
      List.length_reverse]
    split at whole <;> split <;> split <;> simp_all <;> omega
  · split at h
    · rename_i ha
      cases Option.some.inj h
      simp only [ha] at whole
      simp at whole
      simp
      omega
    · contradiction

/-- The path itself and then each folder above the one before. -/
def lineage (p : Path) : List Path :=
  match h : p.parent? with
  | some q =>
    have _shorter := length_parent? h
    p :: lineage q
  | none => [p]
termination_by p.text.length
decreasing_by exact _shorter

end Unalias.Path
