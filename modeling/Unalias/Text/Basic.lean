/-! Text as a list of characters. Sizes and positions are counted in UTF-8 bytes. -/
namespace Unalias

abbrev Text := List Char

namespace Text

/-- Bytes that the text takes in UTF-8. -/
def size (t : Text) : Nat := t.foldr (fun c n => c.utf8Size + n) 0

@[simp] theorem size_nil : size [] = 0 := rfl

@[simp] theorem size_cons (c : Char) (t : Text) : size (c :: t) = c.utf8Size + size t := rfl

@[simp] theorem size_append (s t : Text) : size (s ++ t) = size s + size t := by
  induction s with
  | nil => simp
  | cons c s ih => simp [ih, Nat.add_assoc]

def contains (word : Text) : Text → Bool
  | [] => word.isEmpty
  | c :: t => word.isPrefixOf (c :: t) || contains word t

theorem contains_iff_infix {word t : Text} : contains word t = true ↔ word <:+: t := by
  induction t with
  | nil => simp [contains]
  | cons c t ih =>
    rw [contains, Bool.or_eq_true, List.isPrefixOf_iff_prefix, ih, List.infix_cons_iff]

theorem isPrefixOf?_eq_some_iff {word t rest : Text} :
    word.isPrefixOf? t = some rest ↔ t = word ++ rest := by
  induction word generalizing t with
  | nil =>
    have : List.isPrefixOf? [] t = some t := by cases t <;> rfl
    simp [this]
  | cons c word ih =>
    cases t with
    | nil =>
      have : List.isPrefixOf? (c :: word) [] = none := rfl
      simp [this]
    | cons d t =>
      change (if c == d then word.isPrefixOf? t else none) = some rest ↔ _
      by_cases h : c = d
      · simp [ih, h]
      · simp [h, Ne.symm h]

end Text
end Unalias
