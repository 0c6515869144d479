import Unalias.Statement.Basic

/-! A text cut into statements and the characters between them. Statements are taken from the
left, each where the keyword begins a word, and none overlap. Nothing of the text is lost. -/
namespace Unalias

inductive Stretch
  | other (c : Char)
  | statement (s : Statement)
deriving DecidableEq

namespace Stretch

def text : Stretch → Text
  | .other c => [c]
  | .statement s => s.text

end Stretch

namespace Statement

/-- Cuts a text that follows a word character or does not. -/
def scanAfter (word : Bool) (t : Text) : List Stretch :=
  match t with
  | [] => []
  | c :: rest =>
    match h : read? (c :: rest) with
    | some (s, after) =>
      have _shorter := length_lt_of_read? h
      if word then .other c :: scanAfter (isWordChar c) rest
      else .statement s :: scanAfter false after
    | none => .other c :: scanAfter (isWordChar c) rest
termination_by t.length
decreasing_by all_goals (simp only [List.length_cons] at *; omega)

def scan (t : Text) : List Stretch := scanAfter false t

theorem scanAfter_text (word : Bool) (t : Text) :
    (scanAfter word t).flatMap Stretch.text = t := by
  fun_induction scanAfter word t with
  | case1 => rfl
  | case2 c rest s after h _ ih => simp [Stretch.text, ih]
  | case3 word c rest s after h _ _ ih => simp [Stretch.text, ih, read?_text h]
  | case4 word c rest h ih => simp [Stretch.text, ih]

theorem scan_text (t : Text) : (scan t).flatMap Stretch.text = t := scanAfter_text false t

/-- The statements among the stretches, each with the number of bytes before it. -/
def placed (start : Nat) : List Stretch → List (Nat × Statement)
  | [] => []
  | .other c :: rest => placed (start + c.utf8Size) rest
  | .statement s :: rest => (start, s) :: placed (start + s.text.size) rest

end Statement
end Unalias
