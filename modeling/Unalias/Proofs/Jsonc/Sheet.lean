import Unalias.Jsonc
import Unalias.Proofs.Json.Reading

/-! JSON with comments and closing commas, as it is written. Taking out the comments leaves the
lexemes, with white space between them; taking out the closing commas leaves those that strict
JSON has. -/
namespace Unalias.Jsonc

open Json (Lexeme Mark Spells Laid Begins)

/-- What a text is made of. A block comment ends at the first star and slash after the star that
opens it. -/
inductive Piece
  | space (c : Char) (h : Json.isSpace c = true)
  | line (body : Text) (h : '\n' ∉ body)
  | block (body : Text) (h : Text.contains ['*', '/'] body = false)
  | lexeme (l : Lexeme)

namespace Piece

def text : Piece → Text
  | .space c _ => [c]
  | .line body _ => '/' :: '/' :: (body ++ ['\n'])
  | .block body _ => '/' :: '*' :: (body ++ ['*', '/'])
  | .lexeme l => l.text

def lexeme? : Piece → Option Lexeme
  | .lexeme l => some l
  | _ => none

end Piece

/-- A whole text: pieces, and perhaps a comment that ends with the text. -/
structure Sheet where
  pieces : List Piece
  remark? : Option { body : Text // '\n' ∉ body }

namespace Sheet

def ending (s : Sheet) : Text :=
  match s.remark? with
  | some remark => '/' :: '/' :: remark.val
  | none => []

def text (s : Sheet) : Text := s.pieces.flatMap Piece.text ++ s.ending

def lexemes (s : Sheet) : List Lexeme := s.pieces.filterMap Piece.lexeme?

end Sheet

/-- A text that can stand between quotes: each backslash has a character behind it, and a quote
stands nowhere else. -/
inductive Held : Text → Prop
  | nil : Held []
  | plain {c : Char} {t : Text} (quote : c ≠ '"') (backslash : c ≠ '\\') (rest : Held t) :
      Held (c :: t)
  | escaped {c : Char} {t : Text} (rest : Held t) : Held ('\\' :: c :: t)

section held

theorem held_digit {v : Nat} {c : Char} {t : Text} (h : Json.HexDigit v c) (rest : Held t) :
    Held (c :: t) := by
  have value := h.value
  refine .plain ?_ ?_ rest
  · rintro rfl
    contradiction
  · rintro rfl
    contradiction

theorem held_digits {n : Nat} {ds t : Text} (h : Json.Digits n ds) (rest : Held t) :
    Held (ds ++ t) := by
  obtain ⟨ha, hb, hc, hd⟩ := h
  exact held_digit ha (held_digit hb (held_digit hc (held_digit hd rest)))

theorem held_escape {c : Char} {e t : Text} (h : Json.Escape c e) (rest : Held t) :
    Held ('\\' :: (e ++ t)) := by
  cases h with
  | short h => exact .escaped rest
  | code h => exact .escaped (held_digits h rest)
  | pair past hh hl =>
    rw [List.cons_append, List.cons_append, List.append_assoc]
    exact .escaped (held_digits hh (.escaped (held_digits hl rest)))

theorem held_of_spells {s b : Text} (h : Spells s b) : Held b := by
  induction h with
  | nil => exact .nil
  | plain quote backslash printed rest ih => exact .plain quote backslash ih
  | escaped h rest ih => exact held_escape h ih

end held

/- Both passes go over the rest of a string, closing quote included, and change nothing. -/
section strings

theorem next_quoted_of_ne {c : Char} (quote : c ≠ '"') (backslash : c ≠ '\\') :
    Mode.quoted.next c = .quoted := by
  rw [Mode.next, if_neg quote, if_neg backslash]

theorem withoutCommentsFrom_inside {mode : Mode} (inside : mode ≠ .code) (c : Char) (t : Text) :
    withoutCommentsFrom (.kept mode) (c :: t) =
      c :: withoutCommentsFrom (.kept (mode.next c)) t := by
  cases mode with
  | code => contradiction
  | quoted => rw [withoutCommentsFrom] <;> intros <;> contradiction
  | escaped => rw [withoutCommentsFrom] <;> intros <;> contradiction

theorem withoutClosingCommasFrom_inside {mode : Mode} (inside : mode ≠ .code) (c : Char)
    (t : Text) :
    withoutClosingCommasFrom mode (c :: t) = c :: withoutClosingCommasFrom (mode.next c) t :=
  if_neg fun h => inside h.1

theorem withoutCommentsFrom_quoted {b : Text} (h : Held b) (t : Text) :
    withoutCommentsFrom (.kept .quoted) (b ++ '"' :: t) = b ++ '"' :: withoutComments t := by
  induction h with
  | nil => exact withoutCommentsFrom_inside (by decide) '"' t
  | plain quote backslash rest ih =>
    rw [List.cons_append, withoutCommentsFrom_inside (by decide),
      next_quoted_of_ne quote backslash, ih]
    rfl
  | escaped rest ih =>
    rw [List.cons_append, List.cons_append, withoutCommentsFrom_inside (by decide),
      withoutCommentsFrom_inside (by decide)]
    exact congrArg (fun u => _ :: _ :: u) ih

theorem withoutClosingCommasFrom_quoted {b : Text} (h : Held b) (t : Text) :
    withoutClosingCommasFrom .quoted (b ++ '"' :: t) = b ++ '"' :: withoutClosingCommas t := by
  induction h with
  | nil => exact withoutClosingCommasFrom_inside (by decide) '"' t
  | plain quote backslash rest ih =>
    rw [List.cons_append, withoutClosingCommasFrom_inside (by decide),
      next_quoted_of_ne quote backslash, ih]
    rfl
  | escaped rest ih =>
    rw [List.cons_append, List.cons_append, withoutClosingCommasFrom_inside (by decide),
      withoutClosingCommasFrom_inside (by decide)]
    exact congrArg (fun u => _ :: _ :: u) ih

end strings

end Unalias.Jsonc
