import Unalias.Json.Value
import Unalias.Proofs.Json.Spelling

/-! JSON as it is written: lexemes in an order that the grammar allows. Of the values without
parts there are strings only; numbers and words do not occur in the texts that this is for. -/
namespace Unalias.Json

inductive Mark
  | listOpen
  | listClose
  | objectOpen
  | objectClose
  | colon
  | comma
deriving DecidableEq

namespace Mark

def char : Mark → Char
  | .listOpen => '['
  | .listClose => ']'
  | .objectOpen => '\x7b'
  | .objectClose => '\x7d'
  | .colon => ':'
  | .comma => ','

def closes : Mark → Bool
  | .listClose | .objectClose => true
  | _ => false

end Mark

/-- A mark, or a string in one of its spellings. -/
inductive Lexeme
  | mark (m : Mark)
  | quoted {s b : Text} (spelling : Spells s b)

namespace Lexeme

def text : Lexeme → Text
  | .mark m => [m.char]
  | @quoted _ b _ => '"' :: (b ++ ['"'])

/-- Whether a value can begin with the lexeme. -/
def begins : Lexeme → Bool
  | .mark .listOpen | .mark .objectOpen | .quoted _ => true
  | .mark _ => false

def closes : Lexeme → Bool
  | .mark m => m.closes
  | .quoted _ => false

end Lexeme

section grammar

variable {α : Type}

/-- One or more parts with commas between them. There may be one more comma after the last part
where that is allowed. -/
inductive Series (closing : Bool) (part : α → List Lexeme → Prop) : List α → List Lexeme → Prop
  | last {a : α} {ls : List Lexeme} (h : part a ls) : Series closing part [a] ls
  | closed {a : α} {ls : List Lexeme} (allowed : closing = true) (h : part a ls) :
      Series closing part [a] (ls ++ [.mark .comma])
  | more {a : α} {as : List α} {ls ms : List Lexeme} (h : part a ls)
      (rest : Series closing part as ms) :
      Series closing part (a :: as) (ls ++ .mark .comma :: ms)

inductive Row (closing : Bool) (part : α → List Lexeme → Prop) : List α → List Lexeme → Prop
  | none : Row closing part [] []
  | some {as : List α} {ls : List Lexeme} (h : Series closing part as ls) : Row closing part as ls

inductive Member (inner : Value → List Lexeme → Prop) : Text × Value → List Lexeme → Prop
  | mk {name b : Text} {v : Value} {ls : List Lexeme} (spelling : Spells name b) (h : inner v ls) :
      Member inner (name, v) (.quoted spelling :: .mark .colon :: ls)

/-- A value, given how the values nested in it are written. -/
inductive WrittenWith (closing : Bool) (inner : Value → List Lexeme → Prop) :
    Value → List Lexeme → Prop
  | string {s b : Text} (spelling : Spells s b) :
      WrittenWith closing inner (.string s) [.quoted spelling]
  | array {items : List Value} {ls : List Lexeme} (h : Row closing inner items ls) :
      WrittenWith closing inner (.array items)
        (.mark .listOpen :: (ls ++ [.mark .listClose]))
  | object {members : List (Text × Value)} {ls : List Lexeme}
      (h : Row closing (Member inner) members ls) :
      WrittenWith closing inner (.object (fieldsOf members))
        (.mark .objectOpen :: (ls ++ [.mark .objectClose]))

/-- A value with at most so many levels, with or without commas before closing marks. -/
def Written (closing : Bool) : Nat → Value → List Lexeme → Prop
  | 0 => fun _ _ => False
  | levels + 1 => WrittenWith closing (Written closing levels)

end grammar

/-- Whether the first of the lexemes can begin a value. -/
def Begins (ls : List Lexeme) : Prop := ∃ l rest, ls = l :: rest ∧ l.begins = true

theorem Begins.append {ls : List Lexeme} (h : Begins ls) (ms : List Lexeme) :
    Begins (ls ++ ms) := by
  obtain ⟨l, rest, rfl, hl⟩ := h
  exact ⟨l, rest ++ ms, rfl, hl⟩

theorem WrittenWith.begins {closing : Bool} {inner : Value → List Lexeme → Prop} {v : Value}
    {ls : List Lexeme} (h : WrittenWith closing inner v ls) : Begins ls := by
  cases h with
  | string spelling => exact ⟨_, _, rfl, rfl⟩
  | array row => exact ⟨_, _, rfl, rfl⟩
  | object row => exact ⟨_, _, rfl, rfl⟩

theorem Written.begins {closing : Bool} {levels : Nat} {v : Value} {ls : List Lexeme}
    (h : Written closing levels v ls) : Begins ls := by
  cases levels with
  | zero => exact False.elim h
  | succ levels => exact WrittenWith.begins h

theorem Member.begins {inner : Value → List Lexeme → Prop} {m : Text × Value} {ls : List Lexeme}
    (h : Member inner m ls) : Begins ls := by
  cases h with
  | mk spelling h => exact ⟨_, _, rfl, rfl⟩

theorem Series.begins {α : Type} {closing : Bool} {part : α → List Lexeme → Prop} {as : List α}
    {ls : List Lexeme} (h : Series closing part as ls)
    (begins : ∀ {a ls}, part a ls → Begins ls) : Begins ls := by
  cases h with
  | last h => exact begins h
  | closed allowed h => exact (begins h).append _
  | more h rest => exact (begins h).append _

theorem Series.length_le {α : Type} {closing : Bool} {part : α → List Lexeme → Prop} {as : List α}
    {ls : List Lexeme} (h : Series closing part as ls)
    (begins : ∀ {a ls}, part a ls → Begins ls) : as.length ≤ ls.length := by
  have filled {a : α} {ls : List Lexeme} (h : part a ls) : 1 ≤ ls.length := by
    obtain ⟨l, rest, rfl, -⟩ := begins h
    exact Nat.succ_le_succ (Nat.zero_le _)
  induction h with
  | last h => exact filled h
  | closed allowed h =>
    rw [List.length_append]
    exact Nat.le_add_right_of_le (filled h)
  | more h rest ih =>
    have := filled h
    simp only [List.length_cons, List.length_append]
    omega

end Unalias.Json
