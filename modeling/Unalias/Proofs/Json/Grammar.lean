import Unalias.Json.Reader
import Unalias.Proofs.Json.Spelling

/-! JSON as its grammar has it, said without a reader: no comments, no comma before a closing mark,
any depth. What a text writes is a tree, in which an object still has all its members; as a value
it has one field for each name. -/
namespace Unalias.Json

/-- A value as a text writes it. A name may occur more than once among the members of an object. -/
inductive Tree
  | null
  | bool (b : Bool)
  | number (literal : Text)
  | string (t : Text)
  | array (items : List Tree)
  | object (members : List (Text × Tree))

namespace Tree

mutual

def value : Tree → Value
  | .null => .null
  | .bool b => .bool b
  | .number literal => .number literal
  | .string t => .string t
  | .array items => .array (values items)
  | .object members => .object (fieldsOf (namedValues members))

def values : List Tree → List Value
  | [] => []
  | w :: ws => w.value :: values ws

def namedValues : List (Text × Tree) → List (Text × Value)
  | [] => []
  | (name, w) :: ms => (name, w.value) :: namedValues ms

end

end Tree

def Spaces (t : Text) : Prop := ∀ c ∈ t, isSpace c = true

/-- One digit or more. -/
def Numerals (t : Text) : Prop := t ≠ [] ∧ ∀ c ∈ t, isDigit c = true

/-- No zero stands before another digit. -/
inductive Whole : Text → Prop
  | zero : Whole ['0']
  | more {c : Char} {t : Text} : isDigit c = true → c ≠ '0' → (∀ d ∈ t, isDigit d = true) →
      Whole (c :: t)

inductive Fraction : Text → Prop
  | none : Fraction []
  | some {t : Text} : Numerals t → Fraction ('.' :: t)

inductive Exponent : Text → Prop
  | none : Exponent []
  | some {e : Char} {sign t : Text} : e = 'e' ∨ e = 'E' → sign = [] ∨ sign = ['+'] ∨ sign = ['-'] →
      Numerals t → Exponent (e :: (sign ++ t))

inductive Number : Text → Prop
  | mk {sign whole fraction exponent : Text} : sign = [] ∨ sign = ['-'] → Whole whole →
      Fraction fraction → Exponent exponent → Number (sign ++ (whole ++ (fraction ++ exponent)))

/-- What may stand between quotes. An escape by code need not be the code of a character. -/
inductive Body : Text → Prop
  | nil : Body []
  | plain {c : Char} {t : Text} : c ≠ '"' → c ≠ '\\' → ' ' ≤ c → Body t → Body (c :: t)
  | short {letter c : Char} {t : Text} : (letter, c) ∈ shortEscapes → Body t →
      Body ('\\' :: letter :: t)
  | code {n : Nat} {ds t : Text} : Digits n ds → Body t → Body ('\\' :: 'u' :: (ds ++ t))

/-- A part of the grammar, with what is written: a value, a value between white space, a member of
an object, and one or more of them with commas between. -/
inductive Phrase
  | value (w : Tree)
  | element (w : Tree)
  | elements (ws : List Tree)
  | member (m : Text × Tree)
  | members (ms : List (Text × Tree))

/-- The text is a phrase of the grammar, when strings are spelled as given. -/
inductive Writes (spells : Text → Text → Prop) : Phrase → Text → Prop
  | null : Writes spells (.value .null) "null".toList
  | bool (b : Bool) : Writes spells (.value (.bool b)) (toString b).toList
  | number {t : Text} : Number t → Writes spells (.value (.number t)) t
  | string {s b : Text} : spells s b → Writes spells (.value (.string s)) ('"' :: (b ++ ['"']))
  | emptyArray {gap : Text} : Spaces gap →
      Writes spells (.value (.array [])) ('[' :: (gap ++ [']']))
  | array {ws : List Tree} {t : Text} : Writes spells (.elements ws) t →
      Writes spells (.value (.array ws)) ('[' :: (t ++ [']']))
  | emptyObject {gap : Text} : Spaces gap →
      Writes spells (.value (.object [])) ('\x7b' :: (gap ++ ['\x7d']))
  | object {ms : List (Text × Tree)} {t : Text} : Writes spells (.members ms) t →
      Writes spells (.value (.object ms)) ('\x7b' :: (t ++ ['\x7d']))
  | element {w : Tree} {before t after : Text} : Spaces before → Writes spells (.value w) t →
      Spaces after → Writes spells (.element w) (before ++ (t ++ after))
  | lastElement {w : Tree} {t : Text} : Writes spells (.element w) t →
      Writes spells (.elements [w]) t
  | moreElements {w : Tree} {ws : List Tree} {s t : Text} : Writes spells (.element w) s →
      Writes spells (.elements ws) t → Writes spells (.elements (w :: ws)) (s ++ ',' :: t)
  | member {name b : Text} {w : Tree} {before gap t : Text} : Spaces before → spells name b →
      Spaces gap → Writes spells (.element w) t →
      Writes spells (.member (name, w)) (before ++ '"' :: (b ++ '"' :: (gap ++ ':' :: t)))
  | lastMember {m : Text × Tree} {t : Text} : Writes spells (.member m) t →
      Writes spells (.members [m]) t
  | moreMembers {m : Text × Tree} {ms : List (Text × Tree)} {s t : Text} :
      Writes spells (.member m) s → Writes spells (.members ms) t →
      Writes spells (.members (m :: ms)) (s ++ ',' :: t)

/-- A text of strict JSON. -/
def IsStrict (t : Text) : Prop := ∃ w, Writes (fun _ b => Body b) (.element w) t

theorem Spaces.nil : Spaces [] := List.forall_mem_nil _

theorem Spaces.append {s t : Text} (hs : Spaces s) (ht : Spaces t) : Spaces (s ++ t) := by
  intro c hc
  rcases List.mem_append.mp hc with hc | hc
  · exact hs c hc
  · exact ht c hc

theorem Escape.body {c : Char} {e t : Text} (h : Escape c e) (rest : Body t) :
    Body ('\\' :: (e ++ t)) := by
  cases h with
  | short h => exact .short h rest
  | code h => exact .code h rest
  | pair past hh hl =>
    rw [List.cons_append, List.cons_append, List.append_assoc]
    exact .code hh (.code hl rest)

/-- All spellings of a text are allowed between quotes. -/
theorem Spells.body {s b : Text} (h : Spells s b) : Body b := by
  induction h with
  | nil => exact .nil
  | plain quote backslash printed _ ih => exact .plain quote backslash printed ih
  | escaped h _ ih => exact h.body ih

theorem Writes.imp {spells spells' : Text → Text → Prop} (h : ∀ s b, spells s b → spells' s b)
    {p : Phrase} {t : Text} (writes : Writes spells p t) : Writes spells' p t := by
  induction writes with
  | null => exact .null
  | bool b => exact .bool b
  | number n => exact .number n
  | string spelling => exact .string (h _ _ spelling)
  | emptyArray gap => exact .emptyArray gap
  | array _ ih => exact .array ih
  | emptyObject gap => exact .emptyObject gap
  | object _ ih => exact .object ih
  | element before _ after ih => exact .element before ih after
  | lastElement _ ih => exact .lastElement ih
  | moreElements _ _ first rest => exact .moreElements first rest
  | member before spelling gap _ ih => exact .member before (h _ _ spelling) gap ih
  | lastMember _ ih => exact .lastMember ih
  | moreMembers _ _ first rest => exact .moreMembers first rest

theorem Writes.isStrict {w : Tree} {t : Text} (h : Writes Spells (.element w) t) : IsStrict t :=
  ⟨w, h.imp fun _ _ spelling => spelling.body⟩

end Unalias.Json
