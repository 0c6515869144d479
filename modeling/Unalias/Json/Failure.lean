import Unalias.Text.Basic

/-! Why a text is not JSON, and where. A failure counts the bytes that are left of the text, so
that it can be stated without the text before it. -/
namespace Unalias.Json

inductive Reason
  | endInValue
  | endInList
  | endInObject
  | endInString
  | expectedValue
  | expectedWord
  | expectedListEnd
  | expectedObjectEnd
  | expectedColon
  | expectedKey
  | closingComma
  | trailing
  | badNumber
  | numberTooLarge
  | controlCharacter
  | badEscape
  | halfPair
  | lonePair
  | tooDeep
deriving DecidableEq

def Reason.message : Reason → String
  | .endInValue => "EOF while parsing a value"
  | .endInList => "EOF while parsing a list"
  | .endInObject => "EOF while parsing an object"
  | .endInString => "EOF while parsing a string"
  | .expectedValue => "expected value"
  | .expectedWord => "expected ident"
  | .expectedListEnd => "expected `,` or `]`"
  | .expectedObjectEnd => "expected `,` or `\x7d`"
  | .expectedColon => "expected `:`"
  | .expectedKey => "key must be a string"
  | .closingComma => "trailing comma"
  | .trailing => "trailing characters"
  | .badNumber => "invalid number"
  | .numberTooLarge => "number out of range"
  | .controlCharacter => "control character (\\u0000-\\u001F) found while parsing a string"
  | .badEscape => "invalid escape"
  | .halfPair => "unexpected end of hex escape"
  | .lonePair => "lone leading surrogate in hex escape"
  | .tooDeep => "recursion limit exceeded"

structure Failure where
  reason : Reason
  left : Nat
deriving DecidableEq

/-- What comes of reading: a value, mostly with the rest of the text, or a failure. -/
abbrev Reading := Except Failure

/-- Failure just before the given rest. -/
def failAt {α : Type} (reason : Reason) (rest : Text) : Reading α :=
  .error ⟨reason, rest.size⟩

/-- Failure just past the next bytes of the given rest, or at the end of the text. -/
def failPast {α : Type} (bytes : Nat) (reason : Reason) (rest : Text) : Reading α :=
  .error ⟨reason, rest.size - bytes⟩

/-- A place in a text: lines from one, and in the line the number of bytes before it. -/
structure Position where
  line : Nat
  column : Nat
deriving DecidableEq

def Position.walk (p : Position) : Nat → Text → Position
  | 0, _ => p
  | _, [] => p
  | n, c :: t =>
    if n < c.utf8Size then ⟨p.line, p.column + n⟩
    else if c = '\n' then Position.walk ⟨p.line + 1, 0⟩ (n - c.utf8Size) t
    else Position.walk ⟨p.line, p.column + c.utf8Size⟩ (n - c.utf8Size) t

def Failure.position (f : Failure) (t : Text) : Position :=
  Position.walk ⟨1, 0⟩ (t.size - f.left) t

structure Problem where
  reason : Reason
  position : Position
deriving DecidableEq

def Problem.message (p : Problem) : String :=
  s!"{p.reason.message} at line {p.position.line} column {p.position.column}"

end Unalias.Json
