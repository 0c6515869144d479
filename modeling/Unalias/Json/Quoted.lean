import Unalias.Json.Failure

/-! JSON strings, read after the opening quote. Characters past the first plane are escaped as a
pair of surrogates, and a half of a pair alone is refused. -/
namespace Unalias.Json

def hexValue? (c : Char) : Option Nat :=
  if '0' ≤ c ∧ c ≤ '9' then some (c.toNat - '0'.toNat)
  else if 'a' ≤ c ∧ c ≤ 'f' then some (c.toNat - 'a'.toNat + 10)
  else if 'A' ≤ c ∧ c ≤ 'F' then some (c.toNat - 'A'.toNat + 10)
  else none

/-- Reads four hexadecimal digits. The text must hold four more bytes. -/
def readHex (t : Text) : Reading (Nat × Text) :=
  if Text.size (t.take 4) < 4 then failAt .endInString []
  else match t with
    | a :: b :: c :: d :: rest =>
      match hexValue? a, hexValue? b, hexValue? c, hexValue? d with
      | some a, some b, some c, some d => .ok (((a * 16 + b) * 16 + c) * 16 + d, rest)
      | _, _, _, _ => failPast 4 .badEscape t
    | _ => failPast 4 .badEscape t

/-- Passes over a character that a surrogate pair must have. -/
def readWithinPair (expected : Char) : Text → Reading Text
  | [] => failAt .endInString []
  | c :: t => if c = expected then .ok t else failPast 1 .halfPair (c :: t)

def isLowHalf (n : Nat) : Bool := 0xDC00 ≤ n && n ≤ 0xDFFF

def isHighHalf (n : Nat) : Bool := 0xD800 ≤ n && n ≤ 0xDBFF

def readCodePoint (t : Text) : Reading (Char × Text) := do
  let (n, t) ← readHex t
  if isLowHalf n then failAt .lonePair t
  else if isHighHalf n then
    let t ← readWithinPair '\\' t
    let t ← readWithinPair 'u' t
    let (m, t) ← readHex t
    if isLowHalf m then
      return (Char.ofNat (0x10000 + (n - 0xD800) * 0x400 + (m - 0xDC00)), t)
    else failAt .lonePair t
  else return (Char.ofNat n, t)

def readEscape : Text → Reading (Char × Text)
  | [] => failAt .endInString []
  | '"' :: t => .ok ('"', t)
  | '\\' :: t => .ok ('\\', t)
  | '/' :: t => .ok ('/', t)
  | 'b' :: t => .ok ('\x08', t)
  | 'f' :: t => .ok ('\x0c', t)
  | 'n' :: t => .ok ('\n', t)
  | 'r' :: t => .ok ('\r', t)
  | 't' :: t => .ok ('\t', t)
  | 'u' :: t => readCodePoint t
  | t => failPast 1 .badEscape t

/-- Reads the rest of a string in a number of steps that its length allows. -/
def readQuotedWithin : Nat → Text → Reading (Text × Text)
  | 0, _ => failAt .endInString []
  | _, [] => failAt .endInString []
  | _, '"' :: t => .ok ([], t)
  | n + 1, '\\' :: t => do
    let (c, t) ← readEscape t
    let (cs, t) ← readQuotedWithin n t
    return (c :: cs, t)
  | n + 1, c :: t =>
    if c < ' ' then failAt .controlCharacter t
    else do
      let (cs, t) ← readQuotedWithin n t
      return (c :: cs, t)

def readQuoted (t : Text) : Reading (Text × Text) := readQuotedWithin t.length t

end Unalias.Json
