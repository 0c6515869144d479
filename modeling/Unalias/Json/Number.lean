import Unalias.Json.Failure

/-! JSON numbers. A number is checked for its form and for its size: it must not be too large
for double precision. Digits past what fits into 64 bits count only as powers of ten. -/
namespace Unalias.Json

structure Magnitude where
  significand : Nat
  exponent : Int
deriving DecidableEq

def isDigit (c : Char) : Bool := '0' ≤ c && c ≤ '9'

def digitValue (c : Char) : Nat := c.toNat - '0'.toNat

/-- Takes digits into a significand until one no longer fits into 64 bits. Gives the significand
and how many digits were left out. -/
def absorb (significand : Nat) : Text → Nat × Nat
  | [] => (significand, 0)
  | d :: ds =>
    let larger := significand * 10 + digitValue d
    if larger < Nat.pow 2 64 then absorb larger ds else (significand, ds.length + 1)

/-- The nearest number with at most 53 significant bits; of two, the one with an even last bit. -/
def nearest53 (n : Nat) : Nat :=
  if n < Nat.pow 2 53 then n
  else
    let unit := Nat.pow 2 (n.log2 - 52)
    let (q, r) := (n / unit, n % unit)
    if unit < 2 * r ∨ (2 * r = unit ∧ q % 2 = 1) then (q + 1) * unit else q * unit

/-- Whether the number goes past the largest finite double, computed as the product of two
rounded factors. -/
def Magnitude.isTooLarge (m : Magnitude) : Bool :=
  match m.exponent with
  | .negSucc _ => false
  | .ofNat e =>
    if e ≤ 308 then
      Nat.pow 2 1024 - Nat.pow 2 970 ≤ nearest53 m.significand * nearest53 (Nat.pow 10 e)
    else m.significand ≠ 0

/-- Gives the rest of the text unless the number before it is too large. -/
def Magnitude.check (m : Magnitude) (rest : Text) : Reading Text :=
  if m.isTooLarge then failAt .numberTooLarge rest else .ok rest

def Magnitude.scaled (m : Magnitude) (negative : Bool) (e : Nat) : Magnitude :=
  ⟨m.significand, if negative then m.exponent - e else m.exponent + e⟩

def maxExponent : Nat := 2147483647

/-- Reads the digits of an exponent. One past the limit is too large at that very digit when it
makes a number large, and is passed over when it makes a number small. -/
def readExponentDigits (m : Magnitude) (negative : Bool) (e : Nat) : Text → Reading Text
  | [] => (m.scaled negative e).check []
  | c :: t =>
    if isDigit c then
      let larger := e * 10 + digitValue c
      if larger ≤ maxExponent then readExponentDigits m negative larger t
      else if m.significand = 0 ∨ negative then .ok (t.dropWhile isDigit)
      else failAt .numberTooLarge t
    else (m.scaled negative e).check (c :: t)

/-- Reads an exponent after its letter, and like the readers below gives the rest of the text. -/
def readExponent (m : Magnitude) (t : Text) : Reading Text :=
  let (negative, t) := match t with
    | '+' :: t => (false, t)
    | '-' :: t => (true, t)
    | t => (false, t)
  match t with
  | [] => failAt .endInValue []
  | c :: t =>
    if isDigit c then readExponentDigits m negative 0 (c :: t) else failPast 1 .badNumber (c :: t)

def readFraction (m : Magnitude) (t : Text) : Reading Text :=
  let digits := t.takeWhile isDigit
  let rest := t.dropWhile isDigit
  match digits, rest with
  | [], [] => failAt .endInValue []
  | [], _ => failPast 1 .badNumber rest
  | _, _ =>
    let (significand, dropped) := absorb m.significand digits
    let m : Magnitude := ⟨significand, m.exponent - (digits.length - dropped : Nat)⟩
    match rest with
    | 'e' :: t => readExponent m t
    | 'E' :: t => readExponent m t
    | t => m.check t

def readUnsigned (t : Text) : Reading Text :=
  let digits := t.takeWhile isDigit
  let rest := t.dropWhile isDigit
  match digits with
  | [] => if t = [] then failAt .endInValue [] else failPast 1 .badNumber t
  | '0' :: d :: ds => failPast 1 .badNumber (d :: ds ++ rest)
  | _ =>
    let (significand, dropped) := absorb 0 digits
    let m : Magnitude := ⟨significand, dropped⟩
    match rest with
    | '.' :: t => readFraction m t
    | 'e' :: t => readExponent m t
    | 'E' :: t => readExponent m t
    | t => if dropped = 0 then .ok t else m.check t

/-- Reads a number and gives it as it is written. -/
def readNumber (t : Text) : Reading (Text × Text) := do
  let rest ← readUnsigned (if t.head? = some '-' then t.tail else t)
  return (t.take (t.length - rest.length), rest)

end Unalias.Json
