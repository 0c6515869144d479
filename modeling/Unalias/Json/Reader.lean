import Unalias.Json.Number
import Unalias.Json.Quoted
import Unalias.Json.Value

/-! JSON read from text. Lists and objects may be nested up to a fixed number of levels. -/
namespace Unalias.Json

def isSpace (c : Char) : Bool := c = ' ' || c = '\t' || c = '\n' || c = '\r'

def skipSpace (t : Text) : Text := t.dropWhile isSpace

def readWord (v : Value) : Text → Text → Reading (Value × Text)
  | [], t => .ok (v, t)
  | _ :: _, [] => failAt .endInValue []
  | w :: ws, c :: t => if c = w then readWord v ws t else failPast 1 .expectedWord (c :: t)

/-- Reads the items of a list after the first item, through the closing bracket. -/
def readMoreItems (item : Text → Reading (Value × Text)) :
    Nat → Text → Reading (List Value × Text)
  | 0, _ => failAt .endInList []
  | n + 1, t => match skipSpace t with
    | [] => failAt .endInList []
    | ']' :: t => .ok ([], t)
    | ',' :: t => match skipSpace t with
      | [] => failAt .endInValue []
      | ']' :: t => failPast 1 .closingComma (']' :: t)
      | t => do
        let (v, t) ← item t
        let (vs, t) ← readMoreItems item n t
        return (v :: vs, t)
    | t => failPast 1 .expectedListEnd t

def readItems (item : Text → Reading (Value × Text)) (t : Text) :
    Reading (List Value × Text) :=
  match skipSpace t with
  | [] => failAt .endInList []
  | ']' :: t => .ok ([], t)
  | t => do
    let (v, t) ← item t
    let (vs, t) ← readMoreItems item (t.length + 1) t
    return (v :: vs, t)

def readMember (item : Text → Reading (Value × Text)) (t : Text) :
    Reading ((Text × Value) × Text) := do
  let (name, t) ← readQuoted t
  match skipSpace t with
  | [] => failAt .endInObject []
  | ':' :: t =>
    let (v, t) ← item t
    return ((name, v), t)
  | t => failPast 1 .expectedColon t

/-- Reads the members of an object after the first member, through the closing brace. -/
def readMoreMembers (item : Text → Reading (Value × Text)) :
    Nat → Text → Reading (List (Text × Value) × Text)
  | 0, _ => failAt .endInObject []
  | n + 1, t => match skipSpace t with
    | [] => failAt .endInObject []
    | '\x7d' :: t => .ok ([], t)
    | ',' :: t => match skipSpace t with
      | [] => failAt .endInValue []
      | '"' :: t => do
        let (m, t) ← readMember item t
        let (ms, t) ← readMoreMembers item n t
        return (m :: ms, t)
      | '\x7d' :: t => failPast 1 .closingComma ('\x7d' :: t)
      | t => failPast 1 .expectedKey t
    | t => failPast 1 .expectedObjectEnd t

def readMembers (item : Text → Reading (Value × Text)) (t : Text) :
    Reading (List (Text × Value) × Text) :=
  match skipSpace t with
  | [] => failAt .endInObject []
  | '\x7d' :: t => .ok ([], t)
  | '"' :: t => do
    let (m, t) ← readMember item t
    let (ms, t) ← readMoreMembers item (t.length + 1) t
    return (m :: ms, t)
  | t => failPast 1 .expectedKey t

/-- Reads a value, given how to read the values nested in it, if any may be. -/
def readWith (inner? : Option (Text → Reading (Value × Text))) (t : Text) :
    Reading (Value × Text) :=
  match skipSpace t with
  | [] => failAt .endInValue []
  | 'n' :: t => readWord .null ['u', 'l', 'l'] t
  | 't' :: t => readWord (.bool true) ['r', 'u', 'e'] t
  | 'f' :: t => readWord (.bool false) ['a', 'l', 's', 'e'] t
  | '"' :: t => do
    let (s, t) ← readQuoted t
    return (.string s, t)
  | '[' :: t => match inner? with
    | none => failPast 1 .tooDeep ('[' :: t)
    | some item => do
      let (vs, t) ← readItems item t
      return (.array vs, t)
  | '\x7b' :: t => match inner? with
    | none => failPast 1 .tooDeep ('\x7b' :: t)
    | some item => do
      let (ms, t) ← readMembers item t
      return (.object (fieldsOf ms), t)
  | c :: t =>
    if c = '-' ∨ isDigit c then do
      let (literal, t) ← readNumber (c :: t)
      return (.number literal, t)
    else failPast 1 .expectedValue (c :: t)

/-- Reads a value with at most so many levels of lists and objects. -/
def readValue : Nat → Text → Reading (Value × Text)
  | 0 => readWith none
  | levels + 1 => readWith (some (readValue levels))

def maxLevels : Nat := 127

def readDocument (t : Text) : Reading Value := do
  let (v, rest) ← readValue maxLevels t
  match skipSpace rest with
  | [] => return v
  | rest => failPast 1 .trailing rest

/-- The value that a text writes, or what is wrong with the text. -/
def Value.ofText (t : Text) : Except Problem Value :=
  (readDocument t).mapError fun f => ⟨f.reason, f.position t⟩

end Unalias.Json
