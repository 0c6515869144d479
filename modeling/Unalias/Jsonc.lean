import Unalias.Text.Blank

/-! JSON with comments and closing commas, brought down to plain JSON. Strings are told from
the rest by their unescaped quotes, and nothing inside a string is touched. -/
namespace Unalias.Jsonc

/-- Where a character stands: outside strings, in one, or after a backslash in one. -/
inductive Mode
  | code
  | quoted
  | escaped
deriving DecidableEq

namespace Mode

def next : Mode → Char → Mode
  | .code, c => if c = '"' then .quoted else .code
  | .quoted, c => if c = '"' then .code else if c = '\\' then .escaped else .quoted
  | .escaped, _ => .quoted

end Mode

/-- Text that is kept, a comment to the end of the line, or a comment between stars, in which a
star has just been seen or not. -/
inductive Region
  | kept (mode : Mode)
  | line
  | block (star : Bool)
deriving DecidableEq

/-- Leaves out the comments. The newline after a line comment stays. The star that opens a block
comment does not close it. -/
def withoutCommentsFrom : Region → Text → Text
  | _, [] => []
  | .kept .code, '/' :: '/' :: t => withoutCommentsFrom .line t
  | .kept .code, '/' :: '*' :: t => withoutCommentsFrom (.block false) t
  | .kept mode, c :: t => c :: withoutCommentsFrom (.kept (mode.next c)) t
  | .line, c :: t =>
    if c = '\n' then c :: withoutCommentsFrom (.kept .code) t else withoutCommentsFrom .line t
  | .block star, c :: t =>
    if star ∧ c = '/' then withoutCommentsFrom (.kept .code) t
    else withoutCommentsFrom (.block (c = '*')) t

def withoutComments (t : Text) : Text := withoutCommentsFrom (.kept .code) t

def closes (t : Text) : Bool :=
  (t.find? (!isBlank ·)).any fun c => c = '\x7d' || c = ']'

def withoutClosingCommasFrom : Mode → Text → Text
  | _, [] => []
  | mode, c :: t =>
    if mode = .code ∧ c = ',' ∧ closes t then withoutClosingCommasFrom mode t
    else c :: withoutClosingCommasFrom (mode.next c) t

def withoutClosingCommas (t : Text) : Text := withoutClosingCommasFrom .code t

def plain (t : Text) : Text := withoutClosingCommas (withoutComments t)

end Unalias.Jsonc
