import Unalias.Text.Basic
import Unalias.Text.CharClass

/-! Blanks are the characters with the Unicode property White_Space. They include the
no-break spaces and leave out the zero width space and the byte order mark. -/
namespace Unalias

def blankRanges : List (Nat × Nat) :=
  [(0x09, 0x0D), (0x20, 0x20), (0x85, 0x85), (0xA0, 0xA0), (0x1680, 0x1680), (0x2000, 0x200A),
   (0x2028, 0x2029), (0x202F, 0x202F), (0x205F, 0x205F), (0x3000, 0x3000)]

def isBlank (c : Char) : Bool := within blankRanges c

namespace Text

def trim (t : Text) : Text := ((t.dropWhile isBlank).reverse.dropWhile isBlank).reverse

end Text
end Unalias
