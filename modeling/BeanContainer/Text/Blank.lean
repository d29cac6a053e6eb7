/-!
Blank names. A name is blank when nothing is left of it after the white space
at its ends is cut off, which is to say when every character of it is white
space in the sense of Unicode's White_Space property.
-/

namespace BeanContainer.Text

/-- The characters with Unicode's White_Space property. -/
def isWhiteSpace (c : Char) : Bool :=
  let n := c.toNat
  (0x09 ≤ n && n ≤ 0x0D) || n = 0x20 || n = 0x85 || n = 0xA0 || n = 0x1680 ||
  (0x2000 ≤ n && n ≤ 0x200A) || n = 0x2028 || n = 0x2029 || n = 0x202F || n = 0x205F || n = 0x3000

/-- Whether a text is empty or holds white space alone. -/
def isBlank (s : String) : Bool := s.toList.all isWhiteSpace

/-- What remains of a text when the white space at both ends is cut off. -/
def trim (s : String) : String :=
  String.ofList (((s.toList.dropWhile isWhiteSpace).reverse.dropWhile isWhiteSpace).reverse)

end BeanContainer.Text
