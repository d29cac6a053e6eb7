/-!
Replacing every occurrence of a text inside another one.
-/

namespace BeanContainer.Text

/-- Replaces the occurrences of a pattern that is not empty, from left to right and without
overlap. `skip` counts the characters that still belong to the last occurrence. -/
def replaceFrom (pattern new : List Char) : Nat → List Char → List Char
  | _, [] => []
  | skip + 1, _ :: rest => replaceFrom pattern new skip rest
  | 0, c :: rest =>
    if pattern.isPrefixOf (c :: rest) then new ++ replaceFrom pattern new (pattern.length - 1) rest
    else c :: replaceFrom pattern new 0 rest

/-- Replaces all occurrences of `pattern` by `new`. The empty text occurs before every character
and at the end. -/
def replaceAll (s pattern new : String) : String :=
  if pattern.isEmpty then
    String.ofList (s.toList.foldr (fun c rest => new.toList ++ c :: rest) new.toList)
  else String.ofList (replaceFrom pattern.toList new.toList 0 s.toList)

end BeanContainer.Text
