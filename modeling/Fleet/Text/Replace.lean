/-
# Replacing text

Occurrences are replaced from left to right and do not overlap. An empty pattern occurs before each
character and at the end.
-/

namespace Fleet.Text

/-- Replace the occurrences of a pattern that is not empty; `skip` characters belong to the
occurrence that was replaced last. -/
def replaceFrom (pattern image : List Char) : (skip : Nat) → List Char → List Char
  | _, [] => []
  | skip + 1, _ :: rest => replaceFrom pattern image skip rest
  | 0, c :: rest =>
    if pattern.isPrefixOf (c :: rest) then
      image ++ replaceFrom pattern image (pattern.length - 1) rest
    else c :: replaceFrom pattern image 0 rest

/-- The text with every occurrence of a pattern replaced. -/
def replace (pattern image cs : List Char) : List Char :=
  if pattern.isEmpty then image ++ cs.flatMap fun c => c :: image
  else replaceFrom pattern image 0 cs

end Fleet.Text
