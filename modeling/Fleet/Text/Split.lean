/-
# Splitting and joining

Texts cut at separators and put together again. `join_splitOn` says that splitting at a character
loses nothing but the separators.
-/

import Fleet.Text.Blank

namespace Fleet.Text

/-- Put a character before the first part. -/
def consFirst (c : Char) : List (List Char) → List (List Char)
  | [] => [[c]]
  | part :: rest => (c :: part) :: rest

/-- The parts between the occurrences of a separator; one more part than separators. -/
def splitOn (separator : Char) : List Char → List (List Char)
  | [] => [[]]
  | c :: rest =>
    if c = separator then [] :: splitOn separator rest else consFirst c (splitOn separator rest)

/-- The parts between blanks, empty ones among them. -/
def splitBlanks : List Char → List (List Char)
  | [] => [[]]
  | c :: rest => if isBlank c then [] :: splitBlanks rest else consFirst c (splitBlanks rest)

/-- The words between blanks. -/
def words (cs : List Char) : List (List Char) := (splitBlanks cs).filter fun w => !w.isEmpty

/-- The parts with a separator between each two. -/
def join (separator : List Char) : List (List Char) → List Char
  | [] => []
  | [part] => part
  | part :: rest => part ++ separator ++ join separator rest

theorem splitOn_ne_nil (separator : Char) (cs : List Char) : splitOn separator cs ≠ [] := by
  cases cs with
  | nil => simp [splitOn]
  | cons c rest =>
    unfold splitOn
    split
    · simp
    · cases splitOn separator rest <;> simp [consFirst]

theorem join_splitOn (separator : Char) (cs : List Char) :
    join [separator] (splitOn separator cs) = cs := by
  induction cs with
  | nil => rfl
  | cons c rest ih =>
    have parts := splitOn_ne_nil separator rest
    unfold splitOn
    split
    · next same =>
      cases h : splitOn separator rest with
      | nil => exact absurd h parts
      | cons p ps => rw [h] at ih; simp [join, ih, same]
    · cases h : splitOn separator rest with
      | nil => exact absurd h parts
      | cons p ps =>
        rw [h] at ih
        cases ps with
        | nil => simpa [consFirst, join] using ih
        | cons q qs => simpa [consFirst, join] using ih

/-- What stands before and behind the first occurrence of a character. -/
def cutFirst? (separator : Char) (cs : List Char) : Option (List Char × List Char) :=
  match cs.dropWhile (· ≠ separator) with
  | [] => none
  | _ :: rest => some (cs.takeWhile (· ≠ separator), rest)

/-- What stands before and behind the last occurrence of a character. -/
def cutLast? (separator : Char) (cs : List Char) : Option (List Char × List Char) :=
  (cutFirst? separator cs.reverse).map fun (behind, before) => (before.reverse, behind.reverse)

/-- The text without one carriage return at its end. -/
def dropReturn (cs : List Char) : List Char :=
  if cs.getLast? = some '\r' then cs.dropLast else cs

/-- The lines of a text: a line feed ends a line and takes a carriage return before it along. No
line stands behind the last line feed. -/
def lines (cs : List Char) : List (List Char) :=
  let parts := splitOn '\n' cs
  let ended := parts.dropLast.map dropReturn
  match parts.getLast? with
  | none | some [] => ended
  | some last => ended ++ [last]

/-- Strings with a separator between each two. -/
def joined (separator : String) (parts : List String) : String :=
  String.ofList (join separator.toList (parts.map String.toList))

/-- Whether a text starts with another. -/
def startsWith (start s : String) : Bool := start.toList.isPrefixOf s.toList

/-- Whether a text has another one in it. -/
def hasPart (part : List Char) : List Char → Bool
  | [] => part.isEmpty
  | c :: rest => part.isPrefixOf (c :: rest) || hasPart part rest

/-- Whether a text ends with another one. -/
def endsWith (ending cs : List Char) : Bool := ending.reverse.isPrefixOf cs.reverse

end Fleet.Text
