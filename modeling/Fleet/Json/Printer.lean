/-
# JSON text

Writing values: compactly, as records and filters need them, and spread over lines. Strings escape
quotes, backslashes and control characters and nothing else, so a written value holds no line
break.
-/

import Fleet.Json.Basic
import Fleet.Decimal.Format
import Fleet.Text.Split

namespace Fleet.Json

/-- A hexadecimal digit in lower case. -/
def hexDigit (n : Nat) : Char := if n < 10 then Char.ofNat (48 + n) else Char.ofNat (87 + n)

/-- The characters that stand for one character between quotes. -/
def escape (c : Char) : List Char :=
  if c == '"' then ['\\', '"']
  else if c == '\\' then ['\\', '\\']
  else if c == '\n' then ['\\', 'n']
  else if c == '\r' then ['\\', 'r']
  else if c == '\t' then ['\\', 't']
  else if c == '\x08' then ['\\', 'b']
  else if c == '\x0c' then ['\\', 'f']
  else if c.toNat < 32 then
    ['\\', 'u', '0', '0', hexDigit (c.toNat / 16), hexDigit (c.toNat % 16)]
  else [c]

/-- A string between quotes. -/
def quoteChars (s : List Char) : List Char := '"' :: (s.flatMap escape ++ ['"'])

/-- The text of a number; a double that is not finite is written as null. -/
def numberText (bits : UInt64) : List Char :=
  ((Decimal.jsonLayout.writeBits? bits).getD "null").toList

mutual

/-- The compact text of a value. -/
def printChars : Json → List Char
  | null => "null".toList
  | bool true => "true".toList
  | bool false => "false".toList
  | int n => (toString n).toList
  | float bits => numberText bits
  | str s => quoteChars s.toList
  | arr items => '[' :: (Text.join [','] (printItems items) ++ [']'])
  | obj members => '\x7b' :: (Text.join [','] (printMembers members) ++ ['\x7d'])

/-- The compact texts of the items of an array. -/
def printItems : List Json → List (List Char)
  | [] => []
  | item :: rest => item.printChars :: printItems rest

/-- The compact texts of the members of an object. -/
def printMembers : List (String × Json) → List (List Char)
  | [] => []
  | (name, value) :: rest =>
    (quoteChars name.toList ++ ':' :: value.printChars) :: printMembers rest

end

/-- The compact text of a value. -/
def print (j : Json) : String := String.ofList j.printChars

/-- `depth` levels of indentation, two spaces each. -/
def indent (depth : Nat) : List Char := List.replicate (2 * depth) ' '

/-- A bracketed list of parts, each on a line of its own. -/
def spread (depth : Nat) (opening closing : Char) (parts : List (List Char)) : List Char :=
  if parts.isEmpty then [opening, closing]
  else
    opening :: '\n' ::
      (Text.join [',', '\n'] (parts.map (indent (depth + 1) ++ ·)) ++ '\n' ::
        (indent depth ++ [closing]))

mutual

/-- The text of a value with each item and member on a line of its own. -/
def prettyChars (depth : Nat) : Json → List Char
  | arr items => spread depth '[' ']' (prettyItems (depth + 1) items)
  | obj members => spread depth '\x7b' '\x7d' (prettyMembers (depth + 1) members)
  | null => "null".toList
  | bool true => "true".toList
  | bool false => "false".toList
  | int n => (toString n).toList
  | float bits => numberText bits
  | str s => quoteChars s.toList

/-- The indented texts of the items of an array. -/
def prettyItems (depth : Nat) : List Json → List (List Char)
  | [] => []
  | item :: rest => item.prettyChars depth :: prettyItems depth rest

/-- The indented texts of the members of an object. -/
def prettyMembers (depth : Nat) : List (String × Json) → List (List Char)
  | [] => []
  | (name, value) :: rest =>
    (quoteChars name.toList ++ ':' :: ' ' :: value.prettyChars depth) :: prettyMembers depth rest

end

/-- The text of a value spread over lines. -/
def pretty (j : Json) : String := String.ofList (j.prettyChars 0)

end Fleet.Json
