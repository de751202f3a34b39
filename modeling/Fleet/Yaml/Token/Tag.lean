/-
# Tags, names and directives of YAML

The tokens that stand before a scalar or a collection, and the lines that stand before a document.
-/

import Fleet.Text.Digit
import Fleet.Yaml.Token.Scalar

namespace Fleet.Yaml

/-- Read the name behind an anchor or an alias sign. -/
def readName? (c : Cursor) : Option (List Char × Cursor) :=
  let (name, c) := (c.skip 1).span isNameChar
  if name.isEmpty then none
  else if endsWord c.rest || c.rest.head?.any "?:,]\x7d%@\x60".toList.contains then some (name, c)
  else none

namespace Tag

/-- A character that may stand in a tag; between angle brackets there are three more. -/
def isUriChar (verbatim : Bool) (c : Char) : Bool :=
  isNameChar c || ";/?:@&=+$.%!~*'()".toList.contains c || (verbatim && ",[]".toList.contains c)

/-- An octet written as a percent sign and two hexadecimal digits, and what follows. -/
def octet? : List Char → Option (Nat × List Char)
  | '%' :: a :: b :: rest => do some ((← Quoted.hexValue? a) * 16 + (← Quoted.hexValue? b), rest)
  | _ => none

/-- How many octets a character has that starts with one. -/
def octetCount? (first : Nat) : Option Nat :=
  if first < 0x80 then some 1
  else if first / 0x20 = 0x6 then some 2
  else if first / 0x10 = 0xE then some 3
  else if first / 0x08 = 0x1E then some 4
  else none

/-- The octets of the rest of a character. -/
def moreOctets? : Nat → List Char → Option Bytes
  | 0, _ => some []
  | n + 1, cs => do
    let (o, rest) ← octet? cs
    if o / 0x40 = 2 then (moreOctets? n rest).map (o.toUInt8 :: ·) else none

/-- The octets of the character that a percent sign starts. -/
def octets? (cs : List Char) : Option Bytes := do
  let (first, rest) ← octet? cs
  let count ← octetCount? first
  (moreOctets? (count - 1) rest).map (first.toUInt8 :: ·)

/-- Read the characters of a tag up to the first one that may not stand in it. -/
def uri? (verbatim : Bool) : Nat → Cursor → Option (Bytes × Cursor)
  | 0, _ => none
  | fuel + 1, c =>
    match c.rest with
    | [] => some ([], c)
    | x :: _ =>
      if !isUriChar verbatim x then some ([], c)
      else if x == '%' then do
        let octets ← octets? c.rest
        let (more, c) ← uri? verbatim fuel (c.skip (3 * octets.length))
        some (octets ++ more, c)
      else do
        let (more, c) ← uri? verbatim fuel (c.skip 1)
        some (Text.Utf8.encode [x] ++ more, c)

/-- Read the characters of a tag. -/
def readUri? (verbatim : Bool) (c : Cursor) : Option (Bytes × Cursor) :=
  uri? verbatim (c.rest.length + 1) c

/-- Read characters of a tag, at least one. -/
def readSomeUri? (verbatim : Bool) (c : Cursor) : Option (Bytes × Cursor) :=
  (readUri? verbatim c).filter fun r => !r.1.isEmpty

/-- Read a handle: a name between exclamation marks, or what could be the start of one. -/
def readHandle? (c : Cursor) : Option (List Char × Cursor) :=
  if c.at? '!' then
    let (name, c) := (c.skip 1).span isNameChar
    if c.at? '!' then some ('!' :: (name ++ ['!']), c.skip 1) else some ('!' :: name, c)
  else none

/-- Whether a text is a handle with both its marks. -/
def isHandle (handle : List Char) : Bool := 2 ≤ handle.length && handle.getLast? == some '!'

/-- The token of a tag, whatever follows it. -/
def token? (c : Cursor) : Option (Token × Cursor) :=
  if c.rest[1]? == some '<' then do
    let (suffix, c) ← readSomeUri? true (c.skip 2)
    if c.at? '>' then some (.tag [] suffix, c.skip 1) else none
  else do
    let (handle, c) ← readHandle? c
    if isHandle handle then
      let (suffix, c) ← readSomeUri? false c
      some (.tag handle suffix, c)
    else
      let (suffix, c) ← readUri? false c
      let suffix := Text.Utf8.encode handle.tail ++ suffix
      if suffix.isEmpty then some (.tag [] (Text.Utf8.encode ['!']), c)
      else some (.tag ['!'] suffix, c)

/-- Read a tag. -/
def read? (nested : Bool) (c : Cursor) : Option (Token × Cursor) :=
  (token? c).filter fun (_, c) => endsWord c.rest || (nested && c.at? ',')

end Tag

namespace Directive

/-- Read a part of a version: one to nine digits. -/
def number? (c : Cursor) : Option (Nat × Cursor) :=
  let (digits, c) := c.span Text.isAsciiDigit
  if digits.isEmpty || 9 < digits.length then none else some (Text.ofDigits digits, c)

/-- Read the version of a document. -/
def version? (c : Cursor) : Option (Token × Cursor) := do
  let (major, c) ← number? (c.skipWhile isGap)
  if c.at? '.' then
    let (minor, c) ← number? (c.skip 1)
    some (.version major minor, c)
  else none

/-- Read a handle and what it stands for. -/
def tagHandle? (c : Cursor) : Option (Token × Cursor) := do
  let (handle, c) ← Tag.readHandle? (c.skipWhile isGap)
  if !(Tag.isHandle handle || handle.length = 1) || !c.rest.head?.any isGap then none
  else
    let (start, c) ← Tag.readSomeUri? true (c.skipWhile isGap)
    if endsWord c.rest then some (.tagHandle handle start, c) else none

/-- Read a line that starts with a percent sign. -/
def read? (c : Cursor) : Option (Token × Cursor) := do
  let (name, c) := (c.skip 1).span isNameChar
  if name.isEmpty || !endsWord c.rest then none
  else
    let (token, c) ←
      if name = "YAML".toList then version? c
      else if name = "TAG".toList then tagHandle? c
      else none
    some (token, ← c.endOfLine?)

end Directive

end Fleet.Yaml
