/-
# Reading JSON text

A reader for JSON text. Members of an object are kept in the order of the text, repeated names
included. Values nest at most `depthLimit` deep. A decimal is read by scaling its first digits by a
power of ten, which rounds once more than the nearest double would; a number whose scaling leaves
the range of doubles is refused.
-/

import Fleet.Json.Basic
import Fleet.Text.Digit

namespace Fleet.Json

/-- How deep arrays and objects may nest: one less than this many. -/
def depthLimit : Nat := 128

/-- The characters between tokens. -/
def isSpace (c : Char) : Bool := c == ' ' || c == '\n' || c == '\t' || c == '\r'

/-- The text after its leading space. -/
def skipSpace (cs : List Char) : List Char := cs.dropWhile isSpace

/-- The greatest number of 64 bits. -/
def greatestWord : Nat := 0xFFFFFFFFFFFFFFFF

/-- `± significand · 10 ^ exponent`, the power of ten applied as one multiplication or division of
doubles, after divisions by 10³⁰⁸ while the exponent lies below. -/
def scale (fuel : Nat) (f : Float) (exponent : Int) : Option Float :=
  if exponent.natAbs ≤ 308 then
    let power := Float.ofScientific 1 false exponent.natAbs
    if 0 ≤ exponent then
      let product := f * power
      if product.isInf then none else some product
    else some (f / power)
  else if f == 0 then some f
  else if 0 ≤ exponent then none
  else match fuel with
    | 0 => some 0
    | fuel + 1 => scale fuel (f / Float.ofScientific 1 false 308) (exponent + 308)

/-- The double that a significand, an exponent and a sign give. -/
def scaled? (negative : Bool) (significand : Nat) (exponent : Int) : Option Json :=
  (scale 8 significand.toUInt64.toFloat exponent).map fun f =>
    float (if negative then -f else f).toBits

/-- Take digits into a significand while it stays within 64 bits. The results are the significand,
how many digits went in, and the text left. -/
def takeSignificand (significand count : Nat) : List Char → Nat × Nat × List Char
  | [] => (significand, count, [])
  | c :: rest =>
    let next := significand * 10 + (c.toNat - 48)
    if Text.isAsciiDigit c && next ≤ greatestWord then takeSignificand next (count + 1) rest
    else (significand, count, c :: rest)

/-- The exponent part of a number, if there is one, and the value of the whole number. -/
def readExponent (negative : Bool) (significand : Nat) (exponent : Int) (cs : List Char) :
    Option (Json × List Char) :=
  match cs with
  | c :: rest =>
    if c == 'e' || c == 'E' then
      let (below, digits) := match rest with
        | '-' :: tail => (true, tail)
        | '+' :: tail => (false, tail)
        | tail => (false, tail)
      let text := digits.takeWhile Text.isAsciiDigit
      let left := digits.dropWhile Text.isAsciiDigit
      if text.isEmpty then none
      else
        let size := text.dropWhile (· == '0')
        if size.length > 10 || Text.ofDigits size > 0x7FFFFFFF then
          if significand == 0 || below then
            some (float (if negative then (-0.0 : Float) else 0.0).toBits, left)
          else none
        else
          let given := (Text.ofDigits size : Int)
          let final := if below then exponent - given else exponent + given
          (scaled? negative significand final).map (·, left)
    else (scaled? negative significand exponent).map (·, cs)
  | [] => (scaled? negative significand exponent).map (·, [])

/-- The part of a number after its point. Digits that no longer fit the significand are passed
over. -/
def readFraction (negative : Bool) (significand : Nat) (exponent : Int) (cs : List Char) :
    Option (Json × List Char) :=
  let (value, count, rest) := takeSignificand significand 0 cs
  let left := rest.dropWhile Text.isAsciiDigit
  if count == 0 && left.length == cs.length then none
  else readExponent negative value (exponent - count) left

/-- Read the number that starts here, its sign already taken. -/
def readNumber (negative : Bool) (cs : List Char) : Option (Json × List Char) :=
  match cs with
  | [] => none
  | c :: tail =>
    if !Text.isAsciiDigit c then none
    else if c == '0' && tail.head?.any Text.isAsciiDigit then none
    else
      let (significand, _, rest) := takeSignificand 0 0 cs
      let beyond := rest.takeWhile Text.isAsciiDigit
      let left := rest.dropWhile Text.isAsciiDigit
      match left with
      | '.' :: fraction => readFraction negative significand beyond.length fraction
      | 'e' :: _ | 'E' :: _ => readExponent negative significand beyond.length left
      | _ =>
        if !beyond.isEmpty then (scaled? negative significand beyond.length).map (·, left)
        else if !negative then some (int significand, left)
        else if significand == 0 || significand > 0x8000000000000000 then
          some (float (-significand.toUInt64.toFloat).toBits, left)
        else some (int (-(significand : Int)), left)

/-- The value of a hexadecimal digit. -/
def hexValue? (c : Char) : Option Nat :=
  if Text.isAsciiDigit c then some (c.toNat - 48)
  else if 'a' ≤ c && c ≤ 'f' then some (c.toNat - 87)
  else if 'A' ≤ c && c ≤ 'F' then some (c.toNat - 55)
  else none

/-- The number that four hexadecimal digits write. -/
def readHex4 : List Char → Option (Nat × List Char)
  | a :: b :: c :: d :: rest => do
    let n := ((← hexValue? a) * 16 + (← hexValue? b)) * 256 + (← hexValue? c) * 16 + (← hexValue? d)
    some (n, rest)
  | _ => none

/-- The character of an escape whose backslash and `u` are already taken; two escapes make one
character beyond the first plane. -/
def readUnicode (cs : List Char) : Option (Char × List Char) := do
  let (high, rest) ← readHex4 cs
  if 0xDC00 ≤ high && high ≤ 0xDFFF then none
  else if 0xD800 ≤ high && high ≤ 0xDBFF then
    match rest with
    | '\\' :: 'u' :: tail =>
      let (low, rest) ← readHex4 tail
      if 0xDC00 ≤ low && low ≤ 0xDFFF then
        some (Char.ofNat (0x10000 + (high - 0xD800) * 0x400 + (low - 0xDC00)), rest)
      else none
    | _ => none
  else some (Char.ofNat high, rest)

/-- The character that an escape of one letter stands for. -/
def unescape? (c : Char) : Option Char :=
  if c == '"' || c == '\\' || c == '/' then some c
  else if c == 'b' then some '\x08'
  else if c == 'f' then some '\x0c'
  else if c == 'n' then some '\n'
  else if c == 'r' then some '\r'
  else if c == 't' then some '\t'
  else none

/-- Read the rest of a string up to its closing quote. -/
def readString : (fuel : Nat) → List Char → Option (List Char × List Char)
  | 0, _ | _, [] => none
  | fuel + 1, c :: rest =>
    if c == '"' then some ([], rest)
    else if c == '\\' then
      match rest with
      | [] => none
      | 'u' :: tail => do
        let (char, left) ← readUnicode tail
        let (chars, left) ← readString fuel left
        some (char :: chars, left)
      | e :: tail => do
        let char ← unescape? e
        let (chars, left) ← readString fuel tail
        some (char :: chars, left)
    else if c.toNat < 32 then none
    else do
      let (chars, left) ← readString fuel rest
      some (c :: chars, left)

/-- Take a word off the text. -/
def takeWord (word : List Char) (cs : List Char) : Option (List Char) :=
  if word.isPrefixOf cs then some (cs.drop word.length) else none

mutual

/-- Read a value. `depth` counts how many more arrays and objects may open. -/
def readValue : (fuel depth : Nat) → List Char → Option (Json × List Char)
  | 0, _, _ => none
  | fuel + 1, depth, cs =>
    match skipSpace cs with
    | [] => none
    | c :: rest =>
      if c == 'n' then (takeWord "ull".toList rest).map (null, ·)
      else if c == 't' then (takeWord "rue".toList rest).map (bool true, ·)
      else if c == 'f' then (takeWord "alse".toList rest).map (bool false, ·)
      else if c == '"' then
        (readString (rest.length + 1) rest).map fun (s, left) => (str (String.ofList s), left)
      else if c == '-' then readNumber true rest
      else if c == '[' then
        match depth with
        | 0 | 1 => none
        | depth + 1 =>
          match skipSpace rest with
          | ']' :: left => some (arr [], left)
          | rest => (readItems fuel depth rest).map fun (items, left) => (arr items, left)
      else if c == '\x7b' then
        match depth with
        | 0 | 1 => none
        | depth + 1 =>
          match skipSpace rest with
          | '\x7d' :: left => some (obj [], left)
          | rest => (readMembers fuel depth rest).map fun (members, left) => (obj members, left)
      else readNumber false (c :: rest)

/-- Read items up to the closing bracket; at least one stands there. -/
def readItems : (fuel depth : Nat) → List Char → Option (List Json × List Char)
  | 0, _, _ => none
  | fuel + 1, depth, cs => do
    let (item, rest) ← readValue fuel depth cs
    match skipSpace rest with
    | ',' :: rest =>
      let (items, left) ← readItems fuel depth rest
      some (item :: items, left)
    | ']' :: left => some ([item], left)
    | _ => none

/-- Read members up to the closing brace; at least one stands there. -/
def readMembers : (fuel depth : Nat) → List Char → Option (List (String × Json) × List Char)
  | 0, _, _ => none
  | fuel + 1, depth, cs =>
    match skipSpace cs with
    | '"' :: rest => do
      let (name, rest) ← readString (rest.length + 1) rest
      match skipSpace rest with
      | ':' :: rest =>
        let (value, rest) ← readValue fuel depth rest
        match skipSpace rest with
        | ',' :: rest =>
          let (members, left) ← readMembers fuel depth rest
          some ((String.ofList name, value) :: members, left)
        | '\x7d' :: left => some ([(String.ofList name, value)], left)
        | _ => none
      | _ => none
    | _ => none

end

/-- The value that a text writes, members as they stand. -/
def read? (cs : List Char) : Option Json :=
  match readValue (2 * cs.length + 2) depthLimit cs with
  | some (value, rest) => if (skipSpace rest).isEmpty then some value else none
  | none => none

end Fleet.Json
