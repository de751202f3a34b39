/-
# Tokens of YAML

The pieces that the text of a document is cut into. Where blocks of lines begin and end is a token
of its own, found from the indentation.
-/

import Fleet.Text.Utf8

namespace Fleet.Yaml

/-- How a scalar was written. -/
inductive Style where
  | plain
  /-- Between quotes. -/
  | quoted
  /-- As a block of lines that are kept. -/
  | literal
  /-- As a block of lines that are joined. -/
  | folded
  deriving DecidableEq, Repr, Inhabited

/-- A piece of the text of a document. -/
inductive Token where
  | streamEnd
  | version (major minor : Nat)
  /-- A handle, and what it stands for at the start of a tag. -/
  | tagHandle (handle : List Char) (start : Bytes)
  | documentStart
  | documentEnd
  | blockSequence
  | blockMapping
  | blockEnd
  | openSequence
  | closeSequence
  | openMapping
  | closeMapping
  /-- A dash before an item. -/
  | dash
  | comma
  | key
  | value
  | alias (name : List Char)
  | anchor (name : List Char)
  | tag (handle : List Char) (suffix : Bytes)
  | scalar (style : Style) (text : List Char)
  deriving DecidableEq, Repr, Inhabited

/-- A line break. -/
def isBreak (c : Char) : Bool :=
  c == '\n' || c == '\r' || c == '\x85' || c == '\u2028' || c == '\u2029'

/-- A space or a tab. -/
def isGap (c : Char) : Bool := c == ' ' || c == '\t'

/-- A space, a tab or a line break. -/
def isGapOrBreak (c : Char) : Bool := isGap c || isBreak c

/-- Whether a text has ended, or goes on with a space, a tab or a line break. -/
def endsWord : List Char → Bool
  | [] => true
  | c :: _ => isGapOrBreak c

/-- A character of a name: an ASCII letter or digit, a dash or an underscore. -/
def isNameChar (c : Char) : Bool :=
  ('0' ≤ c && c ≤ '9') || ('A' ≤ c && c ≤ 'Z') || ('a' ≤ c && c ≤ 'z') || c == '_' || c == '-'

/-- A character that may stand in the text of a document. -/
def isAllowed (c : Char) : Bool :=
  let n := c.toNat
  n == 0x9 || n == 0xA || n == 0xD || (0x20 ≤ n && n ≤ 0x7E) || n == 0x85 ||
    (0xA0 ≤ n && n ≤ 0xD7FF) || (0xE000 ≤ n && n ≤ 0xFFFD) || 0x10000 ≤ n

/-- The byte order mark, which may stand before everything else. -/
def byteOrderMark : Char := '\uFEFF'

/-- A place in the text of a document: what follows, and how far it is from the start. -/
structure Cursor where
  rest : List Char
  /-- Characters before the place. -/
  index : Nat := 0
  /-- Lines before the line of the place. -/
  line : Nat := 0
  /-- Characters before the place on its line. -/
  column : Nat := 0
  deriving Repr, Inhabited

namespace Cursor

/-- The place behind some characters of the same line. -/
def skip (c : Cursor) (n : Nat) : Cursor :=
  { c with rest := c.rest.drop n, index := c.index + n, column := c.column + n }

/-- The characters of the line up to the first one that fails a test, and the place behind them. -/
def span (c : Cursor) (p : Char → Bool) : List Char × Cursor :=
  let taken := c.rest.takeWhile p
  (taken, c.skip taken.length)

/-- The place behind the characters up to the first one that fails a test. -/
def skipWhile (c : Cursor) (p : Char → Bool) : Cursor := (c.span p).2

/-- The place behind a line break, if one follows. A carriage return and a line feed are one. -/
def nextLine (c : Cursor) : Cursor :=
  match c.rest with
  | '\r' :: '\n' :: rest => { rest, index := c.index + 2, line := c.line + 1, column := 0 }
  | b :: rest =>
    if isBreak b then { rest, index := c.index + 1, line := c.line + 1, column := 0 } else c
  | [] => c

/-- The first character of what follows. -/
def head? (c : Cursor) : Option Char := c.rest.head?

/-- Whether a certain character follows. -/
def at? (c : Cursor) (x : Char) : Bool := c.rest.head? == some x

/-- Whether three equal characters and then the end of a word follow at the start of a line: the
marks between documents. -/
def atMark (c : Cursor) (x : Char) : Bool :=
  c.column == 0 && [x, x, x].isPrefixOf c.rest && endsWord (c.rest.drop 3)

/-- Whether a mark between documents follows. -/
def atDocumentMark (c : Cursor) : Bool := c.atMark '-' || c.atMark '.'

/-- The place at the end of the line. -/
def skipLineText (c : Cursor) : Cursor := c.skipWhile fun x => !isBreak x

/-- The place behind the gaps and the comment that may stand at the end of a line. `none` if
something else stands there. -/
def endOfLine? (c : Cursor) : Option Cursor :=
  let c := c.skipWhile isGap
  let c := if c.at? '#' then c.skipLineText else c
  match c.rest with
  | [] => some c
  | b :: _ => if isBreak b then some c.nextLine else none

end Cursor

/-- The breaks of a text that consists of gaps and breaks: line ends of every kind become line
feeds, but the two separators of Unicode stay. -/
def breaks : List Char → List Char
  | [] => []
  | '\r' :: '\n' :: rest => '\n' :: breaks rest
  | c :: rest =>
    if c == '\u2028' || c == '\u2029' then c :: breaks rest
    else if isBreak c then '\n' :: breaks rest
    else breaks rest

/-- What breaks between two words of a scalar become: a single line end becomes a space, and of
several the first is dropped. -/
def folded : List Char → List Char
  | '\n' :: [] => [' ']
  | '\n' :: more => more
  | other => other

end Fleet.Yaml
