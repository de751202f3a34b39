/-
# Scalars of YAML

Reading plain scalars, scalars between quotes, and blocks of lines. Every reader takes the place
where a scalar starts and gives its text and the place behind it; `none` stands for text that is
not well formed.
-/

import Fleet.Text.Digit
import Fleet.Yaml.Token.Basic

namespace Fleet.Yaml

/-- Gaps and breaks between two words, as they were written. -/
structure Between where
  /-- The text if it has no break, else nothing. -/
  gaps : List Char
  /-- Its breaks. -/
  breaks : List Char
  /-- The gaps at the start of each line behind a break. -/
  indents : List (List Char)

/-- The gaps at the start of each line behind a break, in a text of gaps and breaks. -/
def indentsOf : List Char → List (List Char)
  | [] => [[]]
  | '\r' :: '\n' :: rest => [] :: indentsOf rest
  | c :: rest =>
    if isBreak c then [] :: indentsOf rest
    else
      match indentsOf rest with
      | [] => [[c]]
      | first :: more => (c :: first) :: more

/-- The gaps and breaks that follow, and the place behind them. -/
def Cursor.between (c : Cursor) : Between × Cursor :=
  let text := c.rest.takeWhile isGapOrBreak
  let lines := indentsOf text
  let last := (lines.getLast?.getD []).length
  let breaks := breaks text
  let column := if breaks.isEmpty then c.column + last else last
  ({ gaps := if breaks.isEmpty then text else [], breaks, indents := lines.tail },
    { rest := c.rest.dropWhile isGapOrBreak, index := c.index + text.length,
      line := c.line + (lines.length - 1), column })

namespace Plain

/-- A character that ends a plain scalar between brackets. -/
def isBracketOrComma (c : Char) : Bool :=
  c == ',' || c == '[' || c == ']' || c == '\x7b' || c == '\x7d'

/-- How many characters the next run of a plain scalar has. Between brackets a colon may not stand
before a bracket, a comma or a question mark. -/
def run? (nested : Bool) : List Char → Option Nat
  | [] => some 0
  | c :: rest =>
    if isGapOrBreak c then some 0
    else if nested && c == ':' && rest.head?.any fun x => isBracketOrComma x || x == '?' then none
    else if c == ':' && endsWord rest then some 0
    else if nested && isBracketOrComma c then some 0
    else (run? nested rest).map (· + 1)

/-- Whether a tab stands in the indentation of a line. -/
def hasTabIndent (indent : Nat) (b : Between) : Bool :=
  b.indents.any fun gaps => (gaps.take indent).contains '\t'

/-- Read runs and what is between them. `sofar` is the text read, reversed, and `gap` what was found
behind it. The last component tells whether a line break was passed behind the text. -/
def runs? (nested : Bool) (indent : Nat) :
    Nat → Cursor → List Char → Between → Option (List Char × Cursor × Bool)
  | 0, _, _, _ => none
  | fuel + 1, c, sofar, gap =>
    let passed := !gap.breaks.isEmpty
    if c.atDocumentMark || c.at? '#' then some (sofar.reverse, c, passed)
    else do
      let n ← run? nested c.rest
      if n = 0 then some (sofar.reverse, c, passed)
      else
        let joint := if passed then folded gap.breaks else gap.gaps
        let sofar := (c.rest.take n).reverse ++ (joint.reverse ++ sofar)
        let c := c.skip n
        if !c.rest.head?.any isGapOrBreak then some (sofar.reverse, c, false)
        else
          let (gap, c) := c.between
          if hasTabIndent indent gap then none
          else if !nested && c.column < indent then
            some (sofar.reverse, c, !gap.breaks.isEmpty)
          else runs? nested indent fuel c sofar gap

/-- Read a plain scalar whose lines are indented by at least `indent`. The last component tells
whether a line break was passed behind it. -/
def read? (nested : Bool) (indent : Nat) (c : Cursor) : Option (List Char × Cursor × Bool) :=
  runs? nested indent (c.rest.length + 1) c [] ⟨[], [], []⟩

end Plain

namespace Quoted

/-- What one character behind a backslash stands for. -/
def simpleEscapes : List (Char × Char) := [
  ('0', '\x00'), ('a', '\x07'), ('b', '\x08'), ('t', '\t'), ('\t', '\t'), ('n', '\n'),
  ('v', '\x0b'), ('f', '\x0c'), ('r', '\r'), ('e', '\x1b'), (' ', ' '), ('"', '"'), ('/', '/'),
  ('\\', '\\'), ('N', '\x85'), ('_', '\xa0'), ('L', '\u2028'), ('P', '\u2029')]

/-- How many hexadecimal digits follow a letter behind a backslash. -/
def hexEscapes : List (Char × Nat) := [('x', 2), ('u', 4), ('U', 8)]

/-- The value of a hexadecimal digit. -/
def hexValue? (c : Char) : Option Nat :=
  if '0' ≤ c && c ≤ '9' then some (c.toNat - 48)
  else if 'a' ≤ c && c ≤ 'f' then some (c.toNat - 87)
  else if 'A' ≤ c && c ≤ 'F' then some (c.toNat - 55)
  else none

/-- The number that hexadecimal digits write. -/
def hexNumber? (digits : List Char) : Option Nat :=
  digits.foldlM (fun n c => (hexValue? c).map (n * 16 + ·)) 0

/-- The character with a number. -/
def charOf? (n : Nat) : Option Char := if n.isValidChar then some (Char.ofNat n) else none

/-- The character that an escape stands for, and how many characters the escape has behind its
backslash. -/
def escape? : List Char → Option (Char × Nat)
  | [] => none
  | c :: rest =>
    match simpleEscapes.lookup c with
    | some x => some (x, 1)
    | none => do
      let width ← hexEscapes.lookup c
      if rest.length < width then none
      else do
        let x ← charOf? (← hexNumber? (rest.take width))
        some (x, width + 1)

/-- Read the next run of a scalar between quotes: up to a gap, a break, the closing quote or a
backslash at the end of a line. The text is reversed. -/
def run? (quote : Char) : Nat → Cursor → List Char → Option (List Char × Cursor)
  | 0, _, _ => none
  | fuel + 1, c, sofar =>
    match c.rest with
    | [] => some (sofar, c)
    | x :: rest =>
      if isGapOrBreak x then some (sofar, c)
      else if x == quote then
        if quote == '\'' && rest.head? == some '\'' then run? quote fuel (c.skip 2) ('\'' :: sofar)
        else some (sofar, c)
      else if quote == '"' && x == '\\' then
        if rest.head?.any isBreak then some (sofar, c)
        else do
          let (y, width) ← escape? rest
          run? quote fuel (c.skip (width + 1)) (y :: sofar)
      else run? quote fuel (c.skip 1) (x :: sofar)

/-- Read runs and what is between them, up to the closing quote. -/
def runs? (quote : Char) : Nat → Cursor → List Char → Option (List Char × Cursor)
  | 0, _, _ => none
  | fuel + 1, c, sofar =>
    if c.atDocumentMark || c.rest.isEmpty then none
    else do
      let (sofar, c) ← run? quote (c.rest.length + 1) c sofar
      match c.rest with
      | [] => none
      | x :: _ =>
        if x == quote then some (sofar.reverse, c.skip 1)
        else if x == '\\' then
          let (gap, c) := (c.skip 1).nextLine.between
          runs? quote fuel c (gap.breaks.reverse ++ sofar)
        else
          let (gap, c) := c.between
          let joint := if gap.breaks.isEmpty then gap.gaps else folded gap.breaks
          runs? quote fuel c (joint.reverse ++ sofar)

/-- Read a scalar that starts with a quote. -/
def read? (c : Cursor) : Option (List Char × Cursor) := do
  let quote ← c.head?
  runs? quote (c.rest.length + 1) (c.skip 1) []

end Quoted

namespace Block

/-- What becomes of the line breaks at the end of a block. -/
inductive Chomp where
  | strip
  | clip
  | keep
  deriving DecidableEq

/-- The sign for what becomes of the last line breaks. -/
def chomp? : List Char → Option Chomp
  | '+' :: _ => some .keep
  | '-' :: _ => some .strip
  | _ => none

/-- The number of columns that a digit asks for. Zero is an error. -/
def columns? : List Char → Option (Option Nat)
  | c :: _ => if Text.isAsciiDigit c then if c == '0' then none else some (some (c.toNat - 48))
    else some none
  | [] => some none

/-- The signs behind the first character of a block, in either order. -/
def header? (c : Cursor) : Option (Chomp × Option Nat × Cursor) := do
  match chomp? c.rest with
  | some chomp =>
    let c := c.skip 1
    let columns ← columns? c.rest
    some (chomp, columns, if columns.isSome then c.skip 1 else c)
  | none =>
    let columns ← columns? c.rest
    let c := if columns.isSome then c.skip 1 else c
    match chomp? c.rest with
    | some chomp => some (chomp, columns, c.skip 1)
    | none => some (.clip, columns, c)

/-- Pass over indentation and empty lines. `indent` is the indentation of the block if it is known;
`widest` is the widest indentation met so far. -/
def emptyLines? (indent : Option Nat) :
    Nat → Cursor → (found : List Char) → (widest : Nat) → Option (List Char × Nat × Cursor)
  | 0, _, _, _ => none
  | fuel + 1, c, found, widest =>
    let spaces := (c.rest.takeWhile (· == ' ')).length
    let c := c.skip (match indent with
      | none => spaces
      | some n => min spaces (n - c.column))
    let widest := max widest c.column
    let inside := match indent with
      | none => true
      | some n => c.column < n
    if inside && c.at? '\t' then none
    else
      match c.rest with
      | [] => some (found.reverse, widest, c)
      | x :: _ =>
        if isBreak x then
          emptyLines? indent fuel c.nextLine ((breaks (c.rest.take 1)).reverse ++ found) widest
        else some (found.reverse, widest, c)

/-- What a block holds so far. -/
structure Sofar where
  /-- The text, reversed. -/
  text : List Char := []
  /-- The break behind the last line. -/
  ending : List Char := []
  /-- The empty lines behind it. -/
  empty : List Char := []
  /-- Whether the last line started with a gap. -/
  gapFirst : Bool := false

/-- The text with the breaks behind the last line joined to it: between two lines of a folded
block that start with no gap, a single break becomes a space. -/
def Sofar.joint (s : Sofar) (isFolded gapNext : Bool) : List Char :=
  if isFolded && s.ending.head? == some '\n' && !s.gapFirst && !gapNext then
    if s.empty.isEmpty then ' ' :: s.text else s.empty.reverse ++ s.text
  else s.empty.reverse ++ (s.ending.reverse ++ s.text)

/-- Read the lines of a block. -/
def lines? (isFolded : Bool) (indent : Nat) : Nat → Cursor → Sofar → Option (Sofar × Cursor)
  | 0, _, _ => none
  | fuel + 1, c, s =>
    if c.column ≠ indent || c.rest.isEmpty then some (s, c)
    else do
      let gapFirst := c.rest.head?.any isGap
      let text := s.joint isFolded gapFirst
      let (line, c) := c.span fun x => !isBreak x
      let ending := breaks (c.rest.take 1)
      let c := c.nextLine
      let (empty, _, c) ← emptyLines? (some indent) (c.rest.length + 1) c [] 0
      lines? isFolded indent fuel c { text := line.reverse ++ text, ending, empty, gapFirst }

/-- Read a block of lines below an indentation of `parent` columns, if there is one. -/
def read? (isFolded : Bool) (parent : Option Nat) (c : Cursor) : Option (List Char × Cursor) := do
  let (chomp, columns, c) ← header? (c.skip 1)
  let c ← c.endOfLine?
  let asked := columns.map ((parent.getD 0) + ·)
  let (empty, widest, c) ← emptyLines? asked (c.rest.length + 1) c [] 0
  let least := match parent with
    | none => 1
    | some n => n + 1
  let indent := asked.getD (max widest least)
  let (s, c) ← lines? isFolded indent (c.rest.length + 1) c { empty }
  let text := s.text.reverse
  match chomp with
  | .strip => some (text, c)
  | .clip => some (text ++ s.ending, c)
  | .keep => some (text ++ (s.ending ++ s.empty), c)

end Block

end Fleet.Yaml
