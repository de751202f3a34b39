/-
# Cutting a document into tokens

A block begins where a line is indented more than the block around it, and ends where a line is
indented less. A key is known only once its colon is met, so the place of each token that could
start a key is kept, and the tokens of the key are put in there. Such a token must stand on the
line of its colon and not far before it.
-/

import Fleet.Yaml.Token.Tag

namespace Fleet.Yaml

/-- A token that could start a key. -/
structure KeyStart where
  /-- The token must be a key, or the text is not well formed. -/
  required : Bool
  /-- How many tokens stand before it. -/
  position : Nat
  index : Nat
  line : Nat
  column : Nat
  deriving Repr, Inhabited

/-- What is known while a text is cut into tokens. -/
structure Scanner where
  cursor : Cursor
  tokens : Array Token := #[]
  /-- The column of the innermost block. -/
  indent : Option Nat := none
  /-- The columns of the blocks around it, the innermost first. -/
  indents : List (Option Nat) := []
  /-- For each bracket that is open, and for the text outside of all, what could start a key. -/
  keys : List (Option KeyStart) := [none]
  /-- How many brackets are open. -/
  nesting : Nat := 0
  /-- Whether a key may start here. -/
  keyAllowed : Bool := true
  finished : Bool := false

namespace Scanner

/-- Whether a bracket is open. -/
def isNested (s : Scanner) : Bool := s.nesting ≠ 0

/-- Add a token. -/
def emit (s : Scanner) (t : Token) : Scanner := { s with tokens := s.tokens.push t }

/-- Add a token before others that are there already. -/
def emitAt (s : Scanner) (position : Nat) (t : Token) : Scanner :=
  { s with tokens := s.tokens.insertIdxIfInBounds position t }

/-- How far a key may reach. -/
def keyReach : Nat := 1024

/-- Whether one column lies behind another; outside of every block there is none. -/
def isDeeper : Option Nat → Option Nat → Bool
  | some a, some b => b < a
  | some _, none => true
  | none, _ => false

/-- Pass over gaps, comments and line breaks. -/
def toToken : Nat → Scanner → Scanner
  | 0, s => s
  | fuel + 1, s =>
    let c := s.cursor
    let c := if c.index = 0 && c.at? byteOrderMark then c.skip 1 else c
    let c := c.skipWhile fun x => x == ' ' || ((s.isNested || !s.keyAllowed) && x == '\t')
    let c := if c.at? '#' then c.skipLineText else c
    if c.rest.head?.any isBreak then
      toToken fuel { s with cursor := c.nextLine, keyAllowed := s.keyAllowed || !s.isNested }
    else { s with cursor := c }

/-- Forget the key starts that are too far back. `none` if one of them had to be a key. -/
def dropStale? (s : Scanner) : Option Scanner := do
  let c := s.cursor
  let keys ← s.keys.mapM fun
    | none => some none
    | some k =>
      if k.line < c.line || k.index + keyReach < c.index then
        if k.required then none else some none
      else some (some k)
  some { s with keys }

/-- Close the blocks that lie deeper than a column. -/
def closeDeeper (column : Option Nat) : List (Option Nat) → Scanner → Scanner
  | [], s => s
  | outer :: rest, s =>
    if isDeeper s.indent column then
      closeDeeper column rest { s.emit .blockEnd with indent := outer, indents := rest }
    else s

/-- Close the blocks that a line at a column ends. Between brackets there are none. -/
def unroll (s : Scanner) (column : Option Nat) : Scanner :=
  if s.isNested then s else closeDeeper column s.indents s

/-- Open a block at a column if it lies deeper than the innermost one. -/
def roll (s : Scanner) (column position : Nat) (t : Token) : Scanner :=
  if !s.isNested && isDeeper (some column) s.indent then
    { s.emitAt position t with indent := some column, indents := s.indent :: s.indents }
  else s

/-- Forget the key start of the innermost bracket. `none` if it had to be a key. -/
def dropKey? (s : Scanner) : Option Scanner :=
  match s.keys with
  | [] => some s
  | none :: _ => some s
  | some k :: rest => if k.required then none else some { s with keys := none :: rest }

/-- Keep the next token as a key start, if a key may start here. -/
def saveKey? (s : Scanner) : Option Scanner :=
  if !s.keyAllowed then some s
  else do
    let s ← s.dropKey?
    let c := s.cursor
    let k : KeyStart := {
      required := !s.isNested && s.indent == some c.column
      position := s.tokens.size, index := c.index, line := c.line, column := c.column }
    some { s with keys := some k :: s.keys.tail }

/-- Add a token that is some characters long. -/
def sign (s : Scanner) (length : Nat) (t : Token) : Scanner :=
  { s.emit t with cursor := s.cursor.skip length }

/-- Add a token that was read. -/
def took (s : Scanner) (t : Token) (c : Cursor) : Scanner := { s.emit t with cursor := c }

/-- The end of the text, which closes every block. -/
def streamEnd? (s : Scanner) : Option Scanner := do
  let s ← (s.unroll none).dropKey?
  some { s.emit .streamEnd with keyAllowed := false, finished := true }

/-- A line before a document. -/
def directive? (s : Scanner) : Option Scanner := do
  let s ← (s.unroll none).dropKey?
  let (t, c) ← Directive.read? s.cursor
  some { s.took t c with keyAllowed := false }

/-- A mark between documents. -/
def documentMark? (s : Scanner) (t : Token) : Option Scanner := do
  let s ← (s.unroll none).dropKey?
  some { s.sign 3 t with keyAllowed := false }

/-- An opening bracket. -/
def opening? (s : Scanner) (t : Token) : Option Scanner := do
  let s ← s.saveKey?
  some { s.sign 1 t with keys := none :: s.keys, nesting := s.nesting + 1, keyAllowed := true }

/-- A closing bracket. -/
def closing? (s : Scanner) (t : Token) : Option Scanner := do
  let s ← s.dropKey?
  let keys := if s.isNested then s.keys.tail else s.keys
  some { s.sign 1 t with keys, nesting := s.nesting - 1, keyAllowed := false }

/-- A comma between brackets. -/
def comma? (s : Scanner) : Option Scanner := do
  let s ← s.dropKey?
  some { s.sign 1 .comma with keyAllowed := true }

/-- Open a block for an item, a key or a value that stands outside of brackets. -/
def enter? (s : Scanner) (t : Token) : Option Scanner :=
  if s.isNested then some s
  else if s.keyAllowed then some (s.roll s.cursor.column s.tokens.size t)
  else none

/-- A dash before an item. -/
def dash? (s : Scanner) : Option Scanner := do
  let s ← (← s.enter? .blockSequence).dropKey?
  some { s.sign 1 .dash with keyAllowed := true }

/-- A question mark before a key. -/
def key? (s : Scanner) : Option Scanner := do
  let s ← (← s.enter? .blockMapping).dropKey?
  some { s.sign 1 .key with keyAllowed := !s.isNested }

/-- A colon before a value. -/
def value? (s : Scanner) : Option Scanner := do
  match s.keys.head?.join with
  | some k =>
    let s := (s.emitAt k.position .key).roll k.column k.position .blockMapping
    some { s.sign 1 .value with keys := none :: s.keys.tail, keyAllowed := false }
  | none =>
    let s ← s.enter? .blockMapping
    some { s.sign 1 .value with keyAllowed := !s.isNested }

/-- A token that could start a key, read by some reader. -/
def keyToken? (s : Scanner) (read : Cursor → Option (Token × Cursor)) : Option Scanner := do
  let s ← s.saveKey?
  let (t, c) ← read s.cursor
  some { s.took t c with keyAllowed := false }

/-- A block of lines. -/
def block? (s : Scanner) (isFolded : Bool) : Option Scanner := do
  let s ← s.dropKey?
  let (text, c) ← Block.read? isFolded s.indent s.cursor
  some { s.took (.scalar (if isFolded then .folded else .literal) text) c with keyAllowed := true }

/-- A plain scalar. -/
def plain? (s : Scanner) : Option Scanner := do
  let s ← s.saveKey?
  let indent := match s.indent with
    | none => 0
    | some n => n + 1
  let (text, c, passed) ← Plain.read? s.isNested indent s.cursor
  some { s.took (.scalar .plain text) c with keyAllowed := passed }

/-- A character that has a meaning of its own and so starts no plain scalar. -/
def isIndicator (c : Char) : Bool := "-?:,[]\x7b\x7d#&*!|>'\"%@\x60".toList.contains c

/-- Whether a plain scalar can start with a text. -/
def startsPlain (nested : Bool) : List Char → Bool
  | [] => false
  | c :: rest =>
    (!isGapOrBreak c && !isIndicator c) || (c == '-' && !rest.head?.any isGap) ||
      (!nested && (c == '?' || c == ':') && !endsWord rest)

/-- Find the next token and add it. -/
def next? (s : Scanner) : Option Scanner := do
  let s ← (s.toToken (s.cursor.rest.length + 1)).dropStale?
  let c := s.cursor
  let s := s.unroll (some c.column)
  match c.rest with
  | [] => s.streamEnd?
  | x :: rest =>
    if c.column = 0 && x == '%' then s.directive?
    else if c.atMark '-' then s.documentMark? .documentStart
    else if c.atMark '.' then s.documentMark? .documentEnd
    else if x == '[' then s.opening? .openSequence
    else if x == '\x7b' then s.opening? .openMapping
    else if x == ']' then s.closing? .closeSequence
    else if x == '\x7d' then s.closing? .closeMapping
    else if x == ',' then s.comma?
    else if x == '-' && endsWord rest then s.dash?
    else if x == '?' && (s.isNested || endsWord rest) then s.key?
    else if x == ':' && (s.isNested || endsWord rest) then s.value?
    else if x == '*' then s.keyToken? fun c => (readName? c).map fun (n, c) => (.alias n, c)
    else if x == '&' then s.keyToken? fun c => (readName? c).map fun (n, c) => (.anchor n, c)
    else if x == '!' then s.keyToken? (Tag.read? s.isNested)
    else if x == '|' && !s.isNested then s.block? false
    else if x == '>' && !s.isNested then s.block? true
    else if x == '\'' || x == '"' then
      s.keyToken? fun c => (Quoted.read? c).map fun (t, c) => (.scalar .quoted t, c)
    else if startsPlain s.isNested c.rest then s.plain?
    else none

/-- Find tokens to the end of the text. -/
def run? : Nat → Scanner → Option (Array Token)
  | 0, _ => none
  | fuel + 1, s => do
    let s ← s.next?
    if s.finished then some s.tokens else run? fuel s

end Scanner

/-- The tokens of a text. `none` if it is not well formed. -/
def tokens? (cs : List Char) : Option (List Token) :=
  if cs.all isAllowed then
    (Scanner.run? (cs.length + 2) { cursor := { rest := cs } }).map Array.toList
  else none

end Fleet.Yaml
