/-
# From expressions to helper calls

A template with filter expressions becomes a template of the Handlebars language, in which filters
are helpers and `a | f | g` reads `(g (f a))`. A literal with no filter becomes plain text.
-/

import Fleet.Template.Expression

namespace Fleet.Template

/-- The literal as an argument of a helper. -/
def Literal.argument : Literal → List Char
  | .text inner => Json.quoteChars inner
  | .bool true => "true".toList
  | .bool false => "false".toList
  | .number written => written

/-- The literal as plain text. -/
def plainText (written : List Char) : Literal → List Char
  | .text inner => inner
  | _ => written

/-- Whether a key may stand in a path without brackets. -/
def isPlainKey (key : List Char) : Bool :=
  key.all isNameChar && !(key.head?.any Text.isAsciiDigit)

/-- A key behind another one, as a path of helpers writes it. -/
def keyText (key : List Char) : List Char :=
  if isPlainKey key then key else '[' :: key ++ [']']

/-- A path as an argument of a helper. -/
def pathText : List (List Char) → List Char
  | [] => []
  | first :: rest => Text.join ['.'] (first :: rest.map keyText)

/-- A base as an argument of a helper. -/
def Base.argument : Base → List Char
  | .literal _ l => l.argument
  | .path keys => pathText keys

/-- One call applied to what is already written. -/
def callText (c : Call) (inner : List Char) : List Char :=
  c.filter.toList ++ ' ' :: inner ++ c.args.flatMap fun a => ' ' :: a.argument

/-- The calls applied one after another, all but the last one between parentheses. -/
def callsText (inner : List Char) : List Call → List Char
  | [] => inner
  | [c] => callText c inner
  | c :: rest => callsText ('(' :: callText c inner ++ [')']) rest

/-- What opens an expression. -/
def opening : List Char := ['\x7b', '\x7b']

/-- What closes an expression. -/
def closing : List Char := ['\x7d', '\x7d']

/-- An expression in the language of helpers. -/
def Expression.text (e : Expression) : List Char :=
  match e.base, e.calls with
  | .literal written l, [] => plainText written l
  | base, calls => opening ++ callsText base.argument calls ++ closing

/-- A piece of a template. -/
inductive Segment where
  | text (cs : List Char)
  /-- What stands between double braces. -/
  | body (cs : List Char)
  deriving DecidableEq, Repr

/-- What stands before the first closing braces, and what follows them. -/
def cutClosing? : List Char → Option (List Char × List Char)
  | [] => none
  | [_] => none
  | c :: d :: rest =>
    if c == '\x7d' && d == '\x7d' then some ([], rest)
    else (cutClosing? (d :: rest)).map fun (body, left) => (c :: body, left)

/-- Put a character before the first piece of a template. -/
def consText (c : Char) : List Segment → List Segment
  | .text cs :: rest => .text (c :: cs) :: rest
  | segments => .text [c] :: segments

/-- Cut a template into text and expressions. Braces that are never closed are text. `fuel` bounds
the number of steps. -/
def segmentsFrom : (fuel : Nat) → List Char → List Segment
  | _, [] => []
  | 0, cs => [.text cs]
  | fuel + 1, c :: rest =>
    if opening.isPrefixOf (c :: rest) then
      match cutClosing? (rest.drop 1) with
      | some (body, left) => .body body :: segmentsFrom fuel left
      | none => [.text (c :: rest)]
    else consText c (segmentsFrom fuel rest)

/-- The pieces of a template in their order. -/
def segments (cs : List Char) : List Segment := segmentsFrom cs.length cs

/-- A template in the language of helpers, and the variables that it needs. -/
structure Conversion where
  text : List Char
  /-- The keys of each variable that must have a value. -/
  required : List (List (List Char))
  deriving DecidableEq, Repr

/-- Convert the pieces of a template one by one; the first expression that cannot be read fails. -/
def convertSegments (filters : List String) : List Segment → Except ParseError Conversion
  | [] => .ok ⟨[], []⟩
  | .text cs :: rest => do
    let c ← convertSegments filters rest
    return ⟨cs ++ c.text, c.required⟩
  | .body cs :: rest => do
    let e ← Expression.read filters (Text.trim cs)
    let c ← convertSegments filters rest
    return ⟨e.text ++ c.text, e.required?.toList ++ c.required⟩

/-- Convert a template that uses some filters. -/
def convert (filters : List String) (cs : List Char) : Except ParseError Conversion :=
  convertSegments filters (segments cs)

end Fleet.Template
