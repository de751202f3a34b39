/-
# Expressions

What stands between double braces: a variable path or a literal, and the filters applied to it from
left to right, each behind a bar. Bars and commas inside quotes do not count.
-/

import Fleet.Json.Printer
import Fleet.Text.Digit
import Fleet.Text.Split

namespace Fleet.Template

/-- Whether a character opens and closes a quoted text. -/
def isQuote (c : Char) : Bool := c == '\'' || c == '"'

/-- Split at a separator where it stands outside quotes. `part` is the part so far, last character
first, and `quote` the quote that is open. -/
def splitQuoted (separator : Char) : (quote : Option Char) → (part : List Char) → List Char →
    List (List Char)
  | _, part, [] => [part.reverse]
  | some q, part, c :: rest =>
    splitQuoted separator (if c = q then none else some q) (c :: part) rest
  | none, part, c :: rest =>
    if isQuote c then splitQuoted separator (some c) (c :: part) rest
    else if c = separator then part.reverse :: splitQuoted separator none [] rest
    else splitQuoted separator none (c :: part) rest

/-- The parts of a text between the separators that stand outside quotes. -/
def splitOutsideQuotes (separator : Char) (cs : List Char) : List (List Char) :=
  splitQuoted separator none [] cs

/-- Whether a character may start a name. -/
def startsName (c : Char) : Bool := Text.isAsciiLetter c || c == '_'

/-- Whether a character may stand in a name. -/
def isNameChar (c : Char) : Bool := startsName c || Text.isAsciiDigit c

/-- A name at the start of a text, and what follows it. -/
def takeName? (cs : List Char) : Option (List Char × List Char) :=
  match cs with
  | [] => none
  | c :: _ =>
    if startsName c then some (cs.takeWhile isNameChar, cs.dropWhile isNameChar) else none

/-- Whether a text is a number: digits of any script, an optional sign and an optional fraction. -/
def isNumber (cs : List Char) : Bool :=
  let body := match cs with
    | '-' :: rest => rest
    | rest => rest
  let whole := body.takeWhile Text.isDecimalDigit
  match body.dropWhile Text.isDecimalDigit with
  | [] => !whole.isEmpty
  | '.' :: fraction => !whole.isEmpty && !fraction.isEmpty && fraction.all Text.isDecimalDigit
  | _ => false

/-- Whether a text starts and ends with the same quote. -/
def isQuoted (cs : List Char) : Bool :=
  2 ≤ cs.length && (cs.head?.any isQuote) && cs.getLast? == cs.head?

/-- A literal. -/
inductive Literal where
  /-- The text between quotes. -/
  | text (inner : List Char)
  | bool (b : Bool)
  /-- A number, as it is written. -/
  | number (written : List Char)
  deriving DecidableEq, Repr

/-- The literal that a text writes. -/
def Literal.ofText? (cs : List Char) : Option Literal :=
  if isQuoted cs then some (.text cs.tail.dropLast)
  else if cs = "true".toList || cs = "True".toList then some (.bool true)
  else if cs = "false".toList || cs = "False".toList then some (.bool false)
  else if isNumber cs then some (.number cs)
  else none

/-- Whether a text continues a path to its end: names and numbers behind points, and numbers and
quoted keys between brackets. `fuel` bounds the number of steps. -/
def isPathTail : (fuel : Nat) → List Char → Bool
  | _, [] => true
  | 0, _ :: _ => false
  | fuel + 1, '.' :: rest =>
    match takeName? rest with
    | some (_, left) => isPathTail fuel left
    | none =>
      !(rest.takeWhile Text.isDecimalDigit).isEmpty &&
        isPathTail fuel (rest.dropWhile Text.isDecimalDigit)
  | fuel + 1, '[' :: '\'' :: rest =>
    match rest.dropWhile (· ≠ '\'') with
    | '\'' :: ']' :: left => isPathTail fuel left
    | _ => false
  | fuel + 1, '[' :: rest =>
    match rest.dropWhile Text.isDecimalDigit with
    | ']' :: left => !(rest.takeWhile Text.isDecimalDigit).isEmpty && isPathTail fuel left
    | _ => false
  | _ + 1, _ :: _ => false

/-- Whether a text is a variable path. -/
def isPath (cs : List Char) : Bool :=
  match takeName? cs with
  | none => false
  | some (_, rest) => isPathTail rest.length rest

/-- Split at points and opening brackets. -/
def splitKeys : List Char → List (List Char)
  | [] => [[]]
  | c :: rest =>
    if c == '.' || c == '[' then [] :: splitKeys rest else Text.consFirst c (splitKeys rest)

/-- The keys of a path. Brackets and quotes at the ends of a key go. -/
def keys (cs : List Char) : List (List Char) :=
  ((splitKeys cs).filter fun k => !k.isEmpty).map fun k =>
    let inner := Text.dropEndWhile (· == ']') k
    Text.dropEndWhile (· == '\'') (inner.dropWhile (· == '\''))

/-- What filters are applied to. -/
inductive Base where
  | literal (written : List Char) (l : Literal)
  /-- A variable, by the keys that lead to it. -/
  | path (keys : List (List Char))
  deriving DecidableEq, Repr

/-- A filter and its arguments. -/
structure Call where
  filter : String
  args : List Literal
  deriving DecidableEq, Repr

/-- A base and the filters applied to it, the first one first. -/
structure Expression where
  base : Base
  calls : List Call
  deriving DecidableEq, Repr

/-- Why a text is no expression. -/
inductive ParseError where
  | invalid (expression reason : String)
  | unknownFilter (filter expression : String)
  deriving DecidableEq, Repr

/-- The text of an error. -/
def ParseError.message : ParseError → String
  | invalid expression reason => s!"Invalid expression '{expression}': {reason}"
  | unknownFilter filter expression => s!"Unknown filter '{filter}' in '{expression}'"

namespace Expression

/-- The error for a part of an expression. -/
def invalid (cs : List Char) (reason : String) : ParseError := .invalid (String.ofList cs) reason

/-- The base that a text writes. -/
def readBase (whole cs : List Char) : Except ParseError Base :=
  if cs.isEmpty then .error (invalid whole "empty expression")
  else match Literal.ofText? cs with
    | some l => .ok (.literal cs l)
    | none =>
      if isPath cs then .ok (.path (keys cs))
      else .error (invalid whole "expected a variable or a quoted literal")

/-- The name of a filter, and what stands between its parentheses if it has some. A line feed may
stand before the parentheses and not in them. -/
def splitCall? (cs : List Char) : Option (List Char × Option (List Char)) :=
  match takeName? cs with
  | none => none
  | some (name, rest) =>
    match Text.trimStart rest with
    | [] => some (name, none)
    | '(' :: inside =>
      if inside.getLast? == some ')' && !inside.contains '\n' then some (name, some inside.dropLast)
      else none
    | _ => none

/-- The arguments between parentheses; nothing between two commas is passed over. -/
def readArgs (whole cs : List Char) : Except ParseError (List Literal) :=
  (((splitOutsideQuotes ',' cs).map Text.trim).filter fun a => !a.isEmpty).mapM fun a =>
    match Literal.ofText? a with
    | some l => .ok l
    | none => .error (invalid whole "filter arguments must be literals")

/-- The application of one of some filters that a text writes. -/
def readCall (filters : List String) (whole cs : List Char) : Except ParseError Call :=
  match splitCall? (Text.trim cs) with
  | none => .error (invalid whole "malformed filter")
  | some (name, inside) =>
    let name := String.ofList name
    if filters.contains name then do
      let args ← match inside with
        | none => .ok []
        | some inside => readArgs whole inside
      return ⟨name, args⟩
    else .error (.unknownFilter name (String.ofList whole))

/-- The expression that a text without blanks at its ends writes. -/
def read (filters : List String) (cs : List Char) : Except ParseError Expression := do
  let parts := splitOutsideQuotes '|' cs
  let base ← readBase cs (Text.trim (parts.headD []))
  let calls ← parts.tail.mapM (readCall filters cs)
  return ⟨base, calls⟩

/-- The keys that must lead to a value: those of a variable to which `default` is not applied. -/
def required? (e : Expression) : Option (List (List Char)) :=
  match e.base with
  | .literal _ _ => none
  | .path keys => if e.calls.any (·.filter = "default") then none else some keys

end Expression

end Fleet.Template
