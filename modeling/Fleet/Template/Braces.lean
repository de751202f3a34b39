/-
# Templates with calls in braces

The part of the Handlebars language that converted templates are written in: text, values by path,
and helpers applied to literals, paths and further calls. A backslash before opening braces takes
their meaning away. A name that stands alone calls the helper of that name if there is one, and is
a variable otherwise. Blocks, partials and comments are not read.
-/

import Fleet.Json.Reader
import Fleet.Template.Filter

namespace Fleet.Template.Braces

/-- An argument of a helper. -/
inductive Param where
  | value (v : Json)
  /-- The keys that lead to a value of the scope. -/
  | path (keys : List String)
  | call (name : String) (params : List Param)
  deriving Inhabited

/-- A piece of a template. -/
inductive Piece where
  | text (cs : List Char)
  /-- A path that stands alone, as written and as keys. -/
  | path (written : String) (keys : List String)
  | call (name : String) (params : List Param)

/-- Characters that may stand between tokens. -/
def isSpace (c : Char) : Bool := c == ' ' || c == '\t' || c == '\n' || c == '\r'

/-- The text after its leading space. -/
def skipSpace (cs : List Char) : List Char := cs.dropWhile isSpace

/-- Characters of names and of keys without brackets. -/
def isSymbol (c : Char) : Bool :=
  Text.isAsciiLetter c || Text.isAsciiDigit c || c == '-' || c == '_' || c == '$' || 0x80 ≤ c.toNat

/-- A symbol at the start of a text. -/
def takeSymbol? (cs : List Char) : Option (List Char × List Char) :=
  let symbol := cs.takeWhile isSymbol
  if symbol.isEmpty then none else some (symbol, cs.dropWhile isSymbol)

/-- A key at the start of a text: a symbol, or anything between brackets. -/
def takeKey? (cs : List Char) : Option (List Char × List Char) :=
  match cs with
  | '[' :: rest =>
    match rest.dropWhile (· ≠ ']') with
    | _ :: left => some (rest.takeWhile (· ≠ ']'), left)
    | [] => none
  | _ => takeSymbol? cs

/-- The further keys of a path, as long as separators are followed by keys. -/
def takeKeys : (fuel : Nat) → List Char → List (List Char) × List Char
  | 0, cs => ([], cs)
  | _, [] => ([], [])
  | fuel + 1, c :: rest =>
    if c == '.' || c == '/' then
      match takeKey? rest with
      | some (key, left) =>
        let (keys, left) := takeKeys fuel left
        (key :: keys, left)
      | none => ([], c :: rest)
    else ([], c :: rest)

/-- A path at the start of a text, as keys. The key `this` leads nowhere else. -/
def takePath? (cs : List Char) : Option (List String × List Char) :=
  match takeKey? cs with
  | none => none
  | some (key, rest) =>
    let (keys, left) := takeKeys rest.length rest
    some ((((key :: keys).map String.ofList).filter (· ≠ "this")), left)

/-- Whether no symbol goes on here. -/
def endsSymbol (cs : List Char) : Bool := !(cs.head?.any isSymbol)

/-- A word at the start of a text that no symbol goes on from. -/
def takeWord? (word : String) (cs : List Char) : Option (List Char) :=
  if word.toList.isPrefixOf cs && endsSymbol (cs.drop word.length) then some (cs.drop word.length)
  else none

/-- The sign at the start of a text, and what follows it. -/
def takeSign : List Char → List Char × List Char
  | '-' :: rest => (['-'], rest)
  | rest => ([], rest)

/-- The fraction at the start of a text, its point included, and what follows it. -/
def takeFraction : List Char → List Char × List Char
  | '.' :: rest => ('.' :: rest.takeWhile Text.isAsciiDigit, rest.dropWhile Text.isAsciiDigit)
  | rest => ([], rest)

/-- The characters of a number at the start of a text. -/
def takeNumber? (cs : List Char) : Option (List Char × List Char) :=
  let (sign, body) := takeSign cs
  let whole := body.takeWhile Text.isAsciiDigit
  let (fraction, left) := takeFraction (body.dropWhile Text.isAsciiDigit)
  if whole.isEmpty || !endsSymbol left then none else some (sign ++ whole ++ fraction, left)

/-- What a literal at the start of a text comes to. -/
inductive Reading where
  /-- There is no literal. -/
  | absent
  /-- There is one that has no value. -/
  | broken
  | value (v : Json) (rest : List Char)

/-- Read a literal: a string, a number, null or a truth value. A number has to be one in JSON. -/
def readLiteral (cs : List Char) : Reading :=
  match cs with
  | '"' :: rest =>
    match Json.readString (rest.length + 1) rest with
    | some (s, left) => .value (.str (String.ofList s)) left
    | none => .broken
  | _ =>
    match takeNumber? cs with
    | some (number, left) =>
      match Json.read? number with
      | some v => .value v left
      | none => .broken
    | none =>
      match takeWord? "null" cs, takeWord? "true" cs, takeWord? "false" cs with
      | some left, _, _ => .value .null left
      | _, some left, _ => .value (.bool true) left
      | _, _, some left => .value (.bool false) left
      | none, none, none => .absent

/-- Whether a word starts here that is no argument. -/
def isKeyword (cs : List Char) : Bool := (takeWord? "as" cs).isSome || (takeWord? "else" cs).isSome

mutual

/-- Read an argument. -/
def readParam : (fuel : Nat) → List Char → Option (Param × List Char)
  | 0, _ => none
  | fuel + 1, cs =>
    if isKeyword cs then none
    else match readLiteral cs with
      | .broken => none
      | .value v rest => some (.value v, rest)
      | .absent =>
        match cs with
        | '(' :: rest =>
          match takeSymbol? (skipSpace rest) with
          | none => none
          | some (name, rest) =>
            let (params, rest) := readParams fuel rest
            match skipSpace rest with
            | ')' :: left => some (.call (String.ofList name) params, left)
            | _ => none
        | _ => (takePath? cs).map fun (keys, rest) => (.path keys, rest)

/-- Read arguments as long as there are some. -/
def readParams : (fuel : Nat) → List Char → List Param × List Char
  | 0, cs => ([], cs)
  | fuel + 1, cs =>
    match readParam fuel (skipSpace cs) with
    | none => ([], cs)
    | some (param, rest) =>
      let (params, left) := readParams fuel rest
      (param :: params, left)

end

/-- Read what stands between braces: a helper with arguments, or a path. -/
def readBody (cs : List Char) : Option (Piece × List Char) :=
  let cs := skipSpace cs
  let alone := (takePath? cs).map fun (keys, rest) =>
    (Piece.path (String.ofList (cs.take (cs.length - rest.length))) keys, rest)
  match takeSymbol? cs with
  | none => alone
  | some (name, rest) =>
    match readParams (2 * rest.length + 2) rest with
    | ([], _) => alone
    | (params, left) => some (.call (String.ofList name) params, left)

/-- The text after a mark and the space before it. -/
def expect? (mark : List Char) (cs : List Char) : Option (List Char) :=
  let cs := skipSpace cs
  if mark.isPrefixOf cs then some (cs.drop mark.length) else none

/-- Opening braces. -/
def open₂ : List Char := ['\x7b', '\x7b']

/-- Closing braces. -/
def close₂ : List Char := ['\x7d', '\x7d']

/-- Whether the braces that open here hold the word for the other branch of a block. -/
def isElse (cs : List Char) : Bool :=
  match skipSpace cs with
  | '^' :: rest => (expect? close₂ rest).isSome
  | cs => "else".toList.isPrefixOf cs && (expect? close₂ (cs.drop 4)).isSome

/-- Read an expression whose opening braces are taken: a body between two braces, or between three,
or behind an ampersand. -/
def readExpression (cs : List Char) : Option (Piece × List Char) :=
  let close (mark : List Char) (body : Option (Piece × List Char)) : Option (Piece × List Char) :=
    body.bind fun (piece, rest) => (expect? mark rest).map (piece, ·)
  if isElse cs then none
  else match close close₂ (readBody cs) with
    | some result => some result
    | none =>
      match skipSpace cs with
      | '\x7b' :: rest => close ('\x7d' :: close₂) (readBody rest)
      | '&' :: rest => close close₂ (readBody rest)
      | _ => none

/-- Put characters before the first piece of a template. -/
def consText (cs : List Char) : List Piece → List Piece
  | .text rest :: pieces => .text (cs ++ rest) :: pieces
  | pieces => .text cs :: pieces

/-- Read a template. Before opening braces a single backslash keeps them, and of more backslashes
the first one goes. Braces that open nothing fail. `fuel` bounds the number of steps. -/
def readPieces : (fuel : Nat) → List Char → Option (List Piece)
  | _, [] => some []
  | 0, _ :: _ => none
  | fuel + 1, c :: rest =>
    if c == '\\' then
      let more := rest.takeWhile (· == '\\')
      let left := rest.dropWhile (· == '\\')
      if !open₂.isPrefixOf left then
        (readPieces fuel left).map (consText (c :: more))
      else if more.isEmpty then
        let kept := if open₂.isPrefixOf (left.drop 2) then open₂ ++ open₂ else open₂
        (readPieces fuel (left.drop kept.length)).map (consText kept)
      else (readPieces fuel left).map (consText more)
    else if open₂.isPrefixOf (c :: rest) then
      match readExpression (rest.drop 1) with
      | none => none
      | some (piece, left) => (readPieces fuel left).map (piece :: ·)
    else (readPieces fuel rest).map (consText [c])

/-- The pieces of a template. -/
def read? (cs : List Char) : Option (List Piece) := readPieces cs.length cs

/-- Why a template has no text. -/
inductive RenderError where
  | malformed
  /-- A key that is no index of a list. -/
  | badIndex (key : String)
  | unknownHelper (name : String)
  | filter (name reason : String)
  deriving DecidableEq, Repr

/-- The text of an error. -/
def RenderError.message : RenderError → String
  | malformed => "invalid template syntax"
  | badIndex key => s!"invalid index {key}"
  | unknownHelper name => s!"helper {name} cannot be called here"
  | filter name reason => s!"filter {name}: {reason}"

/-- The greatest index of a list. -/
def greatestIndex : Nat := 0xFFFFFFFFFFFFFFFF

/-- Follow keys through mappings and lists. A key that is no number has no place in a list. -/
def follow : Option Json → List String → Except RenderError (Option Json)
  | found, [] => .ok found
  | some (.arr items), key :: rest =>
    match Text.readBounded? greatestIndex key.toList with
    | none => .error (.badIndex key)
    | some index => follow items[index]? rest
  | some (.obj members), key :: rest => follow (Dict.lookupEntry key members) rest
  | some _, _ :: rest | none, _ :: rest => follow none rest

/-- Helpers that are no filters and that write something where they stand alone. -/
def silent : List (String × Json) :=
  [("raw", .str ""), ("log", .str ""), ("and", .bool true), ("or", .bool false)]

/-- Helpers that are no filters and that need arguments. -/
def demanding : List String :=
  ["if", "unless", "each", "with", "lookup", "eq", "ne", "gt", "gte", "lt", "lte", "not", "len"]

/-- Call a filter by name. -/
def apply (name : String) (values : List Json) : Except RenderError Json :=
  match Filter.table.lookup name with
  | none => .error (.unknownHelper name)
  | some filter =>
    match filter (values.headD .null) values.tail with
    | .ok value => .ok value
    | .error reason => .error (.filter name reason)

mutual

/-- The value of an argument; a path that leads nowhere gives null. -/
def eval (scope : Json) : Param → Except RenderError Json
  | .value v => .ok v
  | .path keys => do return (← follow (some scope) keys).getD .null
  | .call name params => do apply name (← evalAll scope params)

/-- The values of arguments, the first one first. -/
def evalAll (scope : Json) : List Param → Except RenderError (List Json)
  | [] => .ok []
  | p :: rest => do
    let value ← eval scope p
    return value :: (← evalAll scope rest)

end

mutual

/-- A value as a template writes it: lists between brackets, mappings as a word. -/
def valueText : Json → List Char
  | .str s => s.toList
  | .null => []
  | .arr items => '[' :: (Text.join [',', ' '] (valueTexts items) ++ [']'])
  | .obj _ => "[object]".toList
  | .bool b => (Json.bool b).printChars
  | .int n => (Json.int n).printChars
  | .float bits => (Json.float bits).printChars

/-- The texts of the items of a list. -/
def valueTexts : List Json → List (List Char)
  | [] => []
  | item :: rest => valueText item :: valueTexts rest

end

/-- The value of a path that stands alone, or of the helper that has its name. -/
def evalAlone (scope : Json) (written : String) (keys : List String) : Except RenderError Json :=
  if (Filter.table.lookup written).isSome then apply written []
  else match silent.lookup written with
    | some value => .ok value
    | none =>
      if demanding.contains written then .error (.unknownHelper written)
      else do return (← follow (some scope) keys).getD .null

/-- The text of a piece. -/
def pieceText (scope : Json) : Piece → Except RenderError (List Char)
  | .text cs => .ok cs
  | .path written keys => do return valueText (← evalAlone scope written keys)
  | .call name params => do return valueText (← apply name (← evalAll scope params))

/-- The text of a template in a scope. -/
def render (scope : Json) (cs : List Char) : Except RenderError (List Char) :=
  match read? cs with
  | none => .error .malformed
  | some pieces => do return (← pieces.mapM (pieceText scope)).flatten

end Fleet.Template.Braces
