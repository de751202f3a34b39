/-
# From tokens to nodes

The grammar of documents. Each reader takes the tokens that are left and gives a node and the
tokens behind it; `none` stands for tokens that make no document.
-/

import Fleet.Yaml.Node.Basic

namespace Fleet.Yaml.Node

/-- A node whose aliases refer by name. -/
abbrev Named := Node (List Char)

/-- The anchor and the tag that stand before a node, in either order. -/
def props? (handles : Handles) : List Token → Option (Props × List Token)
  | .anchor a :: .tag h s :: rest => do some (⟨some a, some (← tagOf? handles h s)⟩, rest)
  | .tag h s :: .anchor a :: rest => do some (⟨some a, some (← tagOf? handles h s)⟩, rest)
  | .anchor a :: rest => some (⟨some a, none⟩, rest)
  | .tag h s :: rest => do some (⟨none, some (← tagOf? handles h s)⟩, rest)
  | tokens => some ({}, tokens)

/-- The tag that asks for no tag. -/
def plainTag : Bytes := Text.Utf8.encode ['!']

/-- A scalar that is written out. The tag that asks for no tag makes it plain. -/
def written (props : Props) (style : Style) (text : List Char) : Named :=
  if props.tag = some plainTag then .scalar { props with tag := none } style text
  else .scalar props style text

/-- Whether an item of a sequence of lines is left out before a token. -/
def endsItem : Option Token → Bool
  | some .dash | some .blockEnd => true
  | _ => false

/-- Whether an item of a sequence without indentation is left out before a token. -/
def endsFlushItem : Option Token → Bool
  | some .dash | some .key | some .value | some .blockEnd => true
  | _ => false

/-- Whether a key or a value of a mapping of lines is left out before a token. -/
def endsEntry : Option Token → Bool
  | some .key | some .value | some .blockEnd => true
  | _ => false

/-- Whether a value is left out before a token inside of brackets. -/
def endsNestedValue (close : Token) : Option Token → Bool
  | none => false
  | some t => t == .comma || t == close

/-- Whether a key is left out before a token inside of brackets. -/
def endsNestedKey (close : Token) (t : Option Token) : Bool :=
  t == some .value || endsNestedValue close t

/-- The tokens behind the comma that must stand between two entries. -/
def afterComma? (first : Bool) : List Token → Option (List Token)
  | tokens =>
    if first then some tokens
    else
      match tokens with
      | .comma :: rest => some rest
      | _ => none

mutual

/-- Read a node. `lines` tells whether it may be written in lines, and `flush` whether it may be a
sequence whose dashes are not indented. -/
def node? (handles : Handles) (lines flush : Bool) :
    Nat → List Token → Option (Named × List Token)
  | 0, _ => none
  | fuel + 1, tokens =>
    match tokens with
    | .alias name :: rest => some (.alias name, rest)
    | tokens => do
      let (props, rest) ← props? handles tokens
      match rest with
      | .scalar style text :: rest => some (written props style text, rest)
      | .openSequence :: rest => do
        let (items, rest) ← nestedItems? handles true fuel rest
        some (.sequence props items, rest)
      | .openMapping :: rest => do
        let (entries, rest) ← nestedEntries? handles true fuel rest
        some (.mapping props entries, rest)
      | rest =>
        if flush && rest.head? == some .dash then do
          let (items, rest) ← flushItems? handles fuel rest
          some (.sequence props items, rest)
        else
          match lines, rest with
          | true, .blockSequence :: rest => do
            let (items, rest) ← items? handles fuel rest
            some (.sequence props items, rest)
          | true, .blockMapping :: rest => do
            let (entries, rest) ← entries? handles fuel rest
            some (.mapping props entries, rest)
          | _, rest =>
            if props.anchor.isSome || props.tag.isSome then some (.scalar props .plain [], rest)
            else none

/-- Read the items of a sequence of lines. -/
def items? (handles : Handles) : Nat → List Token → Option (List Named × List Token)
  | 0, _ => none
  | fuel + 1, .dash :: rest => do
    let (item, rest) ←
      if endsItem rest.head? then some (blank, rest) else node? handles true false fuel rest
    let (items, rest) ← items? handles fuel rest
    some (item :: items, rest)
  | _ + 1, .blockEnd :: rest => some ([], rest)
  | _ + 1, _ => none

/-- Read the items of a sequence of lines whose dashes are not indented. -/
def flushItems? (handles : Handles) : Nat → List Token → Option (List Named × List Token)
  | 0, _ => none
  | fuel + 1, .dash :: rest => do
    let (item, rest) ←
      if endsFlushItem rest.head? then some (blank, rest) else node? handles true false fuel rest
    let (items, rest) ← flushItems? handles fuel rest
    some (item :: items, rest)
  | _ + 1, rest => some ([], rest)

/-- Read the entries of a mapping of lines. -/
def entries? (handles : Handles) : Nat → List Token → Option (List (Named × Named) × List Token)
  | 0, _ => none
  | fuel + 1, .key :: rest => do
    let (key, rest) ←
      if endsEntry rest.head? then some (blank, rest) else node? handles true true fuel rest
    let (value, rest) ←
      match rest with
      | .value :: rest =>
        if endsEntry rest.head? then some (blank, rest) else node? handles true true fuel rest
      | rest => some (blank, rest)
    let (entries, rest) ← entries? handles fuel rest
    some ((key, value) :: entries, rest)
  | _ + 1, .blockEnd :: rest => some ([], rest)
  | _ + 1, _ => none

/-- Read the items of a sequence in brackets. An item may be a mapping of one entry. A key of such
an entry that is left out takes the token behind it along. -/
def nestedItems? (handles : Handles) (first : Bool) :
    Nat → List Token → Option (List Named × List Token)
  | 0, _ => none
  | _ + 1, .closeSequence :: rest => some ([], rest)
  | fuel + 1, tokens => do
    match ← afterComma? first tokens with
    | .closeSequence :: rest => some ([], rest)
    | .key :: rest =>
      let (key, rest) ←
        if endsNestedKey .closeSequence rest.head? then some (blank, rest.tail)
        else node? handles false false fuel rest
      let (value, rest) ← nestedValue? handles .closeSequence fuel rest
      let (items, rest) ← nestedItems? handles false fuel rest
      some (.mapping {} [(key, value)] :: items, rest)
    | rest =>
      let (item, rest) ← node? handles false false fuel rest
      let (items, rest) ← nestedItems? handles false fuel rest
      some (item :: items, rest)

/-- Read the value of an entry in brackets, if there is one. -/
def nestedValue? (handles : Handles) (close : Token) :
    Nat → List Token → Option (Named × List Token)
  | 0, _ => none
  | fuel + 1, .value :: rest =>
    if endsNestedValue close rest.head? then some (blank, rest)
    else node? handles false false fuel rest
  | _ + 1, rest => some (blank, rest)

/-- Read the entries of a mapping in brackets. -/
def nestedEntries? (handles : Handles) (first : Bool) :
    Nat → List Token → Option (List (Named × Named) × List Token)
  | 0, _ => none
  | _ + 1, .closeMapping :: rest => some ([], rest)
  | fuel + 1, tokens => do
    match ← afterComma? first tokens with
    | .closeMapping :: rest => some ([], rest)
    | .key :: rest =>
      let (key, rest) ←
        if endsNestedKey .closeMapping rest.head? then some (blank, rest)
        else node? handles false false fuel rest
      let (value, rest) ← nestedValue? handles .closeMapping fuel rest
      let (entries, rest) ← nestedEntries? handles false fuel rest
      some ((key, value) :: entries, rest)
    | rest =>
      let (key, rest) ← node? handles false false fuel rest
      let (entries, rest) ← nestedEntries? handles false fuel rest
      some ((key, blank) :: entries, rest)

end

/-- The tag handles of the lines before a document, and the tokens behind them. A handle may be
given once, a version once, and only two versions are read. -/
def handles? (given : Handles) (hasVersion : Bool) : List Token → Option (Handles × List Token)
  | .version major minor :: rest =>
    if hasVersion || major ≠ 1 || (minor ≠ 1 && minor ≠ 2) then none
    else handles? given true rest
  | .tagHandle handle start :: rest =>
    if (given.lookup handle).isSome then none
    else handles? (given ++ [(handle, start)]) hasVersion rest
  | rest => some (given, rest)

/-- How deep the readers may call each other for so many tokens. -/
def fuelFor (tokens : List Token) : Nat := 3 * tokens.length + 3

/-- Whether a document that was begun holds nothing before a token. -/
def endsDocument : Option Token → Bool
  | some (.version _ _) | some (.tagHandle _ _) | some .documentStart | some .documentEnd
  | some .streamEnd | none => true
  | _ => false

/-- Read the node of a document. `none` inside where the text holds no document at all. -/
def content? : List Token → Option (Option Named × List Token)
  | [.streamEnd] => some (none, [.streamEnd])
  | tokens =>
    match tokens.head? with
    | some (.version _ _) | some (.tagHandle _ _) | some .documentStart => do
      let (given, rest) ← handles? [] false tokens
      match rest with
      | .documentStart :: rest =>
        if endsDocument rest.head? then some (some blank, rest)
        else
          let (n, rest) ← node? (given ++ standardHandles) true false (fuelFor rest) rest
          some (some n, rest)
      | _ => none
    | _ => do
      let (n, rest) ← node? standardHandles true false (fuelFor tokens) tokens
      some (some n, rest)

/-- The node of the only document of a text, from the tokens of the text. -/
def ofTokens? (tokens : List Token) : Option (Option Named) := do
  let (n, rest) ← content? tokens
  if (rest.dropWhile (· == .documentEnd)) = [.streamEnd] then some n else none

end Fleet.Yaml.Node
