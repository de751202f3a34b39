/-
# Values of YAML

What a document stands for: plain values, lists and mappings, and values that bear a tag of the
document's own. No mapping binds a key twice. `toJson` gives the value that other parts of the
library work with; there every key is a string.
-/

import Fleet.Json.Basic
import Fleet.Decimal.Format
import Fleet.Yaml.Scalar

namespace Fleet.Yaml

/-- What a node of a document stands for. -/
inductive Value where
  | null
  | bool (b : Bool)
  | int (n : Int)
  | float (bits : UInt64)
  | str (s : String)
  | list (items : List Value)
  | mapping (entries : List (Value × Value))
  | tagged (tag : String) (value : Value)
  deriving Inhabited

namespace Value

/-- The value of a scalar. `none` for an integer that is too wide. -/
def ofScalar? : Scalar → Option Value
  | .null => some null
  | .bool b => some (bool b)
  | .int n => some (int n)
  | .wide => none
  | .float bits => some (float bits)
  | .str s => some (str s)

/-- Whether two floats count as equal: both are no number, or both are zeros, or they are the
same. -/
def sameFloat (a b : UInt64) : Bool :=
  let isNaN (x : UInt64) := x &&& 0x7FFFFFFFFFFFFFFF > 0x7FF0000000000000
  let isZero (x : UInt64) := x &&& 0x7FFFFFFFFFFFFFFF == 0
  a == b || (isNaN a && isNaN b) || (isZero a && isZero b)

/-- The name of a tag without a mark in front. -/
def tagName (tag : String) : String :=
  match tag.toList with
  | '!' :: c :: rest => String.ofList (c :: rest)
  | _ => tag

mutual

/-- Whether two values count as equal. The order of the entries of a mapping does not matter. -/
def same : Value → Value → Bool
  | null, null => true
  | bool a, bool b => a == b
  | int a, int b => a == b
  | float a, float b => sameFloat a b
  | str a, str b => a == b
  | list a, list b => sameItems a b
  | mapping a, mapping b => a.length == b.length && binds b a
  | tagged s a, tagged t b => tagName s == tagName t && same a b
  | _, _ => false

/-- Whether two lists have equal items. -/
def sameItems : List Value → List Value → Bool
  | [], [] => true
  | a :: as, b :: bs => same a b && sameItems as bs
  | _, _ => false

/-- Whether a mapping binds all entries of another. -/
def binds (entries : List (Value × Value)) : List (Value × Value) → Bool
  | [] => true
  | (key, value) :: rest =>
    (entries.any fun e => same key e.1 && same value e.2) && binds entries rest

end

/-- Whether no key stands twice. -/
def distinct : List (Value × Value) → Bool
  | [] => true
  | (key, _) :: rest => !(rest.any fun e => same key e.1) && distinct rest

/-- A value under a tag of the document's own, unless tags do not count here. -/
def under (ignore : Bool) (tag : Option Tag) (value : Value) : Value :=
  match ignore, tag with
  | false, some (.own name) => tagged name value
  | _, _ => value

/-- Whether a tag of the document's own counts. -/
def isUnder (ignore : Bool) : Option Tag → Bool
  | some (.own _) => !ignore
  | _ => false

mutual

/-- The value of a tree. Tags of the keys of a tagged mapping do not count, which `ignore` tells.
`none` for a value that cannot be, and for a mapping with a key that stands twice. -/
def ofTree? (ignore : Bool) : Tree → Option Value
  | .scalar tag style text => do
    let found ← if ignore then some (Scalar.ofStyle style text) else Scalar.ofTagged? tag style text
    (ofScalar? found).map (under ignore tag)
  | .sequence tag items => (ofItems? items).map fun items => under ignore tag (list items)
  | .mapping tag entries => do
    let entries ← ofEntries? (ignore || isUnder ignore tag) entries
    if distinct entries then some (under ignore tag (mapping entries)) else none

/-- The values of items. -/
def ofItems? : List Tree → Option (List Value)
  | [] => some []
  | item :: rest => do some ((← ofTree? false item) :: (← ofItems? rest))

/-- The values of entries. -/
def ofEntries? (ignore : Bool) : List (Tree × Tree) → Option (List (Value × Value))
  | [] => some []
  | (key, value) :: rest => do
    some ((← ofTree? ignore key, ← ofTree? false value) :: (← ofEntries? ignore rest))

end

/-- The value of the only document of a text. A text without a document stands for null. -/
def read? (cs : List Char) : Option Value := do
  match ← Tree.read? cs with
  | none => some null
  | some tree => ofTree? false tree

/-- Why a mapping has no counterpart whose keys are strings. -/
inductive KeyError where
  | notString
  | notFinite
  deriving DecidableEq, Repr

/-- The text of an error. -/
def KeyError.message : KeyError → String
  | notString => "key must be a string"
  | notFinite => "float key must be finite (got NaN or +/-inf)"

/-- The string that stands for a key. -/
def keyText : Value → Except KeyError String
  | str s => .ok s
  | bool true => .ok "true"
  | bool false => .ok "false"
  | int n => .ok (toString n)
  | float bits =>
    match Decimal.jsonLayout.writeBits? bits with
    | some text => .ok text
    | none => .error .notFinite
  | null | list _ | mapping _ | tagged _ _ => .error .notString

/-- The mark in front of a tag, and the name of the tag. -/
def tagText (tag : String) : String := "!" ++ tagName tag

/-- A float, or null where it is none of the numbers. -/
def finite (bits : UInt64) : Json := if Decimal.isFinite bits then .float bits else .null

mutual

/-- The value whose keys are strings. A tag becomes the only key of an object. -/
def toJson : Value → Except KeyError Json
  | null => .ok .null
  | bool b => .ok (.bool b)
  | int n => .ok (.int n)
  | float bits => .ok (finite bits)
  | str s => .ok (.str s)
  | list items => (itemsToJson items).map .arr
  | mapping entries => (entriesToJson entries).map Json.ofMembers
  | tagged tag value => value.toJson.map fun j => .obj [(tagText tag, j)]

/-- `toJson` on items. -/
def itemsToJson : List Value → Except KeyError (List Json)
  | [] => .ok []
  | item :: rest => do return (← item.toJson) :: (← itemsToJson rest)

/-- `toJson` on entries, each key before its value. -/
def entriesToJson : List (Value × Value) → Except KeyError (List (String × Json))
  | [] => .ok []
  | (key, value) :: rest => do
    return (← key.keyText, ← value.toJson) :: (← entriesToJson rest)

end

end Value

end Fleet.Yaml
