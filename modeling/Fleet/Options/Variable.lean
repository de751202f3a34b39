/-
# Variables on the command line

A variable is given as `key=value`. The value is read as a document; where that fails, or where it
would be null without being written so, the value is the text itself.
-/

import Fleet.Text.Split
import Fleet.Json.Basic
import Fleet.Yaml.Scalar

namespace Fleet.Options

/-- The value of a scalar. `none` for an integer that is too wide. -/
def ofScalar? : Yaml.Scalar → Option Json
  | .null => some .null
  | .bool b => some (.bool b)
  | .int n => some (.int n)
  | .wide => none
  | .float bits => some (if Decimal.isFinite bits then .float bits else .null)
  | .str s => some (.str s)

/-- Whether a node bears a tag of the document's own. -/
def isOwn : Option Yaml.Tag → Bool
  | some (.own _) => true
  | _ => false

mutual

/-- The value of a node. Keys are the texts of scalars. `none` where a tag of the document's own
stands, and where a key is no scalar. -/
def ofTree? : Yaml.Tree → Option Json
  | .scalar tag style text =>
    if isOwn tag then none else (Yaml.Scalar.ofTagged? tag style text).bind ofScalar?
  | .sequence tag items => if isOwn tag then none else (ofItems? items).map .arr
  | .mapping tag entries =>
    if isOwn tag then none else (ofEntries? entries).map Json.ofMembers

/-- The values of items. -/
def ofItems? : List Yaml.Tree → Option (List Json)
  | [] => some []
  | item :: rest => do some ((← ofTree? item) :: (← ofItems? rest))

/-- The members that entries write. -/
def ofEntries? : List (Yaml.Tree × Yaml.Tree) → Option (List (String × Json))
  | [] => some []
  | (.scalar _ _ name, value) :: rest => do
    some ((name, ← ofTree? value) :: (← ofEntries? rest))
  | _ :: _ => none

end

/-- The value that a document holds. -/
def readValue? (cs : List Char) : Option Json := do
  match ← Yaml.Tree.read? cs with
  | none => some .null
  | some tree => ofTree? tree

/-- The value that a text stands for. -/
def valueOf (cs : List Char) : Json :=
  match readValue? cs with
  | none => .str (String.ofList cs)
  | some .null => if Text.trim cs = "null".toList then .null else .str (String.ofList cs)
  | some value => value

/-- The variable that a text gives, or the text of an error. -/
def readAssignment (text : String) : Except String (String × Json) :=
  match Text.cutFirst? '=' text.toList with
  | none => .error s!"expected key=value, got '{text}'"
  | some (key, value) =>
    if key.isEmpty then .error s!"empty variable name in '{text}'"
    else .ok (String.ofList key, valueOf value)

end Fleet.Options
