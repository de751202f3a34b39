/-
# Filters

The functions that a template may apply to a value. A text filter sees a value as text: a string as
it is, null as nothing, lists and mappings as JSON.
-/

import Fleet.Json.Printer
import Fleet.Text.Case
import Fleet.Text.Replace
import Fleet.Text.ShellWord

namespace Fleet.Template

/-- A value as text. -/
def toText : Json → String
  | .str s => s
  | .null => ""
  | value => value.print

/-- A function of a value and of further arguments; it fails with a reason. -/
abbrev Filter := Json → List Json → Except String Json

namespace Filter

/-- The value, or the first argument in place of null. -/
def otherwise : Filter
  | .null, args => .ok (args.headD .null)
  | value, _ => .ok value

/-- A filter that turns one text into another. -/
def ofText (f : String → String) : Filter := fun value _ => .ok (.str (f (toText value)))

/-- The argument at a position, as text. -/
def argText (name : String) (index : Nat) (args : List Json) : Except String String :=
  match args[index]? with
  | some value => .ok (toText value)
  | none => .error s!"{name} requires {index + 1} argument(s)"

/-- The text with each occurrence of the first argument replaced by the second. -/
def replace : Filter := fun value args => do
  let pattern ← argText "replace" 0 args
  let image ← argText "replace" 1 args
  let text := (toText value).toList
  return .str (String.ofList (Text.replace pattern.toList image.toList text))

/-- The texts of a list with the first argument between each two; another value as its text. -/
def join : Filter := fun value args =>
  let separator := (args.head?.map toText).getD ""
  match value with
  | .arr items => .ok (.str (Text.joined separator (items.map toText)))
  | other => .ok (.str (toText other))

/-- How many items, members or characters a value has. -/
def length : Filter := fun value _ =>
  match value with
  | .arr items => .ok (Json.ofNat items.length)
  | .obj members => .ok (Json.ofNat members.length)
  | .str s => .ok (Json.ofNat s.length)
  | .null => .ok (Json.ofNat 0)
  | other => .error s!"{other.print} has no length"

/-- The filters by name. -/
def table : List (String × Filter) := [
  ("default", otherwise), ("upper", ofText Text.Case.upper), ("lower", ofText Text.Case.lower),
  ("capitalize", ofText Text.Case.capitalize), ("trim", ofText Text.trimmed),
  ("quote", ofText Text.ShellWord.quoted), ("replace", replace), ("join", join),
  ("length", length)]

/-- The names of the filters. -/
def names : List String := table.map (·.1)

end Filter

end Fleet.Template
