/-
# Rendering

A text without opening braces stays as it is. Any other is converted, the variables it needs are
looked up, and only then is anything written: a variable without a value fails the whole text.
-/

import Fleet.Playbook.Basic
import Fleet.Template.Braces
import Fleet.Template.Convert
import Fleet.Text.Utf8

namespace Fleet.Template

/-- Why a text cannot be rendered. -/
inductive TemplateError where
  | undefinedVariable (name : String)
  | conversionFailed (e : ParseError)
  | renderingFailed (e : Braces.RenderError)
  | notUtf8
  deriving DecidableEq, Repr

/-- The text of an error. -/
def TemplateError.message : TemplateError → String
  | undefinedVariable name => s!"Undefined variable '{name}' in template"
  | conversionFailed e => s!"Template conversion failed: {e.message}"
  | renderingFailed e => s!"Template rendering failed: {e.message}"
  | notUtf8 => "Template output is not valid UTF-8"

/-- The value that keys lead to, by name in mappings and by number in lists. -/
def lookup? : Json → List (List Char) → Option Json
  | value, [] => some value
  | .obj members, key :: rest => do lookup? (← Dict.lookupEntry (String.ofList key) members) rest
  | .arr items, key :: rest => do
    let index ← Text.readBounded? Braces.greatestIndex key
    lookup? (← items[index]?) rest
  | _, _ :: _ => none

/-- Whether a text has opening braces. -/
def hasOpening : List Char → Bool
  | [] => false
  | c :: rest => opening.isPrefixOf (c :: rest) || hasOpening rest

/-- Render a text with some variables. -/
def renderChars (vars : Vars) (cs : List Char) : Except TemplateError (List Char) :=
  if hasOpening cs then
    match convert Filter.names cs with
    | .error e => .error (.conversionFailed e)
    | .ok c =>
      let scope := Json.ofDict vars
      match c.required.find? fun keys => (lookup? scope keys).isNone with
      | some keys => .error (.undefinedVariable (String.ofList (Text.join ['.'] keys)))
      | none =>
        match Braces.render scope c.text with
        | .ok text => .ok text
        | .error e => .error (.renderingFailed e)
  else .ok cs

/-- Render a string. -/
def render (vars : Vars) (s : String) : Except TemplateError String :=
  (renderChars vars s.toList).map String.ofList

/-- Render a value that is a string; any other stays as it is. -/
def renderValue (vars : Vars) : Json → Except TemplateError Json
  | .str s => (render vars s).map .str
  | value => .ok value

/-- Render a text that is held as bytes. -/
def renderBytes (vars : Vars) (bytes : Bytes) : Except TemplateError Bytes :=
  match Text.Utf8.decode? bytes with
  | none => .error .notUtf8
  | some cs => (renderChars vars cs).map Text.Utf8.encode

end Fleet.Template
