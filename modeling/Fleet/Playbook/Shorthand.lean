/-
# Arguments in shorthand

Arguments written on one line: `key=value` pairs and other words, separated by single spaces. The
words that are no pair make the positional argument, which is always there. `format` writes string
arguments in this form. Lists of names have a shorthand too: names with commas between them.
-/

import Fleet.Json.Reader
import Fleet.Playbook.Basic

namespace Fleet.Shorthand

/-- The text inside the quotes where a value is one quoted text, and else the value itself. Between
double quotes stands a JSON string. -/
def unquote (cs : List Char) : List Char :=
  if 2 ≤ cs.length && cs.head? == some '"' && cs.getLast? == some '"' then
    match Json.read? cs with
    | some (.str s) => s.toList
    | _ => cs
  else if 2 ≤ cs.length && cs.head? == some '\'' && cs.getLast? == some '\'' then
    cs.tail.dropLast
  else cs

/-- The pair that a word writes: a key that is not empty, and an unquoted value. -/
def pair? (word : List Char) : Option (List Char × List Char) :=
  match Text.cutFirst? '=' word with
  | some (key, value) => if key.isEmpty then none else some (key, unquote value)
  | none => none

/-- The arguments that a line writes. Where a key repeats, the last pair counts; a pair for the
positional key gives way to the positional words. -/
def parse (line : String) : Args :=
  let words := Text.splitOn ' ' line.toList
  let pairs := words.filterMap fun word =>
    (pair? word).map fun (key, value) => (String.ofList key, Json.str (String.ofList value))
  let rest := words.filter fun word => (pair? word).isNone
  (Dict.ofList pairs).insert positionalArg (.str (String.ofList (Text.join [' '] rest)))

/-- The pair that writes an argument, if its value is a string. -/
def formatPair? (name : String) : Json → Option String
  | .str value => some s!"{name}={value}"
  | _ => none

/-- The line that writes the string arguments: pairs in the order of their keys, then the
positional words. -/
def format (args : Args) : String :=
  let pairs := (args.erase positionalArg).entries.filterMap fun a => formatPair? a.1 a.2
  let rest := match args.get? positionalArg with
    | some (.str s) => if s.isEmpty then [] else [s]
    | _ => []
  Text.joined " " (pairs ++ rest)

/-- The parts between commas; blanks behind a comma belong to it. -/
def splitCommas : List Char → List (List Char)
  | cs => (Text.splitOn ',' cs).mapIdx fun i part => if i = 0 then part else Text.trimStart part

/-- The names of a list written with commas. -/
def names (line : String) : List String :=
  ((splitCommas (Text.trim line.toList)).filter fun part => !part.isEmpty).map String.ofList

end Fleet.Shorthand
