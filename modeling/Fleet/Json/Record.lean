/-
# Records

Reading a value as a record with named fields. An object gives the fields by name and may hold more
members than the record has fields; an array gives them by position. A field of a record is then
read by its own rule, from the value given or, where the field may be left out, from nothing.
-/

import Fleet.Json.Basic

namespace Fleet.Json

/-- The values given for the fields of a record. -/
abbrev Fields := Dict String Json

/-- Whether no name stands twice. -/
def distinct : List String → Bool
  | [] => true
  | name :: rest => !rest.contains name && distinct rest

/-- The fields that a value gives to a record. `none` where an object gives a field twice, where an
array gives more values than there are fields, and where the value is neither. -/
def fields? (names : List String) : Json → Option Fields
  | obj members =>
    let given := members.filter fun m => names.contains m.1
    if distinct (given.map (·.1)) then some (Dict.ofList given) else none
  | arr items => if items.length ≤ names.length then some (Dict.ofList (names.zip items)) else none
  | null | bool _ | int _ | float _ | str _ => none

/-- A field that must be given. -/
def Fields.required {α : Type} (fields : Fields) (name : String) (read : Json → Option α) :
    Option α :=
  (fields.get? name).bind read

/-- A field that has a value of its own where it is not given. -/
def Fields.optional {α : Type} (fields : Fields) (name : String) (otherwise : α)
    (read : Json → Option α) : Option α :=
  match fields.get? name with
  | none => some otherwise
  | some value => read value

/-- A truth value. -/
def asBool? : Json → Option Bool
  | bool b => some b
  | _ => none

/-- A natural number that is at most `bound`. -/
def asNat? (bound : Nat) : Json → Option Nat
  | int n => if 0 ≤ n && n ≤ bound then some n.toNat else none
  | _ => none

/-- A list, each item read by one rule. -/
def asList? {α : Type} (read : Json → Option α) : Json → Option (List α)
  | arr items => items.mapM read
  | _ => none

/-- A list of strings. -/
def asStrings? : Json → Option (List String) := asList? asString?

/-- A value that may be null. -/
def asOption? {α : Type} (read : Json → Option α) : Json → Option (Option α)
  | null => some none
  | value => (read value).map some

/-- A dictionary of values. Where a name repeats, the last member counts. -/
def asDict? : Json → Option (Dict String Json)
  | obj members => some (Dict.ofList (normalizeMembers members))
  | _ => none

/-- A value, in its normal form. -/
def asJson? (j : Json) : Option Json := some j.normalize

/-- One of some words, given as a string or as the only name of an object that binds it to null. -/
def asWord? {α : Type} (read : String → Option α) : Json → Option α
  | str s => read s
  | obj [(name, null)] => read name
  | _ => none

/-- A member that is written only where its list has items. -/
def memberUnlessEmpty (name : String) (items : List Json) : List (String × Json) :=
  if items.isEmpty then [] else [(name, arr items)]

end Fleet.Json
