/-
# JSON values

A value is null, a boolean, a number, a string, an array or an object. Numbers are integers of at
most 64 bits or doubles, kept as their bits. An object is a list of members; text that repeats or
shuffles names is such a list too, and `normalize` gives the value that keeps the last member of
each name, in the order of the names.
-/

import Fleet.Dict

namespace Fleet

/-- A JSON value. -/
inductive Json where
  | null
  | bool (b : Bool)
  /-- An integer between -2⁶³ and 2⁶⁴ - 1. -/
  | int (n : Int)
  /-- A double, as its bits. -/
  | float (bits : UInt64)
  | str (s : String)
  | arr (items : List Json)
  | obj (members : List (String × Json))
  deriving Repr, Inhabited

namespace Json

mutual

/-- Equality of values is decided by walking both. -/
def decEq : (a b : Json) → Decidable (a = b)
  | null, b => match b with
    | null => isTrue rfl
    | bool _ | int _ | float _ | str _ | arr _ | obj _ => isFalse nofun
  | bool x, b => match b with
    | bool y => if h : x = y then isTrue (h ▸ rfl) else isFalse (fun e => h (bool.inj e))
    | null | int _ | float _ | str _ | arr _ | obj _ => isFalse nofun
  | int x, b => match b with
    | int y => if h : x = y then isTrue (h ▸ rfl) else isFalse (fun e => h (int.inj e))
    | null | bool _ | float _ | str _ | arr _ | obj _ => isFalse nofun
  | float x, b => match b with
    | float y => if h : x = y then isTrue (h ▸ rfl) else isFalse (fun e => h (float.inj e))
    | null | bool _ | int _ | str _ | arr _ | obj _ => isFalse nofun
  | str x, b => match b with
    | str y => if h : x = y then isTrue (h ▸ rfl) else isFalse (fun e => h (str.inj e))
    | null | bool _ | int _ | float _ | arr _ | obj _ => isFalse nofun
  | arr x, b => match b with
    | arr y => match decEqItems x y with
      | isTrue h => isTrue (h ▸ rfl)
      | isFalse h => isFalse (fun e => h (arr.inj e))
    | null | bool _ | int _ | float _ | str _ | obj _ => isFalse nofun
  | obj x, b => match b with
    | obj y => match decEqMembers x y with
      | isTrue h => isTrue (h ▸ rfl)
      | isFalse h => isFalse (fun e => h (obj.inj e))
    | null | bool _ | int _ | float _ | str _ | arr _ => isFalse nofun

/-- `decEq` on the items of two arrays. -/
def decEqItems : (x y : List Json) → Decidable (x = y)
  | [], y => match y with
    | [] => isTrue rfl
    | _ :: _ => isFalse nofun
  | a :: x, y => match y with
    | [] => isFalse nofun
    | b :: y => match decEq a b, decEqItems x y with
      | isTrue h, isTrue t => isTrue (h ▸ t ▸ rfl)
      | isFalse h, _ => isFalse (fun e => h (List.cons.inj e).1)
      | _, isFalse t => isFalse (fun e => t (List.cons.inj e).2)

/-- `decEq` on the members of two objects. -/
def decEqMembers : (x y : List (String × Json)) → Decidable (x = y)
  | [], y => match y with
    | [] => isTrue rfl
    | _ :: _ => isFalse nofun
  | (n, a) :: x, y => match y with
    | [] => isFalse nofun
    | (m, b) :: y =>
      if k : n = m then match decEq a b, decEqMembers x y with
        | isTrue h, isTrue t => isTrue (k ▸ h ▸ t ▸ rfl)
        | isFalse h, _ => isFalse (fun e => h (Prod.mk.inj (List.cons.inj e).1).2)
        | _, isFalse t => isFalse (fun e => t (List.cons.inj e).2)
      else isFalse (fun e => k (Prod.mk.inj (List.cons.inj e).1).1)

end

instance : DecidableEq Json := decEq

/-- The least integer that is a number of its own. -/
def leastInt : Int := -0x8000000000000000

/-- The greatest integer that is a number of its own. -/
def greatestInt : Int := 0xFFFFFFFFFFFFFFFF

mutual

/-- The value with the members of every object in the order of their names, the last one of each
name alone. -/
def normalize : Json → Json
  | arr items => arr (normalizeItems items)
  | obj members => obj (Dict.ofList (normalizeMembers members)).entries
  | null => null
  | bool b => bool b
  | int n => int n
  | float bits => float bits
  | str s => str s

/-- `normalize` on the items of an array. -/
def normalizeItems : List Json → List Json
  | [] => []
  | item :: rest => item.normalize :: normalizeItems rest

/-- `normalize` on the members of an object, which stay in their order. -/
def normalizeMembers : List (String × Json) → List (String × Json)
  | [] => []
  | (name, value) :: rest => (name, value.normalize) :: normalizeMembers rest

end

/-- An object with the bindings of a dictionary. -/
def ofDict (d : Dict String Json) : Json := obj d.entries

/-- An object with some members, in the order of their names. -/
def ofMembers (members : List (String × Json)) : Json := ofDict (Dict.ofList members)

/-- The value of a member, the first one where a name repeats. -/
def member? (j : Json) (name : String) : Option Json :=
  match j with
  | obj members => Dict.lookupEntry name members
  | _ => none

/-- A natural number as a value. -/
def ofNat (n : Nat) : Json := int n

/-- Strings as an array. -/
def ofStrings (l : List String) : Json := arr (l.map str)

/-- The text of a string value. -/
def asString? : Json → Option String
  | str s => some s
  | _ => none

/-- The items of an array. -/
def asArray? : Json → Option (List Json)
  | arr items => some items
  | _ => none

end Json

end Fleet
