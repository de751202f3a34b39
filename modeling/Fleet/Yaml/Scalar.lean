/-
# Plain values of YAML

What a scalar stands for. A plain scalar is null, a boolean, an integer or a float if it is spelled
like one, and else a string. Any other scalar is a string, unless a tag says what it is.
-/

import Fleet.Decimal.Read
import Fleet.Yaml.Tree

namespace Fleet.Yaml

/-- What a scalar stands for. -/
inductive Scalar where
  | null
  | bool (b : Bool)
  | int (n : Int)
  /-- An integer of more than 64 and at most 128 bits. -/
  | wide
  | float (bits : UInt64)
  | str (s : String)
  deriving DecidableEq, Repr, Inhabited

namespace Scalar

/-- The spellings of null. -/
def isNull (s : String) : Bool := ["null", "Null", "NULL", "~"].contains s

/-- The spellings of the booleans. -/
def bool? (s : String) : Option Bool :=
  if ["true", "True", "TRUE"].contains s then some true
  else if ["false", "False", "FALSE"].contains s then some false
  else none

/-- The value of a digit in some base. -/
def digit? (base : Nat) (c : Char) : Option Nat := (Quoted.hexValue? c).filter (· < base)

/-- The number that digits of some base write; there must be one. -/
def digits? (base : Nat) (cs : List Char) : Option Nat :=
  if cs.isEmpty then none else cs.foldlM (fun n c => (digit? base c).map (n * base + ·)) 0

/-- The text behind a start, if it starts so. -/
def behind? (start : String) (cs : List Char) : Option (List Char) :=
  if start.toList.isPrefixOf cs then some (cs.drop start.length) else none

/-- Whether a text has more than one digit and begins with zero: it is no number. -/
def hasLeadingZero (cs : List Char) : Bool :=
  let cs := match cs with
    | '-' :: rest => rest
    | '+' :: rest => rest
    | cs => cs
  1 < cs.length && cs.head? == some '0' && cs.tail.all Text.isAsciiDigit

/-- The starts of numbers that are not in base ten. -/
def bases : List (String × Nat) := [("0x", 16), ("0o", 8), ("0b", 2)]

/-- The number behind the start of one of the bases, after a sign. -/
def based? (sign : String) (cs : List Char) : Option Nat :=
  bases.findSome? fun (start, base) => (behind? (sign ++ start) cs).bind (digits? base)

/-- The integer that a text writes without a minus sign. -/
def unsigned? (cs : List Char) : Option Nat :=
  let body := match cs with
    | '+' :: rest => rest
    | cs => cs
  match based? "" body with
  | some n => some n
  | none => if hasLeadingZero cs then none else digits? 10 body

/-- The integer that a text writes with a minus sign, without the sign. -/
def negative? (cs : List Char) : Option Nat :=
  match based? "-" cs with
  | some n => some n
  | none => if hasLeadingZero cs then none else (behind? "-" cs).bind (digits? 10)

/-- An unsigned integer that fits in so many bits. -/
def unsignedIn? (bits : Nat) (cs : List Char) : Option Nat :=
  (unsigned? cs).filter (· < Nat.pow 2 bits)

/-- A negative integer that fits in so many bits. -/
def negativeIn? (bits : Nat) (cs : List Char) : Option Int :=
  ((negative? cs).filter (· ≤ Nat.pow 2 (bits - 1))).map fun n => -(n : Int)

/-- The integer that a text writes. -/
def int? (cs : List Char) : Option Scalar :=
  match unsignedIn? 64 cs, negativeIn? 64 cs with
  | some n, _ => some (int n)
  | none, some n => some (int n)
  | none, none =>
    if (unsignedIn? 128 cs).isSome || (negativeIn? 128 cs).isSome then some wide else none

/-- Infinity. -/
def infinity : UInt64 := 0x7FF0000000000000

/-- The value that is no number. -/
def notANumber : UInt64 := 0x7FF8000000000000

/-- The float that a text writes. -/
def float? (cs : List Char) : Option UInt64 :=
  let s := String.ofList cs
  let hasPlus := cs.head? == some '+'
  let body := if hasPlus then cs.tail else cs
  if hasPlus && (body.head? == some '+' || body.head? == some '-') then none
  else if [".inf", ".Inf", ".INF"].contains (String.ofList body) then some infinity
  else if ["-.inf", "-.Inf", "-.INF"].contains s then some (infinity ||| 0x8000000000000000)
  else if [".nan", ".NaN", ".NAN"].contains s then some notANumber
  else (Decimal.read? body).filter Decimal.isFinite

/-- What a plain scalar stands for. -/
def ofPlain (s : String) : Scalar :=
  if s.isEmpty || isNull s then null
  else
    match bool? s with
    | some b => bool b
    | none =>
      match int? s.toList with
      | some n => n
      | none =>
        if hasLeadingZero s.toList then str s
        else
          match float? s.toList with
          | some bits => float bits
          | none => str s

/-- What a scalar stands for by the way it is written. -/
def ofStyle (style : Style) (s : String) : Scalar :=
  if style = .plain then ofPlain s else str s

/-- What a scalar stands for. A tag may ask for one kind of value and refuse all others. -/
def ofTagged? (tag : Option Tag) (style : Style) (s : String) : Option Scalar :=
  match tag with
  | some .bool => (bool? s).map bool
  | some .int => int? s.toList
  | some .float => (float? s.toList).map float
  | some .null => if isNull s then some null else none
  | some .other => some (str s)
  | some (.own _) | none => some (ofStyle style s)

end Scalar

end Fleet.Yaml
