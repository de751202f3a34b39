/-
# Layouts of decimals

How a shortest decimal is written out: with a point among the digits where the number is neither
large nor small, with an exponent otherwise. The choices are one record, so that a format is a
value and its readers need not look into the code that writes it.
-/

import Fleet.Decimal.Shortest

namespace Fleet.Decimal

/-- The choices of a layout for doubles. -/
structure Layout where
  /-- The greatest number of places before the point that is written without an exponent. -/
  mostPlaces : Int
  /-- The least such number; zero and below count zeros behind the point. -/
  leastPlaces : Int
  /-- Whether an integer ends in `.0`. -/
  pointZero : Bool
  /-- What stands before an exponent that is not negative. -/
  plus : String
  deriving Repr

/-- Doubles in JSON text: `0.00001` to `9999999999999998.0` positionally, and else `1e-6` and
`1e+16`. -/
def jsonLayout : Layout := ⟨16, -4, true, "+"⟩

/-- `count` zeros. -/
def zeros (count : Nat) : String := String.ofList (List.replicate count '0')

/-- Write a decimal that is not negative. -/
def Layout.write (layout : Layout) (s : Scientific) : String :=
  let digits := toString s.digits
  let length : Int := digits.length
  if s.digits == 0 then if layout.pointZero then "0.0" else "0"
  else
    let places := length + s.exponent
    if layout.leastPlaces ≤ places && places ≤ layout.mostPlaces then
      if 0 ≤ s.exponent then
        digits ++ zeros s.exponent.toNat ++ (if layout.pointZero then ".0" else "")
      else if 0 < places then
        String.ofList (digits.toList.take places.toNat) ++ "." ++
          String.ofList (digits.toList.drop places.toNat)
      else "0." ++ zeros (-places).toNat ++ digits
    else
      let head := String.ofList (digits.toList.take 1)
      let tail := String.ofList (digits.toList.drop 1)
      let exponent := places - 1
      head ++ (if tail.isEmpty then "" else "." ++ tail) ++ "e" ++
        (if exponent < 0 then "-" else layout.plus) ++ toString exponent.natAbs

/-- Write a double; one that is not finite has no text. -/
def Layout.writeBits? (layout : Layout) (bits : UInt64) : Option String :=
  match classify bits with
  | .finite negative b => some ((if negative then "-" else "") ++ layout.write (shortest b))
  | _ => none

/-- A quotient rounded to the nearest integer, a half going to the even neighbour. -/
def roundDiv (num den : Nat) : Nat :=
  let quotient := num / den
  let twice := 2 * (num % den)
  if twice < den then quotient
  else if den < twice then quotient + 1
  else if quotient % 2 == 0 then quotient else quotient + 1

/-- A double that is not negative with two places behind the point, rounded from its exact value. -/
def twoPlaces (bits : UInt64) : String :=
  match classify bits with
  | .finite _ b =>
    let r := ratio (b.mantissa * 100) b.exponent 0
    let hundredths := roundDiv r.num r.den
    let cents := hundredths % 100
    toString (hundredths / 100) ++ "." ++ (if cents < 10 then "0" else "") ++ toString cents
  | _ => ""

end Fleet.Decimal
