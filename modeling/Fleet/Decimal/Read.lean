/-
# Reading decimals

From digits, point and exponent to the nearest double. Numbers far outside the range of doubles
are settled by their size alone, so no huge power is ever computed.
-/

import Fleet.Text.Digit

namespace Fleet.Decimal

/-- The double nearest to `± mantissa · 10 ^ exponent`, as bits. -/
def nearest (negative : Bool) (mantissa : Nat) (exponent : Int) : UInt64 :=
  let sign : UInt64 := if negative then 0x8000000000000000 else 0
  let places := exponent + (toString mantissa).length
  let magnitude : UInt64 :=
    if mantissa == 0 || places < -330 then 0
    else if 330 < places then 0x7FF0000000000000
    else (Float.ofScientific mantissa (exponent < 0) exponent.natAbs).toBits
  sign ||| magnitude

/-- Whether the bits are those of a finite double. -/
def isFinite (bits : UInt64) : Bool := bits &&& 0x7FF0000000000000 != 0x7FF0000000000000

/-- The parts of a decimal: digits before the point, digits behind it, and the exponent. -/
structure Parts where
  whole : List Char
  fraction : List Char
  exponent : Int

/-- The digits of an exponent after its sign; `none` where there is none or something else. -/
def readExponent? (cs : List Char) : Option Int :=
  let unsigned (digits : List Char) : Option Nat :=
    if digits.isEmpty || !digits.all Text.isAsciiDigit then none
    else some (Text.ofDigits (digits.dropWhile (· == '0') |>.take 8))
  match cs with
  | '-' :: rest => (unsigned rest).map fun n => -(n : Int)
  | '+' :: rest => (unsigned rest).map fun n => (n : Int)
  | rest => (unsigned rest).map fun n => (n : Int)

/-- Split a decimal without sign: digits on at least one side of an optional point, then perhaps
`e` or `E` and an exponent. -/
def parts? (cs : List Char) : Option Parts :=
  let whole := cs.takeWhile Text.isAsciiDigit
  let rest := cs.dropWhile Text.isAsciiDigit
  let (fraction, rest) := match rest with
    | '.' :: tail => (tail.takeWhile Text.isAsciiDigit, tail.dropWhile Text.isAsciiDigit)
    | rest => ([], rest)
  if whole.isEmpty && fraction.isEmpty then none
  else match rest with
    | [] => some ⟨whole, fraction, 0⟩
    | c :: tail =>
      if c == 'e' || c == 'E' then (readExponent? tail).map fun e => ⟨whole, fraction, e⟩ else none

/-- Read a decimal with an optional sign as the bits of the nearest double. -/
def read? (cs : List Char) : Option UInt64 :=
  let (negative, body) := match cs with
    | '-' :: rest => (true, rest)
    | '+' :: rest => (false, rest)
    | rest => (false, rest)
  (parts? body).map fun p =>
    nearest negative (Text.ofDigits (p.whole ++ p.fraction)) (p.exponent - p.fraction.length)

end Fleet.Decimal
