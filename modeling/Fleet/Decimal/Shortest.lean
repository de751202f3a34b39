/-
# Shortest decimals

The fewest decimal digits that read back as a given double. A double stands for the interval of
reals that round to it; for one digit, two digits, and so on, the two neighbours of the double on
that decimal grid are tested in exact arithmetic. The first grid with a neighbour inside wins, and
on it the nearer neighbour, the even one where both are equally near.
-/

namespace Fleet.Decimal

/-- A number `digits · 10 ^ exponent`. -/
structure Scientific where
  digits : Nat
  exponent : Int
  deriving DecidableEq, Repr

/-- The magnitude of a finite double as `mantissa · 2 ^ exponent`, and whether the double below it
is only half as far away as the one above it. -/
structure Binary where
  mantissa : Nat
  exponent : Int
  narrow : Bool
  deriving DecidableEq, Repr

/-- What the bits of a double stand for. -/
inductive Class where
  | nan
  | infinity (negative : Bool)
  | finite (negative : Bool) (magnitude : Binary)
  deriving DecidableEq, Repr

/-- Read the bits of a double. -/
def classify (bits : UInt64) : Class :=
  let n := bits.toNat
  let negative : Bool := 0x8000000000000000 ≤ n
  let biased : Nat := n / 0x10000000000000 % 2048
  let fraction : Nat := n % 0x10000000000000
  if biased == 2047 then
    if fraction == 0 then .infinity negative else .nan
  else if biased == 0 then .finite negative ⟨fraction, -1074, false⟩
  else
    .finite negative
      ⟨0x10000000000000 + fraction, (biased : Int) - 1075, fraction == 0 && biased > 1⟩

/-- A quotient of natural numbers; the denominator is positive wherever one is made here. -/
structure Ratio where
  num : Nat
  den : Nat

/-- `a · 2 ^ p · 10 ^ q` as a quotient. -/
def ratio (a : Nat) (p q : Int) : Ratio :=
  ⟨a * Nat.pow 2 p.toNat * Nat.pow 10 q.toNat, Nat.pow 2 (-p).toNat * Nat.pow 10 (-q).toNat⟩

/-- Whether one quotient is at most another. -/
def Ratio.le (x y : Ratio) : Bool := x.num * y.den ≤ y.num * x.den

/-- Whether one quotient is below another. -/
def Ratio.lt (x y : Ratio) : Bool := x.num * y.den < y.num * x.den

/-- The greatest `k` with `10 ^ k` at most the number, for a number that is not zero. -/
def magnitude (b : Binary) : Int :=
  let guess := ((Nat.log2 b.mantissa : Int) + b.exponent) * 30103 / 100000
  let value (k : Int) := ratio b.mantissa b.exponent (-k)
  if (ratio 1 0 0).le (value (guess + 1)) then guess + 1
  else if (ratio 1 0 0).le (value guess) then guess
  else guess - 1

/-- Whether `n · 10 ^ k` rounds to the double. -/
def roundsTo (b : Binary) (n : Nat) (k : Int) : Bool :=
  let x := ratio (4 * n) 0 k
  let high := ratio (4 * b.mantissa + 2) b.exponent 0
  let low := ratio (4 * b.mantissa - (if b.narrow then 1 else 2)) b.exponent 0
  if b.mantissa % 2 == 0 then low.le x && x.le high else low.lt x && x.lt high

/-- The neighbour of the double on the grid of multiples of `10 ^ k` that rounds to it; the nearer
one where both do. -/
def onGrid? (b : Binary) (k : Int) : Option Nat :=
  let scaled := ratio b.mantissa b.exponent (-k)
  let below := scaled.num / scaled.den
  match roundsTo b below k, roundsTo b (below + 1) k with
  | false, false => none
  | true, false => some below
  | false, true => some (below + 1)
  | true, true =>
    let twice := 2 * (scaled.num - below * scaled.den)
    if twice < scaled.den then some below
    else if scaled.den < twice then some (below + 1)
    else if below % 2 == 0 then some below else some (below + 1)

/-- Move the zeros at the end of the digits into the exponent. -/
def stripZeros : (fuel : Nat) → Scientific → Scientific
  | 0, s => s
  | fuel + 1, s =>
    if s.digits % 10 == 0 && s.digits != 0 then stripZeros fuel ⟨s.digits / 10, s.exponent + 1⟩
    else s

/-- The shortest decimal among grids of `count`, `count + 1`, … up to seventeen digits. -/
def search (b : Binary) (top : Int) : (remaining : Nat) → Scientific
  | 0 => ⟨b.mantissa, 0⟩
  | remaining + 1 =>
    let k := top - (17 - ((remaining : Int) + 1))
    match onGrid? b k with
    | some n => stripZeros 20 ⟨n, k⟩
    | none => search b top remaining

/-- The shortest decimal that rounds to a finite double. -/
def shortest (b : Binary) : Scientific :=
  if b.mantissa == 0 then ⟨0, 0⟩ else search b (magnitude b) 17

end Fleet.Decimal
