/-
# Decimal digits

The characters with the general category Nd. They come in blocks of ten, so a table of first
characters and block lengths describes them all.
-/

namespace Fleet.Text

/-- The first character and the length of each block of decimal digits. -/
def digitBlocks : List (Nat × Nat) := [
  (0x30, 10), (0x660, 10), (0x6F0, 10), (0x7C0, 10), (0x966, 10), (0x9E6, 10), (0xA66, 10),
  (0xAE6, 10), (0xB66, 10), (0xBE6, 10), (0xC66, 10), (0xCE6, 10), (0xD66, 10), (0xDE6, 10),
  (0xE50, 10), (0xED0, 10), (0xF20, 10), (0x1040, 10), (0x1090, 10), (0x17E0, 10), (0x1810, 10),
  (0x1946, 10), (0x19D0, 10), (0x1A80, 10), (0x1A90, 10), (0x1B50, 10), (0x1BB0, 10),
  (0x1C40, 10), (0x1C50, 10), (0xA620, 10), (0xA8D0, 10), (0xA900, 10), (0xA9D0, 10),
  (0xA9F0, 10), (0xAA50, 10), (0xABF0, 10), (0xFF10, 10), (0x104A0, 10), (0x10D30, 10),
  (0x10D40, 10), (0x11066, 10), (0x110F0, 10), (0x11136, 10), (0x111D0, 10), (0x112F0, 10),
  (0x11450, 10), (0x114D0, 10), (0x11650, 10), (0x116C0, 10), (0x116D0, 20), (0x11730, 10),
  (0x118E0, 10), (0x11950, 10), (0x11BF0, 10), (0x11C50, 10), (0x11D50, 10), (0x11DA0, 10),
  (0x11F50, 10), (0x16A60, 10), (0x16AC0, 10), (0x16B50, 10), (0x1CCF0, 10), (0x1D7CE, 50),
  (0x1E140, 10), (0x1E2F0, 10), (0x1E4F0, 10), (0x1E5F1, 10), (0x1E950, 10), (0x1FBF0, 10)]

/-- Whether a character is a decimal digit of any script. -/
def isDecimalDigit (c : Char) : Bool :=
  digitBlocks.any fun (first, length) => first ≤ c.toNat && c.toNat < first + length

/-- Whether a character is one of `0` to `9`. -/
def isAsciiDigit (c : Char) : Bool := '0' ≤ c && c ≤ '9'

/-- Whether a character is an ASCII letter. -/
def isAsciiLetter (c : Char) : Bool := ('a' ≤ c && c ≤ 'z') || ('A' ≤ c && c ≤ 'Z')

/-- The number that ASCII digits write in base ten, most significant digit first. -/
def ofDigits (cs : List Char) : Nat := cs.foldl (fun n c => n * 10 + (c.toNat - 48)) 0

/-- Reads an unsigned number: ASCII digits, at least one, after an optional plus sign. -/
def readNat? (cs : List Char) : Option Nat :=
  let digits := match cs with
    | '+' :: rest => rest
    | cs => cs
  if digits.isEmpty || !digits.all isAsciiDigit then none else some (ofDigits digits)

/-- Reads an unsigned number that is at most `bound`. -/
def readBounded? (bound : Nat) (cs : List Char) : Option Nat :=
  (readNat? cs).filter (· ≤ bound)

end Fleet.Text
