/-
# Permission bits

Modes of files as numbers, their octal text, and the modes that a file gets when it is shipped.
-/

import Fleet.Text.Split

namespace Fleet.Mode

/-- The greatest mode: all permission bits, and the three above them. -/
def greatest : Nat := 0o7777

/-- Whether a character is an octal digit. -/
def isOctalDigit (c : Char) : Bool := '0' ≤ c && c ≤ '7'

/-- The number that octal digits write. -/
def ofOctal (cs : List Char) : Nat := cs.foldl (fun n c => n * 8 + (c.toNat - 48)) 0

/-- The mode that a text writes in octal digits; blanks around it do not count. -/
def parse? (text : String) : Option Nat :=
  let digits := Text.trim text.toList
  if digits.isEmpty || !digits.all isOctalDigit then none
  else if ofOctal digits ≤ greatest then some (ofOctal digits) else none

/-- The text of the error for a text that writes no mode. -/
def invalidMessage (text : String) : String := s!"Mode '{text}' is not an octal permission value"

/-- What a mode leaves of some permissions. -/
def masked (permissions umask : Nat) : Nat := permissions &&& (0o7777 ^^^ (umask &&& 0o7777))

/-- The mode that a file ships with: read and write for everyone, and execution for everyone if its
owner may execute it. -/
def shipped (mode : Nat) : Nat :=
  let wide := (mode &&& 0o777) ||| 0o666
  if wide &&& 0o100 = 0 then wide else wide ||| 0o111

end Fleet.Mode
