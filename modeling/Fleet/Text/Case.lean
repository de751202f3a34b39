/-
# Upper and lower case

The full case mappings of Unicode: a character may become several. Lower case of a whole text has
one rule that looks around: a capital sigma that ends a word becomes the final form, where the
characters of the property Case_Ignorable do not count as ends.
-/

import Fleet.Text.Case.Table

namespace Fleet.Text.Case

/-- The shift of the run that holds a character, if one does. -/
def shiftIn (runs : Array (Nat × Nat × Nat × Int)) (n : Nat) : Option Int :=
  (runs.find? fun (first, last, step, _) => first ≤ n && n ≤ last && (n - first) % step == 0).map
    fun (_, _, _, shift) => shift

/-- The image of a character under runs and expansions, the character itself where neither has
it. -/
def mapChar (runs : Array (Nat × Nat × Nat × Int)) (expansions : Array (Nat × List Nat))
    (c : Char) : List Char :=
  match expansions.find? (fun e => e.1 == c.toNat) with
  | some (_, image) => image.map Char.ofNat
  | none =>
    match shiftIn runs c.toNat with
    | some shift => [Char.ofNat ((c.toNat : Int) + shift).toNat]
    | none => [c]

/-- The upper-case form of one character. -/
def upperChar (c : Char) : List Char :=
  if c.toNat < 128 then [c.toUpper] else mapChar upperRuns upperExpansions c

/-- The lower-case form of one character, whatever stands beside it. -/
def lowerChar (c : Char) : List Char :=
  if c.toNat < 128 then [c.toLower] else mapChar lowerRuns lowerExpansions c

/-- Whether a character lies in one of some ranges. -/
def inRanges (ranges : Array (Nat × Nat)) (c : Char) : Bool :=
  ranges.any fun (first, last) => first ≤ c.toNat && c.toNat ≤ last

/-- Whether the first character that is not ignorable has case. -/
def startsCased (cs : List Char) : Bool :=
  match cs.dropWhile (inRanges ignorableRanges) with
  | [] => false
  | c :: _ => inRanges casedRanges c

/-- Lower case of a text, given the characters that stand before it, nearest first. -/
def lowerAfter : List Char → List Char → List Char
  | _, [] => []
  | before, 'Σ' :: rest =>
    (if startsCased before && !startsCased rest then 'ς' else 'σ') ::
      lowerAfter ('Σ' :: before) rest
  | before, c :: rest => lowerChar c ++ lowerAfter (c :: before) rest

/-- The upper-case form of a text. -/
def upper (s : String) : String := String.ofList (s.toList.flatMap upperChar)

/-- The lower-case form of a text. -/
def lower (s : String) : String := String.ofList (lowerAfter [] s.toList)

/-- The text with its first character in upper case and each other one in lower case. -/
def capitalize (s : String) : String :=
  match s.toList with
  | [] => ""
  | c :: rest => String.ofList (upperChar c ++ rest.flatMap lowerChar)

end Fleet.Text.Case
