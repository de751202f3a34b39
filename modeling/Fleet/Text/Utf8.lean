/-
# UTF-8

Texts as bytes and back. `encode` writes a text, `decode?` reads exactly the well-formed byte
strings, and `decodeLossy` reads every byte string: each longest prefix of a character that does
not continue as one becomes a single replacement character.
-/

namespace Fleet

/-- A string of bytes. -/
abbrev Bytes := List UInt8

namespace Text.Utf8

/-- The bytes of a text. -/
def encode (cs : List Char) : Bytes := cs.flatMap String.utf8EncodeChar

/-- Read `count` continuation bytes, the first of them between `lo` and `hi`. The first component
is the character if all are there; the second is what follows the bytes that fit. -/
def tails : (count : Nat) → (lo hi : UInt8) → (high : Nat) → Bytes → Option Char × Bytes
  | 0, _, _, high, rest => (some (Char.ofNat high), rest)
  | _ + 1, _, _, _, [] => (none, [])
  | n + 1, lo, hi, high, b :: rest =>
    if lo ≤ b && b ≤ hi then tails n 0x80 0xBF (high * 64 + (b.toNat - 0x80)) rest
    else (none, b :: rest)

/-- Read the character that starts with byte `b`, or pass over the longest prefix of one. -/
def decodeChar (b : UInt8) (rest : Bytes) : Option Char × Bytes :=
  if b < 0x80 then (some (Char.ofNat b.toNat), rest)
  else if b < 0xC2 then (none, rest)
  else if b ≤ 0xDF then tails 1 0x80 0xBF (b.toNat - 0xC0) rest
  else if b == 0xE0 then tails 2 0xA0 0xBF 0 rest
  else if b == 0xED then tails 2 0x80 0x9F 13 rest
  else if b ≤ 0xEF then tails 2 0x80 0xBF (b.toNat - 0xE0) rest
  else if b == 0xF0 then tails 3 0x90 0xBF 0 rest
  else if b ≤ 0xF3 then tails 3 0x80 0xBF (b.toNat - 0xF0) rest
  else if b == 0xF4 then tails 3 0x80 0x8F 4 rest
  else (none, rest)

theorem length_tails_le (count : Nat) (lo hi : UInt8) (high : Nat) (bytes : Bytes) :
    (tails count lo hi high bytes).2.length ≤ bytes.length := by
  induction count generalizing lo hi high bytes with
  | zero => simp [tails]
  | succ n ih =>
    cases bytes with
    | nil => simp [tails]
    | cons b rest =>
      unfold tails
      split
      · exact Nat.le_succ_of_le (ih ..)
      · simp

theorem length_decodeChar_le (b : UInt8) (rest : Bytes) :
    (decodeChar b rest).2.length ≤ rest.length := by
  unfold decodeChar
  repeat' split
  all_goals first | exact Nat.le_refl _ | exact length_tails_le ..

/-- The text that a byte string holds, with a replacement character for each ill-formed piece. -/
def decodeLossy : Bytes → List Char
  | [] => []
  | b :: rest =>
    (decodeChar b rest).1.getD '\uFFFD' :: decodeLossy (decodeChar b rest).2
termination_by bytes => bytes.length
decreasing_by
  have := length_decodeChar_le b rest
  simp only [List.length_cons]
  omega

/-- The text that a byte string encodes, if it is well-formed. -/
def decode? : Bytes → Option (List Char)
  | [] => some []
  | b :: rest =>
    match (decodeChar b rest).1 with
    | none => none
    | some c => (decode? (decodeChar b rest).2).map (c :: ·)
termination_by bytes => bytes.length
decreasing_by
  have := length_decodeChar_le b rest
  simp only [List.length_cons]
  omega

end Text.Utf8

/-- The bytes of a string. -/
def Text.Utf8.bytes (s : String) : Bytes := Text.Utf8.encode s.toList

/-- The string that a byte string encodes, if it is well-formed. -/
def Text.Utf8.text? (b : Bytes) : Option String := (Text.Utf8.decode? b).map String.ofList

end Fleet
