/-
# Written values are read back

`read?_printChars` says that the text of a value is read as that value if every number in it is an
integer and it nests no deeper than the reader goes. Each part of the reader is shown to take back
what the writer makes of its part and to leave the text behind it: a character of a string, a
string, the digits of a number, a value, the items of an array, the members of an object. No text
of a value holds a line feed (`newline_notMem_printChars`).

A value that nests as deep as the reader's limit is refused. The values before the deep part are
read, and then the brackets run out; so among the values without doubles those that nest less deep
are read back, and no others (`read?_printChars_eq`).
-/

import Fleet.Json.Printer
import Fleet.Json.Reader
import Fleet.Proofs.Decimal.Format
import Fleet.Proofs.Text.Split

namespace Fleet.Json

/-! ## Nesting and numbers -/

mutual

/-- How many arrays and objects stand around the innermost value. -/
def depth : Json → Nat
  | arr items => depthItems items + 1
  | obj members => depthMembers members + 1
  | null | bool _ | int _ | float _ | str _ => 0

/-- The greatest depth of some items. -/
def depthItems : List Json → Nat
  | [] => 0
  | item :: rest => max item.depth (depthItems rest)

/-- The greatest depth of the values of some members. -/
def depthMembers : List (String × Json) → Nat
  | [] => 0
  | (_, value) :: rest => max value.depth (depthMembers rest)

end

mutual

/-- Every number in the value is an integer of 64 bits. -/
def IsIntegral : Json → Prop
  | int n => leastInt ≤ n ∧ n ≤ greatestInt
  | float _ => False
  | arr items => AreIntegral items
  | obj members => HasIntegral members
  | null | bool _ | str _ => True

/-- `IsIntegral` of the items of an array. -/
def AreIntegral : List Json → Prop
  | [] => True
  | item :: rest => item.IsIntegral ∧ AreIntegral rest

/-- `IsIntegral` of the values of the members of an object. -/
def HasIntegral : List (String × Json) → Prop
  | [] => True
  | (_, value) :: rest => value.IsIntegral ∧ HasIntegral rest

end

mutual

/-- `IsIntegral` is decided by walking the value. -/
def decideIntegral : (j : Json) → Decidable j.IsIntegral
  | int n => inferInstanceAs (Decidable (leastInt ≤ n ∧ n ≤ greatestInt))
  | float _ => isFalse id
  | arr items => decideItems items
  | obj members => decideMembers members
  | null | bool _ | str _ => isTrue trivial

/-- `decideIntegral` on the items of an array. -/
def decideItems : (items : List Json) → Decidable (AreIntegral items)
  | [] => isTrue trivial
  | item :: rest => @instDecidableAnd _ _ (decideIntegral item) (decideItems rest)

/-- `decideIntegral` on the values of the members of an object. -/
def decideMembers : (members : List (String × Json)) → Decidable (HasIntegral members)
  | [] => isTrue trivial
  | (_, value) :: rest => @instDecidableAnd _ _ (decideIntegral value) (decideMembers rest)

end

instance : DecidablePred IsIntegral := decideIntegral

variable {c : Char} {cs ds more rest : List Char} {fuel n : Nat}

/-! ## Strings -/

/-- Put a character before a string that is read. -/
def consRead (c : Char) : List Char × List Char → List Char × List Char
  | (chars, left) => (c :: chars, left)

theorem readString_letter {e : Char} (letter : unescape? e = some c) :
    readString (fuel + 1) ('\\' :: e :: cs) = (readString fuel cs).map (consRead c) := by
  have other : e ≠ 'u' := by
    rintro rfl
    cases letter
  rw [readString, if_neg (by decide), if_pos (by decide), letter, Option.map_eq_bind]
  · rfl
  · exact other

theorem readString_plain (quote : c ≠ '"') (backslash : c ≠ '\\') (control : ¬ c.toNat < 32) :
    readString (fuel + 1) (c :: cs) = (readString fuel cs).map (consRead c) := by
  rw [readString.eq_def]
  simp only [beq_iff_eq, if_neg quote, if_neg backslash, if_neg control, Option.map_eq_bind]
  rfl

theorem hexValue?_hexDigit : ∀ n < 16, hexValue? (hexDigit n) = some n := by decide

theorem readUnicode_of_lt (control : n < 32) :
    readUnicode ('0' :: '0' :: hexDigit (n / 16) :: hexDigit (n % 16) :: rest) =
      some (Char.ofNat n, rest) := by
  have zero : hexValue? '0' = some 0 := rfl
  have written : n / 16 * 16 + n % 16 = n := by omega
  have low : ¬ 0xDC00 ≤ n := by omega
  have high : ¬ 0xD800 ≤ n := by omega
  simp [readUnicode, readHex4, zero, hexValue?_hexDigit (n / 16) (by omega),
    hexValue?_hexDigit (n % 16) (by omega), written, low, high]

theorem readString_control (control : c.toNat < 32) :
    readString (fuel + 1)
      ('\\' :: 'u' :: '0' :: '0' :: hexDigit (c.toNat / 16) :: hexDigit (c.toNat % 16) :: cs) =
      (readString fuel cs).map (consRead c) := by
  rw [readString, if_neg (by decide), if_pos (by decide)]
  simp only [readUnicode_of_lt control, Char.ofNat_toNat, Option.map_eq_bind]
  rfl

/-- What stands for a character between quotes is read as that character. -/
theorem readString_escape (c : Char) (cs : List Char) :
    readString (fuel + 1) (escape c ++ cs) = (readString fuel cs).map (consRead c) := by
  unfold escape
  -- One case for each character with a letter of its own.
  iterate 7
    split
    · next same =>
        obtain rfl := beq_iff_eq.1 same
        exact readString_letter rfl
  split
  · next control => exact readString_control control
  · next quote backslash _ _ _ _ _ control =>
      exact readString_plain (by simpa using quote) (by simpa using backslash) control

/-- A string is read back up to its closing quote. -/
theorem readString_flatMap_escape (enough : cs.length < fuel) :
    readString fuel (cs.flatMap escape ++ '"' :: rest) = some (cs, rest) := by
  induction cs generalizing fuel with
  | nil =>
      cases fuel with
      | zero => contradiction
      | succ fuel => rfl
  | cons c cs ih =>
      cases fuel with
      | zero => contradiction
      | succ fuel =>
          rw [List.flatMap_cons, List.append_assoc, readString_escape,
            ih (Nat.lt_of_succ_lt_succ enough)]
          rfl

theorem escape_ne_nil (c : Char) : escape c ≠ [] := by
  unfold escape
  repeat' split
  all_goals exact List.cons_ne_nil _ _

/-- A reader of values gives the reader of strings as many steps as there are characters. -/
theorem readString_quoted (cs : List Char) :
    readString ((cs.flatMap escape ++ '"' :: rest).length + 1)
      (cs.flatMap escape ++ '"' :: rest) = some (cs, rest) := by
  refine readString_flatMap_escape ?_
  have grows := Text.length_le_length_flatMap escape_ne_nil cs
  rw [List.length_append]
  omega

/-! ## Numbers -/

/-- A number is written without zeros before it. -/
theorem head?_toDigits_ne (pos : 0 < n) : (Nat.toDigits 10 n).head? ≠ some '0' := by
  induction n using Nat.strongRecOn with
  | ind n ih =>
      by_cases small : n < 10
      · rw [Nat.toDigits_of_lt_base small]
        simpa using Nat.pos_iff_ne_zero.1 pos
      · have higher := ih (n / 10) (by omega) (by omega)
        have written : Nat.toDigits 10 (n / 10) ≠ [] := Nat.toDigits_ne_nil
        rw [Nat.toDigits_of_base_le (by decide) (Nat.le_of_not_lt small), List.head?_append,
          Option.or_of_isSome (List.isSome_head?.2 written)]
        exact higher

/-- No number goes on with the text. -/
def EndsNumber (rest : List Char) : Prop :=
  ∀ c ∈ rest.head?, Text.isAsciiDigit c = false ∧ c ≠ '.' ∧ c ≠ 'e' ∧ c ≠ 'E'

theorem endsNumber_nil : EndsNumber [] := nofun

theorem endsNumber_cons (digit : Text.isAsciiDigit c = false) (point : c ≠ '.') (small : c ≠ 'e')
    (capital : c ≠ 'E') : EndsNumber (c :: rest) := by
  rintro d ⟨⟩
  exact ⟨digit, point, small, capital⟩

theorem endsNumber_comma : EndsNumber (',' :: rest) :=
  endsNumber_cons rfl (by decide) (by decide) (by decide)

theorem endsNumber_bracket : EndsNumber (']' :: rest) :=
  endsNumber_cons rfl (by decide) (by decide) (by decide)

theorem endsNumber_brace : EndsNumber ('\x7d' :: rest) :=
  endsNumber_cons rfl (by decide) (by decide) (by decide)

theorem EndsNumber.any (ends : EndsNumber rest) : rest.head?.any Text.isAsciiDigit = false := by
  cases rest with
  | nil => rfl
  | cons c rest => exact (ends c rfl).1

/-- Take one more digit. -/
def addDigit (n : Nat) (c : Char) : Nat := n * 10 + (c.toNat - 48)

theorem le_foldl_addDigit : n ≤ ds.foldl addDigit n := by
  induction ds generalizing n with
  | nil => exact Nat.le_refl n
  | cons c ds ih =>
      have step : n ≤ addDigit n c := by
        unfold addDigit
        omega
      exact Nat.le_trans step ih

theorem takeSignificand_append (n count : Nat) (digits : ∀ c ∈ ds, Text.isAsciiDigit c = true)
    (fits : ds.foldl addDigit n ≤ greatestWord) (ends : EndsNumber rest) :
    takeSignificand n count (ds ++ rest) = (ds.foldl addDigit n, count + ds.length, rest) := by
  induction ds generalizing n count with
  | nil =>
      cases rest with
      | nil => rfl
      | cons c rest =>
          have ended : Text.isAsciiDigit c = false := (ends c rfl).1
          simp [takeSignificand, ended]
  | cons c ds ih =>
      have first : Text.isAsciiDigit c = true := digits c List.mem_cons_self
      -- A significand never falls, so each one on the way fits if the last one does.
      have next : addDigit n c ≤ greatestWord := Nat.le_trans le_foldl_addDigit fits
      have later := ih (addDigit n c) (count + 1)
        (fun d member => digits d (List.mem_cons_of_mem _ member)) fits
      unfold addDigit at next later
      rw [List.cons_append, takeSignificand]
      simp only [first, next, decide_true, Bool.and_self, if_true, later, List.length_cons,
        Nat.add_right_comm, Nat.add_assoc]
      rfl

theorem takeSignificand_toDigits (fits : n ≤ greatestWord) (ends : EndsNumber rest) :
    takeSignificand 0 0 (Nat.toDigits 10 n ++ rest) = (n, (Nat.toDigits 10 n).length, rest) := by
  have value : (Nat.toDigits 10 n).foldl addDigit 0 = n := Decimal.ofDigits_toDigits n
  rw [takeSignificand_append 0 0 (Decimal.isAsciiDigit_toDigits n) (value.symm ▸ fits) ends, value,
    Nat.zero_add]

/-- The digits of a number are read as that number, up to what ends it. -/
theorem readNumber_toDigits {negative : Bool} (fits : n ≤ greatestWord)
    (ends : EndsNumber rest) :
    readNumber negative (Nat.toDigits 10 n ++ rest) =
      if !negative then some (int n, rest)
      else if n == 0 || n > 0x8000000000000000 then
        some (float (-n.toUInt64.toFloat).toBits, rest)
      else some (int (-(n : Int)), rest) := by
  have taken := takeSignificand_toDigits fits ends
  obtain ⟨c, tail, written, digit⟩ := Decimal.exists_toDigits_eq n
  have zero : (c == '0' && (tail ++ rest).head?.any Text.isAsciiDigit) = false := by
    rcases Nat.eq_zero_or_pos n with none_ | pos
    · subst none_
      obtain ⟨rfl, rfl⟩ := List.cons.inj written
      simpa using ends.any
    · have other : c ≠ '0' := by simpa [written] using head?_toDigits_ne pos
      simp [other]
  rw [written, List.cons_append] at taken
  rw [written, List.cons_append, readNumber]
  simp only [digit, zero, taken, Text.takeWhile_eq_nil ends.any, Text.dropWhile_eq_self ends.any,
    Bool.not_true, Bool.false_eq_true, if_false]
  split
  · exact absurd rfl (ends _ rfl).2.1
  · exact absurd rfl (ends _ rfl).2.2.1
  · exact absurd rfl (ends _ rfl).2.2.2
  · rfl

/-- The text of an integer is its digits, behind a minus sign where it lies below zero. -/
theorem toList_toString (i : Int) : (toString i).toList =
    if 0 ≤ i then Nat.toDigits 10 i.toNat else '-' :: Nat.toDigits 10 (-i).toNat := by
  rw [Int.toString_eq_repr, Int.repr_eq_if]
  split
  · rw [Nat.repr_eq_ofList_toDigits, String.toList_ofList]
  · rw [Nat.repr_eq_ofList_toDigits, String.toList_append, String.toList_ofList,
      String.toList_ofList]
    rfl

/-! ## Bare characters -/

/-- The characters of values that stand neither between quotes nor between brackets. -/
def isBare (c : Char) : Bool :=
  Text.isAsciiDigit c || Text.isAsciiLetter c || c == '.' || c == '-' || c == '+'

theorem isBare_of_digit (digit : Text.isAsciiDigit c = true) : isBare c = true := by
  simp [isBare, digit]

theorem isBare_toString (i : Int) : ∀ c ∈ (toString i).toList, isBare c = true := by
  have digits (n : Nat) : ∀ c ∈ Nat.toDigits 10 n, isBare c = true := fun c member =>
    isBare_of_digit (Decimal.isAsciiDigit_toDigits n c member)
  rw [toList_toString]
  split
  · exact digits _
  · exact List.forall_mem_cons.2 ⟨rfl, digits _⟩

theorem toList_toString_ne_nil (i : Int) : (toString i).toList ≠ [] := by
  rw [toList_toString]
  split
  · exact Nat.toDigits_ne_nil
  · exact List.cons_ne_nil _ _

theorem isBare_numberText (bits : UInt64) : ∀ c ∈ numberText bits, isBare c = true := by
  intro c member
  unfold numberText at member
  cases written : Decimal.jsonLayout.writeBits? bits with
  | none =>
      rw [written] at member
      exact List.all_eq_true.1 (show "null".toList.all isBare = true from rfl) c member
  | some text =>
      rw [written] at member
      rcases Decimal.Layout.spells_of_writeBits? written c member with
        digit | rfl | rfl | rfl | plus
      · exact isBare_of_digit digit
      · rfl
      · rfl
      · rfl
      · rw [List.mem_singleton.1 plus]
        rfl

theorem numberText_ne_nil (bits : UInt64) : numberText bits ≠ [] := by
  unfold numberText
  cases written : Decimal.jsonLayout.writeBits? bits with
  | none => exact List.cons_ne_nil _ _
  | some text => exact Decimal.Layout.toList_ne_nil_of_writeBits? written

theorem isBlank_of_isBare (bare : isBare c = true) : Text.isBlank c = false := by
  simp only [isBare, Text.isAsciiDigit, Text.isAsciiLetter, Bool.or_eq_true, Bool.and_eq_true,
    decide_eq_true_eq, Char.le_def, UInt32.le_iff_toNat_le, beq_iff_eq] at bare
  have reach : 43 ≤ c.toNat ∧ c.toNat ≤ 122 := by
    rcases bare with (((⟨least, most⟩ | ⟨least, most⟩ | ⟨least, most⟩) | rfl) | rfl) | rfl
    · exact ⟨Nat.le_trans (by decide) least, Nat.le_trans most (by decide)⟩
    · exact ⟨Nat.le_trans (by decide) least, Nat.le_trans most (by decide)⟩
    · exact ⟨Nat.le_trans (by decide) least, Nat.le_trans most (by decide)⟩
    · decide
    · decide
    · decide
  simp only [Text.isBlank, Bool.or_eq_false_iff, Bool.and_eq_false_iff, decide_eq_false_iff_not,
    beq_eq_false_iff_ne]
  omega

/-! ## Single values -/

theorem skipSpace_cons (dark : isSpace c = false) : skipSpace (c :: cs) = c :: cs := by
  rw [skipSpace, List.dropWhile_cons, dark, if_neg Bool.false_ne_true]

theorem not_beq_of_digit (d : Char) (digit : Text.isAsciiDigit c = true)
    (other : Text.isAsciiDigit d = false) : (c == d) = false :=
  beq_eq_false_iff_ne.2 fun same => Bool.false_ne_true ((same ▸ other).symm.trans digit)

theorem isSpace_of_not_isBlank (dark : Text.isBlank c = false) : isSpace c = false := by
  have other (d : Char) (blank : Text.isBlank d = true) : (c == d) = false :=
    beq_eq_false_iff_ne.2 fun same => Bool.false_ne_true ((same ▸ dark).symm.trans blank)
  rw [isSpace, other ' ' rfl, other '\n' rfl, other '\t' rfl, other '\r' rfl]
  rfl

theorem isSpace_of_digit (digit : Text.isAsciiDigit c = true) : isSpace c = false :=
  isSpace_of_not_isBlank (isBlank_of_isBare (isBare_of_digit digit))

theorem readValue_digit {depth : Nat} (digit : Text.isAsciiDigit c = true) :
    readValue (fuel + 1) depth (c :: cs) = readNumber false (c :: cs) := by
  rw [readValue, skipSpace_cons (isSpace_of_digit digit)]
  simp only [not_beq_of_digit 'n' digit rfl, not_beq_of_digit 't' digit rfl,
    not_beq_of_digit 'f' digit rfl, not_beq_of_digit '"' digit rfl,
    not_beq_of_digit '-' digit rfl, not_beq_of_digit '[' digit rfl,
    not_beq_of_digit '\x7b' digit rfl, Bool.false_eq_true, if_false]

/-- An integer is read back. -/
theorem readValue_int {i : Int} {depth : Nat} (least : leastInt ≤ i) (greatest : i ≤ greatestInt)
    (ends : EndsNumber rest) :
    readValue (fuel + 1) depth ((toString i).toList ++ rest) = some (int i, rest) := by
  unfold leastInt at least
  unfold greatestInt at greatest
  rw [toList_toString]
  split
  · next above =>
      have fits : i.toNat ≤ greatestWord := by
        unfold greatestWord
        omega
      have value : (i.toNat : Int) = i := Int.toNat_of_nonneg above
      obtain ⟨c, tail, written, digit⟩ := Decimal.exists_toDigits_eq i.toNat
      rw [written, List.cons_append, readValue_digit digit, ← List.cons_append, ← written,
        readNumber_toDigits fits ends, value]
      rfl
  · next below =>
      have fits : (-i).toNat ≤ greatestWord := by
        unfold greatestWord
        omega
      have value : -((-i).toNat : Int) = i := by omega
      have inside : ¬ ((-i).toNat == 0 || (-i).toNat > 0x8000000000000000) = true := by
        simp only [Bool.or_eq_true, beq_iff_eq, decide_eq_true_eq]
        omega
      show readNumber true (Nat.toDigits 10 (-i).toNat ++ rest) = _
      rw [readNumber_toDigits fits ends, if_neg (by decide), if_neg inside, value]

/-- A string is read back. -/
theorem readValue_str {depth : Nat} (s : String) :
    readValue (fuel + 1) depth (quoteChars s.toList ++ rest) = some (str s, rest) := by
  rw [quoteChars, List.cons_append, List.append_assoc, List.singleton_append]
  show (readString _ _).map _ = _
  rw [readString_quoted]
  show some (str (String.ofList s.toList), rest) = _
  rw [String.ofList_toList]

/-- The text of a value starts with a character that is neither a blank nor a closing bracket. -/
theorem exists_printChars_eq (j : Json) :
    ∃ c tail, j.printChars = c :: tail ∧ Text.isBlank c = false ∧ c ≠ ']' := by
  have number {cs : List Char} (some_ : cs ≠ []) (bare : ∀ c ∈ cs, isBare c = true) :
      ∃ c tail, cs = c :: tail ∧ Text.isBlank c = false ∧ c ≠ ']' := by
    obtain ⟨c, tail, rfl⟩ := List.exists_cons_of_ne_nil some_
    have first := bare c List.mem_cons_self
    refine ⟨c, tail, rfl, isBlank_of_isBare first, ?_⟩
    rintro rfl
    cases first
  cases j with
  | null => exact ⟨_, _, rfl, rfl, by decide⟩
  | bool b => cases b <;> exact ⟨_, _, rfl, rfl, by decide⟩
  | int i => exact number (toList_toString_ne_nil i) (isBare_toString i)
  | float bits => exact number (numberText_ne_nil bits) (isBare_numberText bits)
  | str s => exact ⟨_, _, rfl, rfl, by decide⟩
  | arr items => exact ⟨_, _, rfl, rfl, by decide⟩
  | obj members => exact ⟨_, _, rfl, rfl, by decide⟩

/-! ## Arrays and objects -/

section Nested

variable {depth : Nat} {value : Json} {items : List Json} {members : List (String × Json)}
  {name : String}

theorem readValue_arr (dark : isSpace c = false) (other : c ≠ ']') :
    readValue (fuel + 1) (depth + 2) ('[' :: c :: cs) =
      (readItems fuel (depth + 1) (c :: cs)).map fun (items, left) => (arr items, left) := by
  rw [readValue, skipSpace_cons rfl]
  simp only [skipSpace_cons dark]
  rw [if_neg (by decide), if_neg (by decide), if_neg (by decide), if_neg (by decide),
    if_neg (by decide), if_pos (by decide)]
  split
  · next same => exact absurd (List.cons.inj same).1 other
  · rfl

theorem readItems_last (first : readValue fuel depth cs = some (value, ']' :: rest)) :
    readItems (fuel + 1) depth cs = some ([value], rest) := by
  rw [readItems, first]
  rfl

theorem readItems_comma (first : readValue fuel depth cs = some (value, ',' :: more)) :
    readItems (fuel + 1) depth cs =
      (readItems fuel depth more).map fun (items, left) => (value :: items, left) := by
  rw [readItems, first]
  show (readItems fuel depth more).bind _ = _
  cases readItems fuel depth more with
  | none => rfl
  | some read => rfl

theorem readItems_cons (first : readValue fuel depth cs = some (value, ',' :: more))
    (later : readItems fuel depth more = some (items, rest)) :
    readItems (fuel + 1) depth cs = some (value :: items, rest) := by
  rw [readItems_comma first, later]
  rfl

theorem readValue_obj :
    readValue (fuel + 1) (depth + 2) ('\x7b' :: '"' :: cs) =
      (readMembers fuel (depth + 1) ('"' :: cs)).map fun (members, left) => (obj members, left) :=
  rfl

/-- The reader takes the name of a member and goes on with its value. -/
theorem readMembers_name :
    readMembers (fuel + 1) depth (quoteChars name.toList ++ ':' :: cs) =
      (readValue fuel depth cs).bind fun (value, rest) =>
        match skipSpace rest with
        | ',' :: more => (readMembers fuel depth more).bind fun (members, left) =>
            some ((String.ofList name.toList, value) :: members, left)
        | '\x7d' :: left => some ([(String.ofList name.toList, value)], left)
        | _ => none := by
  have taken : readString ((name.toList.flatMap escape ++ '"' :: ':' :: cs).length + 1)
      (name.toList.flatMap escape ++ '"' :: ':' :: cs) = some (name.toList, ':' :: cs) :=
    readString_quoted ..
  rw [quoteChars, List.cons_append, List.append_assoc, List.singleton_append]
  show (readString _ _).bind _ = _
  generalize readString _ _ = read at taken ⊢
  subst taken
  rfl

theorem readMembers_last (first : readValue fuel depth cs = some (value, '\x7d' :: rest)) :
    readMembers (fuel + 1) depth (quoteChars name.toList ++ ':' :: cs) =
      some ([(name, value)], rest) := by
  rw [readMembers_name, first]
  show some ([(String.ofList name.toList, value)], rest) = _
  rw [String.ofList_toList]

theorem readMembers_comma (first : readValue fuel depth cs = some (value, ',' :: more)) :
    readMembers (fuel + 1) depth (quoteChars name.toList ++ ':' :: cs) =
      (readMembers fuel depth more).map fun (members, left) =>
        ((name, value) :: members, left) := by
  rw [readMembers_name, first]
  show (readMembers fuel depth more).bind _ = _
  rw [String.ofList_toList]
  cases readMembers fuel depth more with
  | none => rfl
  | some read => rfl

theorem readMembers_cons (first : readValue fuel depth cs = some (value, ',' :: more))
    (later : readMembers fuel depth more = some (members, rest)) :
    readMembers (fuel + 1) depth (quoteChars name.toList ++ ':' :: cs) =
      some ((name, value) :: members, rest) := by
  rw [readMembers_comma first, later]
  rfl

end Nested

theorem join_comma {a b : List Char} {parts : List (List Char)} :
    Text.join [','] (a :: b :: parts) = a ++ ',' :: Text.join [','] (b :: parts) := by
  rw [Text.join_cons_cons, List.append_assoc, List.singleton_append]

theorem exists_join_eq (c : Char) (cs : List Char) (parts : List (List Char)) :
    ∃ more, Text.join [','] ((c :: cs) :: parts) = c :: more := by
  cases parts with
  | nil => exact ⟨cs, rfl⟩
  | cons part parts => exact ⟨_, join_comma⟩

theorem join_printItems (item next : Json) (items : List Json) :
    Text.join [','] (printItems (item :: next :: items)) =
      item.printChars ++ ',' :: Text.join [','] (printItems (next :: items)) := by
  rw [printItems, printItems, join_comma, ← printItems]

theorem join_printMembers_single (name : String) (value : Json) :
    Text.join [','] (printMembers [(name, value)]) =
      quoteChars name.toList ++ ':' :: value.printChars := by
  rw [printMembers, printMembers, Text.join]

theorem join_printMembers (name : String) (value : Json) (next : String × Json)
    (members : List (String × Json)) :
    Text.join [','] (printMembers ((name, value) :: next :: members)) =
      quoteChars name.toList ++
        ':' :: (value.printChars ++ ',' :: Text.join [','] (printMembers (next :: members))) := by
  rw [printMembers, printMembers, join_comma, ← printMembers, List.append_assoc, List.cons_append]

/-- The reader goes from the text of an array on to its items. -/
theorem readValue_printChars_arr {depth : Nat} (item : Json) (items : List Json) :
    readValue (fuel + 1) (depth + 2) ((arr (item :: items)).printChars ++ rest) =
      (readItems fuel (depth + 1)
        (Text.join [','] (printItems (item :: items)) ++ ']' :: rest)).map
          fun (items, left) => (arr items, left) := by
  -- The reader looks at the first character to tell whether the array has items.
  obtain ⟨c, tail, written, dark, other⟩ := exists_printChars_eq item
  obtain ⟨more, joined⟩ := exists_join_eq c tail (printItems items)
  rw [printChars, List.cons_append, List.append_assoc, List.singleton_append, printItems, written,
    joined, List.cons_append, readValue_arr (isSpace_of_not_isBlank dark) other]

/-- The reader goes from the text of an object on to its members. -/
theorem readValue_printChars_obj {depth : Nat} (name : String) (value : Json)
    (members : List (String × Json)) :
    readValue (fuel + 1) (depth + 2) ((obj ((name, value) :: members)).printChars ++ rest) =
      (readMembers fuel (depth + 1)
        (Text.join [','] (printMembers ((name, value) :: members)) ++ '\x7d' :: rest)).map
          fun (members, left) => (obj members, left) := by
  obtain ⟨more, joined⟩ := exists_join_eq '"'
    (name.toList.flatMap escape ++ ['"'] ++ ':' :: value.printChars) (printMembers members)
  rw [printChars, List.cons_append, List.append_assoc, List.singleton_append, printMembers,
    quoteChars, List.cons_append, joined, List.cons_append, readValue_obj]

mutual

/-- What a value is written as is read back as that value, up to what follows it. -/
theorem readValue_printChars : ∀ (j : Json) {fuel depth : Nat} {rest : List Char},
    j.IsIntegral → j.depth < depth → 2 * j.printChars.length ≤ fuel → EndsNumber rest →
    readValue fuel depth (j.printChars ++ rest) = some (j, rest)
  | j, 0, _, _, integral, _, enough, _ => by
      obtain ⟨c, tail, written, -⟩ := exists_printChars_eq j
      rw [written, List.length_cons] at enough
      omega
  | null, fuel + 1, _, _, _, _, _, _ => rfl
  | bool true, fuel + 1, _, _, _, _, _, _ => rfl
  | bool false, fuel + 1, _, _, _, _, _, _ => rfl
  | int i, fuel + 1, _, _, ⟨least, greatest⟩, _, _, ends => by
      rw [printChars, readValue_int least greatest ends]
  | float bits, _, _, _, integral, _, _, _ => integral.elim
  | str s, fuel + 1, _, _, _, _, _, _ => by rw [printChars, readValue_str s]
  | arr [], fuel + 1, depth, _, _, within, _, _ => by
      obtain ⟨depth, rfl⟩ : ∃ d, depth = d + 2 := Nat.exists_eq_add_of_le' within
      rfl
  | arr (item :: items), fuel + 1, depth, rest, integral, within, enough, _ => by
      obtain ⟨depth, rfl⟩ : ∃ d, depth = d + 2 :=
        Nat.exists_eq_add_of_le' (Nat.lt_of_le_of_lt (Nat.succ_le_succ (Nat.zero_le _)) within)
      rw [printChars, List.length_cons, List.length_append, List.length_singleton] at enough
      have read : readItems fuel (depth + 1)
          (Text.join [','] (printItems (item :: items)) ++ ']' :: rest) =
          some (item :: items, rest) :=
        readItems_printItems (item :: items) (List.cons_ne_nil _ _) integral
          (Nat.lt_of_succ_lt_succ within) (by omega)
      rw [readValue_printChars_arr, read]
      rfl
  | obj [], fuel + 1, depth, _, _, within, _, _ => by
      obtain ⟨depth, rfl⟩ : ∃ d, depth = d + 2 := Nat.exists_eq_add_of_le' within
      rfl
  | obj ((name, value) :: members), fuel + 1, depth, rest, integral, within, enough, _ => by
      obtain ⟨depth, rfl⟩ : ∃ d, depth = d + 2 :=
        Nat.exists_eq_add_of_le' (Nat.lt_of_le_of_lt (Nat.succ_le_succ (Nat.zero_le _)) within)
      rw [printChars, List.length_cons, List.length_append, List.length_singleton] at enough
      have read : readMembers fuel (depth + 1)
          (Text.join [','] (printMembers ((name, value) :: members)) ++ '\x7d' :: rest) =
          some ((name, value) :: members, rest) :=
        readMembers_printMembers ((name, value) :: members) (List.cons_ne_nil _ _) integral
          (Nat.lt_of_succ_lt_succ within) (by omega)
      rw [readValue_printChars_obj, read]
      rfl

/-- `readValue_printChars` for the items of an array. -/
theorem readItems_printItems : ∀ (items : List Json) {fuel depth : Nat} {rest : List Char},
    items ≠ [] → AreIntegral items → depthItems items < depth →
    2 * (Text.join [','] (printItems items)).length + 1 ≤ fuel →
    readItems fuel depth (Text.join [','] (printItems items) ++ ']' :: rest) = some (items, rest)
  | [], _, _, _, some_, _, _, _ => (some_ rfl).elim
  | _, 0, _, _, _, _, _, enough => nomatch enough
  | [item], fuel + 1, _, _, _, integral, within, enough =>
      readItems_last (readValue_printChars item integral.1 (Nat.max_lt.1 within).1
        (Nat.le_of_succ_le_succ enough) endsNumber_bracket)
  | item :: next :: items, fuel + 1, depth, rest, _, integral, within, enough => by
      rw [join_printItems, List.length_append, List.length_cons] at enough
      rw [join_printItems, List.append_assoc, List.cons_append]
      exact readItems_cons
        (readValue_printChars item integral.1 (Nat.max_lt.1 within).1 (by omega) endsNumber_comma)
        (readItems_printItems (next :: items) (List.cons_ne_nil _ _) integral.2
          (Nat.max_lt.1 within).2 (by omega))

/-- `readValue_printChars` for the members of an object. -/
theorem readMembers_printMembers : ∀ (members : List (String × Json)) {fuel depth : Nat}
    {rest : List Char}, members ≠ [] → HasIntegral members → depthMembers members < depth →
    2 * (Text.join [','] (printMembers members)).length + 1 ≤ fuel →
    readMembers fuel depth (Text.join [','] (printMembers members) ++ '\x7d' :: rest) =
      some (members, rest)
  | [], _, _, _, some_, _, _, _ => (some_ rfl).elim
  | _, 0, _, _, _, _, _, enough => nomatch enough
  | [(name, value)], fuel + 1, depth, rest, _, integral, within, enough => by
      rw [join_printMembers_single, List.length_append, List.length_cons] at enough
      rw [join_printMembers_single, List.append_assoc, List.cons_append]
      exact readMembers_last (readValue_printChars value integral.1 (Nat.max_lt.1 within).1
        (by omega) endsNumber_brace)
  | (name, value) :: (other, next) :: members, fuel + 1, depth, rest, _, integral, within,
      enough => by
      rw [join_printMembers, List.length_append, List.length_cons, List.length_append,
        List.length_cons] at enough
      rw [join_printMembers, List.append_assoc, List.cons_append, List.append_assoc,
        List.cons_append]
      exact readMembers_cons
        (readValue_printChars value integral.1 (Nat.max_lt.1 within).1 (by omega)
          endsNumber_comma)
        (readMembers_printMembers ((other, next) :: members) (List.cons_ne_nil _ _) integral.2
          (Nat.max_lt.1 within).2 (by omega))

end

/-- A written value is read back. -/
theorem read?_printChars {j : Json} (integral : j.IsIntegral) (within : j.depth < depthLimit) :
    read? j.printChars = some j := by
  have read := readValue_printChars j integral within
    (Nat.le_add_right (2 * j.printChars.length) 2) endsNumber_nil
  rw [List.append_nil] at read
  rw [read?, read]
  rfl

/-! ## Line feeds -/

theorem newline_notMem_escape (c : Char) : '\n' ∉ escape c := by
  unfold escape
  iterate 7
    split
    · decide
  split
  · next control =>
      have digits : ∀ t < 32,
          '\n' ∉ ['\\', 'u', '0', '0', hexDigit (t / 16), hexDigit (t % 16)] := by
        decide
      exact digits c.toNat control
  · next other _ _ _ _ _ =>
      exact fun member => other (beq_iff_eq.2 (List.mem_singleton.1 member).symm)

theorem newline_notMem_quoteChars (cs : List Char) : '\n' ∉ quoteChars cs := by
  have inner : '\n' ∉ cs.flatMap escape := fun member =>
    let ⟨c, _, inside⟩ := List.mem_flatMap.1 member
    newline_notMem_escape c inside
  simp [quoteChars, inner]

theorem newline_notMem_of_isBare (bare : ∀ c ∈ cs, isBare c = true) : '\n' ∉ cs :=
  fun member => Bool.false_ne_true (bare '\n' member)

mutual

/-- A written value holds no line feed. -/
theorem newline_notMem_printChars : ∀ j : Json, '\n' ∉ j.printChars
  | null | bool true | bool false => by decide
  | int i => newline_notMem_of_isBare (isBare_toString i)
  | float bits => newline_notMem_of_isBare (isBare_numberText bits)
  | str s => newline_notMem_quoteChars s.toList
  | arr items => by
      simpa [printChars] using Text.notMem_join (by decide) (newline_notMem_printItems items)
  | obj members => by
      simpa [printChars] using Text.notMem_join (by decide) (newline_notMem_printMembers members)

/-- `newline_notMem_printChars` for the items of an array. -/
theorem newline_notMem_printItems : ∀ items : List Json, ∀ part ∈ printItems items, '\n' ∉ part
  | [] => nofun
  | item :: items => List.forall_mem_cons.2
      ⟨newline_notMem_printChars item, newline_notMem_printItems items⟩

/-- `newline_notMem_printChars` for the members of an object. -/
theorem newline_notMem_printMembers :
    ∀ members : List (String × Json), ∀ part ∈ printMembers members, '\n' ∉ part
  | [] => nofun
  | (name, value) :: members => List.forall_mem_cons.2
      ⟨by simpa using ⟨newline_notMem_quoteChars name.toList, newline_notMem_printChars value⟩,
        newline_notMem_printMembers members⟩

end

/-! ## The nesting limit -/

variable {depth : Nat}

theorem readItems_of_none (first : readValue fuel depth cs = none) :
    readItems (fuel + 1) depth cs = none := by
  rw [readItems, first]
  rfl

theorem readMembers_of_none {name : String} (first : readValue fuel depth cs = none) :
    readMembers (fuel + 1) depth (quoteChars name.toList ++ ':' :: cs) = none := by
  rw [readMembers_name, first]
  rfl

mutual

/-- A value that nests too deep is not read. -/
theorem readValue_of_deep : ∀ (j : Json) {fuel depth : Nat} {rest : List Char},
    j.IsIntegral → 0 < depth → depth ≤ j.depth → 2 * j.printChars.length ≤ fuel →
    readValue fuel depth (j.printChars ++ rest) = none
  | _, 0, _, _, _, _, _, _ => rfl
  | null, _ + 1, _, _, _, some_, deep, _ => absurd deep (Nat.not_le.2 some_)
  | bool _, _ + 1, _, _, _, some_, deep, _ => absurd deep (Nat.not_le.2 some_)
  | int _, _ + 1, _, _, _, some_, deep, _ => absurd deep (Nat.not_le.2 some_)
  | float _, _ + 1, _, _, integral, _, _, _ => integral.elim
  | str _, _ + 1, _, _, _, some_, deep, _ => absurd deep (Nat.not_le.2 some_)
  | arr _, _ + 1, 1, _, _, _, _, _ => rfl
  | obj _, _ + 1, 1, _, _, _, _, _ => rfl
  | arr [], _ + 1, _ + 2, _, _, _, deep, _ => nomatch Nat.le_of_succ_le_succ deep
  | arr (item :: items), fuel + 1, depth + 2, rest, integral, _, deep, enough => by
      rw [printChars, List.length_cons, List.length_append, List.length_singleton] at enough
      have read : readItems fuel (depth + 1)
          (Text.join [','] (printItems (item :: items)) ++ ']' :: rest) = none :=
        readItems_of_deep (item :: items) integral (Nat.succ_pos depth)
          (Nat.le_of_succ_le_succ deep) (by omega)
      rw [readValue_printChars_arr, read]
      rfl
  | obj [], _ + 1, _ + 2, _, _, _, deep, _ => nomatch Nat.le_of_succ_le_succ deep
  | obj ((name, value) :: members), fuel + 1, depth + 2, rest, integral, _, deep, enough => by
      rw [printChars, List.length_cons, List.length_append, List.length_singleton] at enough
      have read : readMembers fuel (depth + 1)
          (Text.join [','] (printMembers ((name, value) :: members)) ++ '\x7d' :: rest) = none :=
        readMembers_of_deep ((name, value) :: members) integral (Nat.succ_pos depth)
          (Nat.le_of_succ_le_succ deep) (by omega)
      rw [readValue_printChars_obj, read]
      rfl

/-- `readValue_of_deep` for the items of an array. -/
theorem readItems_of_deep : ∀ (items : List Json) {fuel depth : Nat} {rest : List Char},
    AreIntegral items → 0 < depth → depth ≤ depthItems items →
    2 * (Text.join [','] (printItems items)).length + 1 ≤ fuel →
    readItems fuel depth (Text.join [','] (printItems items) ++ ']' :: rest) = none
  | [], _, _, _, _, some_, deep, _ => absurd deep (Nat.not_le.2 some_)
  | _, 0, _, _, _, _, _, _ => rfl
  | [item], fuel + 1, depth, rest, integral, some_, deep, enough => by
      have first : depth ≤ item.depth := by
        rw [depthItems, depthItems, Nat.max_zero] at deep
        exact deep
      exact readItems_of_none
        (readValue_of_deep item integral.1 some_ first (Nat.le_of_succ_le_succ enough))
  | item :: next :: items, fuel + 1, depth, rest, integral, some_, deep, enough => by
      rw [join_printItems, List.length_append, List.length_cons] at enough
      rw [join_printItems, List.append_assoc, List.cons_append]
      -- The first item is read, unless it is the deep one.
      rcases Nat.lt_or_ge item.depth depth with within | first
      · have later : depth ≤ depthItems (next :: items) := by
          rw [depthItems] at deep
          omega
        rw [readItems_comma (readValue_printChars item integral.1 within (by omega)
          endsNumber_comma), readItems_of_deep (next :: items) integral.2 some_ later (by omega)]
        rfl
      · exact readItems_of_none (readValue_of_deep item integral.1 some_ first (by omega))

/-- `readValue_of_deep` for the members of an object. -/
theorem readMembers_of_deep : ∀ (members : List (String × Json)) {fuel depth : Nat}
    {rest : List Char}, HasIntegral members → 0 < depth → depth ≤ depthMembers members →
    2 * (Text.join [','] (printMembers members)).length + 1 ≤ fuel →
    readMembers fuel depth (Text.join [','] (printMembers members) ++ '\x7d' :: rest) = none
  | [], _, _, _, _, some_, deep, _ => absurd deep (Nat.not_le.2 some_)
  | _, 0, _, _, _, _, _, _ => rfl
  | [(name, value)], fuel + 1, depth, rest, integral, some_, deep, enough => by
      rw [join_printMembers_single, List.length_append, List.length_cons] at enough
      rw [join_printMembers_single, List.append_assoc, List.cons_append]
      have first : depth ≤ value.depth := by
        rw [depthMembers, depthMembers, Nat.max_zero] at deep
        exact deep
      exact readMembers_of_none (readValue_of_deep value integral.1 some_ first (by omega))
  | (name, value) :: (other, next) :: members, fuel + 1, depth, rest, integral, some_, deep,
      enough => by
      rw [join_printMembers, List.length_append, List.length_cons, List.length_append,
        List.length_cons] at enough
      rw [join_printMembers, List.append_assoc, List.cons_append, List.append_assoc,
        List.cons_append]
      rcases Nat.lt_or_ge value.depth depth with within | first
      · have later : depth ≤ depthMembers ((other, next) :: members) := by
          rw [depthMembers] at deep
          omega
        rw [readMembers_comma (readValue_printChars value integral.1 within (by omega)
          endsNumber_comma), readMembers_of_deep ((other, next) :: members) integral.2 some_ later
          (by omega)]
        rfl
      · exact readMembers_of_none (readValue_of_deep value integral.1 some_ first (by omega))

end

/-- A written value is read back exactly if it nests less deep than the limit. -/
theorem read?_printChars_eq {j : Json} (integral : j.IsIntegral) :
    read? j.printChars = if j.depth < depthLimit then some j else none := by
  split
  · next within => exact read?_printChars integral within
  · next deep =>
      have read : readValue (2 * j.printChars.length + 2) depthLimit (j.printChars ++ []) = none :=
        readValue_of_deep j integral (by decide) (Nat.not_lt.1 deep) (Nat.le_add_right _ 2)
      rw [List.append_nil] at read
      rw [read?, read]

end Fleet.Json
