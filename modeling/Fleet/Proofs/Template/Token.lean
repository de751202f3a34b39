/-
# Tokens of expressions

Names, numbers and variable paths as they are written, the blanks that may stand around them, and
how each of them keeps to one part where a text is cut at separators.
-/

import Fleet.Proofs.Template.Parts

namespace Fleet.Template

variable {c separator : Char} {cs start name rest : List Char} {fuel : Nat}

/-- A text that may name a filter or start a path. -/
structure IsIdentifier (name : List Char) : Prop where
  starts : name.head?.any startsName = true
  all : ∀ c ∈ name, isNameChar c = true

/-- Decimal digits of any script, at least one. -/
structure IsDigits (digits : List Char) : Prop where
  some_ : digits ≠ []
  all : ∀ c ∈ digits, Text.isDecimalDigit c = true

/-- A number without a sign. -/
inductive IsUnsigned : List Char → Prop
  | whole {digits : List Char} (whole : IsDigits digits) : IsUnsigned digits
  | fraction {digits behind : List Char} (whole : IsDigits digits) (fraction : IsDigits behind) :
      IsUnsigned (digits ++ '.' :: behind)

/-- A number. -/
inductive IsNumeral : List Char → Prop
  | unsigned {cs : List Char} (unsigned : IsUnsigned cs) : IsNumeral cs
  | negative {cs : List Char} (unsigned : IsUnsigned cs) : IsNumeral ('-' :: cs)

/-- What may follow the name at the start of a path. -/
inductive IsFurther : List Char → Prop
  | nil : IsFurther []
  | name {name rest : List Char} (name_ : IsIdentifier name) (later : IsFurther rest) :
      IsFurther ('.' :: (name ++ rest))
  | number {digits rest : List Char} (digits_ : IsDigits digits) (later : IsFurther rest) :
      IsFurther ('.' :: (digits ++ rest))
  | index {digits rest : List Char} (digits_ : IsDigits digits) (later : IsFurther rest) :
      IsFurther ('[' :: (digits ++ ']' :: rest))
  | quoted {key rest : List Char} (closed : '\'' ∉ key) (later : IsFurther rest) :
      IsFurther ('[' :: '\'' :: (key ++ '\'' :: ']' :: rest))

/-- A variable path. -/
inductive IsVariable : List Char → Prop
  | path {name rest : List Char} (name_ : IsIdentifier name) (further : IsFurther rest) :
      IsVariable (name ++ rest)

/-! ## Characters of tokens -/

theorem ne_of_test {p : Char → Bool} {d : Char} (yes : p c = true) (no : p d = false) : c ≠ d :=
  fun same => Bool.false_ne_true (no.symm.trans (same ▸ yes))

theorem isQuote_of_test {p : Char → Bool} (yes : p c = true) (single : p '\'' = false)
    (double : p '"' = false) : isQuote c = false := by
  rw [isQuote, beq_eq_false_iff_ne.2 (ne_of_test yes single),
    beq_eq_false_iff_ne.2 (ne_of_test yes double)]
  rfl

/-- The numbers of the blank characters. -/
def blanks : List Nat :=
  [0x9, 0xA, 0xB, 0xC, 0xD, 0x20, 0x85, 0xA0, 0x1680, 0x2000, 0x2001, 0x2002, 0x2003, 0x2004,
    0x2005, 0x2006, 0x2007, 0x2008, 0x2009, 0x200A, 0x2028, 0x2029, 0x202F, 0x205F, 0x3000]

theorem mem_blanks (blank : Text.isBlank c = true) : c.toNat ∈ blanks := by
  simp only [Text.isBlank, Bool.or_eq_true, Bool.and_eq_true, decide_eq_true_eq,
    beq_iff_eq] at blank
  simp only [blanks, List.mem_cons, List.not_mem_nil, or_false]
  omega

theorem isBlank_of_isDecimalDigit (digit : Text.isDecimalDigit c = true) :
    Text.isBlank c = false := by
  by_contra blank
  have apart : ∀ n ∈ blanks, Text.digitBlocks.any (fun block =>
      block.1 ≤ n && n < block.1 + block.2) = false := by decide +kernel
  have other := apart c.toNat (mem_blanks (Bool.not_eq_false _ ▸ blank))
  exact Bool.false_ne_true (other.symm.trans digit)

theorem bounds_of_startsName (starts : startsName c = true) : 65 ≤ c.toNat ∧ c.toNat ≤ 122 := by
  simp only [startsName, Text.isAsciiLetter, Bool.or_eq_true, Bool.and_eq_true, decide_eq_true_eq,
    Char.le_def, UInt32.le_iff_toNat_le, beq_iff_eq] at starts
  rcases starts with (⟨least, most⟩ | ⟨least, most⟩) | rfl
  · exact ⟨Nat.le_trans (by decide) least, Nat.le_trans most (by decide)⟩
  · exact ⟨Nat.le_trans (by decide) least, Nat.le_trans most (by decide)⟩
  · decide

theorem isDecimalDigit_of_startsName (starts : startsName c = true) :
    Text.isDecimalDigit c = false := by
  obtain ⟨least, most⟩ := bounds_of_startsName starts
  have apart : ∀ n ≤ 122, 65 ≤ n → Text.digitBlocks.any (fun block =>
      block.1 ≤ n && n < block.1 + block.2) = false := by decide +kernel
  exact apart c.toNat most least

theorem isDecimalDigit_of_isAsciiDigit (digit : Text.isAsciiDigit c = true) :
    Text.isDecimalDigit c = true := by
  simp only [Text.isAsciiDigit, Bool.and_eq_true, decide_eq_true_eq, Char.le_def,
    UInt32.le_iff_toNat_le] at digit
  refine List.any_eq_true.2 ⟨(0x30, 10), by decide, ?_⟩
  have least : 48 ≤ c.toNat := digit.1
  have most : c.toNat ≤ 57 := digit.2
  simp only [Bool.and_eq_true, decide_eq_true_eq]
  omega

theorem isBlank_of_isNameChar (plain : isNameChar c = true) : Text.isBlank c = false := by
  rcases Bool.or_eq_true_iff.1 plain with starts | digit
  · obtain ⟨least, most⟩ := bounds_of_startsName starts
    by_contra blank
    have apart : ∀ n ∈ blanks, n < 65 ∨ 122 < n := by decide
    have other := apart c.toNat (mem_blanks (Bool.not_eq_false _ ▸ blank))
    omega
  · exact isBlank_of_isDecimalDigit (isDecimalDigit_of_isAsciiDigit digit)

/-! ## Numbers -/

theorem IsDigits.head_any (digits : IsDigits cs) {p : Char → Bool}
    (other : ∀ c, Text.isDecimalDigit c = true → p c = false) :
    (cs ++ rest).head?.any p = false := by
  obtain ⟨c, tail, rfl⟩ := List.exists_cons_of_ne_nil digits.some_
  exact other c (digits.all c List.mem_cons_self)

theorem isDigits_takeWhile (some_ : (cs.takeWhile Text.isDecimalDigit).isEmpty = false) :
    IsDigits (cs.takeWhile Text.isDecimalDigit) :=
  ⟨List.isEmpty_eq_false_iff.1 some_, fun _ member => List.mem_takeWhile_imp member⟩

/-- Whether a text is a number without a sign. -/
def isUnsigned (cs : List Char) : Bool :=
  match cs.dropWhile Text.isDecimalDigit with
  | [] => !(cs.takeWhile Text.isDecimalDigit).isEmpty
  | '.' :: fraction => !(cs.takeWhile Text.isDecimalDigit).isEmpty && !fraction.isEmpty &&
    fraction.all Text.isDecimalDigit
  | _ => false

theorem isNumber_negative : isNumber ('-' :: cs) = isUnsigned cs := rfl

theorem isNumber_unsigned (plain : ∀ rest, cs ≠ '-' :: rest) : isNumber cs = isUnsigned cs := by
  unfold isNumber
  split
  · exact absurd rfl (plain _)
  · rfl

theorem isUnsigned_iff : isUnsigned cs = true ↔ IsUnsigned cs := by
  unfold isUnsigned
  constructor
  · intro checked
    have whole := List.takeWhile_append_dropWhile (p := Text.isDecimalDigit) (l := cs)
    split at checked
    · next ended =>
        rw [ended, List.append_nil] at whole
        rw [← whole]
        exact .whole (isDigits_takeWhile (by simpa using checked))
    · next fraction behind =>
        simp only [Bool.and_eq_true, Bool.not_eq_true', List.all_eq_true] at checked
        obtain ⟨⟨some_, more⟩, all⟩ := checked
        rw [← whole, behind]
        exact .fraction (isDigits_takeWhile some_) ⟨List.isEmpty_eq_false_iff.1 more, all⟩
    · cases checked
  · rintro (digits | @⟨digits, behind, whole, fraction⟩)
    · have all : cs.dropWhile Text.isDecimalDigit = [] :=
        List.dropWhile_eq_nil_iff.2 digits.all
      simp only [all, List.takeWhile_eq_self_iff.2 digits.all]
      simpa using digits.some_
    · have stop : ('.' :: behind).head?.any Text.isDecimalDigit = false := by
        show Text.isDecimalDigit '.' = false
        decide
      simp only [Text.takeWhile_run whole.all stop, Text.dropWhile_run whole.all stop,
        Bool.and_eq_true, Bool.not_eq_true', List.all_eq_true]
      exact ⟨⟨List.isEmpty_eq_false_iff.2 whole.some_, List.isEmpty_eq_false_iff.2 fraction.some_⟩,
        fraction.all⟩

theorem IsUnsigned.exists_cons (unsigned : IsUnsigned cs) :
    ∃ c tail, cs = c :: tail ∧ Text.isDecimalDigit c = true := by
  have of_digits {digits : List Char} (digits_ : IsDigits digits) :
      ∃ c tail, digits = c :: tail ∧ Text.isDecimalDigit c = true := by
    obtain ⟨c, tail, rfl⟩ := List.exists_cons_of_ne_nil digits_.some_
    exact ⟨c, tail, rfl, digits_.all c List.mem_cons_self⟩
  rcases unsigned with whole | @⟨digits, behind, whole, fraction⟩
  · exact of_digits whole
  · obtain ⟨c, tail, rfl, digit⟩ := of_digits whole
    exact ⟨c, tail ++ '.' :: behind, rfl, digit⟩

theorem IsNumeral.exists_cons (numeral : IsNumeral cs) :
    ∃ c tail, cs = c :: tail ∧ (c = '-' ∨ Text.isDecimalDigit c = true) := by
  rcases numeral with unsigned | unsigned
  · obtain ⟨c, tail, rfl, digit⟩ := unsigned.exists_cons
    exact ⟨c, tail, rfl, .inr digit⟩
  · exact ⟨'-', _, rfl, .inl rfl⟩

/-- A number starts like no word. -/
theorem IsNumeral.head_startsName (numeral : IsNumeral cs) : cs.head?.any startsName = false := by
  obtain ⟨c, tail, rfl, rfl | digit⟩ := numeral.exists_cons
  · rfl
  · by_contra starts
    rw [isDecimalDigit_of_startsName (Bool.not_eq_false _ ▸ starts)] at digit
    cases digit

theorem IsNumeral.head_isQuote (numeral : IsNumeral cs) : cs.head?.any isQuote = false := by
  obtain ⟨c, tail, rfl, rfl | digit⟩ := numeral.exists_cons
  · rfl
  · exact isQuote_of_test digit (by decide) (by decide)

theorem isNumber_iff : isNumber cs = true ↔ IsNumeral cs := by
  by_cases sign : ∃ rest, cs = '-' :: rest
  · obtain ⟨rest, rfl⟩ := sign
    rw [isNumber_negative, isUnsigned_iff]
    refine ⟨.negative, fun numeral => ?_⟩
    rcases numeral with unsigned | unsigned
    · obtain ⟨c, tail, same, digit⟩ := unsigned.exists_cons
      rw [← (List.cons.inj same).1] at digit
      exact absurd digit (by decide)
    · exact unsigned
  · rw [isNumber_unsigned fun rest same => sign ⟨rest, same⟩, isUnsigned_iff]
    refine ⟨.unsigned, fun numeral => ?_⟩
    rcases numeral with unsigned | unsigned
    · exact unsigned
    · exact absurd ⟨_, rfl⟩ sign

/-! ## Names and paths -/

theorem IsIdentifier.exists_cons (name_ : IsIdentifier name) :
    ∃ c tail, name = c :: tail ∧ startsName c = true := by
  cases name with
  | nil => cases name_.starts
  | cons c tail => exact ⟨c, tail, rfl, name_.starts⟩

theorem takeName?_append (name_ : IsIdentifier name)
    (stop : rest.head?.any isNameChar = false) : takeName? (name ++ rest) = some (name, rest) := by
  have taken := Text.takeWhile_run name_.all stop
  have left := Text.dropWhile_run name_.all stop
  obtain ⟨c, tail, rfl, starts⟩ := name_.exists_cons
  rw [List.cons_append] at taken left ⊢
  rw [takeName?, if_pos starts, taken, left]

theorem takeName?_eq_some_iff : takeName? cs = some (name, rest) ↔
    IsIdentifier name ∧ rest.head?.any isNameChar = false ∧ cs = name ++ rest := by
  constructor
  · intro taken
    cases cs with
    | nil => cases taken
    | cons c cs =>
        by_cases starts : startsName c = true
        · rw [takeName?, if_pos starts] at taken
          obtain ⟨rfl, rfl⟩ := Prod.mk.inj (Option.some.inj taken)
          have plain : isNameChar c = true := by rw [isNameChar, starts, Bool.true_or]
          refine ⟨⟨?_, fun _ member => List.mem_takeWhile_imp member⟩, ?_,
            (List.takeWhile_append_dropWhile).symm⟩
          · rw [List.takeWhile_cons, if_pos plain]
            exact starts
          · cases left : (c :: cs).dropWhile isNameChar with
            | nil => rfl
            | cons d more =>
                have odd := List.head?_dropWhile_not isNameChar (c :: cs)
                rw [left] at odd
                simpa using odd
        · rw [takeName?, if_neg starts] at taken
          cases taken
  · rintro ⟨name_, stop, rfl⟩
    exact takeName?_append name_ stop

theorem takeName?_eq_none (other : cs.head?.any startsName = false) : takeName? cs = none := by
  cases cs with
  | nil => rfl
  | cons c cs => exact if_neg (Bool.eq_false_iff.1 other)

theorem IsFurther.stop (further : IsFurther cs) : cs.head?.any isNameChar = false := by
  cases further <;> rfl

theorem IsFurther.stop_digits (further : IsFurther cs) :
    cs.head?.any Text.isDecimalDigit = false := by
  cases further <;> rfl

theorem isFurther_of_isPathTail (tail : isPathTail fuel cs = true) : IsFurther cs := by
  induction fuel generalizing cs with
  | zero =>
      cases cs with
      | nil => exact .nil
      | cons c cs => cases tail
  | succ fuel ih =>
      unfold isPathTail at tail
      split at tail
      · exact .nil
      · cases tail
      · next rest same =>
          obtain rfl := Nat.succ.inj same
          split at tail
          · next taken =>
              obtain ⟨name_, -, rfl⟩ := takeName?_eq_some_iff.1 taken
              exact .name name_ (ih tail)
          · obtain ⟨some_, later⟩ := Bool.and_eq_true_iff.1 tail
            have number := IsFurther.number (isDigits_takeWhile (by simpa using some_)) (ih later)
            rwa [List.takeWhile_append_dropWhile] at number
      · next rest same =>
          obtain rfl := Nat.succ.inj same
          split at tail
          · next left behind =>
              have whole := List.takeWhile_append_dropWhile (p := (· ≠ '\'')) (l := rest)
              rw [behind] at whole
              rw [← whole]
              refine .quoted (fun inside => ?_) (ih tail)
              simpa using List.mem_takeWhile_imp inside
          · cases tail
      · next rest _ same =>
          obtain rfl := Nat.succ.inj same
          split at tail
          · next left behind =>
              obtain ⟨some_, later⟩ := Bool.and_eq_true_iff.1 tail
              have whole := List.takeWhile_append_dropWhile (p := Text.isDecimalDigit) (l := rest)
              rw [behind] at whole
              rw [← whole]
              exact .index (isDigits_takeWhile (by simpa using some_)) (ih later)
          · cases tail
      · cases tail

theorem isPathTail_of_isFurther (further : IsFurther cs) (enough : cs.length ≤ fuel) :
    isPathTail fuel cs = true := by
  induction further generalizing fuel with
  | nil => cases fuel <;> rfl
  | @name name rest name_ later ih =>
      cases fuel with
      | zero => cases enough
      | succ fuel =>
          simp only [List.length_cons, List.length_append] at enough
          rw [isPathTail, takeName?_append name_ later.stop]
          exact ih (by omega)
  | @number digits rest digits_ later ih =>
      cases fuel with
      | zero => cases enough
      | succ fuel =>
          simp only [List.length_cons, List.length_append] at enough
          have none_ : takeName? (digits ++ rest) = none :=
            takeName?_eq_none (digits_.head_any fun c digit => by
              by_contra starts
              rw [isDecimalDigit_of_startsName (Bool.not_eq_false _ ▸ starts)] at digit
              cases digit)
          have inner : isPathTail fuel rest = true := ih (by omega)
          rw [isPathTail, none_]
          simp only [Text.takeWhile_run digits_.all later.stop_digits,
            Text.dropWhile_run digits_.all later.stop_digits, inner,
            List.isEmpty_eq_false_iff.2 digits_.some_]
          rfl
  | @index digits rest digits_ later ih =>
      cases fuel with
      | zero => cases enough
      | succ fuel =>
          simp only [List.length_cons, List.length_append] at enough
          have stop : (']' :: rest).head?.any Text.isDecimalDigit = false :=
            (by decide : Text.isDecimalDigit ']' = false)
          have inner : isPathTail fuel rest = true := ih (by omega)
          rw [isPathTail]
          · simp only [Text.takeWhile_run digits_.all stop, Text.dropWhile_run digits_.all stop,
              inner, List.isEmpty_eq_false_iff.2 digits_.some_]
            rfl
          · intro more same
            obtain ⟨c, tail, rfl⟩ := List.exists_cons_of_ne_nil digits_.some_
            have digit := digits_.all c List.mem_cons_self
            rw [(List.cons.inj same).1] at digit
            exact absurd digit (by decide)
  | @quoted key rest closed later ih =>
      cases fuel with
      | zero => cases enough
      | succ fuel =>
          simp only [List.length_cons, List.length_append] at enough
          have run : ∀ c ∈ key, decide (c ≠ '\'') = true := fun c member =>
            decide_eq_true fun same => closed (same ▸ member)
          have stop : ('\'' :: ']' :: rest).head?.any (fun c => decide (c ≠ '\'')) = false := rfl
          rw [isPathTail, Text.dropWhile_run run stop]
          exact ih (by omega)

theorem IsVariable.head_startsName (variable_ : IsVariable cs) :
    cs.head?.any startsName = true := by
  obtain ⟨name_, -⟩ := variable_
  obtain ⟨c, tail, rfl, starts⟩ := name_.exists_cons
  exact starts

theorem isPath_iff : isPath cs = true ↔ IsVariable cs := by
  constructor
  · intro path
    unfold isPath at path
    split at path
    · cases path
    · next taken =>
        obtain ⟨name_, -, rfl⟩ := takeName?_eq_some_iff.1 taken
        exact .path name_ (isFurther_of_isPathTail path)
  · rintro ⟨name_, further⟩
    rw [isPath, takeName?_append name_ further.stop]
    exact isPathTail_of_isFurther further (Nat.le_refl _)

/-! ## Blanks around a token -/

/-- A token with blanks around it. -/
inductive Padded (token : List Char) : List Char → Prop
  | blanks {before behind : List Char} (before_ : ∀ c ∈ before, Text.isBlank c = true)
      (behind_ : ∀ c ∈ behind, Text.isBlank c = true) : Padded token (before ++ (token ++ behind))

theorem padded_self (token : List Char) : Padded token token := by
  have padded : Padded token ([] ++ (token ++ [])) := .blanks nofun nofun
  rwa [List.nil_append, List.append_nil] at padded

theorem Padded.isInfix (padded : Padded cs rest) : cs <:+: rest := by
  obtain ⟨-, -⟩ := padded
  next before behind => exact ⟨before, behind, List.append_assoc before cs behind⟩

/-- A text that is not empty and has no blank at either end. -/
structure IsDark (token : List Char) : Prop where
  head : token.head?.any (fun c => !Text.isBlank c) = true
  last : token.getLast?.any (fun c => !Text.isBlank c) = true

theorem padded_trim (text : List Char) : Padded (Text.trim text) text := by
  have whole : text = text.takeWhile Text.isBlank ++ (Text.trim text ++
      (((Text.trimStart text).reverse.takeWhile Text.isBlank).reverse)) := by
    rw [Text.trim, Text.trimEnd, Text.dropEndWhile, ← List.reverse_append,
      List.takeWhile_append_dropWhile, List.reverse_reverse, Text.trimStart,
      List.takeWhile_append_dropWhile]
  have padded : Padded (Text.trim text) (text.takeWhile Text.isBlank ++ (Text.trim text ++
      (((Text.trimStart text).reverse.takeWhile Text.isBlank).reverse))) :=
    .blanks (fun _ member => List.mem_takeWhile_imp member)
      fun _ member => List.mem_takeWhile_imp (List.mem_reverse.1 member)
  rwa [← whole] at padded

theorem padded_of_trim (same : Text.trim rest = cs) : Padded cs rest := same ▸ padded_trim rest

theorem IsDark.trim_eq (dark : IsDark cs) : Text.trim cs = cs := by
  obtain ⟨head, last⟩ := dark
  refine Text.trim_eq_self_iff.2 ⟨?_, ?_⟩
  · cases first : cs.head? with
    | none => rfl
    | some c => simpa [first] using head
  · cases ended : cs.getLast? with
    | none => rfl
    | some c => simpa [ended] using last

theorem Padded.trim_eq (padded : Padded cs rest) (dark : IsDark cs) : Text.trim rest = cs := by
  obtain ⟨before_, behind_⟩ := padded
  rw [Text.trim_append before_ behind_, dark.trim_eq]

theorem Padded.of_append (padded : Padded (cs ++ start) rest)
    (blank : ∀ c ∈ start, Text.isBlank c = true) : Padded cs rest := by
  obtain ⟨before_, behind_⟩ := padded
  rw [List.append_assoc]
  exact .blanks before_ (List.forall_mem_append.2 ⟨blank, behind_⟩)

/-- Tokens have no blanks at their ends, so the blanks around one are all that is stripped. -/
theorem exists_padded_iff {P : List Char → Prop} (dark : ∀ w, P w → IsDark w) :
    (∃ w, Padded w cs ∧ P w) ↔ P (Text.trim cs) := by
  constructor
  · rintro ⟨w, padded, token⟩
    rwa [padded.trim_eq (dark w token)]
  · exact fun token => ⟨_, padded_trim cs, token⟩

theorem padded_nil_iff : Padded [] cs ↔ Text.trim cs = [] := by
  rw [Text.trim_eq_nil_iff]
  constructor
  · rintro ⟨before_, behind_⟩
    rw [List.nil_append]
    exact List.forall_mem_append.2 ⟨before_, behind_⟩
  · intro blank
    have padded : Padded [] (cs ++ ([] ++ [])) := .blanks blank nofun
    rwa [List.append_nil, List.append_nil] at padded

theorem isQuote_of_isBlank (blank : Text.isBlank c = true) : isQuote c = false :=
  isQuote_of_test blank (by decide) (by decide)

theorem IsWhole.of_blank (dark : Text.isBlank separator = false)
    (blank : ∀ c ∈ cs, Text.isBlank c = true) : IsWhole separator cs :=
  .of_plain fun c member => ⟨isQuote_of_isBlank (blank c member), ne_of_test (blank c member) dark⟩

theorem IsWhole.padded (whole : IsWhole separator cs) (dark : Text.isBlank separator = false)
    (padded : Padded cs rest) : IsWhole separator rest := by
  obtain ⟨before_, behind_⟩ := padded
  exact (of_blank dark before_).append (whole.append (of_blank dark behind_))

/-! ## Tokens among blanks and separators -/

/-- A character at which parts of an expression are cut. -/
def IsSeparator (c : Char) : Prop := c = ',' ∨ c = '|'

theorem IsSeparator.isBlank_eq (cuts : IsSeparator separator) :
    Text.isBlank separator = false := by
  rcases cuts with rfl | rfl <;> decide

/-- A character that passes a test which neither quotes nor separators pass. -/
theorem plain_of_test {p : Char → Bool} (cuts : IsSeparator separator) (yes : p c = true)
    (quotes : p '\'' = false ∧ p '"' = false) (separators : p ',' = false ∧ p '|' = false) :
    isQuote c = false ∧ c ≠ separator := by
  refine ⟨isQuote_of_test yes quotes.1 quotes.2, ?_⟩
  rcases cuts with rfl | rfl
  · exact ne_of_test yes separators.1
  · exact ne_of_test yes separators.2

theorem IsDark.of_all (some_ : cs ≠ []) (all : ∀ c ∈ cs, Text.isBlank c = false) : IsDark cs := by
  refine ⟨?_, ?_⟩
  · rw [List.head?_eq_some_head some_]
    simpa using all _ (List.head_mem some_)
  · rw [List.getLast?_eq_some_getLast some_]
    simpa using all _ (List.getLast_mem some_)

theorem IsDark.append (dark : IsDark start)
    (last : ∀ c ∈ rest.getLast?, Text.isBlank c = false) : IsDark (start ++ rest) := by
  refine ⟨?_, ?_⟩
  · cases start with
    | nil => cases dark.head
    | cons c start => exact dark.head
  · rw [List.getLast?_append]
    cases end_ : rest.getLast? with
    | none => exact dark.last
    | some c => simpa using last c end_

theorem IsIdentifier.isDark (name_ : IsIdentifier name) : IsDark name := by
  obtain ⟨c, tail, rfl, -⟩ := name_.exists_cons
  exact .of_all (List.cons_ne_nil _ _) fun d member => isBlank_of_isNameChar (name_.all d member)

theorem IsIdentifier.isWhole (cuts : IsSeparator separator) (name_ : IsIdentifier name) :
    IsWhole separator name :=
  .of_plain fun c member => plain_of_test cuts (name_.all c member) ⟨rfl, rfl⟩ ⟨rfl, rfl⟩

theorem IsDigits.isDark (digits : IsDigits cs) : IsDark cs :=
  .of_all digits.some_ fun c member => isBlank_of_isDecimalDigit (digits.all c member)

theorem IsDigits.isWhole (cuts : IsSeparator separator) (digits : IsDigits cs) :
    IsWhole separator cs :=
  .of_plain fun c member => plain_of_test cuts (digits.all c member) (by decide) (by decide)

/-- The marks in numbers, paths and calls are neither quotes nor separators. -/
theorem IsWhole.mark (cuts : IsSeparator separator) (mark : c ∈ ['-', '.', '[', ']', '(', ')'])
    (later : IsWhole separator cs) : IsWhole separator (c :: cs) := by
  have plain := plain_of_test (p := ['-', '.', '[', ']', '(', ')'].contains) cuts
    (List.contains_iff_mem.2 mark) ⟨rfl, rfl⟩ ⟨rfl, rfl⟩
  exact .char plain.1 plain.2 later

theorem IsUnsigned.isDark (unsigned : IsUnsigned cs) : IsDark cs := by
  rcases unsigned with whole | ⟨whole, fraction⟩
  · exact whole.isDark
  · refine whole.isDark.append fun c last => ?_
    rw [List.getLast?_cons] at last
    have dark := fraction.isDark.last
    cases end_ : List.getLast? _ with
    | none =>
        rw [end_] at dark
        cases dark
    | some d =>
        rw [end_] at dark last
        obtain rfl := Option.some.inj last
        simpa using dark

theorem IsUnsigned.isWhole (cuts : IsSeparator separator) (unsigned : IsUnsigned cs) :
    IsWhole separator cs := by
  rcases unsigned with whole | ⟨whole, fraction⟩
  · exact whole.isWhole cuts
  · exact (whole.isWhole cuts).append (.mark cuts (by decide) (fraction.isWhole cuts))

theorem IsNumeral.isDark (numeral : IsNumeral cs) : IsDark cs := by
  rcases numeral with unsigned | unsigned
  · exact unsigned.isDark
  · have minus : IsDark ['-'] :=
      .of_all (List.cons_ne_nil _ _) (List.forall_mem_singleton.2 (by decide))
    exact minus.append fun c last => by simpa [Option.mem_def.1 last] using unsigned.isDark.last

theorem IsNumeral.isWhole (cuts : IsSeparator separator) (numeral : IsNumeral cs) :
    IsWhole separator cs := by
  rcases numeral with unsigned | unsigned
  · exact unsigned.isWhole cuts
  · exact .mark cuts (by decide) (unsigned.isWhole cuts)

theorem IsFurther.last (further : IsFurther cs) : ∀ c ∈ cs.getLast?, Text.isBlank c = false := by
  have step {token rest : List Char} (dark : IsDark token)
      (later : ∀ c ∈ rest.getLast?, Text.isBlank c = false) :
      ∀ c ∈ (token ++ rest).getLast?, Text.isBlank c = false := fun c last => by
    simpa [Option.mem_def.1 last] using (dark.append later).last
  have mark (d : Char) (dark : Text.isBlank d = false) : IsDark [d] :=
    .of_all (List.cons_ne_nil _ _) fun c member => List.mem_singleton.1 member ▸ dark
  induction further with
  | nil => exact nofun
  | name name_ _ ih => exact step (mark '.' (by decide)) (step name_.isDark ih)
  | number digits _ ih => exact step (mark '.' (by decide)) (step digits.isDark ih)
  | index digits _ ih =>
      exact step (mark '[' (by decide)) (step digits.isDark (step (mark ']' (by decide)) ih))
  | @quoted key rest _ _ ih =>
      -- the key itself may start or end with a blank
      have key_ : IsDark ('[' :: '\'' :: (key ++ ['\'', ']'])) := by
        have whole : '[' :: '\'' :: (key ++ ['\'', ']']) =
            ('[' :: '\'' :: key ++ ['\'']) ++ [']'] := by
          simp
        refine ⟨rfl, ?_⟩
        rw [whole, List.getLast?_concat]
        rfl
      have whole := step key_ ih
      rwa [List.cons_append, List.cons_append, List.append_assoc] at whole

theorem IsFurther.isWhole (cuts : IsSeparator separator) (further : IsFurther cs) :
    IsWhole separator cs := by
  induction further with
  | nil => exact .nil
  | name name_ _ ih => exact .mark cuts (by decide) ((name_.isWhole cuts).append ih)
  | number digits _ ih => exact .mark cuts (by decide) ((digits.isWhole cuts).append ih)
  | index digits _ ih =>
      exact .mark cuts (by decide) ((digits.isWhole cuts).append (.mark cuts (by decide) ih))
  | quoted closed _ ih =>
      exact .mark cuts (by decide) (.quoted rfl closed (.mark cuts (by decide) ih))

theorem IsVariable.isDark (variable_ : IsVariable cs) : IsDark cs := by
  obtain ⟨name_, further⟩ := variable_
  exact name_.isDark.append further.last

theorem IsVariable.isWhole (cuts : IsSeparator separator) (variable_ : IsVariable cs) :
    IsWhole separator cs := by
  obtain ⟨name_, further⟩ := variable_
  exact (name_.isWhole cuts).append (further.isWhole cuts)

end Fleet.Template
