/-
# Arguments as they are written

What conversion writes as an argument of a helper is read back as that argument, as long as a space
or a closing mark follows: a literal as its value, and a path as its keys. The keys of a path are
read back if none of them is a word that means something of its own there.
-/

import Fleet.Proofs.Json.Reader
import Fleet.Template.Convert
import Fleet.Template.Braces

namespace Fleet.Template.Braces

variable {c : Char} {cs name key written rest text : List Char} {keys : List (List Char)}
  {word : String} {fuel : Nat} {p : Param} {scope v : Json}

theorem isSpace_eq : isSpace c = Json.isSpace c := by
  rw [isSpace, Json.isSpace, Bool.or_right_comm (c == ' ')]

theorem skipSpace_cons (dark : isSpace c = false) : skipSpace (c :: cs) = c :: cs :=
  Text.dropWhile_eq_self dark

/-! ## What follows an argument -/

/-- A closing mark stands here. -/
inductive Closes : List Char → Prop
  | parenthesis {rest : List Char} : Closes (')' :: rest)
  | brace {rest : List Char} : Closes ('\x7d' :: rest)

/-- An argument ends here: a space or a closing mark follows it. -/
inductive Ends : List Char → Prop
  | space {rest : List Char} : Ends (' ' :: rest)
  | closes {rest : List Char} (closes : Closes rest) : Ends rest

/-- No argument starts here: a closing mark stands here, or the point of a path. -/
inductive Stops : List Char → Prop
  | point {rest : List Char} : Stops ('.' :: rest)
  | closes {rest : List Char} (closes : Closes rest) : Stops rest

theorem Ends.endsSymbol (ends : Ends rest) : endsSymbol rest = true := by
  rcases ends with _ | ⟨_ | _⟩ <;> rfl

/-! ## Words -/

/-- A text that is one symbol. -/
structure IsWord (name : List Char) : Prop where
  some_ : name ≠ []
  all : ∀ c ∈ name, isSymbol c = true

theorem stop_of_endsSymbol (ends : endsSymbol rest = true) : rest.head?.any isSymbol = false := by
  simpa [endsSymbol] using ends

theorem takeSymbol?_append (symbol : IsWord name) (ends : endsSymbol rest = true) :
    takeSymbol? (name ++ rest) = some (name, rest) := by
  have stop := stop_of_endsSymbol ends
  rw [takeSymbol?, Text.takeWhile_run symbol.all stop, Text.dropWhile_run symbol.all stop,
    if_neg (by simpa using symbol.some_)]

/-- A word is taken off a text only where the symbol that stands there is the word. -/
theorem takeWord?_eq_none (symbol : IsWord name) (ends : endsSymbol rest = true)
    (known : word.toList.all isSymbol = true) (other : name ≠ word.toList) :
    takeWord? word (name ++ rest) = none := by
  rw [takeWord?]
  refine if_neg fun taken => other ?_
  obtain ⟨starts, stops⟩ := Bool.and_eq_true_iff.1 taken
  obtain ⟨left, cut⟩ := List.isPrefixOf_iff_prefix.1 starts
  rw [← cut, List.drop_left' String.length_toList] at stops
  have same := congrArg (List.takeWhile isSymbol) cut
  rw [Text.takeWhile_run (List.all_eq_true.1 known) (stop_of_endsSymbol stops),
    Text.takeWhile_run symbol.all (stop_of_endsSymbol ends)] at same
  exact same.symm

theorem takeWord?_self (ends : endsSymbol rest = true) :
    takeWord? word (word.toList ++ rest) = some rest := by
  have starts : word.toList.isPrefixOf (word.toList ++ rest) = true :=
    List.isPrefixOf_iff_prefix.2 (List.prefix_append _ _)
  rw [takeWord?, starts, List.drop_left' String.length_toList, ends]
  rfl

/-! ## Keys and paths -/

theorem isSymbol_of_isNameChar (plain : isNameChar c = true) : isSymbol c = true := by
  simp only [isNameChar, startsName, Bool.or_eq_true] at plain
  simp only [isSymbol, Bool.or_eq_true]
  tauto

/-- Words that mean something of their own where a path may start. -/
def reserved : List String := ["null", "true", "false", "as", "else", "this"]

/-- A name that a path may start with. -/
structure IsName (key : List Char) : Prop where
  starts : key.head?.any startsName = true
  all : ∀ c ∈ key, isNameChar c = true
  free : String.ofList key ∉ reserved

/-- A key behind another one that a path reads to its end. -/
structure IsClosed (key : List Char) : Prop where
  some_ : key ≠ []
  closed : isPlainKey key = true ∨ ']' ∉ key

/-- A key that is read as it is written behind another one. -/
structure IsKey (key : List Char) : Prop where
  some_ : key ≠ []
  free : String.ofList key ≠ "this"
  closed : isPlainKey key = true ∨ ']' ∉ key

theorem IsKey.isClosed (key_ : IsKey key) : IsClosed key := ⟨key_.some_, key_.closed⟩

theorem IsName.exists_eq (first : IsName key) :
    ∃ c tail, key = c :: tail ∧ startsName c = true := by
  cases key with
  | nil => cases first.starts
  | cons c tail => exact ⟨c, tail, rfl, first.starts⟩

theorem IsName.isWord (first : IsName key) : IsWord key := by
  obtain ⟨c, tail, rfl, -⟩ := first.exists_eq
  exact ⟨List.cons_ne_nil _ _, fun d member => isSymbol_of_isNameChar (first.all d member)⟩

theorem takeKey?_word (symbol : IsWord key) (ends : endsSymbol rest = true) :
    takeKey? (key ++ rest) = some (key, rest) := by
  have read := takeSymbol?_append symbol ends
  cases key with
  | nil => exact absurd rfl symbol.some_
  | cons c tail =>
      have other : c ≠ '[' := by
        rintro rfl
        exact Bool.false_ne_true (symbol.all '[' List.mem_cons_self)
      rw [takeKey?]
      · exact read
      · rintro tail' same
        exact other (List.cons.inj same).1

theorem takeKey?_keyText (key_ : IsClosed key) (ends : endsSymbol rest = true) :
    takeKey? (keyText key ++ rest) = some (key, rest) := by
  unfold keyText
  split
  · next plain =>
      have all : ∀ c ∈ key, isNameChar c = true :=
        List.all_eq_true.1 (Bool.and_eq_true_iff.1 plain).1
      exact takeKey?_word ⟨key_.some_, fun c member => isSymbol_of_isNameChar (all c member)⟩ ends
  · next odd =>
      have open_ : ∀ c ∈ key, decide (c ≠ ']') = true := fun c member =>
        decide_eq_true fun same => key_.closed.resolve_left odd (same ▸ member)
      have stop : (']' :: rest).head?.any (fun c => decide (c ≠ ']')) = false := rfl
      rw [List.append_assoc, List.singleton_append, List.cons_append, takeKey?,
        Text.takeWhile_run open_ stop, Text.dropWhile_run open_ stop]

theorem endsSymbol_further (ends : Ends rest) :
    endsSymbol (keys.flatMap (fun k => '.' :: keyText k) ++ rest) = true := by
  cases keys with
  | nil => exact ends.endsSymbol
  | cons k keys => rfl

theorem takeKeys_further (each : ∀ k ∈ keys, IsClosed k) (ends : Ends rest)
    (enough : keys.length ≤ fuel) :
    takeKeys fuel (keys.flatMap (fun k => '.' :: keyText k) ++ rest) = (keys, rest) := by
  induction keys generalizing fuel with
  | nil =>
      cases fuel with
      | zero => rfl
      | succ fuel => rcases ends with _ | ⟨_ | _⟩ <;> rfl
  | cons k keys ih =>
      obtain ⟨first, later⟩ := List.forall_mem_cons.1 each
      cases fuel with
      | zero => contradiction
      | succ fuel =>
          rw [List.flatMap_cons, List.cons_append, List.cons_append, List.append_assoc, takeKeys,
            if_pos (by decide), takeKey?_keyText first (endsSymbol_further ends)]
          simp only [ih later (Nat.le_of_succ_le_succ enough)]

theorem pathText_cons (first : List Char) (keys : List (List Char)) :
    pathText (first :: keys) = first ++ keys.flatMap fun k => '.' :: keyText k := by
  rw [pathText]
  induction keys generalizing first with
  | nil => simp [Text.join]
  | cons k keys ih =>
      rw [List.map_cons, Text.join, ih]
      · simp
      · exact List.cons_ne_nil _ _

/-- A path that is read to its end: a word and further keys. -/
def IsWrittenPath : List (List Char) → Prop
  | [] => False
  | first :: keys => IsWord first ∧ ∀ k ∈ keys, IsClosed k

/-- A path that is read as it is written: a name and further keys. -/
def IsPlainPath : List (List Char) → Prop
  | [] => False
  | first :: keys => IsName first ∧ ∀ k ∈ keys, IsKey k

theorem IsPlainPath.isWrittenPath (plain : IsPlainPath keys) : IsWrittenPath keys := by
  cases keys with
  | nil => exact plain.elim
  | cons first keys => exact ⟨plain.1.isWord, fun k member => (plain.2 k member).isClosed⟩

/-- A path is read as its keys without the key `this`. -/
theorem IsWrittenPath.takePath?_pathText (path : IsWrittenPath keys) (ends : Ends rest) :
    takePath? (pathText keys ++ rest) =
      some ((keys.map String.ofList).filter (· ≠ "this"), rest) := by
  cases keys with
  | nil => exact path.elim
  | cons first keys =>
      obtain ⟨word, further⟩ := path
      have enough : keys.length ≤ (keys.flatMap (fun k => '.' :: keyText k) ++ rest).length := by
        have grows := Text.length_le_length_flatMap (f := fun k => '.' :: keyText k)
          (fun _ => List.cons_ne_nil _ _) keys
        rw [List.length_append]
        omega
      rw [pathText_cons, List.append_assoc, takePath?,
        takeKey?_word word (endsSymbol_further ends)]
      simp only [takeKeys_further further ends enough]

/-- No key of a plain path is passed over. -/
theorem IsPlainPath.filter_keys (plain : IsPlainPath keys) :
    (keys.map String.ofList).filter (· ≠ "this") = keys.map String.ofList := by
  cases keys with
  | nil => exact plain.elim
  | cons first keys =>
      obtain ⟨name, further⟩ := plain
      refine List.filter_eq_self.2 (List.forall_mem_map.2 (List.forall_mem_cons.2 ⟨?_, ?_⟩))
      · exact decide_eq_true fun same => name.free (same ▸ by decide)
      · exact fun k member => decide_eq_true (further k member).free

theorem takePath?_pathText (plain : IsPlainPath keys) (ends : Ends rest) :
    takePath? (pathText keys ++ rest) = some (keys.map String.ofList, rest) := by
  rw [plain.isWrittenPath.takePath?_pathText ends, plain.filter_keys]

/-! ## Literals -/

theorem takeSign_append (some_ : cs ≠ []) :
    takeSign (cs ++ rest) = ((takeSign cs).1, (takeSign cs).2 ++ rest) := by
  cases cs with
  | nil => exact absurd rfl some_
  | cons c cs =>
      by_cases minus : c = '-'
      · subst minus
        rfl
      · have same (more : List Char) : takeSign (c :: more) = ([], c :: more) := by
          unfold takeSign
          split
          · next eq => exact absurd (List.cons.inj eq).1 minus
          · rfl
        rw [List.cons_append, same, same]
        rfl

theorem takeFraction_append (digit : rest.head?.any Text.isAsciiDigit = false)
    (point : rest.head? ≠ some '.') :
    takeFraction (cs ++ rest) = ((takeFraction cs).1, (takeFraction cs).2 ++ rest) := by
  have other {c : Char} {more : List Char} (no : c ≠ '.') :
      takeFraction (c :: more) = ([], c :: more) := by
    unfold takeFraction
    split
    · next eq => exact absurd (List.cons.inj eq).1 no
    · rfl
  cases cs with
  | nil =>
      cases rest with
      | nil => rfl
      | cons c rest => exact other fun same => point (same ▸ rfl)
  | cons c cs =>
      by_cases same : c = '.'
      · subst same
        simp only [List.cons_append, takeFraction, Text.takeWhile_append_of_stop digit,
          Text.dropWhile_append_of_stop digit]
      · rw [List.cons_append, other same, other same]
        rfl

/-- A number that is a text of its own is taken off what follows it. -/
theorem takeNumber?_append (whole : takeNumber? written = some (written, [])) (ends : Ends rest) :
    takeNumber? (written ++ rest) = some (written, rest) := by
  have some_ : written ≠ [] := by
    rintro rfl
    cases whole
  have digit : rest.head?.any Text.isAsciiDigit = false := by
    rcases ends with _ | ⟨_ | _⟩ <;> rfl
  have point : rest.head? ≠ some '.' := by
    rcases ends with _ | ⟨_ | _⟩ <;> simp
  unfold takeNumber? at whole ⊢
  simp only [takeSign_append some_, Text.takeWhile_append_of_stop digit,
    Text.dropWhile_append_of_stop digit, takeFraction_append digit point] at whole ⊢
  split at whole
  · cases whole
  · next digits =>
      obtain ⟨same, left⟩ := Prod.mk.inj (Option.some.inj whole)
      rw [left] at digits ⊢
      have symbol : endsSymbol [] = endsSymbol rest := ends.endsSymbol.symm
      rw [List.nil_append, ← symbol, if_neg digits, same]

theorem takeNumber?_eq_none (minus : c ≠ '-') (digit : Text.isAsciiDigit c = false) :
    takeNumber? (c :: cs) = none := by
  have sign : takeSign (c :: cs) = ([], c :: cs) := by
    unfold takeSign
    split
    · next eq => exact absurd (List.cons.inj eq).1 minus
    · rfl
  unfold takeNumber?
  rw [sign]
  simp [digit]

/-- What an argument is read as, whatever stands behind it. -/
structure Reads (text : List Char) (p : Param) : Prop where
  dark : ∃ c tail, text = c :: tail ∧ isSpace c = false
  read : ∀ {fuel : Nat} {rest : List Char}, 2 * text.length ≤ fuel → Ends rest →
    readParam fuel (text ++ rest) = some (p, rest)

theorem reads_of_literal (dark : ∃ c tail, text = c :: tail ∧ isSpace c = false)
    (plain : ∀ {rest}, Ends rest → isKeyword (text ++ rest) = false)
    (literal : ∀ {rest}, Ends rest → readLiteral (text ++ rest) = .value v rest) :
    Reads text (.value v) := by
  refine ⟨dark, fun {fuel rest} enough ends => ?_⟩
  obtain ⟨c, tail, rfl, -⟩ := dark
  cases fuel with
  | zero => contradiction
  | succ fuel =>
      rw [readParam.eq_def]
      simp only [plain ends, literal ends, Bool.false_eq_true, if_false]

theorem takeWord?_cons_ne {d : Char} {letters : List Char} (same : word.toList = d :: letters)
    (other : c ≠ d) : takeWord? word (c :: cs) = none := by
  have starts : word.toList.isPrefixOf (c :: cs) = false := by
    rw [same, List.isPrefixOf_cons_cons, beq_eq_false_iff_ne.2 other.symm, Bool.false_and]
  rw [takeWord?, starts, Bool.false_and, if_neg Bool.false_ne_true]

theorem isKeyword_cons_ne (a : c ≠ 'a') (e : c ≠ 'e') : isKeyword (c :: cs) = false := by
  rw [isKeyword, takeWord?_cons_ne rfl a, takeWord?_cons_ne rfl e]
  rfl

theorem reads_text (inner : List Char) :
    Reads (Json.quoteChars inner) (.value (.str (String.ofList inner))) := by
  refine reads_of_literal ⟨_, _, rfl, rfl⟩ (fun _ => isKeyword_cons_ne (by decide) (by decide))
    fun _ => ?_
  rw [Json.quoteChars, List.cons_append, List.append_assoc, List.singleton_append, readLiteral,
    Json.readString_quoted]

theorem readLiteral_number (number : takeNumber? cs = some (written, rest))
    (value : Json.read? written = some v) : readLiteral cs = .value v rest := by
  unfold readLiteral
  split
  · rw [takeNumber?_eq_none (by decide) rfl] at number
    cases number
  · rw [number]
    simp only [value]

theorem readLiteral_of_no_number (quote : cs.head? ≠ some '"') (number : takeNumber? cs = none) :
    readLiteral cs =
      match takeWord? "null" cs, takeWord? "true" cs, takeWord? "false" cs with
      | some left, _, _ => .value .null left
      | _, some left, _ => .value (.bool true) left
      | _, _, some left => .value (.bool false) left
      | none, none, none => .absent := by
  unfold readLiteral
  split
  · exact absurd rfl quote
  · generalize takeNumber? cs = found at number
    subst number
    rfl

theorem reads_bool (b : Bool) : Reads (Literal.bool b).argument (.value (.bool b)) := by
  refine reads_of_literal ?_ (fun {rest} _ => ?_) fun {rest} ends => ?_
  · cases b <;> exact ⟨_, _, rfl, rfl⟩
  · cases b
    · exact isKeyword_cons_ne (c := 'f') (by decide) (by decide)
    · exact isKeyword_cons_ne (c := 't') (by decide) (by decide)
  cases b with
  | true =>
      show readLiteral ("true".toList ++ rest) = _
      have number : takeNumber? ("true".toList ++ rest) = none :=
        takeNumber?_eq_none (c := 't') (by decide) rfl
      have null : takeWord? "null" ("true".toList ++ rest) = none :=
        takeWord?_cons_ne rfl (by decide)
      rw [readLiteral_of_no_number (by simp) number, null, takeWord?_self ends.endsSymbol]
  | false =>
      show readLiteral ("false".toList ++ rest) = _
      have number : takeNumber? ("false".toList ++ rest) = none :=
        takeNumber?_eq_none (c := 'f') (by decide) rfl
      have null : takeWord? "null" ("false".toList ++ rest) = none :=
        takeWord?_cons_ne rfl (by decide)
      have true_ : takeWord? "true" ("false".toList ++ rest) = none :=
        takeWord?_cons_ne rfl (by decide)
      rw [readLiteral_of_no_number (by simp) number, null, true_, takeWord?_self ends.endsSymbol]

theorem reads_number (whole : takeNumber? written = some (written, []))
    (value : Json.read? written = some v) : Reads written (.value v) := by
  cases written with
  | nil => cases whole
  | cons c tail =>
      have signs : c = '-' ∨ Text.isAsciiDigit c = true := by
        by_contra none_
        obtain ⟨minus, digit⟩ := not_or.1 none_
        rw [takeNumber?_eq_none minus (Bool.not_eq_true _ ▸ digit)] at whole
        cases whole
      have known : isSpace c = false ∧ c ≠ 'a' ∧ c ≠ 'e' := by
        rcases signs with rfl | digit
        · decide
        · refine ⟨?_, ?_, ?_⟩
          · exact isSpace_eq.trans (Json.isSpace_of_digit digit)
          · rintro rfl
            cases digit
          · rintro rfl
            cases digit
      obtain ⟨dark, a, e⟩ := known
      exact reads_of_literal ⟨c, tail, rfl, dark⟩ (fun _ => isKeyword_cons_ne a e) fun ends =>
        readLiteral_number (takeNumber?_append whole ends) value

/-! ## Paths -/

theorem ne_of_startsName {d : Char} (starts : startsName c = true) (other : startsName d = false) :
    c ≠ d :=
  fun same => Bool.false_ne_true ((same ▸ other).symm.trans starts)

theorem isAsciiDigit_of_startsName (starts : startsName c = true) :
    Text.isAsciiDigit c = false := by
  simp only [startsName, Text.isAsciiLetter, Bool.or_eq_true, Bool.and_eq_true, decide_eq_true_eq,
    beq_iff_eq, Char.le_def, UInt32.le_iff_toNat_le] at starts
  simp only [Text.isAsciiDigit, Bool.and_eq_false_iff, decide_eq_false_iff_not, Char.le_def,
    UInt32.le_iff_toNat_le]
  rcases starts with (⟨least, -⟩ | ⟨least, -⟩) | rfl
  · exact .inr fun most => absurd (Nat.le_trans least most) (by decide)
  · exact .inr fun most => absurd (Nat.le_trans least most) (by decide)
  · exact .inr (by decide)

theorem isSpace_of_isSymbol (symbol : isSymbol c = true) : isSpace c = false := by
  have other {d : Char} (space : isSymbol d = false) : (c == d) = false :=
    beq_eq_false_iff_ne.2 fun same => Bool.false_ne_true ((same ▸ space).symm.trans symbol)
  rw [isSpace, other rfl, other rfl, other rfl, other rfl]
  rfl

theorem IsName.takeWord?_eq_none (first : IsName key) (ends : endsSymbol rest = true)
    (word_ : word ∈ reserved) : takeWord? word (key ++ rest) = none := by
  have known : ∀ word ∈ reserved, word.toList.all isSymbol = true := by decide
  refine Braces.takeWord?_eq_none first.isWord ends (known word word_) fun same => first.free ?_
  rw [same, String.ofList_toList]
  exact word_

theorem IsName.isKeyword_eq_false (first : IsName key) (ends : endsSymbol rest = true) :
    isKeyword (key ++ rest) = false := by
  rw [isKeyword, first.takeWord?_eq_none ends (by decide), first.takeWord?_eq_none ends (by decide)]
  rfl

theorem IsName.readLiteral_eq (first : IsName key) (ends : endsSymbol rest = true) :
    readLiteral (key ++ rest) = .absent := by
  have null : takeWord? "null" (key ++ rest) = none := first.takeWord?_eq_none ends (by decide)
  have true_ : takeWord? "true" (key ++ rest) = none := first.takeWord?_eq_none ends (by decide)
  have false_ : takeWord? "false" (key ++ rest) = none := first.takeWord?_eq_none ends (by decide)
  obtain ⟨c, tail, rfl, starts⟩ := first.exists_eq
  have quote : (c :: tail ++ rest).head? ≠ some '"' := fun same =>
    ne_of_startsName starts (d := '"') rfl (Option.some.inj same)
  have number : takeNumber? (c :: tail ++ rest) = none :=
    takeNumber?_eq_none (ne_of_startsName starts rfl) (isAsciiDigit_of_startsName starts)
  rw [readLiteral_of_no_number quote number, null, true_, false_]

theorem reads_path (plain : IsPlainPath keys) :
    Reads (pathText keys) (.path (keys.map String.ofList)) := by
  cases keys with
  | nil => exact plain.elim
  | cons first keys =>
      obtain ⟨c, tail, same, starts⟩ := plain.1.exists_eq
      refine ⟨⟨c, tail ++ keys.flatMap fun k => '.' :: keyText k, ?_, ?_⟩,
        fun {fuel rest} enough ends => ?_⟩
      · rw [pathText_cons, same, List.cons_append]
      · exact isSpace_of_isSymbol (plain.1.isWord.all c (same ▸ List.mem_cons_self))
      · have path := takePath?_pathText plain ends
        rw [pathText_cons, List.append_assoc] at path ⊢
        cases fuel with
        | zero =>
            rw [pathText_cons, same] at enough
            contradiction
        | succ fuel =>
            have further : endsSymbol (keys.flatMap (fun k => '.' :: keyText k) ++ rest) = true :=
              endsSymbol_further ends
            rw [readParam.eq_def]
            simp only [plain.1.isKeyword_eq_false further, plain.1.readLiteral_eq further,
              Bool.false_eq_true, if_false]
            split
            · next open_ =>
                rw [same] at open_
                exact absurd (List.cons.inj open_).1 (ne_of_startsName starts rfl)
            · rw [path]
              rfl

/-! ## Where no argument stands -/

theorem readLiteral_of_not_isSymbol (quote : c ≠ '"') (minus : c ≠ '-')
    (dark : isSymbol c = false) : readLiteral (c :: cs) = .absent := by
  have other {d : Char} (symbol : isSymbol d = true) : c ≠ d := fun same =>
    Bool.false_ne_true (dark.symm.trans (same ▸ symbol))
  have digit : Text.isAsciiDigit c = false := by
    simp only [isSymbol, Bool.or_eq_false_iff] at dark
    exact dark.1.1.1.1.2
  have opens : (c :: cs).head? ≠ some '"' := fun same => quote (Option.some.inj same)
  rw [readLiteral_of_no_number opens (takeNumber?_eq_none minus digit),
    takeWord?_cons_ne rfl (other rfl), takeWord?_cons_ne rfl (other rfl),
    takeWord?_cons_ne rfl (other rfl)]

theorem takeSymbol?_of_not_isSymbol (dark : isSymbol c = false) : takeSymbol? (c :: cs) = none := by
  have stop : (c :: cs).head?.any isSymbol = false := dark
  rw [takeSymbol?, Text.takeWhile_eq_nil stop]
  rfl

theorem takePath?_of_not_isSymbol (bracket : c ≠ '[') (dark : isSymbol c = false) :
    takePath? (c :: cs) = none := by
  have key : takeKey? (c :: cs) = none := by
    rw [takeKey?, takeSymbol?_of_not_isSymbol dark]
    intro tail same
    exact bracket (List.cons.inj same).1
  rw [takePath?, key]

theorem readParam_of_not_isSymbol (dark : isSymbol c = false)
    (other : c ∉ ['"', '-', '[', 'a', 'e', '(']) : readParam fuel (c :: cs) = none := by
  simp only [List.mem_cons, List.not_mem_nil, not_or] at other
  obtain ⟨quote, minus, bracket, a, e, parenthesis, -⟩ := other
  cases fuel with
  | zero => rfl
  | succ fuel =>
      rw [readParam.eq_def]
      simp only [isKeyword_cons_ne a e, readLiteral_of_not_isSymbol quote minus dark,
        Bool.false_eq_true, if_false]
      split
      · next open_ => exact absurd (List.cons.inj open_).1 parenthesis
      · rw [takePath?_of_not_isSymbol bracket dark]
        rfl

theorem readParam_of_stops (stops : Stops rest) : readParam fuel rest = none := by
  rcases stops with _ | ⟨_ | _⟩ <;> exact readParam_of_not_isSymbol rfl (by decide)

end Fleet.Template.Braces
