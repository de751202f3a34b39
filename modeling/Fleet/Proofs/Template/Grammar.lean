/-
# The grammar of expressions

An expression is a base and filters behind bars, each with arguments between parentheses or without
any, and blanks may stand around every token. What conversion accepts is close to that: it also
takes a text for a literal that starts and ends with the same quote, whatever stands between, passes
over arguments that are missing, and refuses a line feed between parentheses. Apart from these three
the two agree, on what is an expression and on which one it is (`converts_iff`).
-/

import Fleet.Proofs.Except
import Fleet.Proofs.Template.Token
import Fleet.Template.Convert
import Fleet.Template.Filter

namespace Fleet.Template

/-- A way of writing expressions. -/
structure Dialect where
  /-- How a text is cut at a separator. -/
  cuts : Char → List Char → List (List Char) → Prop
  /-- What may stand between two quotes of a kind. -/
  quotes : Char → List Char → Prop
  /-- What may stand between parentheses. -/
  holds : List Char → Prop
  /-- Whether an argument may be missing where there is a comma. -/
  gaps : Prop

namespace Dialect

/-- The grammar: a text between quotes does not hold the quote again. -/
def grammar : Dialect where
  cuts separator text parts := parts ≠ [] ∧ Text.join [separator] parts = text
  quotes q inner := q ∉ inner
  holds _ := True
  gaps := False

/-- What conversion accepts. -/
def accepted : Dialect where
  cuts := Divides
  quotes _ _ := True
  holds inside := '\n' ∉ inside
  gaps := True

/-- No line feed stands between parentheses. -/
def oneLine (D : Dialect) : Dialect := { D with holds := fun inside => '\n' ∉ inside }

/-- No quote stands in its own text, and no argument is missing. -/
def clear (D : Dialect) : Dialect := { D with quotes := fun q inner => q ∉ inner, gaps := False }

end Dialect

variable {D D' : Dialect} {filters : List String} {separator : Char}
  {cs w whole text part body name inside : List Char} {texts parts : List (List Char)}
  {l : Literal} {args : List Literal} {b : Base} {c : Call} {calls : List Call} {e : Expression}

/-- How a literal is written. -/
inductive Literal.Written (D : Dialect) : List Char → Literal → Prop
  | text {q : Char} {inner : List Char} (quote : isQuote q = true) (between : D.quotes q inner) :
      Literal.Written D (q :: (inner ++ [q])) (.text inner)
  | true_ {word : String} (one : word ∈ ["true", "True"]) :
      Literal.Written D word.toList (.bool true)
  | false_ {word : String} (one : word ∈ ["false", "False"]) :
      Literal.Written D word.toList (.bool false)
  | number {written : List Char} (numeral : IsNumeral written) :
      Literal.Written D written (.number written)

/-- How a base is written. A truth value is no path. -/
inductive Base.Written (D : Dialect) : List Char → Base → Prop
  | literal {w : List Char} {l : Literal} (written : l.Written D w) :
      Base.Written D w (.literal w l)
  | path {w : List Char} (variable_ : IsVariable w)
      (free : String.ofList w ∉ ["true", "True", "false", "False"]) :
      Base.Written D w (.path (keys w))

/-- How arguments are written between commas. -/
inductive Listed (D : Dialect) : List (List Char) → List Literal → Prop
  | nil : Listed D [] []
  | gap {text : List Char} {texts : List (List Char)} {args : List Literal} (allowed : D.gaps)
      (blank : Padded [] text) (later : Listed D texts args) : Listed D (text :: texts) args
  | cons {text w : List Char} {l : Literal} {texts : List (List Char)} {args : List Literal}
      (padded : Padded w text) (written : l.Written D w) (later : Listed D texts args) :
      Listed D (text :: texts) (l :: args)

/-- How arguments are written between parentheses. -/
inductive Given (D : Dialect) : List Char → List Literal → Prop
  | none {inside : List Char} (blank : Padded [] inside) : Given D inside []
  | some {inside : List Char} {texts : List (List Char)} {args : List Literal}
      (cut : D.cuts ',' inside texts) (listed : Listed D texts args) : Given D inside args

/-- How the application of a filter is written. -/
inductive Call.Written (D : Dialect) (filters : List String) : List Char → Call → Prop
  | bare {name : List Char} (name_ : IsIdentifier name) (known : String.ofList name ∈ filters) :
      Call.Written D filters name ⟨String.ofList name, []⟩
  | given {name before inside : List Char} {args : List Literal} (name_ : IsIdentifier name)
      (known : String.ofList name ∈ filters) (blank : ∀ c ∈ before, Text.isBlank c = true)
      (held : D.holds inside) (given : Given D inside args) :
      Call.Written D filters (name ++ (before ++ '(' :: (inside ++ [')'])))
        ⟨String.ofList name, args⟩

/-- How an expression is written. -/
inductive Expression.Written (D : Dialect) (filters : List String) :
    List Char → Expression → Prop
  | intro {text part : List Char} {parts : List (List Char)} {b : Base} {calls : List Call}
      (cut : D.cuts '|' text (part :: parts)) (base : ∃ w, Padded w part ∧ b.Written D w)
      (each : List.Forall₂ (fun part c => ∃ w, Padded w part ∧ c.Written D filters w) parts calls) :
      Expression.Written D filters text ⟨b, calls⟩

/-! ## Tokens -/

theorem isDark_quoted {q : Char} {inner : List Char} (quote : isQuote q = true) :
    IsDark (q :: (inner ++ [q])) := by
  have dark : Text.isBlank q = false := by
    by_contra blank
    rw [isQuote_of_isBlank (Bool.not_eq_false _ ▸ blank)] at quote
    cases quote
  refine ⟨by simpa using dark, ?_⟩
  rw [← List.cons_append, List.getLast?_concat]
  simpa using dark

theorem isIdentifier_of_truth {word : String} (one : word ∈ ["true", "True", "false", "False"]) :
    IsIdentifier word.toList := by
  have each : ∀ word ∈ ["true", "True", "false", "False"],
      word.toList.head?.any startsName = true ∧ word.toList.all isNameChar = true := by decide
  obtain ⟨starts, all⟩ := each word one
  exact ⟨starts, List.all_eq_true.1 all⟩

theorem Literal.Written.isDark (written : l.Written D w) : IsDark w := by
  cases written with
  | text quote => exact isDark_quoted quote
  | true_ one => exact (isIdentifier_of_truth (List.mem_append_left ["false", "False"] one)).isDark
  | false_ one => exact (isIdentifier_of_truth (List.mem_append_right ["true", "True"] one)).isDark
  | number numeral => exact numeral.isDark

theorem Base.Written.isDark (written : b.Written D w) : IsDark w := by
  cases written with
  | literal written => exact written.isDark
  | path variable_ => exact variable_.isDark

theorem Call.Written.isDark (written : c.Written D filters w) : IsDark w := by
  cases written with
  | bare name_ => exact name_.isDark
  | @given name before inside args name_ =>
      refine name_.isDark.append fun c last => ?_
      rw [← List.cons_append, ← List.append_assoc, List.getLast?_concat] at last
      obtain rfl := Option.some.inj last
      decide

/-! ## What conversion accepts -/

theorem isQuoted_iff : isQuoted w = true ↔
    ∃ q inner, isQuote q = true ∧ w = q :: (inner ++ [q]) := by
  constructor
  · intro quoted
    simp only [isQuoted, Bool.and_eq_true, decide_eq_true_eq, beq_iff_eq] at quoted
    obtain ⟨⟨long, starts⟩, ends⟩ := quoted
    cases w with
    | nil => cases starts
    | cons q tail =>
        have some_ : tail ≠ [] := by
          rintro rfl
          exact absurd long (Nat.not_le_of_lt (Nat.lt_succ_self 1))
        have last : tail.getLast some_ = q := by
          rw [List.getLast?_cons_of_ne_nil some_, List.getLast?_eq_some_getLast some_] at ends
          exact Option.some.inj ends
        refine ⟨q, tail.dropLast, starts, ?_⟩
        rw [← last, List.dropLast_append_getLast]
  · rintro ⟨q, inner, quote, rfl⟩
    have ends : (q :: (inner ++ [q])).getLast? = some q := by
      rw [← List.cons_append, List.getLast?_concat]
    simp only [isQuoted, Bool.and_eq_true, decide_eq_true_eq, beq_iff_eq]
    exact ⟨⟨by simp, quote⟩, ends⟩

theorem isQuoted_of_head (other : w.head?.any isQuote = false) : isQuoted w = false := by
  rw [isQuoted, other, Bool.and_false, Bool.false_and]

/-- A path that is no truth value is no literal. -/
theorem IsVariable.not_literal (variable_ : IsVariable w)
    (free : String.ofList w ∉ ["true", "True", "false", "False"]) : ¬ l.Written D w := by
  have starts := variable_.head_startsName
  intro written
  cases written with
  | text quote =>
      have quote_ := isQuote_of_test (p := startsName) starts rfl rfl
      exact Bool.false_ne_true (quote_.symm.trans quote)
  | true_ one =>
      rw [String.ofList_toList] at free
      exact free (List.mem_append_left ["false", "False"] one)
  | false_ one =>
      rw [String.ofList_toList] at free
      exact free (List.mem_append_right ["true", "True"] one)
  | number numeral => exact Bool.false_ne_true (numeral.head_startsName.symm.trans starts)

theorem ofText?_eq_some_iff : Literal.ofText? w = some l ↔ l.Written .accepted w := by
  constructor
  · intro read
    unfold Literal.ofText? at read
    split at read
    · next quoted =>
        obtain ⟨q, inner, quote, rfl⟩ := isQuoted_iff.1 quoted
        obtain rfl := Option.some.inj read
        rw [List.tail_cons, List.dropLast_concat]
        exact .text quote trivial
    · split at read
      · next truth =>
          obtain rfl := Option.some.inj read
          rcases Bool.or_eq_true_iff.1 truth with same | same
          · rw [of_decide_eq_true same]
            exact .true_ (by decide)
          · rw [of_decide_eq_true same]
            exact .true_ (by decide)
      · split at read
        · next truth =>
            obtain rfl := Option.some.inj read
            rcases Bool.or_eq_true_iff.1 truth with same | same
            · rw [of_decide_eq_true same]
              exact .false_ (by decide)
            · rw [of_decide_eq_true same]
              exact .false_ (by decide)
        · split at read
          · next number =>
              obtain rfl := Option.some.inj read
              exact .number (isNumber_iff.1 number)
          · cases read
  · intro written
    cases written with
    | @text q inner quote =>
        rw [Literal.ofText?, if_pos (isQuoted_iff.2 ⟨q, inner, quote, rfl⟩), List.tail_cons,
          List.dropLast_concat]
    | @true_ word one =>
        have each : ∀ word ∈ ["true", "True"],
            Literal.ofText? word.toList = some (.bool true) := by decide
        exact each word one
    | @false_ word one =>
        have each : ∀ word ∈ ["false", "False"],
            Literal.ofText? word.toList = some (.bool false) := by decide
        exact each word one
    | number numeral =>
        have starts := numeral.head_startsName
        have unquoted : isQuoted w = false := isQuoted_of_head numeral.head_isQuote
        have other (word : String) (letter : word.toList.head?.any startsName = true) :
            decide (w = word.toList) = false := by
          refine decide_eq_false ?_
          rintro rfl
          exact Bool.false_ne_true (starts.symm.trans letter)
        rw [Literal.ofText?, unquoted, other "true" rfl, other "True" rfl, other "false" rfl,
          other "False" rfl, isNumber_iff.2 numeral]
        rfl

theorem readBase_eq_ok_iff : Expression.readBase whole w = .ok b ↔ b.Written .accepted w := by
  constructor
  · intro read
    unfold Expression.readBase at read
    split at read
    · cases read
    · split at read
      · next l found =>
          obtain rfl := Except.ok.inj read
          exact .literal (ofText?_eq_some_iff.1 found)
      · next unread =>
          split at read
          · next path =>
              obtain rfl := Except.ok.inj read
              refine .path (isPath_iff.1 path) fun truth => ?_
              have each : ∀ word ∈ ["true", "True", "false", "False"],
                  (Literal.ofText? word.toList).isSome = true := by decide
              have found := each _ truth
              rw [String.toList_ofList, unread] at found
              cases found
          · cases read
  · intro written
    have some_ : w.isEmpty = false := by
      have head := written.isDark.head
      cases w with
      | nil => cases head
      | cons c w => rfl
    rw [Expression.readBase, some_, if_neg Bool.false_ne_true]
    cases written with
    | literal written => rw [ofText?_eq_some_iff.2 written]
    | path variable_ free =>
        cases found : Literal.ofText? w with
        | none => simp only [isPath_iff.2 variable_, if_true]
        | some l =>
            exact absurd (ofText?_eq_some_iff.1 found) (variable_.not_literal free)

theorem isEmpty_of_isDark (dark : IsDark w) : w.isEmpty = false := by
  cases w with
  | nil => cases dark.head
  | cons c w => rfl

theorem listed_iff : Listed .accepted texts args ↔
    List.Forall₂ (fun a l => Literal.ofText? a = some l)
      ((texts.map Text.trim).filter fun a => !a.isEmpty) args := by
  constructor
  · intro listed
    induction listed with
    | nil => exact .nil
    | gap _ blank _ ih =>
        rw [List.map_cons, padded_nil_iff.1 blank]
        exact ih
    | cons padded written _ ih =>
        rw [List.map_cons, padded.trim_eq written.isDark, List.filter_cons,
          isEmpty_of_isDark written.isDark]
        exact .cons (ofText?_eq_some_iff.2 written) ih
  · intro each
    induction texts generalizing args with
    | nil =>
        obtain rfl := List.forall₂_nil_left_iff.1 each
        exact .nil
    | cons text texts ih =>
        rw [List.map_cons, List.filter_cons] at each
        split at each
        · obtain ⟨l, args, read, later, rfl⟩ := List.forall₂_cons_left_iff.1 each
          exact .cons (padded_trim text) (ofText?_eq_some_iff.1 read) (ih later)
        · next blank => exact .gap trivial (padded_nil_iff.2 (by simpa using blank)) (ih each)

theorem given_iff :
    Given .accepted inside args ↔ Listed .accepted (splitOutsideQuotes ',' inside) args := by
  constructor
  · rintro (blank | ⟨cut, listed⟩)
    · -- blanks alone are one part
      have whole : IsWhole ',' inside := IsWhole.nil.padded (by decide) blank
      rw [(splitOutsideQuotes_eq_iff rfl).2 (.last (.inl whole))]
      exact .gap trivial blank .nil
    · rwa [(splitOutsideQuotes_eq_iff rfl).2 cut]
  · exact .some ((splitOutsideQuotes_eq_iff rfl).1 rfl)

theorem readArgs_eq_ok_iff :
    Expression.readArgs whole inside = .ok args ↔ Given .accepted inside args := by
  rw [given_iff, listed_iff, Expression.readArgs, mapM_eq_ok_iff]
  refine iff_of_eq (congrArg (List.Forall₂ · _ _) ?_)
  funext a l
  cases Literal.ofText? a <;> simp

/-- A name ends where blanks follow it, or something that is no character of a name. -/
theorem head_isNameChar_of_blanks {before rest : List Char}
    (blank : ∀ c ∈ before, Text.isBlank c = true) (stop : rest.head?.any isNameChar = false) :
    (before ++ rest).head?.any isNameChar = false := by
  cases before with
  | nil => exact stop
  | cons c before =>
      by_contra plain
      have dark := isBlank_of_isNameChar (Bool.not_eq_false _ ▸ plain : isNameChar c = true)
      exact Bool.false_ne_true (dark.symm.trans (blank c List.mem_cons_self))

theorem splitCall?_eq_some_iff {given : Option (List Char)} :
    Expression.splitCall? w = some (name, given) ↔ IsIdentifier name ∧
      ∃ before, (∀ c ∈ before, Text.isBlank c = true) ∧
        ((given = none ∧ w = name ++ before) ∨ ∃ inside, given = some inside ∧
          '\n' ∉ inside ∧ w = name ++ (before ++ '(' :: (inside ++ [')']))) := by
  constructor
  · intro split_
    unfold Expression.splitCall? at split_
    split at split_
    · cases split_
    · next name' rest taken =>
        obtain ⟨name_, -, rfl⟩ := takeName?_eq_some_iff.1 taken
        have whole := List.takeWhile_append_dropWhile (p := Text.isBlank) (l := rest)
        have blank : ∀ c ∈ rest.takeWhile Text.isBlank, Text.isBlank c = true :=
          fun _ member => List.mem_takeWhile_imp member
        split at split_
        · next ended =>
            obtain ⟨rfl, rfl⟩ := Prod.mk.inj (Option.some.inj split_)
            rw [← Text.trimStart, ended, List.append_nil] at whole
            exact ⟨name_, _, blank, .inl ⟨rfl, by rw [whole]⟩⟩
        · next inside behind =>
            split at split_
            · next closed =>
                obtain ⟨rfl, rfl⟩ := Prod.mk.inj (Option.some.inj split_)
                simp only [Bool.and_eq_true, beq_iff_eq, Bool.not_eq_true', List.contains_eq_mem,
                  decide_eq_false_iff_not] at closed
                have ended := List.dropLast_append_getLast? _ closed.1
                refine ⟨name_, _, blank, .inr ⟨_, rfl, ?_, ?_⟩⟩
                · exact fun inside_ => closed.2 (List.dropLast_subset _ inside_)
                · rw [ended, ← behind, Text.trimStart, whole]
            · cases split_
        · cases split_
  · rintro ⟨name_, before, blank, ⟨rfl, rfl⟩ | ⟨inside, rfl, held, rfl⟩⟩
    · have stop : (before ++ []).head?.any isNameChar = false :=
        head_isNameChar_of_blanks blank rfl
      rw [List.append_nil] at stop
      have ended : Text.trimStart before = [] := List.dropWhile_eq_nil_iff.2 blank
      rw [Expression.splitCall?, takeName?_append name_ stop]
      simp only [ended]
    · have stop : (before ++ '(' :: (inside ++ [')'])).head?.any isNameChar = false :=
        head_isNameChar_of_blanks blank rfl
      have ended : Text.trimStart (before ++ '(' :: (inside ++ [')'])) =
          '(' :: (inside ++ [')']) :=
        Text.dropWhile_run blank (by decide : Text.isBlank '(' = false)
      have closed : ((inside ++ [')']).getLast? == some ')' &&
          !(inside ++ [')']).contains '\n') = true := by
        rw [List.getLast?_concat]
        simpa using held
      rw [Expression.splitCall?, takeName?_append name_ stop]
      simp only [ended, closed, if_true, List.dropLast_concat]

theorem readCall_eq_ok_iff : Expression.readCall filters whole part = .ok c ↔
    c.Written .accepted filters (Text.trim part) := by
  constructor
  · intro read
    unfold Expression.readCall at read
    split at read
    · cases read
    · next name given split_ =>
        obtain ⟨name_, before, blank, written⟩ := splitCall?_eq_some_iff.1 split_
        simp only at read
        split at read
        · next known =>
            have known : String.ofList name ∈ filters := List.contains_iff_mem.1 known
            rcases written with ⟨rfl, same⟩ | ⟨inside, rfl, held, same⟩
            · obtain rfl : c = ⟨String.ofList name, []⟩ := pure_eq_ok_iff.1 read
              have padded : Padded name part := by
                have padded := padded_trim part
                rw [same] at padded
                exact padded.of_append blank
              rw [padded.trim_eq name_.isDark]
              exact .bare name_ known
            · obtain ⟨args, readArgs, same_⟩ := bind_eq_ok_iff.1 read
              obtain rfl := pure_eq_ok_iff.1 same_
              rw [same]
              exact .given name_ known blank held (readArgs_eq_ok_iff.1 readArgs)
        · cases read
  · intro written
    rw [Expression.readCall]
    generalize Text.trim part = w at written
    cases written with
    | @bare name name_ known =>
        have split_ : Expression.splitCall? w = some (w, none) :=
          splitCall?_eq_some_iff.2 ⟨name_, [], nofun, .inl ⟨rfl, (List.append_nil w).symm⟩⟩
        simp only [split_, List.contains_iff_mem.2 known, if_true]
        rfl
    | given name_ known blank held given =>
        have split_ := splitCall?_eq_some_iff.2 ⟨name_, _, blank, .inr ⟨_, rfl, held, rfl⟩⟩
        simp only [split_, List.contains_iff_mem.2 known, if_true, readArgs_eq_ok_iff.2 given]
        rfl

theorem read_eq_ok_iff :
    Expression.read filters cs = .ok e ↔ e.Written .accepted filters cs := by
  rw [Expression.read, bind_eq_ok_iff]
  simp only [bind_eq_ok_iff, pure_eq_ok_iff, readBase_eq_ok_iff, mapM_eq_ok_iff,
    readCall_eq_ok_iff]
  constructor
  · rintro ⟨b, base, calls, each, rfl⟩
    have cut : Divides '|' cs (splitOutsideQuotes '|' cs) := (splitOutsideQuotes_eq_iff rfl).1 rfl
    cases parts : splitOutsideQuotes '|' cs with
    | nil => exact absurd parts cut.ne_nil
    | cons part parts_ =>
        rw [parts] at cut base each
        refine .intro cut ⟨_, padded_trim part, base⟩ (each.imp fun part c written => ?_)
        exact ⟨_, padded_trim part, written⟩
  · rintro ⟨cut, base, each⟩
    rw [(splitOutsideQuotes_eq_iff rfl).2 cut]
    refine ⟨_, (exists_padded_iff fun _ written => written.isDark).1 base, _, ?_, rfl⟩
    exact each.imp fun part c written =>
      (exists_padded_iff fun _ written => written.isDark).1 written

/-- A base with blanks around it is an expression without filters. -/
theorem read_of_base (written : b.Written .accepted w) (whole : IsWhole '|' w)
    (padded : Padded w body) : Expression.read filters (Text.trim body) = .ok ⟨b, []⟩ := by
  rw [padded.trim_eq written.isDark]
  exact read_eq_ok_iff.2 (.intro (.last (.inl whole)) ⟨w, padded_self w, written⟩ .nil)

/-! ## Dialects that agree -/

/-- What is written in one dialect, with its quotes closed, is written so in another one, as far as
it is held between parentheses there. -/
structure Dialect.Within (D D' : Dialect) : Prop where
  cuts : ∀ separator text parts, IsSeparator separator →
    (∀ part ∈ parts, IsWhole separator part) → D.cuts separator text parts →
      D'.cuts separator text parts
  quotes : ∀ q inner, D.quotes q inner → D'.quotes q inner
  gaps : D.gaps → D'.gaps
  closed : ∀ q inner, D.quotes q inner → q ∉ inner
  joins : ∀ separator text parts, D.cuts separator text parts →
    Text.join [separator] parts = text

theorem grammar_within_accepted : Dialect.grammar.oneLine.Within Dialect.accepted.clear where
  cuts := by
    rintro separator text parts - whole ⟨some_, rfl⟩
    exact divides_join some_ whole
  quotes _ _ closed := closed
  gaps := id
  closed _ _ closed := closed
  joins _ _ _ cut := cut.2

theorem accepted_within_grammar : Dialect.accepted.clear.Within Dialect.grammar.oneLine where
  cuts _ _ _ _ _ cut := ⟨cut.ne_nil, cut.join_eq⟩
  quotes _ _ closed := closed
  gaps := id
  closed _ _ closed := closed
  joins _ _ _ cut := cut.join_eq

theorem clear_within_accepted : Dialect.accepted.clear.Within .accepted where
  cuts _ _ _ _ _ cut := cut
  quotes _ _ _ := trivial
  gaps := False.elim
  closed _ _ closed := closed
  joins _ _ _ cut := cut.join_eq

theorem oneLine_within_grammar : Dialect.grammar.oneLine.Within .grammar where
  cuts _ _ _ _ _ cut := cut
  quotes _ _ closed := closed
  gaps := id
  closed _ _ closed := closed
  joins _ _ _ cut := cut.2

theorem grammar_within_oneLine : Dialect.grammar.Within Dialect.grammar.oneLine where
  cuts _ _ _ _ _ cut := cut
  quotes _ _ closed := closed
  gaps := id
  closed _ _ closed := closed
  joins _ _ _ cut := cut.2

section Within

variable (below : D.Within D')

include below

theorem Literal.Written.isWhole (cuts : IsSeparator separator) (written : l.Written D w) :
    IsWhole separator w := by
  cases written with
  | text quote between => exact .quoted quote (below.closed _ _ between) .nil
  | true_ one =>
      exact (isIdentifier_of_truth (List.mem_append_left ["false", "False"] one)).isWhole cuts
  | false_ one =>
      exact (isIdentifier_of_truth (List.mem_append_right ["true", "True"] one)).isWhole cuts
  | number numeral => exact numeral.isWhole cuts

theorem Base.Written.isWhole (cuts : IsSeparator separator) (written : b.Written D w) :
    IsWhole separator w := by
  cases written with
  | literal written => exact written.isWhole below cuts
  | path variable_ => exact variable_.isWhole cuts

theorem Listed.isWhole (cuts : IsSeparator separator) (listed : Listed D texts args) :
    ∀ text ∈ texts, IsWhole separator text := by
  induction listed with
  | nil => exact nofun
  | gap _ blank _ ih =>
      exact List.forall_mem_cons.2 ⟨IsWhole.nil.padded cuts.isBlank_eq blank, ih⟩
  | cons padded written _ ih =>
      exact List.forall_mem_cons.2
        ⟨(written.isWhole below cuts).padded cuts.isBlank_eq padded, ih⟩

theorem Given.isWhole (given : Given D inside args) : IsWhole '|' inside := by
  have bar : IsSeparator '|' := .inr rfl
  rcases given with blank | ⟨cut, listed⟩
  · exact IsWhole.nil.padded bar.isBlank_eq blank
  · rw [← below.joins _ _ _ cut]
    exact .join (.char rfl (by decide) .nil) (listed.isWhole below bar)

theorem Call.Written.isWhole (written : c.Written D filters w) : IsWhole '|' w := by
  have bar : IsSeparator '|' := .inr rfl
  cases written with
  | bare name_ => exact name_.isWhole bar
  | given name_ _ blank _ given =>
      refine (name_.isWhole bar).append ((IsWhole.of_blank bar.isBlank_eq blank).append ?_)
      exact .mark bar (by decide) ((given.isWhole below).append (.mark bar (by decide) .nil))

theorem Literal.Written.within (written : l.Written D w) : l.Written D' w := by
  cases written with
  | text quote between => exact .text quote (below.quotes _ _ between)
  | true_ one => exact .true_ one
  | false_ one => exact .false_ one
  | number numeral => exact .number numeral

theorem Base.Written.within (written : b.Written D w) : b.Written D' w := by
  cases written with
  | literal written => exact .literal (written.within below)
  | path variable_ free => exact .path variable_ free

theorem Listed.within (listed : Listed D texts args) : Listed D' texts args := by
  induction listed with
  | nil => exact .nil
  | gap allowed blank _ ih => exact .gap (below.gaps allowed) blank ih
  | cons padded written _ ih => exact .cons padded (written.within below) ih

theorem Given.within (given : Given D inside args) : Given D' inside args := by
  have comma : IsSeparator ',' := .inl rfl
  rcases given with blank | ⟨cut, listed⟩
  · exact .none blank
  · exact .some (below.cuts _ _ _ comma (listed.isWhole below comma) cut) (listed.within below)

theorem Call.Written.within (held : ∀ inside, inside <:+: w → D.holds inside → D'.holds inside)
    (written : c.Written D filters w) : c.Written D' filters w := by
  cases written with
  | bare name_ known => exact .bare name_ known
  | @given name before inside args name_ known blank holds given =>
      have part : inside <:+: name ++ (before ++ '(' :: (inside ++ [')'])) :=
        ⟨name ++ (before ++ ['(']), [')'], by simp⟩
      exact .given name_ known blank (held _ part holds) (given.within below)

theorem forall₂_within {parts : List (List Char)} (part_ : ∀ part ∈ parts, part <:+: text)
    (held : ∀ inside, inside <:+: text → D.holds inside → D'.holds inside)
    (each : List.Forall₂ (fun part c => ∃ w, Padded w part ∧ c.Written D filters w) parts calls) :
    List.Forall₂ (fun part (c : Call) => ∃ w, Padded w part ∧ c.Written D' filters w) parts
      calls := by
  induction each with
  | nil => exact .nil
  | cons first _ ih =>
      obtain ⟨within, later⟩ := List.forall_mem_cons.1 part_
      obtain ⟨w, padded, call⟩ := first
      refine .cons ⟨w, padded, call.within below fun inside part => held inside ?_⟩ (ih later)
      exact part.trans (padded.isInfix.trans within)

theorem Expression.Written.within
    (held : ∀ inside, inside <:+: text → D.holds inside → D'.holds inside)
    (written : e.Written D filters text) : e.Written D' filters text := by
  obtain ⟨cut, ⟨w, padded, base⟩, each⟩ := written
  have bar : IsSeparator '|' := .inr rfl
  have joined := below.joins _ _ _ cut
  refine .intro (below.cuts _ _ _ bar ?_ cut) ⟨w, padded, base.within below⟩
    (forall₂_within below (fun part member => ?_) held each)
  · refine List.forall_mem_cons.2 ⟨(base.isWhole below bar).padded bar.isBlank_eq padded, ?_⟩
    clear cut joined
    induction each with
    | nil => exact nofun
    | cons first _ ih =>
        obtain ⟨w, padded, call⟩ := first
        exact List.forall_mem_cons.2 ⟨(call.isWhole below).padded bar.isBlank_eq padded, ih⟩
  · exact joined ▸ Text.infix_join (List.mem_cons_of_mem _ member)

end Within

/-- In a text without line feeds none stands between parentheses. -/
theorem Expression.Written.oneLine (written : e.Written .grammar filters text)
    (plain : '\n' ∉ text) : e.Written Dialect.grammar.oneLine filters text :=
  written.within grammar_within_oneLine fun _ part _ feed => plain (part.subset feed)

/-! ## Templates -/

/-- The pieces of a template are converted where each expression among them is read. -/
theorem exists_convertSegments_iff {segments : List Segment} :
    (∃ conversion, convertSegments filters segments = .ok conversion) ↔
      ∀ body, .body body ∈ segments → ∃ e, Expression.read filters (Text.trim body) = .ok e := by
  induction segments with
  | nil => exact ⟨fun _ => nofun, fun _ => ⟨⟨[], []⟩, rfl⟩⟩
  | cons segment segments ih =>
      cases segment with
      | text cs =>
          simp only [convertSegments, bind_eq_ok_iff, pure_eq_ok_iff, List.mem_cons, reduceCtorEq,
            false_or]
          rw [← ih]
          constructor
          · rintro ⟨_, c, later, -⟩
            exact ⟨c, later⟩
          · rintro ⟨c, later⟩
            exact ⟨_, c, later, rfl⟩
      | body cs =>
          simp only [convertSegments, bind_eq_ok_iff, pure_eq_ok_iff, List.mem_cons,
            Segment.body.injEq, forall_eq_or_imp]
          rw [← ih]
          constructor
          · rintro ⟨_, e, read, c, later, -⟩
            exact ⟨⟨e, read⟩, c, later⟩
          · rintro ⟨⟨e, read⟩, c, later⟩
            exact ⟨_, e, read, c, later, rfl⟩

/-- A template is converted exactly where the text between each two braces is an expression of the
accepted dialect. That dialect and the grammar have the same expressions with the same meaning, as
far as no line feed stands between parentheses, no quote in its own text, and no argument is
missing. So where no text between braces makes a difference in these, the grammar decides. -/
theorem converts_iff (filters : List String) (cs : List Char) :
    ((∃ conversion, convert filters cs = .ok conversion) ↔
      ∀ body, .body body ∈ segments cs →
        ∃ e : Expression, e.Written .accepted filters (Text.trim body)) ∧
    (∀ (text : List Char) (e : Expression),
      (e.Written Dialect.grammar.oneLine filters text ↔
        e.Written Dialect.accepted.clear filters text) ∧
      (e.Written Dialect.accepted.clear filters text → e.Written .accepted filters text) ∧
      (e.Written Dialect.grammar.oneLine filters text → e.Written .grammar filters text)) ∧
    ((∀ body, .body body ∈ segments cs → ∀ e : Expression,
        (e.Written .accepted filters (Text.trim body) →
          e.Written Dialect.accepted.clear filters (Text.trim body)) ∧
        (e.Written .grammar filters (Text.trim body) →
          e.Written Dialect.grammar.oneLine filters (Text.trim body))) →
      ((∃ conversion, convert filters cs = .ok conversion) ↔
        ∀ body, .body body ∈ segments cs →
          ∃ e : Expression, e.Written .grammar filters (Text.trim body))) := by
  have converts : (∃ conversion, convert filters cs = .ok conversion) ↔
      ∀ body, .body body ∈ segments cs →
        ∃ e : Expression, e.Written .accepted filters (Text.trim body) := by
    rw [convert, exists_convertSegments_iff]
    simp only [read_eq_ok_iff]
  refine ⟨converts, fun text e => ⟨⟨?_, ?_⟩, ?_, ?_⟩, fun same => ?_⟩
  · exact Expression.Written.within grammar_within_accepted fun _ _ held => held
  · exact Expression.Written.within accepted_within_grammar fun _ _ held => held
  · exact Expression.Written.within clear_within_accepted fun _ _ held => held
  · exact Expression.Written.within oneLine_within_grammar fun _ _ _ => trivial
  · rw [converts]
    refine forall₂_congr fun body member => exists_congr fun e => ?_
    obtain ⟨clear, oneLine⟩ := same body member e
    constructor
    · intro written
      have plain := (clear written).within accepted_within_grammar fun _ _ held => held
      exact plain.within oneLine_within_grammar fun _ _ _ => trivial
    · intro written
      have plain := (oneLine written).within grammar_within_accepted fun _ _ held => held
      exact plain.within clear_within_accepted fun _ _ held => held

theorem converts_iff_sample :
    segments "\x7b\x7b x | upper \x7d\x7d".toList = [.body " x | upper ".toList] ∧
    ((∃ conversion, convert Filter.names "\x7b\x7b x | upper \x7d\x7d".toList = .ok conversion) ↔
      ∀ body, .body body ∈ segments "\x7b\x7b x | upper \x7d\x7d".toList →
        ∃ e : Expression, e.Written .grammar Filter.names (Text.trim body)) := by
  have alone : segments "\x7b\x7b x | upper \x7d\x7d".toList = [.body " x | upper ".toList] := by
    decide +kernel
  have trimmed : Text.trim " x | upper ".toList = "x | upper".toList := by decide +kernel
  have x : Base.Written Dialect.grammar.oneLine "x".toList (.path (keys "x".toList)) :=
    .path (isPath_iff.1 (by decide)) (by decide)
  have upper : Call.Written Dialect.grammar.oneLine Filter.names "upper".toList
      ⟨String.ofList "upper".toList, []⟩ := .bare ⟨rfl, List.all_eq_true.1 rfl⟩ (by decide)
  have written : Expression.Written Dialect.grammar.oneLine Filter.names "x | upper".toList
      ⟨.path (keys "x".toList), [⟨String.ofList "upper".toList, []⟩]⟩ := by
    have cut : Dialect.grammar.oneLine.cuts '|' "x | upper".toList
        ["x ".toList, " upper".toList] := ⟨List.cons_ne_nil _ _, by decide +kernel⟩
    refine .intro cut ⟨_, ?_, x⟩ (.cons ⟨_, ?_, upper⟩ .nil)
    all_goals exact padded_of_trim (by decide +kernel)
  have clear := written.within grammar_within_accepted fun _ _ held => held
  have read := read_eq_ok_iff.2 (clear.within clear_within_accepted fun _ _ held => held)
  refine ⟨alone, (converts_iff _ _).2.2 fun body member e => ⟨?_, ?_⟩⟩
  all_goals
    rw [alone] at member
    cases List.mem_singleton.1 member
  · intro accepted
    rw [trimmed, ← read_eq_ok_iff, read] at accepted
    obtain rfl := Except.ok.inj accepted
    exact trimmed ▸ clear
  · exact fun grammar => grammar.oneLine (by rw [trimmed]; decide)

/-- Two literals around a sign are no expression, and are taken for one literal. -/
theorem literals_taken_as_one :
    segments "\x7b\x7b 'a' + 'b' \x7d\x7d".toList = [.body " 'a' + 'b' ".toList] ∧
    convert Filter.names "\x7b\x7b 'a' + 'b' \x7d\x7d".toList = .ok ⟨"a' + 'b".toList, []⟩ ∧
    ∀ e : Expression, ¬ e.Written .grammar Filter.names (Text.trim " 'a' + 'b' ".toList) := by
  refine ⟨by decide +kernel, by decide +kernel, ?_⟩
  have trimmed : Text.trim " 'a' + 'b' ".toList = "'a' + 'b'".toList := by decide +kernel
  rw [trimmed]
  rintro _ ⟨⟨-, joined⟩, ⟨w, padded, base⟩, -⟩
  next part parts _ _ =>
  -- without a bar the base is all there is
  have alone : parts = [] := by
    cases parts with
    | nil => rfl
    | cons next parts =>
        have bar : '|' ∈ Text.join ['|'] (part :: next :: parts) := by simp [Text.join_cons_cons]
        rw [joined] at bar
        exact absurd bar (by decide)
  subst alone
  obtain rfl : part = "'a' + 'b'".toList := joined
  have whole : Text.trim "'a' + 'b'".toList = "'a' + 'b'".toList := by decide +kernel
  have same : "'a' + 'b'".toList = w := whole.symm.trans (padded.trim_eq base.isDark)
  cases base with
  | path variable_ =>
      rw [← isPath_iff, ← same] at variable_
      exact absurd variable_ (by decide)
  | literal written =>
      cases written with
      | @text q inner quote closed =>
          have first : "'a' + 'b'".toList.head? = some q := by rw [same, List.head?_cons]
          have between : "'a' + 'b'".toList.tail.dropLast = inner := by
            rw [same, List.tail_cons, List.dropLast_concat]
          have quote_ : some '\'' = some q := Eq.trans (by decide) first
          have closed : q ∉ inner := closed
          rw [← between, ← Option.some.inj quote_] at closed
          exact absurd closed (by decide)
      | true_ one =>
          have other : ∀ word ∈ ["true", "True"], "'a' + 'b'".toList ≠ word.toList := by decide
          exact other _ one same
      | false_ one =>
          have other : ∀ word ∈ ["false", "False"], "'a' + 'b'".toList ≠ word.toList := by decide
          exact other _ one same
      | number numeral =>
          rw [← isNumber_iff, ← same] at numeral
          exact absurd numeral (by decide)

end Fleet.Template
