/-
# Parts of a text

What is taken off the start of a text while a test holds ends where the test fails, so a run that
was put before another text is taken off again. Stripping the blanks off a text leaves nothing
exactly where the text holds nothing but blanks, and leaves everything exactly where neither end of
the text is blank.

Cutting a text at a separator and joining parts with one: the parts around a separator are cut
apart there, no part holds the separator, and a text that does not hold it is one part. A text is
found in another exactly if it is a run of characters of it.
-/

import Fleet.Text.Blank
import Fleet.Text.Split
import Mathlib.Data.List.DropRight

namespace Fleet.Text

variable {c : Char} {cs part run rest : List Char} {p : Char → Bool}

/-! ## Runs -/

theorem takeWhile_eq_nil (stop : cs.head?.any p = false) : cs.takeWhile p = [] := by
  cases cs with
  | nil => rfl
  | cons c cs => rw [List.takeWhile_cons, show p c = false from stop, if_neg Bool.false_ne_true]

theorem dropWhile_eq_self (stop : cs.head?.any p = false) : cs.dropWhile p = cs := by
  cases cs with
  | nil => rfl
  | cons c cs => rw [List.dropWhile_cons, show p c = false from stop, if_neg Bool.false_ne_true]

theorem dropWhile_eq_self_iff : cs.dropWhile p = cs ↔ cs.head?.any p = false := by
  refine ⟨fun same => ?_, dropWhile_eq_self⟩
  cases cs with
  | nil => rfl
  | cons c cs => simpa using same

/-- What is put behind a text where the test fails does not lengthen the run at its start. -/
theorem takeWhile_append_of_stop (stop : rest.head?.any p = false) :
    (cs ++ rest).takeWhile p = cs.takeWhile p := by
  induction cs with
  | nil => exact takeWhile_eq_nil stop
  | cons c cs ih => rw [List.cons_append, List.takeWhile_cons, List.takeWhile_cons, ih]

theorem dropWhile_append_of_stop (stop : rest.head?.any p = false) :
    (cs ++ rest).dropWhile p = cs.dropWhile p ++ rest := by
  induction cs with
  | nil => exact dropWhile_eq_self stop
  | cons c cs ih =>
      rw [List.cons_append, List.dropWhile_cons, List.dropWhile_cons, ih]
      split <;> rfl

/-- A run is taken off the text that it was put before. -/
theorem takeWhile_run (all : ∀ c ∈ run, p c = true) (stop : rest.head?.any p = false) :
    (run ++ rest).takeWhile p = run := by
  rw [takeWhile_append_of_stop stop, List.takeWhile_eq_self_iff.2 all]

theorem dropWhile_run (all : ∀ c ∈ run, p c = true) (stop : rest.head?.any p = false) :
    (run ++ rest).dropWhile p = rest := by
  rw [dropWhile_append_of_stop stop, List.dropWhile_eq_nil_iff.2 all, List.nil_append]

/-- Texts that are not empty are together as long as there are texts. -/
theorem length_le_length_flatMap {α : Type} {f : α → List Char} (some_ : ∀ a, f a ≠ [])
    (l : List α) : l.length ≤ (l.flatMap f).length := by
  induction l with
  | nil => exact Nat.le_refl 0
  | cons a l ih =>
      have one : 0 < (f a).length := List.length_pos_iff.2 (some_ a)
      rw [List.flatMap_cons, List.length_append, List.length_cons]
      omega

/-! ## Blanks -/

/-- Nothing is left of a text of blanks, and something of any other. -/
theorem trim_eq_nil_iff : trim cs = [] ↔ ∀ c ∈ cs, isBlank c = true := by
  have ends : trim cs = [] ↔ ∀ c ∈ trimStart cs, isBlank c = true := List.rdropWhile_eq_nil_iff
  rw [ends, trimStart]
  constructor
  · intro blank c member
    rw [← List.takeWhile_append_dropWhile (p := isBlank) (l := cs)] at member
    rcases List.mem_append.1 member with first | last
    · exact List.mem_takeWhile_imp first
    · exact blank c last
  · intro blank c member
    exact blank c ((List.dropWhile_sublist _).mem member)

/-- Something is left of a text that starts with a character that is no blank. -/
theorem isEmpty_trim_cons (dark : isBlank c = false) : (trim (c :: cs)).isEmpty = false := by
  rw [List.isEmpty_eq_false_iff]
  intro nothing
  exact Bool.false_ne_true (dark.symm.trans (trim_eq_nil_iff.1 nothing c List.mem_cons_self))

/-- What is left of a text does not start with a blank. -/
theorem head?_trim (cs : List Char) : (trim cs).head?.any isBlank = false := by
  obtain ⟨more, whole⟩ : trim cs <+: trimStart cs := List.rdropWhile_prefix isBlank (trimStart cs)
  have stops := List.head?_dropWhile_not isBlank cs
  cases left : trim cs with
  | nil => rfl
  | cons c rest =>
      have start : cs.dropWhile isBlank = c :: (rest ++ more) := by
        rw [left] at whole
        exact whole.symm
      rw [start] at stops
      exact stops

/-- The blanks around a text are stripped with those at its ends. -/
theorem trim_append {before behind : List Char} (before_ : ∀ c ∈ before, isBlank c = true)
    (behind_ : ∀ c ∈ behind, isBlank c = true) : trim (before ++ (cs ++ behind)) = trim cs := by
  have ends (text : List Char) : trimEnd (text ++ behind) = trimEnd text := by
    have blank : ∀ c ∈ behind.reverse, isBlank c = true := fun c member =>
      behind_ c (List.mem_reverse.1 member)
    rw [trimEnd, trimEnd, dropEndWhile, dropEndWhile, List.reverse_append,
      List.dropWhile_append_of_pos blank]
  have starts : trimStart (before ++ (cs ++ behind)) = trimStart (cs ++ behind) :=
    List.dropWhile_append_of_pos before_
  rw [trim, trim, starts]
  cases left : trimStart cs with
  | nil =>
      rw [trimStart, List.dropWhile_append_of_pos (List.dropWhile_eq_nil_iff.1 left),
        List.dropWhile_eq_nil_iff.2 behind_]
  | cons c more =>
      have kept : trimStart (cs ++ behind) = trimStart cs ++ behind := by
        rw [trimStart, List.dropWhile_append, if_neg]
        · rfl
        · rw [← trimStart, left]
          exact Bool.false_ne_true
      rw [kept, ends, left]

/-- A text that is stripped already has no blank at either end. -/
theorem trim_eq_self_iff : trim cs = cs ↔
    cs.head?.any isBlank = false ∧ cs.getLast?.any isBlank = false := by
  rw [← List.head?_reverse, ← dropWhile_eq_self_iff, ← dropWhile_eq_self_iff]
  constructor
  · intro same
    have start : cs.dropWhile isBlank = cs := by
      apply (List.dropWhile_suffix _).eq_of_length_le
      calc cs.length = (trim cs).length := by rw [same]
        _ ≤ (trimStart cs).length := (List.rdropWhile_prefix isBlank (trimStart cs)).length_le
    rw [trim, trimStart, start] at same
    exact ⟨start, List.reverse_eq_iff.1 same⟩
  · rintro ⟨start, ended⟩
    rw [trim, trimStart, start, trimEnd, dropEndWhile, ended, List.reverse_reverse]

/-! ## Cutting and joining -/

theorem splitOn_append (c : Char) (before behind : List Char) :
    splitOn c (before ++ c :: behind) = splitOn c before ++ splitOn c behind := by
  induction before with
  | nil => simp [splitOn]
  | cons d rest ih =>
      rw [List.cons_append, splitOn, splitOn]
      by_cases same : d = c
      · rw [if_pos same, if_pos same, ih, List.cons_append]
      · rw [if_neg same, if_neg same, ih]
        cases parts : splitOn c rest with
        | nil => exact absurd parts (splitOn_ne_nil c rest)
        | cons part more => rfl

/-- There is one part more than there are separators. -/
theorem length_splitOn (c : Char) (cs : List Char) : (splitOn c cs).length = cs.count c + 1 := by
  induction cs with
  | nil => rfl
  | cons d rest ih =>
      rw [splitOn, List.count_cons]
      by_cases same : d = c
      · rw [if_pos same, List.length_cons, ih, if_pos (beq_iff_eq.2 same)]
      · rw [if_neg same, if_neg (fun equal => same (beq_iff_eq.1 equal))]
        cases parts : splitOn c rest with
        | nil => exact absurd parts (splitOn_ne_nil c rest)
        | cons part more =>
            rw [← ih, parts]
            rfl

theorem splitOn_of_not_mem (outside : c ∉ part) : splitOn c part = [part] := by
  induction part with
  | nil => rfl
  | cons d rest ih =>
      obtain ⟨differ, below⟩ := List.ne_and_not_mem_of_not_mem_cons outside
      rw [splitOn, if_neg (Ne.symm differ), ih below, consFirst]

theorem not_mem_of_mem_splitOn {cs : List Char} (member : part ∈ splitOn c cs) : c ∉ part := by
  induction cs generalizing part with
  | nil =>
      rw [List.mem_singleton.1 member]
      exact List.not_mem_nil
  | cons d rest ih =>
      rw [splitOn] at member
      by_cases same : d = c
      · rw [if_pos same] at member
        rcases List.mem_cons.1 member with rfl | below
        · exact List.not_mem_nil
        · exact ih below
      · rw [if_neg same] at member
        cases parts : splitOn c rest with
        | nil => exact absurd parts (splitOn_ne_nil c rest)
        | cons first more =>
            rw [parts, consFirst] at member
            rcases List.mem_cons.1 member with rfl | below
            · intro inside
              rcases List.mem_cons.1 inside with rfl | inside
              · exact same rfl
              · exact ih (parts ▸ List.mem_cons_self) inside
            · exact ih (parts ▸ List.mem_cons_of_mem _ below)

theorem join_cons_cons (separator first second : List Char) (rest : List (List Char)) :
    join separator (first :: second :: rest) =
      first ++ separator ++ join separator (second :: rest) := rfl

theorem join_append {separator : List Char} {parts more : List (List Char)} (some_ : parts ≠ [])
    (rest : more ≠ []) :
    join separator (parts ++ more) = join separator parts ++ separator ++ join separator more := by
  induction parts with
  | nil => exact absurd rfl some_
  | cons part parts ih =>
      cases parts with
      | nil =>
          cases more with
          | nil => exact absurd rfl rest
          | cons first more => rfl
      | cons next parts =>
          rw [List.cons_append, List.cons_append, join_cons_cons, join_cons_cons,
            ← List.cons_append, ih (List.cons_ne_nil _ _)]
          simp only [List.append_assoc]

/-- Empty parts are joined to one space fewer than there are parts. -/
theorem join_replicate_nil (c : Char) (n : Nat) :
    join [c] (List.replicate n []) = List.replicate (n - 1) c := by
  induction n with
  | zero => rfl
  | succ n ih =>
      cases n with
      | zero => rfl
      | succ n =>
          rw [List.replicate_succ, List.replicate_succ, join_cons_cons, ← List.replicate_succ, ih]
          rfl

/-- A character that is in no part and not in the separator is not in the joined text. -/
theorem notMem_join {separator : List Char} {parts : List (List Char)} (between : c ∉ separator)
    (apart : ∀ part ∈ parts, c ∉ part) : c ∉ join separator parts := by
  induction parts with
  | nil => exact List.not_mem_nil
  | cons part parts ih =>
      obtain ⟨first, later⟩ := List.forall_mem_cons.1 apart
      cases parts with
      | nil => exact first
      | cons next parts =>
          rw [join_cons_cons]
          simpa [first, between] using ih later

/-- Parts joined and split again are split one by one. -/
theorem splitOn_join (c : Char) {parts : List (List Char)} (some_ : parts ≠ []) :
    splitOn c (join [c] parts) = parts.flatMap (splitOn c) := by
  induction parts with
  | nil => exact absurd rfl some_
  | cons part parts ih =>
      cases parts with
      | nil => simp [join]
      | cons next parts =>
          rw [join_cons_cons, List.append_assoc, List.singleton_append, splitOn_append,
            ih (List.cons_ne_nil _ _), List.flatMap_cons (x := part)]

/-- The parts of a text start with those of another one where the text is that one, or goes on
behind it with a separator. -/
theorem splitOn_prefix_iff {start cs : List Char} :
    splitOn c start <+: splitOn c cs ↔ cs = start ∨ ∃ rest, cs = start ++ c :: rest := by
  constructor
  · rintro ⟨more, whole⟩
    have joined := congrArg (join [c]) whole
    rw [join_splitOn] at joined
    cases more with
    | nil =>
        rw [List.append_nil, join_splitOn] at joined
        exact .inl joined.symm
    | cons part more =>
        rw [join_append (splitOn_ne_nil c start) (List.cons_ne_nil _ _), join_splitOn,
          List.append_assoc] at joined
        exact .inr ⟨_, joined.symm⟩
  · rintro (rfl | ⟨rest, rfl⟩)
    · exact List.prefix_refl _
    · rw [splitOn_append]
      exact List.prefix_append _ _

/-- A text without separators before another belongs to its first part. -/
theorem exists_splitOn_append {a : List Char} (outside : c ∉ a) (b : List Char) :
    ∃ first rest, splitOn c b = first :: rest ∧ splitOn c (a ++ b) = (a ++ first) :: rest := by
  cases parts : splitOn c b with
  | nil => exact absurd parts (splitOn_ne_nil c b)
  | cons first rest =>
      refine ⟨first, rest, rfl, ?_⟩
      induction a with
      | nil => exact parts
      | cons d a ih =>
          obtain ⟨differ, below⟩ := List.ne_and_not_mem_of_not_mem_cons outside
          rw [List.cons_append, splitOn, if_neg (Ne.symm differ), ih below]
          rfl

theorem infix_join {separator : List Char} {parts : List (List Char)} (member : part ∈ parts) :
    part <:+: join separator parts := by
  induction parts with
  | nil => cases member
  | cons first parts ih =>
      cases parts with
      | nil =>
          rw [List.mem_singleton.1 member]
          exact List.infix_refl first
      | cons next parts =>
          rw [join_cons_cons, List.append_assoc]
          rcases List.mem_cons.1 member with rfl | later
          · exact (List.prefix_append part _).isInfix
          · have inside := ih later
            rw [← List.append_assoc]
            exact inside.trans (List.suffix_append _ _).isInfix

theorem length_le_of_mem_splitOn {cs : List Char} (member : part ∈ splitOn c cs) :
    part.length ≤ cs.length := by
  have within : part <:+: join [c] (splitOn c cs) := infix_join member
  rw [join_splitOn] at within
  exact within.length_le

/-! ## Finding a text in another -/

theorem hasPart_iff_isInfix {cs : List Char} : hasPart part cs = true ↔ part <:+: cs := by
  induction cs with
  | nil => rw [hasPart, List.isEmpty_iff, List.infix_nil]
  | cons c cs ih =>
      rw [hasPart, Bool.or_eq_true_iff, List.isPrefixOf_iff_prefix, ih, List.infix_cons_iff]

/-- Nothing starts within a text that does not hold its first character. -/
theorem infix_append_iff_of_not_mem {a b : List Char} (outside : c ∉ a) :
    c :: part <:+: a ++ b ↔ c :: part <:+: b := by
  induction a with
  | nil => rfl
  | cons d a ih =>
      obtain ⟨differ, below⟩ := List.ne_and_not_mem_of_not_mem_cons outside
      rw [List.cons_append, List.infix_cons_iff, List.cons_prefix_cons, ih below]
      exact or_iff_right fun start => differ start.1

/-- What does not hold a separator is found on one side of it. -/
theorem infix_append_cons_iff {a b : List Char} (single : c ∉ part) (some_ : part ≠ []) :
    part <:+: a ++ c :: b ↔ part <:+: a ∨ part <:+: b := by
  constructor
  · rintro ⟨before, behind, whole⟩
    rw [List.append_assoc, List.append_eq_append_iff] at whole
    rcases whole with ⟨front, rfl, whole⟩ | ⟨more, rfl, whole⟩
    · -- it starts before the separator, and so it ends there
      rcases List.append_eq_append_iff.1 whole with ⟨rest, rfl, -⟩ | ⟨rest, rfl, same⟩
      · exact .inl ⟨before, rest, List.append_assoc _ _ _⟩
      · cases rest with
        | nil => exact .inl ⟨before, [], by simp⟩
        | cons d rest =>
            obtain ⟨rfl, -⟩ := List.cons.inj same
            exact absurd (List.mem_append_right _ List.mem_cons_self) single
    · cases more with
      | nil =>
          obtain ⟨d, part, rfl⟩ := List.exists_cons_of_ne_nil some_
          obtain ⟨rfl, -⟩ := List.cons.inj whole
          exact absurd List.mem_cons_self single
      | cons d more =>
          obtain ⟨-, rfl⟩ := List.cons.inj whole
          exact .inr ⟨more, behind, List.append_assoc _ _ _⟩
  · rintro (inside | inside)
    · exact inside.trans (List.prefix_append _ _).isInfix
    · exact inside.trans ((List.suffix_cons _ _).trans (List.suffix_append _ _)).isInfix

/-! ## Cutting once -/

theorem cutFirst?_append {a : List Char} (outside : c ∉ a) (b : List Char) :
    cutFirst? c (a ++ c :: b) = some (a, b) := by
  have run : ∀ d ∈ a, decide (d ≠ c) = true := fun d member =>
    decide_eq_true fun same => outside (same ▸ member)
  have stop : (c :: b).head?.any (fun d => decide (d ≠ c)) = false := by simp
  rw [cutFirst?, dropWhile_run run stop, takeWhile_run run stop]

theorem cutFirst?_eq_none_iff {cs : List Char} : cutFirst? c cs = none ↔ c ∉ cs := by
  constructor
  · intro uncut inside
    obtain ⟨a, b, rfl, outside⟩ := List.eq_append_cons_of_mem inside
    rw [cutFirst?_append outside] at uncut
    cases uncut
  · intro outside
    have run : cs.dropWhile (fun d => decide (d ≠ c)) = [] :=
      List.dropWhile_eq_nil_iff.2 fun d member => decide_eq_true fun same => outside (same ▸ member)
    rw [cutFirst?, run]

theorem cutFirst?_eq_some_iff {cs a b : List Char} :
    cutFirst? c cs = some (a, b) ↔ c ∉ a ∧ cs = a ++ c :: b := by
  constructor
  · intro cut
    have inside : c ∈ cs := by
      by_contra outside
      rw [cutFirst?_eq_none_iff.2 outside] at cut
      cases cut
    obtain ⟨before, behind, rfl, outside⟩ := List.eq_append_cons_of_mem inside
    rw [cutFirst?_append outside] at cut
    cases cut
    exact ⟨outside, rfl⟩
  · rintro ⟨outside, rfl⟩
    exact cutFirst?_append outside b

theorem cutLast?_eq_none_iff {cs : List Char} : cutLast? c cs = none ↔ c ∉ cs := by
  rw [cutLast?, Option.map_eq_none_iff, cutFirst?_eq_none_iff, List.mem_reverse]

theorem cutLast?_eq_some_iff {cs a b : List Char} :
    cutLast? c cs = some (a, b) ↔ c ∉ b ∧ cs = a ++ c :: b := by
  rw [cutLast?, Option.map_eq_some_iff]
  constructor
  · rintro ⟨⟨behind, before⟩, cut, same⟩
    obtain ⟨rfl, rfl⟩ := Prod.mk.inj same
    obtain ⟨outside, whole⟩ := cutFirst?_eq_some_iff.1 cut
    refine ⟨fun member => outside (List.mem_reverse.1 member), ?_⟩
    rw [← List.reverse_reverse cs, whole]
    simp
  · rintro ⟨outside, rfl⟩
    refine ⟨(b.reverse, a.reverse), cutFirst?_eq_some_iff.2 ⟨?_, ?_⟩, ?_⟩
    · exact fun member => outside (List.mem_reverse.1 member)
    · simp
    · simp

end Fleet.Text
