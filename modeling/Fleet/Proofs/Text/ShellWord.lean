/-
# Words of command lines

A word without gaps, quotes and backslashes that starts no comment is read as it stands. A quoted
text is read as one word, whatever the text is, and has no effect on the words around it
(`split?_around_quote`).
-/

import Fleet.Text.ShellWord

namespace Fleet.Text.ShellWord

variable {c : Char} {cs w word rest before behind : List Char} {words more : List (List Char)}

/-- The characters that do not stand for themselves within a word. -/
def marks : List Char := [' ', '\t', '\n', '\'', '"', '\\']

/-- A word that is written as it is. -/
structure IsPlain (w : List Char) : Prop where
  some_ : w ≠ []
  all : ∀ c ∈ w, c ∉ marks
  start : w.head? ≠ some '#'

theorem isPlain_iff :
    IsPlain w ↔ w ≠ [] ∧ (w.all fun c => c ∉ marks) = true ∧ w.head? ≠ some '#' := by
  rw [List.all_eq_true]
  simp only [decide_eq_true_eq]
  constructor
  · intro plain
    exact ⟨plain.some_, plain.all, plain.start⟩
  · rintro ⟨some_, all, start⟩
    exact ⟨some_, all, start⟩

instance : Decidable (IsPlain w) := decidable_of_iff' _ isPlain_iff

/-- A text of plain words with gaps between them, and its words. -/
inductive Spaced : List Char → List (List Char) → Prop
  | nil : Spaced [] []
  | gap {c : Char} {cs : List Char} {words : List (List Char)} (blank : isGap c = true)
      (later : Spaced cs words) : Spaced (c :: cs) words
  | word {w cs : List Char} {words : List (List Char)} (plain : IsPlain w)
      (stop : cs.head?.all isGap = true) (later : Spaced cs words) : Spaced (w ++ cs) (w :: words)

/-! ## Reading one word -/

theorem isGap_of_notMem (outside : c ∉ marks) : isGap c = false := by
  simp only [marks, List.mem_cons, not_or] at outside
  simp [isGap, outside]

theorem splitFrom_plain_cons (outside : c ∉ marks) :
    splitFrom .plain word (c :: rest) = splitFrom .plain (c :: word) rest := by
  have gap := isGap_of_notMem outside
  simp only [marks, List.mem_cons, not_or] at outside
  simp [splitFrom, gap, outside]

theorem splitFrom_between_cons (outside : c ∉ marks) (other : c ≠ '#') :
    splitFrom .between word (c :: rest) = splitFrom .plain (c :: word) rest := by
  have gap := isGap_of_notMem outside
  simp only [marks, List.mem_cons, not_or] at outside
  simp [splitFrom, gap, outside, other]

theorem isGap_iff : isGap c = true ↔ c = ' ' ∨ c = '\t' ∨ c = '\n' := by
  simp [isGap, or_assoc]

theorem splitFrom_between_gap (gap : isGap c = true) :
    splitFrom .between word (c :: rest) = splitFrom .between word rest := by
  rcases isGap_iff.1 gap with rfl | rfl | rfl <;> rfl

/-- Where a gap or the end follows, the word is complete. -/
theorem splitFrom_plain_stop (stop : rest.head?.all isGap = true) :
    splitFrom .plain word rest = (splitFrom .between [] rest).map (word.reverse :: ·) := by
  cases rest with
  | nil => rfl
  | cons c rest =>
      have gap : isGap c = true := stop
      rw [splitFrom_between_gap gap]
      rcases isGap_iff.1 gap with rfl | rfl | rfl <;> rfl

theorem splitFrom_plain_append (outside : ∀ c ∈ w, c ∉ marks) :
    splitFrom .plain word (w ++ rest) = splitFrom .plain (w.reverse ++ word) rest := by
  induction w generalizing word with
  | nil => rfl
  | cons c w ih =>
      obtain ⟨first, later⟩ := List.forall_mem_cons.1 outside
      rw [List.cons_append, splitFrom_plain_cons first, ih later, List.reverse_cons,
        List.append_assoc]
      rfl

/-- A text that is read as one word where a gap or the end follows. -/
def Reads (text w : List Char) : Prop := ∀ rest, rest.head?.all isGap = true →
  splitFrom .between [] (text ++ rest) = (splitFrom .between [] rest).map (w :: ·)

theorem IsPlain.reads (plain : IsPlain w) : Reads w w := by
  intro rest stop
  cases w with
  | nil => exact absurd rfl plain.some_
  | cons c w =>
      obtain ⟨first, later⟩ := List.forall_mem_cons.1 plain.all
      have other : c ≠ '#' := fun same => plain.start (congrArg some same)
      rw [List.cons_append, splitFrom_between_cons first other, splitFrom_plain_append later,
        splitFrom_plain_stop stop]
      simp

/-! ## Quoted words -/

/-- Between single quotes a text is read as it was, its own single quotes included. -/
theorem splitFrom_single_quoteChars :
    splitFrom .single word (quoteChars cs ++ '\'' :: rest) =
      splitFrom .plain (cs.reverse ++ word) rest := by
  induction cs generalizing word with
  | nil => rfl
  | cons c cs ih =>
      rw [List.reverse_cons, List.append_assoc, List.singleton_append, ← ih]
      by_cases quote : c = '\''
      · subst quote
        rfl
      · rw [quoteChars, List.cons_append, splitFrom, if_neg (by simpa using quote)]
        exact quote

/-- A text in which no character is special is plain. -/
theorem isPlain_of_not_special (some_ : cs ≠ []) (plain : ∀ c ∈ cs, isSpecial c = false) :
    IsPlain cs where
  some_ := some_
  all := by
    intro c member mark
    have special : ∀ c ∈ marks, isSpecial c = true := List.all_eq_true.1 (by decide)
    exact Bool.false_ne_true ((plain c member).symm.trans (special c mark))
  start := by
    intro start
    have special : isSpecial '#' = false := plain '#' (List.mem_of_head? start)
    cases special

/-- Every text is read back from its quoted form, as one word. -/
theorem reads_quote (cs : List Char) : Reads (quote cs) cs := by
  unfold quote
  split
  · intro rest stop
    have open_ : splitFrom .between [] ('\'' :: (quoteChars cs ++ ['\'']) ++ rest) =
        splitFrom .single [] (quoteChars cs ++ '\'' :: rest) := by
      rw [List.cons_append, List.append_assoc]
      rfl
    rw [open_, splitFrom_single_quoteChars, splitFrom_plain_stop stop]
    simp
  · next plain =>
      rw [Bool.not_eq_true, Bool.or_eq_false_iff, List.isEmpty_eq_false_iff,
        List.any_eq_false] at plain
      obtain ⟨some_, plain⟩ := plain
      apply (isPlain_of_not_special some_ _).reads
      intro c member
      exact eq_false_of_ne_true (plain c member)

/-! ## Reading a line -/

theorem all_getLast?_of_append {a b : List Char} (ends : (a ++ b).getLast?.all isGap = true) :
    b.getLast?.all isGap = true := by
  rw [List.getLast?_append] at ends
  cases last : b.getLast? with
  | none => rfl
  | some c =>
      rw [last] at ends
      exact ends

/-- Plain words are read one by one, and what follows a gap behind them is read as it is alone. -/
theorem Spaced.splitFrom_append (spaced : Spaced cs words)
    (apart : cs.getLast?.all isGap = true ∨ rest.head?.all isGap = true) :
    splitFrom .between [] (cs ++ rest) = (splitFrom .between [] rest).map (words ++ ·) := by
  induction spaced with
  | nil => exact Option.map_id'.symm
  | @gap c cs words blank _ ih =>
      rw [List.cons_append, splitFrom_between_gap blank]
      exact ih (apart.imp_left (all_getLast?_of_append (a := [c])))
  | @word w cs words plain stop _ ih =>
      have stop : (cs ++ rest).head?.all isGap = true := by
        cases cs with
        | cons c cs => exact stop
        | nil =>
            apply apart.resolve_left
            intro ends
            -- the word itself does not end with a gap
            rw [List.append_nil, List.getLast?_eq_some_getLast plain.some_] at ends
            have gap := isGap_of_notMem (plain.all _ (List.getLast_mem plain.some_))
            exact Bool.false_ne_true (gap.symm.trans ends)
      rw [List.append_assoc, plain.reads _ stop, ih (apart.imp_left all_getLast?_of_append),
        Option.map_map]
      rfl

theorem head?_flatMap_space (words : List (List Char)) :
    (words.flatMap (' ' :: ·)).head?.all isGap = true := by
  cases words <;> rfl

/-- Plain words with a space before each one. -/
theorem spaced_flatMap (plain : ∀ w ∈ words, IsPlain w) :
    Spaced (words.flatMap (' ' :: ·)) words := by
  induction words with
  | nil => exact .nil
  | cons w words ih =>
      obtain ⟨first, later⟩ := List.forall_mem_cons.1 plain
      exact .gap rfl (.word first (head?_flatMap_space words) (ih later))

/-- A quoted text among plain words is one word of its own, and they are the words that they are. -/
theorem split?_around_quote (first : Spaced before words) (ends : before.getLast?.all isGap = true)
    (second : Spaced behind more) (starts : behind.head?.all isGap = true) (w : List Char) :
    split? (before ++ (quote w ++ behind)) = some (words ++ w :: more) := by
  have last : splitFrom .between [] behind = some more := by
    have whole : splitFrom .between [] (behind ++ []) = some (more ++ []) :=
      second.splitFrom_append (.inr rfl)
    rwa [List.append_nil, List.append_nil] at whole
  rw [split?, first.splitFrom_append (.inl ends), reads_quote w behind starts, last]
  rfl

/-- The same of strings. -/
theorem words?_around_quoted {before behind : String} {words more : List String}
    (first : Spaced before.toList (words.map String.toList))
    (ends : before.toList.getLast?.all isGap = true)
    (second : Spaced behind.toList (more.map String.toList))
    (starts : behind.toList.head?.all isGap = true) (w : String) :
    words? (before ++ quoted w ++ behind) = some (words ++ w :: more) := by
  have whole : (before ++ quoted w ++ behind).toList =
      before.toList ++ (quote w.toList ++ behind.toList) := by
    rw [String.toList_append, String.toList_append, quoted, String.toList_ofList, List.append_assoc]
  rw [words?, whole, split?_around_quote first ends second starts]
  simp [String.ofList_toList, Function.comp_def]

end Fleet.Text.ShellWord
