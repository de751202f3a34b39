/-
# Parts between separators

A text is cut at a separator wherever no quote is open. Every part but the last one closes its
quotes and holds no separator outside them, and the last one may leave a quote open
(`splitOutsideQuotes_eq_iff`).

The same is said by positions. A quoted run starts at a quote that is met outside runs and ends at
the next occurrence of that quote, or with the text. The parts with the separator between them are
the text again, and the text is cut at exactly those separators that lie in no run
(`cut_outside_runs`).
-/

import Fleet.Proofs.Text.Split
import Fleet.Template.Expression
import Mathlib.Data.Nat.Find

namespace Fleet.Template

variable {c d q separator : Char} {cs part start inner rest : List Char}
  {parts : List (List Char)} {open_ : Option Char} {i j k m : Nat}

/-! ## Texts cut outside quotes -/

/-- A text that closes its quotes and in which no separator stands outside quotes. -/
inductive IsWhole (separator : Char) : List Char → Prop
  | nil : IsWhole separator []
  | char {c : Char} {cs : List Char} (plain : isQuote c = false) (other : c ≠ separator)
      (later : IsWhole separator cs) : IsWhole separator (c :: cs)
  | quoted {q : Char} {inner cs : List Char} (quote : isQuote q = true) (closed : q ∉ inner)
      (later : IsWhole separator cs) : IsWhole separator (q :: (inner ++ q :: cs))

/-- A text whose last quote stays open. -/
inductive IsOpen (separator : Char) : List Char → Prop
  | quote {q : Char} {start inner : List Char} (whole : IsWhole separator start)
      (quote : isQuote q = true) (unclosed : q ∉ inner) : IsOpen separator (start ++ q :: inner)

/-- A text and its parts between the separators that stand outside quotes. -/
inductive Divides (separator : Char) : List Char → List (List Char) → Prop
  | last {cs : List Char} (last : IsWhole separator cs ∨ IsOpen separator cs) :
      Divides separator cs [cs]
  | cons {part rest : List Char} {parts : List (List Char)} (whole : IsWhole separator part)
      (later : Divides separator rest parts) :
      Divides separator (part ++ separator :: rest) (part :: parts)

theorem IsWhole.append (first : IsWhole separator start) (second : IsWhole separator rest) :
    IsWhole separator (start ++ rest) := by
  induction first with
  | nil => exact second
  | char plain other _ ih => exact .char plain other ih
  | @quoted q inner cs quote closed _ ih =>
      rw [List.cons_append, List.append_assoc, List.cons_append]
      exact .quoted quote closed ih

theorem IsWhole.of_plain (plain : ∀ c ∈ cs, isQuote c = false ∧ c ≠ separator) :
    IsWhole separator cs := by
  induction cs with
  | nil => exact .nil
  | cons c cs ih =>
      obtain ⟨⟨noQuote, other⟩, later⟩ := List.forall_mem_cons.1 plain
      exact .char noQuote other (ih later)

theorem IsWhole.join (between : IsWhole separator start)
    (each : ∀ part ∈ parts, IsWhole separator part) :
    IsWhole separator (Text.join start parts) := by
  induction parts with
  | nil => exact .nil
  | cons part parts ih =>
      obtain ⟨first, later⟩ := List.forall_mem_cons.1 each
      cases parts with
      | nil => exact first
      | cons next parts => exact (first.append between).append (ih later)

theorem IsOpen.whole_append (first : IsWhole separator start) (second : IsOpen separator rest) :
    IsOpen separator (start ++ rest) := by
  obtain ⟨whole, quote, unclosed⟩ := second
  rw [← List.append_assoc]
  exact .quote (first.append whole) quote unclosed

/-- Parts that are whole are the parts of the text that they are joined to. -/
theorem divides_join (some_ : parts ≠ []) (each : ∀ part ∈ parts, IsWhole separator part) :
    Divides separator (Text.join [separator] parts) parts := by
  induction parts with
  | nil => exact absurd rfl some_
  | cons part parts ih =>
      obtain ⟨first, later⟩ := List.forall_mem_cons.1 each
      cases parts with
      | nil => exact .last (.inl first)
      | cons next parts =>
          rw [Text.join_cons_cons, List.append_assoc]
          exact .cons first (ih (List.cons_ne_nil _ _) later)

theorem Divides.ne_nil (divides : Divides separator cs parts) : parts ≠ [] := by
  cases divides <;> exact List.cons_ne_nil _ _

theorem Divides.join_eq (divides : Divides separator cs parts) :
    Text.join [separator] parts = cs := by
  induction divides with
  | last => rfl
  | @cons part rest parts _ later ih =>
      obtain ⟨next, more, rfl⟩ := List.exists_cons_of_ne_nil later.ne_nil
      rw [Text.join_cons_cons, ih, List.append_assoc, List.singleton_append]

/-! ## The parts of a text -/

theorem splitQuoted_inside (unclosed : q ∉ inner) :
    splitQuoted separator (some q) part (inner ++ rest) =
      splitQuoted separator (some q) (inner.reverse ++ part) rest := by
  induction inner generalizing part with
  | nil => rfl
  | cons c inner ih =>
      obtain ⟨differ, below⟩ := List.ne_and_not_mem_of_not_mem_cons unclosed
      rw [List.cons_append, splitQuoted, if_neg differ.symm, ih below, List.reverse_cons,
        List.append_assoc]
      rfl

theorem splitQuoted_whole (whole : IsWhole separator start) :
    splitQuoted separator none part (start ++ rest) =
      splitQuoted separator none (start.reverse ++ part) rest := by
  induction whole generalizing part with
  | nil => rfl
  | @char c cs plain other _ ih =>
      rw [List.cons_append, splitQuoted, if_neg (by rw [plain]; nofun), if_neg other, ih,
        List.reverse_cons, List.append_assoc]
      rfl
  | @quoted q inner cs quote closed _ ih =>
      rw [List.cons_append, List.append_assoc, splitQuoted, if_pos quote,
        splitQuoted_inside closed, List.cons_append, splitQuoted, if_pos rfl, ih]
      simp only [List.reverse_cons, List.reverse_append, List.append_assoc, List.cons_append,
        List.nil_append]

theorem Divides.splitOutsideQuotes_eq (outside : isQuote separator = false)
    (divides : Divides separator cs parts) : splitOutsideQuotes separator cs = parts := by
  unfold splitOutsideQuotes
  induction divides with
  | @last cs last =>
      rcases last with whole | ⟨whole, quote, unclosed⟩
      · have read : splitQuoted separator none [] (cs ++ []) =
            splitQuoted separator none (cs.reverse ++ []) [] := splitQuoted_whole whole
        rw [List.append_nil, List.append_nil] at read
        rw [read, splitQuoted, List.reverse_reverse]
      · next q start inner =>
        have read : splitQuoted separator (some q) (q :: start.reverse) (inner ++ []) =
            splitQuoted separator (some q) (inner.reverse ++ q :: start.reverse) [] :=
          splitQuoted_inside unclosed
        rw [List.append_nil] at read
        rw [splitQuoted_whole whole, List.append_nil, splitQuoted, if_pos quote, read, splitQuoted]
        simp
  | @cons part rest parts whole _ ih =>
      rw [splitQuoted_whole whole, splitQuoted, if_neg (by rw [outside]; nofun), if_pos rfl, ih]
      simp

theorem Divides.exists_of_append (first : IsWhole separator start)
    (divides : Divides separator rest parts) :
    ∃ parts, Divides separator (start ++ rest) parts := by
  cases divides with
  | last last =>
      exact ⟨_, .last (last.imp first.append (IsOpen.whole_append first))⟩
  | cons whole later =>
      rw [← List.append_assoc]
      exact ⟨_, .cons (first.append whole) later⟩

theorem exists_divides (separator : Char) (cs : List Char) :
    ∃ parts, Divides separator cs parts := by
  -- on the length, since a quoted text is taken at once
  induction size : cs.length using Nat.strong_induction_on generalizing cs with
  | _ size_ ih =>
      subst size
      cases cs with
      | nil => exact ⟨_, .last (.inl .nil)⟩
      | cons c cs =>
          by_cases quote : isQuote c = true
          · by_cases closes : c ∈ cs
            · obtain ⟨inner, rest, rfl, closed⟩ := List.eq_append_cons_of_mem closes
              have shorter : rest.length < (c :: (inner ++ c :: rest)).length := by
                simp only [List.length_cons, List.length_append]
                omega
              obtain ⟨parts, later⟩ := ih _ shorter rest rfl
              have first : IsWhole separator (c :: (inner ++ [c])) := .quoted quote closed .nil
              have whole := later.exists_of_append first
              rwa [List.cons_append, List.append_assoc] at whole
            · exact ⟨_, .last (.inr (.quote .nil quote closes))⟩
          · obtain ⟨parts, later⟩ := ih _ (Nat.lt_succ_self _) cs rfl
            by_cases same : c = separator
            · subst same
              exact ⟨_, .cons .nil later⟩
            · have first : IsWhole separator [c] := .char (Bool.not_eq_true _ ▸ quote) same .nil
              exact later.exists_of_append first

/-- A text is split into the parts that it divides into. -/
theorem splitOutsideQuotes_eq_iff (outside : isQuote separator = false) :
    splitOutsideQuotes separator cs = parts ↔ Divides separator cs parts := by
  constructor
  · rintro rfl
    obtain ⟨parts, divides⟩ := exists_divides separator cs
    rwa [divides.splitOutsideQuotes_eq outside]
  · exact Divides.splitOutsideQuotes_eq outside

/-! ## Quoted runs -/

/-- The first occurrence of a quote behind a position. -/
structure IsNext (cs : List Char) (q : Char) (i j : Nat) : Prop where
  behind : i < j
  here : cs[j]? = some q
  first : ∀ m, i < m → m < j → cs[m]? ≠ some q

/-- A position that is met outside quoted runs. -/
inductive IsFree (cs : List Char) : Nat → Prop
  | start : IsFree cs 0
  | plain {i : Nat} {c : Char} (free : IsFree cs i) (here : cs[i]? = some c)
      (plain : isQuote c = false) : IsFree cs (i + 1)
  | closed {i j : Nat} {q : Char} (free : IsFree cs i) (opens : cs[i]? = some q)
      (quote : isQuote q = true) (next : IsNext cs q i j) : IsFree cs (j + 1)

/-- A quoted run starts at a quote that is met outside runs, and ends at the next occurrence of this
quote or, if there is none, with the text. -/
structure IsRun (cs : List Char) (q : Char) (i j : Nat) : Prop where
  free : IsFree cs i
  opens : cs[i]? = some q
  quote : isQuote q = true
  ends : IsNext cs q i j ∨ j = cs.length ∧ ∀ m, i < m → cs[m]? ≠ some q

/-- A position in a quoted run, its quotes included. -/
def InRun (cs : List Char) (k : Nat) : Prop := ∃ q i j, IsRun cs q i j ∧ i ≤ k ∧ k ≤ j

/-- The positions of the separators between parts, in the text that the parts are joined to. -/
def cuts : List (List Char) → List Nat
  | [] | [_] => []
  | part :: next :: parts => part.length :: (cuts (next :: parts)).map (part.length + 1 + ·)

/-! ## The open quote -/

/-- The quote that is open behind a character. -/
def quoteAfter (open_ : Option Char) (c : Char) : Option Char :=
  match open_ with
  | some q => if c = q then none else some q
  | none => if isQuote c then some c else none

/-- The quote that is open before a position. -/
def openAt (cs : List Char) (k : Nat) : Option Char := (cs.take k).foldl quoteAfter none

theorem quoteAfter_some (other : c ≠ q) : quoteAfter (some q) c = some q := if_neg other

theorem quoteAfter_eq_some_iff : quoteAfter open_ c = some q ↔
    open_ = some q ∧ c ≠ q ∨ open_ = none ∧ isQuote c = true ∧ c = q := by
  cases open_ with
  | none => simp [quoteAfter]
  | some p =>
      simp only [quoteAfter, reduceCtorEq, false_and, or_false, Option.some.injEq]
      split
      · next same =>
          subst same
          simp
      · next other =>
          rw [Option.some.injEq]
          constructor
          · rintro rfl
            exact ⟨rfl, other⟩
          · exact And.left

theorem quoteAfter_eq_none_iff : quoteAfter open_ c = none ↔
    open_ = some c ∨ open_ = none ∧ isQuote c = false := by
  cases open_ with
  | none => simp [quoteAfter]
  | some p =>
      simp only [quoteAfter, reduceCtorEq, false_and, or_false, Option.some.injEq]
      split
      · next same => exact iff_of_true rfl same.symm
      · next other => exact iff_of_false nofun (Ne.symm other)

theorem openAt_succ (here : cs[k]? = some c) :
    openAt cs (k + 1) = quoteAfter (openAt cs k) c := by
  rw [openAt, List.take_add_one, List.foldl_append, here]
  rfl

theorem openAt_succ_of_none (none_ : cs[k]? = none) : openAt cs (k + 1) = openAt cs k := by
  rw [openAt, List.take_add_one, List.foldl_append, none_]
  rfl

/-- The quote of a run stays open up to the end of the run. -/
theorem openAt_of_opens (free : openAt cs i = none) (opens : cs[i]? = some q)
    (quote : isQuote q = true) (behind : i < k) (within : k ≤ cs.length)
    (closed : ∀ m, i < m → m < k → cs[m]? ≠ some q) : openAt cs k = some q := by
  induction k, behind using Nat.le_induction with
  | base => rw [openAt_succ opens, quoteAfter_eq_some_iff.2 (.inr ⟨free, quote, rfl⟩)]
  | succ k behind ih =>
      have open_ : openAt cs k = some q :=
        ih (Nat.le_of_succ_le within) fun m first last => closed m first (Nat.lt_succ_of_lt last)
      have here : cs[k]? = some cs[k] := List.getElem?_eq_getElem within
      have other : cs[k] ≠ q := fun same =>
        closed k behind (Nat.lt_succ_self k) (here.trans (congrArg some same))
      rw [openAt_succ here, open_, quoteAfter_some other]

/-- An open quote was met outside runs, and it was not met again. -/
theorem exists_opens (open_ : openAt cs k = some q) : ∃ i, i < k ∧ openAt cs i = none ∧
    cs[i]? = some q ∧ isQuote q = true ∧ ∀ m, i < m → m < k → cs[m]? ≠ some q := by
  induction k with
  | zero => cases open_
  | succ k ih =>
      have further (before : openAt cs k = some q) (other : cs[k]? ≠ some q) :
          ∃ i, i < k + 1 ∧ openAt cs i = none ∧ cs[i]? = some q ∧ isQuote q = true ∧
            ∀ m, i < m → m < k + 1 → cs[m]? ≠ some q := by
        obtain ⟨i, behind, free, opens, quote, closed⟩ := ih before
        refine ⟨i, Nat.lt_succ_of_lt behind, free, opens, quote, ?_⟩
        intro m first last
        rcases Nat.lt_succ_iff_lt_or_eq.1 last with last | rfl
        · exact closed m first last
        · exact other
      cases here : cs[k]? with
      | none =>
          rw [openAt_succ_of_none here] at open_
          exact further open_ fun same => nomatch here.symm.trans same
      | some c =>
          rw [openAt_succ here, quoteAfter_eq_some_iff] at open_
          rcases open_ with ⟨before, other⟩ | ⟨free, quote, rfl⟩
          · exact further before fun same => other (Option.some.inj (here.symm.trans same))
          · exact ⟨k, Nat.lt_succ_self k, free, here, quote, fun m first last => by omega⟩

theorem IsFree.openAt_eq (free : IsFree cs i) : openAt cs i = none := by
  induction free with
  | start => rfl
  | plain _ here plain ih =>
      rw [openAt_succ here, quoteAfter_eq_none_iff.2 (.inr ⟨ih, plain⟩)]
  | @closed i j q _ opens quote next ih =>
      have within : j ≤ cs.length := Nat.le_of_lt (List.getElem?_eq_some_iff.1 next.here).1
      have open_ := openAt_of_opens ih opens quote next.behind within next.first
      rw [openAt_succ next.here, quoteAfter_eq_none_iff.2 (.inl open_)]

/-- Exactly where no quote is open a position is met outside runs. -/
theorem isFree_iff (within : k ≤ cs.length) : IsFree cs k ↔ openAt cs k = none := by
  constructor
  · exact IsFree.openAt_eq
  · intro free
    -- a run is taken at once, so the positions before its start are needed as well
    induction k using Nat.strong_induction_on with
    | _ k ih =>
        cases k with
        | zero => exact .start
        | succ k =>
            have here : cs[k]? = some cs[k] := List.getElem?_eq_getElem within
            rw [openAt_succ here, quoteAfter_eq_none_iff] at free
            rcases free with open_ | ⟨free, plain⟩
            · obtain ⟨i, behind, free, opens, quote, closed⟩ := exists_opens open_
              have met : IsFree cs i := ih i (by omega) (by omega) free
              exact .closed met opens quote ⟨behind, here, closed⟩
            · have met : IsFree cs k := ih k (Nat.lt_succ_self k) (Nat.le_of_succ_le within) free
              exact .plain met here plain

/-- A run goes on at least as long as its quote is not met again. -/
theorem exists_isRun (free : IsFree cs i) (opens : cs[i]? = some q) (quote : isQuote q = true)
    (within : k ≤ cs.length) (closed : ∀ m, i < m → m < k → cs[m]? ≠ some q) :
    ∃ j, IsRun cs q i j ∧ k ≤ j := by
  classical
  by_cases again : ∃ j, i < j ∧ cs[j]? = some q
  · obtain ⟨behind, here⟩ := Nat.find_spec again
    have next : IsNext cs q i (Nat.find again) := by
      refine ⟨behind, here, ?_⟩
      intro m first last same
      exact Nat.find_min again last ⟨first, same⟩
    refine ⟨Nat.find again, ⟨free, opens, quote, .inl next⟩, ?_⟩
    by_contra before
    exact closed _ behind (Nat.lt_of_not_le before) here
  · have unclosed : ∀ m, i < m → cs[m]? ≠ some q := fun m first same => again ⟨m, first, same⟩
    exact ⟨cs.length, ⟨free, opens, quote, .inr ⟨rfl, unclosed⟩⟩, within⟩

theorem IsRun.openAt_eq (run : IsRun cs q i j) (behind : i < k) (within : k ≤ j)
    (inside : k ≤ cs.length) : openAt cs k = some q := by
  refine openAt_of_opens run.free.openAt_eq run.opens run.quote behind inside ?_
  intro m first last
  rcases run.ends with next | ⟨-, unclosed⟩
  · exact next.first m first (Nat.lt_of_lt_of_le last within)
  · exact unclosed m first

/-- A character in a run is a quote that opens one, or stands where a quote is open. -/
theorem inRun_iff (here : cs[k]? = some c) :
    InRun cs k ↔ openAt cs k ≠ none ∨ isQuote c = true := by
  have within : k ≤ cs.length := Nat.le_of_lt (List.getElem?_eq_some_iff.1 here).1
  constructor
  · rintro ⟨q, i, j, run, first, last⟩
    rcases Nat.eq_or_lt_of_le first with rfl | behind
    · obtain rfl := Option.some.inj (here.symm.trans run.opens)
      exact .inr run.quote
    · exact .inl (by rw [run.openAt_eq behind last within]; exact Option.some_ne_none q)
  · intro inside
    cases state : openAt cs k with
    | none =>
        have quote : isQuote c = true := inside.resolve_left fun open_ => open_ state
        obtain ⟨j, run, last⟩ := exists_isRun ((isFree_iff within).2 state) here quote within
          (fun m first last => absurd first (Nat.lt_asymm last))
        exact ⟨c, k, j, run, Nat.le_refl k, last⟩
    | some q =>
        obtain ⟨i, behind, free, opens, quote, closed⟩ := exists_opens state
        have met : IsFree cs i := (isFree_iff (by omega)).2 free
        obtain ⟨j, run, last⟩ := exists_isRun met opens quote within closed
        exact ⟨q, i, j, run, Nat.le_of_lt behind, last⟩

/-- Between the quotes of a run only its own quote counts. -/
theorem IsRun.openAt_set (run : IsRun cs q i j) (behind : i < k) (before : k < j) (other : d ≠ q)
    (m : Nat) : openAt (cs.set k d) m = openAt cs m := by
  induction m with
  | zero => rfl
  | succ m ih =>
      by_cases same : m = k
      · subst same
        cases here : cs[m]? with
        | none =>
            have here' : (cs.set m d)[m]? = none := by simpa using here
            rw [openAt_succ_of_none here, openAt_succ_of_none here', ih]
        | some c =>
            have within : m < cs.length := (List.getElem?_eq_some_iff.1 here).1
            have open_ := run.openAt_eq behind (Nat.le_of_lt before) (Nat.le_of_lt within)
            have kept : c ≠ q := by
              rintro rfl
              rcases run.ends with next | ⟨-, unclosed⟩
              · exact next.first m behind before here
              · exact unclosed m behind here
            have here' : (cs.set m d)[m]? = some d := List.getElem?_set_self within
            rw [openAt_succ here, openAt_succ here', ih, open_, quoteAfter_some kept,
              quoteAfter_some other]
      · have elsewhere : (cs.set k d)[m]? = cs[m]? := List.getElem?_set_ne (Ne.symm same)
        cases here : cs[m]? with
        | none => rw [openAt_succ_of_none here, openAt_succ_of_none (elsewhere.trans here), ih]
        | some c => rw [openAt_succ here, openAt_succ (elsewhere.trans here), ih]

/-! ## Where a text is cut -/

theorem mem_cuts_cons (some_ : parts ≠ []) : k ∈ cuts (part :: parts) ↔
    k = part.length ∨ ∃ m, k = part.length + 1 + m ∧ m ∈ cuts parts := by
  obtain ⟨next, parts, rfl⟩ := List.exists_cons_of_ne_nil some_
  rw [cuts, List.mem_cons, List.mem_map]
  simp only [and_comm, eq_comm]

/-- One character ends a part or is put to it. -/
theorem splitQuoted_cons (separator : Char) (open_ : Option Char) (part : List Char) (c : Char)
    (cs : List Char) : splitQuoted separator open_ part (c :: cs) =
      if open_ = none ∧ isQuote c = false ∧ c = separator then
        part.reverse :: splitQuoted separator none [] cs
      else splitQuoted separator (quoteAfter open_ c) (c :: part) cs := by
  cases open_ with
  | some q => rw [if_neg (fun cut => nomatch cut.1), splitQuoted, quoteAfter]
  | none =>
      rw [splitQuoted, quoteAfter]
      cases isQuote c <;> simp

theorem splitQuoted_ne_nil (separator : Char) (open_ : Option Char) (part cs : List Char) :
    splitQuoted separator open_ part cs ≠ [] := by
  induction cs generalizing open_ part with
  | nil =>
      rw [splitQuoted]
      exact List.cons_ne_nil _ _
  | cons c cs ih =>
      rw [splitQuoted_cons]
      split
      · exact List.cons_ne_nil _ _
      · exact ih _ _

/-- The parts joined are the text. -/
theorem join_splitQuoted (separator : Char) (open_ : Option Char) (part cs : List Char) :
    Text.join [separator] (splitQuoted separator open_ part cs) = part.reverse ++ cs := by
  induction cs generalizing open_ part with
  | nil =>
      rw [List.append_nil, splitQuoted]
      rfl
  | cons c cs ih =>
      rw [splitQuoted_cons]
      split
      · next cut =>
          obtain ⟨-, -, rfl⟩ := cut
          have joined := ih none []
          obtain ⟨next, more, parts⟩ :=
            List.exists_cons_of_ne_nil (splitQuoted_ne_nil c none [] cs)
          rw [parts] at joined ⊢
          rw [Text.join_cons_cons, joined]
          simp
      · rw [ih, List.reverse_cons, List.append_assoc]
        rfl

/-- A text is cut at the separators before which no quote is open. -/
theorem mem_cuts_splitQuoted : k ∈ cuts (splitQuoted separator open_ part cs) ↔
    ∃ m, k = part.length + m ∧ cs[m]? = some separator ∧
      (cs.take m).foldl quoteAfter open_ = none ∧ isQuote separator = false := by
  induction cs generalizing open_ part k with
  | nil =>
      rw [splitQuoted, cuts]
      simp
  | cons c cs ih =>
      -- the positions behind this character are those of the rest, one further
      have behind : (∃ m, k = part.length + m ∧ (c :: cs)[m]? = some separator ∧
          ((c :: cs).take m).foldl quoteAfter open_ = none ∧ isQuote separator = false) ↔
          (k = part.length ∧ c = separator ∧ open_ = none ∧ isQuote separator = false) ∨
          ∃ m, k = part.length + 1 + m ∧ cs[m]? = some separator ∧
            (cs.take m).foldl quoteAfter (quoteAfter open_ c) = none ∧
            isQuote separator = false := by
        constructor
        · rintro ⟨m, same, here, free, plain⟩
          cases m with
          | zero => exact .inl ⟨same, Option.some.inj here, free, plain⟩
          | succ m => exact .inr ⟨m, by omega, here, free, plain⟩
        · rintro (⟨same, here, free, plain⟩ | ⟨m, same, here, free, plain⟩)
          · exact ⟨0, same, congrArg some here, free, plain⟩
          · exact ⟨m + 1, by omega, here, free, plain⟩
      rw [behind, splitQuoted_cons]
      split
      · next cut =>
          obtain ⟨rfl, plain, rfl⟩ := cut
          have closed : quoteAfter none c = none := quoteAfter_eq_none_iff.2 (.inr ⟨rfl, plain⟩)
          rw [mem_cuts_cons (splitQuoted_ne_nil c none [] cs), closed, List.length_reverse]
          simp [ih, plain]
      · next uncut =>
          rw [ih, List.length_cons]
          constructor
          · exact .inr
          · rintro (⟨-, rfl, free, plain⟩ | later)
            · exact absurd ⟨free, plain, rfl⟩ uncut
            · exact later

theorem mem_cuts_splitOutsideQuotes : k ∈ cuts (splitOutsideQuotes separator cs) ↔
    cs[k]? = some separator ∧ openAt cs k = none ∧ isQuote separator = false := by
  rw [splitOutsideQuotes, mem_cuts_splitQuoted]
  constructor
  · rintro ⟨m, rfl, found⟩
    rwa [List.length_nil, Nat.zero_add]
  · intro found
    exact ⟨k, (Nat.zero_add k).symm, found⟩

/-- The parts with the separator between them are the text, and the text is cut at exactly those
separators that lie in no quoted run. What stands between the quotes of a run has no say in this,
unless it is the quote of the run. -/
theorem cut_outside_runs (separator : Char) (cs : List Char) :
    Text.join [separator] (splitOutsideQuotes separator cs) = cs ∧
    (∀ k, k ∈ cuts (splitOutsideQuotes separator cs) ↔
      cs[k]? = some separator ∧ ¬ InRun cs k) ∧
    ∀ q i j k d, IsRun cs q i j → i < k → k < j → d ≠ q → ∀ m,
      m ∈ cuts (splitOutsideQuotes separator (cs.set k d)) ↔
        m ∈ cuts (splitOutsideQuotes separator cs) := by
  refine ⟨?_, ?_, ?_⟩
  · exact join_splitQuoted separator none [] cs
  · intro k
    rw [mem_cuts_splitOutsideQuotes]
    apply and_congr_right
    intro here
    rw [inRun_iff here, not_or, not_not, Bool.not_eq_true]
  · intro q i j k d run behind before other m
    rw [mem_cuts_splitOutsideQuotes, mem_cuts_splitOutsideQuotes,
      run.openAt_set behind before other]
    by_cases same : m = k
    · subst same
      -- the quote of the run is open here, in both texts
      by_cases within : m < cs.length
      · rw [run.openAt_eq behind (Nat.le_of_lt before) (Nat.le_of_lt within)]
        simp
      · rw [List.set_eq_of_length_le (Nat.le_of_not_lt within)]
    · rw [List.getElem?_set_ne (Ne.symm same)]

namespace Sample

/-- A run between single quotes that holds a double quote and a bar. -/
def barred : List Char := "x|'a\"|b'|y".toList

theorem isRun_barred : IsRun barred '\'' 2 7 where
  free := .plain (.plain .start rfl rfl) rfl rfl
  opens := rfl
  quote := rfl
  ends := by
    have closed : ∀ m < 7, 2 < m → barred[m]? ≠ some '\'' := by decide
    exact .inl ⟨by decide, rfl, fun m first last => closed m last first⟩

end Sample

/-- The bar in the run does not cut, and it makes no difference that the run holds another quote. -/
theorem cut_outside_runs_sample :
    splitOutsideQuotes '|' Sample.barred = ["x".toList, "'a\"|b'".toList, "y".toList] ∧
    5 ∉ cuts (splitOutsideQuotes '|' Sample.barred) ∧
    ∀ m, m ∈ cuts (splitOutsideQuotes '|' (Sample.barred.set 4 '|')) ↔ m ∈ [1, 8] := by
  obtain ⟨-, exact_, inert⟩ := cut_outside_runs '|' Sample.barred
  refine ⟨by decide, fun cut => ?_, fun m => ?_⟩
  · exact ((exact_ 5).1 cut).2 ⟨'\'', 2, 7, Sample.isRun_barred, by decide, by decide⟩
  · exact inert '\'' 2 7 4 '|' Sample.isRun_barred (by decide) (by decide) (by decide) m

end Fleet.Template
