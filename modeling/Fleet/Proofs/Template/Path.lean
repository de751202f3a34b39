/-
# Paths and their keys

The keys of a path are those before a separator and those behind it (`keys_separator`). A path
starts with a word, and none of its keys holds an opening bracket or closing braces. A key that is
empty or holds a closing bracket breaks the path that conversion writes: the path is not read to its
end (`readExpression_of_broken`).
-/

import Fleet.Proofs.Template.Braces
import Fleet.Proofs.Template.Token
import Mathlib.Data.List.Infix

namespace Fleet.Template

open Braces

variable {c : Char} {cs key name part body left rest : List Char} {keys : List (List Char)} {fuel : Nat}

/-! ## Keys -/

/-- The first part starts the text, and the others stand in it. -/
theorem splitKeys_parts (cs : List Char) : ∃ first more, splitKeys cs = first :: more ∧
    first <+: cs ∧ (∀ part ∈ more, part <:+: cs) ∧ ∀ part ∈ first :: more, '[' ∉ part := by
  induction cs with
  | nil => exact ⟨[], [], rfl, List.prefix_refl _, nofun, by simp⟩
  | cons c cs ih =>
      obtain ⟨first, more, parts, start, inside, plain⟩ := ih
      rw [splitKeys, parts]
      split
      · refine ⟨[], first :: more, rfl, List.nil_prefix, ?_,
          List.forall_mem_cons.2 ⟨List.not_mem_nil, plain⟩⟩
        refine List.forall_mem_cons.2 ⟨start.isInfix.trans (List.suffix_cons c cs).isInfix, ?_⟩
        exact fun part member => (inside part member).trans (List.suffix_cons c cs).isInfix
      · next other =>
          obtain ⟨firstPlain, later⟩ := List.forall_mem_cons.1 plain
          refine ⟨c :: first, more, rfl, List.cons_prefix_cons.2 ⟨rfl, start⟩, ?_, ?_⟩
          · exact fun part member => (inside part member).trans (List.suffix_cons c cs).isInfix
          · refine List.forall_mem_cons.2 ⟨?_, later⟩
            rintro bracket
            rcases List.mem_cons.1 bracket with rfl | below
            · exact other rfl
            · exact firstPlain below

/-- A key stands in its path and holds no opening bracket. -/
theorem infix_of_mem_keys (member : key ∈ Template.keys cs) : key <:+: cs ∧ '[' ∉ key := by
  obtain ⟨part, kept, rfl⟩ := List.mem_map.1 member
  have inPart : Text.dropEndWhile (· == '\'')
      ((Text.dropEndWhile (· == ']') part).dropWhile (· == '\'')) <:+: part :=
    ((List.rdropWhile_prefix _ _).isInfix.trans (List.dropWhile_suffix _).isInfix).trans
      (List.rdropWhile_prefix _ _).isInfix
  obtain ⟨first, more, parts, start, inside, plain⟩ := splitKeys_parts cs
  have given : part ∈ first :: more := parts ▸ (List.mem_filter.1 kept).1
  have inText : part <:+: cs := by
    rcases List.mem_cons.1 given with rfl | later
    · exact start.isInfix
    · exact inside part later
  exact ⟨inPart.trans inText, fun bracket => plain part given (inPart.subset bracket)⟩

theorem splitKeys_of_plain (plain : ∀ c ∈ cs, (c == '.' || c == '[') = false) :
    splitKeys cs = [cs] := by
  induction cs with
  | nil => rfl
  | cons c cs ih =>
      obtain ⟨here, later⟩ := List.forall_mem_cons.1 plain
      rw [splitKeys, here, if_neg Bool.false_ne_true, ih later]
      rfl

/-- Both sides of a separator are split for themselves. -/
theorem splitKeys_separator (cuts : (c == '.' || c == '[') = true) (cs rest : List Char) :
    splitKeys (cs ++ c :: rest) = splitKeys cs ++ splitKeys rest := by
  induction cs with
  | nil =>
      show splitKeys (c :: rest) = [] :: splitKeys rest
      rw [splitKeys, if_pos cuts]
  | cons d cs ih =>
      obtain ⟨first, more, parts, -⟩ := splitKeys_parts cs
      rw [List.cons_append, splitKeys, splitKeys, ih, parts]
      split <;> rfl

/-- The keys of a path are those before a separator and those behind it. -/
theorem keys_separator (cuts : (c == '.' || c == '[') = true) (cs rest : List Char) :
    Template.keys (cs ++ c :: rest) = Template.keys cs ++ Template.keys rest := by
  rw [Template.keys, splitKeys_separator cuts, List.filter_append, List.map_append]
  rfl

theorem dropEndWhile_eq_self {p : Char → Bool} (none_ : ∀ c ∈ cs, p c = false) :
    Text.dropEndWhile p cs = cs :=
  List.rdropWhile_eq_self_iff.2 fun some_ =>
    Bool.not_eq_true _ ▸ none_ _ (List.getLast_mem some_)

theorem isClosing_of_test {p : Char → Bool} (all : ∀ c ∈ cs, p c = true) (bracket : p ']' = false) :
    ']' ∉ cs := fun inside => Bool.false_ne_true (bracket.symm.trans (all _ inside))

/-- A part of a path without the brackets and quotes at its ends. -/
def keyOf (part : List Char) : List Char :=
  Text.dropEndWhile (· == '\'') ((Text.dropEndWhile (· == ']') part).dropWhile (· == '\''))

/-- A key with no bracket or quote in it is the same with a bracket behind it. -/
theorem keyOf_plain (bracket : ']' ∉ cs) (quote : '\'' ∉ cs) :
    keyOf cs = cs ∧ keyOf (cs ++ [']']) = cs := by
  have other {d : Char} (outside : d ∉ cs) : ∀ c ∈ cs, (c == d) = false := fun c member =>
    beq_eq_false_iff_ne.2 fun same => outside (same ▸ member)
  have opened : cs.dropWhile (· == '\'') = cs := by
    cases cs with
    | nil => rfl
    | cons c cs => exact Text.dropWhile_eq_self (other quote c List.mem_cons_self)
  have kept : Text.dropEndWhile (· == ']') cs = cs := dropEndWhile_eq_self (other bracket)
  have closed : Text.dropEndWhile (· == '\'') cs = cs := dropEndWhile_eq_self (other quote)
  have stripped : Text.dropEndWhile (· == ']') (cs ++ [']']) = cs := by
    rw [Text.dropEndWhile, List.reverse_append, List.reverse_singleton, List.singleton_append,
      List.dropWhile_cons, if_pos (beq_self_eq_true ']'), ← Text.dropEndWhile, kept]
  exact ⟨by rw [keyOf, kept, opened, closed], by rw [keyOf, stripped, opened, closed]⟩

/-- A text without separators is one key. -/
theorem keys_part (some_ : cs ≠ []) (plain : ∀ c ∈ cs, (c == '.' || c == '[') = false) :
    Template.keys cs = [keyOf cs] := by
  show ((splitKeys cs).filter fun k => !k.isEmpty).map keyOf = _
  rw [splitKeys_of_plain plain, List.filter_singleton, List.isEmpty_eq_false_iff.2 some_]
  rfl

/-- A text of characters that have no meaning in a path is one key, and so it is with a bracket
behind it. -/
theorem keys_plain {p : Char → Bool} (some_ : cs ≠ []) (all : ∀ c ∈ cs, p c = true)
    (separators : p '.' = false ∧ p '[' = false) (ends : p ']' = false ∧ p '\'' = false) :
    Template.keys cs = [cs] ∧ Template.keys (cs ++ [']']) = [cs] := by
  have plain : ∀ c ∈ cs, (c == '.' || c == '[') = false := by
    intro c member
    rw [beq_eq_false_iff_ne.2 (ne_of_test (all c member) separators.1),
      beq_eq_false_iff_ne.2 (ne_of_test (all c member) separators.2)]
    rfl
  have own := keyOf_plain (isClosing_of_test all ends.1) fun quote =>
    Bool.false_ne_true (ends.2.symm.trans (all _ quote))
  constructor
  · rw [keys_part some_ plain, own.1]
  · have closed : ∀ c ∈ cs ++ [']'], (c == '.' || c == '[') = false :=
      List.forall_mem_append.2 ⟨plain, List.forall_mem_singleton.2 rfl⟩
    rw [keys_part (List.append_ne_nil_of_left_ne_nil some_ _) closed, own.2]

theorem IsIdentifier.keys_eq (name_ : IsIdentifier name) : Template.keys name = [name] := by
  obtain ⟨c, tail, rfl, -⟩ := name_.exists_cons
  exact (keys_plain (List.cons_ne_nil _ _) name_.all ⟨rfl, rfl⟩ ⟨rfl, rfl⟩).1

/-- Digits are one key, with a bracket behind them and without. -/
theorem IsDigits.keys_eq (digits : IsDigits cs) :
    Template.keys cs = [cs] ∧ Template.keys (cs ++ [']']) = [cs] :=
  keys_plain digits.some_ digits.all (by decide) (by decide)

/-- A path starts with a word, which is its first key. -/
theorem exists_head?_keys (path : isPath cs = true) :
    ∃ first, (Template.keys cs).head? = some first ∧ IsWord first := by
  obtain ⟨name_, further⟩ := isPath_iff.1 path
  next name rest =>
  have word : IsWord name := by
    obtain ⟨c, tail, rfl, -⟩ := name_.exists_cons
    exact ⟨List.cons_ne_nil _ _, fun d member => isSymbol_of_isNameChar (name_.all d member)⟩
  refine ⟨name, ?_, word⟩
  cases further with
  | nil => rw [List.append_nil, name_.keys_eq, List.head?_cons]
  | name | number | index | quoted =>
      rw [keys_separator rfl, name_.keys_eq, List.singleton_append, List.head?_cons]

/-! ## Broken paths -/

theorem expect?_of_stuck {a : List Char} (open_ : ¬ close₂ <:+: a) :
    expect? close₂ (a ++ ']' :: rest) = none := by
  have space : (']' :: rest).head?.any isSpace = false := rfl
  have dropped : a.dropWhile isSpace <:+: a := (List.dropWhile_suffix _).isInfix
  rw [expect?, skipSpace, Text.dropWhile_append_of_stop space]
  refine if_neg fun closes => ?_
  generalize a.dropWhile isSpace = b at closes dropped
  cases b with
  | nil => cases closes
  | cons c b =>
      cases b with
      | nil => simp [close₂] at closes
      | cons d b =>
          have start : close₂ <+: c :: d :: b := by
            simp only [close₂, List.cons_append, List.isPrefixOf_cons_cons, Bool.and_eq_true,
              beq_iff_eq] at closes
            obtain ⟨rfl, rfl, -⟩ := closes
            exact ⟨b, rfl⟩
          exact open_ (start.isInfix.trans dropped)

/-- No path goes on past a closing bracket that no bracket opens. -/
theorem takeKeys_stuck (fuel : Nat) (a rest : List Char) (plain : '[' ∉ a) :
    ∃ b, b <:+ a ∧ (takeKeys fuel (a ++ ']' :: rest)).2 = b ++ ']' :: rest := by
  induction fuel generalizing a with
  | zero => exact ⟨a, List.suffix_refl a, rfl⟩
  | succ fuel ih =>
      cases a with
      | nil => exact ⟨[], List.suffix_refl _, rfl⟩
      | cons c a =>
          obtain ⟨-, later⟩ := List.ne_and_not_mem_of_not_mem_cons plain
          have tail : a <:+ c :: a := List.suffix_cons c a
          have stop : (']' :: rest).head?.any isSymbol = false := rfl
          have key : takeKey? (a ++ ']' :: rest) = if (a.takeWhile isSymbol).isEmpty then none
              else some (a.takeWhile isSymbol, a.dropWhile isSymbol ++ ']' :: rest) := by
            rw [takeKey?, takeSymbol?, Text.takeWhile_append_of_stop stop,
              Text.dropWhile_append_of_stop stop]
            intro more same
            cases a with
            | nil => cases (List.cons.inj same).1
            | cons d a => exact later ((List.cons.inj same).1 ▸ List.mem_cons_self)
          rw [List.cons_append, takeKeys, key]
          by_cases separates : (c == '.' || c == '/') = true
          · rw [if_pos separates]
            by_cases empty : (a.takeWhile isSymbol).isEmpty = true
            · rw [if_pos empty]
              exact ⟨c :: a, List.suffix_refl _, rfl⟩
            · rw [if_neg empty]
              have dropped : a.dropWhile isSymbol <:+ a := List.dropWhile_suffix _
              obtain ⟨b, end_, left⟩ := ih (a.dropWhile isSymbol)
                fun bracket => later (dropped.subset bracket)
              exact ⟨b, (end_.trans dropped).trans tail, left⟩
          · rw [if_neg separates]
            exact ⟨c :: a, List.suffix_refl _, rfl⟩

/-- Behind the separator no key starts. -/
theorem takeKeys_of_takeKey?_eq_none (none_ : takeKey? cs = none) :
    takeKeys fuel ('.' :: cs) = ([], '.' :: cs) := by
  cases fuel with
  | zero => rfl
  | succ fuel => rw [takeKeys, if_pos (by decide), none_]

theorem takeKey?_further (ends : Ends rest) :
    takeKey? (keys.flatMap (fun k => '.' :: keyText k) ++ rest) = none := by
  cases keys with
  | nil => rcases ends with _ | ⟨_ | _⟩ <;> rfl
  | cons k keys => rfl

/-- A key with a closing bracket is taken up to that bracket. -/
theorem takeKey?_of_bracket {before behind : List Char} (outside : ']' ∉ before) :
    takeKey? (keyText (before ++ ']' :: behind) ++ rest) =
      some (before, behind ++ ']' :: rest) := by
  have odd : ¬ isPlainKey (before ++ ']' :: behind) = true := by
    intro plain
    have all := List.all_eq_true.1 (Bool.and_eq_true_iff.1 plain).1 ']' (by simp)
    cases all
  have open_ : ∀ c ∈ before, decide (c ≠ ']') = true := fun c member =>
    decide_eq_true fun same => outside (same ▸ member)
  have stop : (']' :: (behind ++ ']' :: rest)).head?.any (fun c => decide (c ≠ ']')) = false := rfl
  rw [keyText, if_neg odd]
  simp only [List.cons_append, List.append_assoc, List.nil_append]
  rw [takeKey?, Text.takeWhile_run open_ stop, Text.dropWhile_run open_ stop]

/-- A path with a broken key is not read to its closing braces. -/
theorem expect?_takeKeys_of_broken (fuel : Nat) (given : ∀ k ∈ keys, '[' ∉ k ∧ ¬ close₂ <:+: k)
    (broken : ∃ k ∈ keys, ¬ IsClosed k) (ends : Ends rest) :
    expect? close₂ (takeKeys fuel (keys.flatMap (fun k => '.' :: keyText k) ++ rest)).2 = none := by
  induction keys generalizing fuel with
  | nil =>
      obtain ⟨k, member, -⟩ := broken
      cases member
  | cons k keys ih =>
      obtain ⟨⟨plain, open_⟩, later⟩ := List.forall_mem_cons.1 given
      rw [List.flatMap_cons, List.cons_append, List.cons_append, List.append_assoc]
      cases fuel with
      | zero => rfl
      | succ fuel =>
          by_cases closed : IsClosed k
          · -- The broken key comes later.
            have next : ∃ k ∈ keys, ¬ IsClosed k := by
              obtain ⟨k', member, unclosed⟩ := broken
              rcases List.mem_cons.1 member with rfl | member
              · exact absurd closed unclosed
              · exact ⟨k', member, unclosed⟩
            rw [takeKeys, if_pos (by decide), takeKey?_keyText closed (endsSymbol_further ends)]
            exact ih fuel later next
          · by_cases empty : k = []
            · subst empty
              have none_ : takeKey? (keyText [] ++
                  (keys.flatMap (fun k => '.' :: keyText k) ++ rest)) = none :=
                takeKey?_further ends
              rw [takeKeys_of_takeKey?_eq_none none_]
              rfl
            · have bracket : ']' ∈ k := by
                by_contra outside
                exact closed ⟨empty, .inr outside⟩
              obtain ⟨before, behind, rfl, outside⟩ := List.eq_append_cons_of_mem bracket
              obtain ⟨b, end_, left⟩ := takeKeys_stuck fuel behind
                (keys.flatMap (fun k => '.' :: keyText k) ++ rest)
                fun inside => plain (by simp [inside])
              rw [takeKeys, if_pos (by decide), takeKey?_of_bracket outside]
              simp only [left]
              refine expect?_of_stuck fun inside => open_ ?_
              have part : behind <:+: before ++ ']' :: behind :=
                ⟨before ++ [']'], [], by simp⟩
              exact (inside.trans end_.isInfix).trans part

/-- A path alone between braces leaves what its keys leave. -/
theorem exists_readBody {first : List Char} (word : IsWord first) (keys : List (List Char))
    (rest : List Char) :
    ∃ piece, readBody (pathText (first :: keys) ++ '\x7d' :: rest) = some (piece,
      (takeKeys (keys.flatMap (fun k => '.' :: keyText k) ++ '\x7d' :: rest).length
        (keys.flatMap (fun k => '.' :: keyText k) ++ '\x7d' :: rest)).2) := by
  have ends : endsSymbol (keys.flatMap (fun k => '.' :: keyText k) ++ '\x7d' :: rest) = true :=
    endsSymbol_further (.closes .brace)
  rw [pathText_cons, List.append_assoc, readBody, word.skipSpace_append]
  simp only [takeSymbol?_append word ends, readParams_of_stops (stops_further keys rest),
    takePath?, takeKey?_word word ends, Option.map_some]
  exact ⟨_, rfl⟩

/-- What is not closed behind its body is no expression. -/
theorem readExpression_eq_none {piece : Piece} (symbol : cs.head?.any isSymbol = true)
    (body : readBody cs = some (piece, left)) (open_ : expect? close₂ left = none) :
    readExpression cs = none := by
  cases cs with
  | nil => cases symbol
  | cons c cs =>
      have dark : skipSpace (c :: cs) = c :: cs := skipSpace_cons (isSpace_of_isSymbol symbol)
      rw [readExpression]
      split
      · rfl
      · simp only [body, Option.bind_some, open_, Option.map_none, dark]
        split
        · next same =>
            obtain ⟨rfl, -⟩ := List.cons.inj same
            cases symbol
        · next same =>
            obtain ⟨rfl, -⟩ := List.cons.inj same
            cases symbol
        · rfl

/-- What conversion makes of a broken path is no expression. -/
theorem readExpression_of_broken {first : List Char} (word : IsWord first)
    (given : ∀ k ∈ keys, '[' ∉ k ∧ ¬ close₂ <:+: k) (broken : ∃ k ∈ keys, ¬ IsClosed k) :
    readExpression (pathText (first :: keys) ++ (closing ++ rest)) = none := by
  obtain ⟨piece, body⟩ := exists_readBody word keys ('\x7d' :: rest)
  refine readExpression_eq_none ?_ body
    (expect?_takeKeys_of_broken _ given broken (.closes .brace))
  cases first with
  | nil => exact absurd rfl word.some_
  | cons c first =>
      rw [pathText_cons]
      exact word.all c List.mem_cons_self

end Fleet.Template
