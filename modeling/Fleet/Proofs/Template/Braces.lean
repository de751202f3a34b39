/-
# Helper calls as they are written

A chain of calls is written inside out, and it is read back as the helpers in one another. A path
alone between braces is read as that path. A template of inert texts and such expressions is read
piece by piece, so what it writes is what its parts write, one after another.
-/

import Fleet.Proofs.Except
import Fleet.Proofs.Template.Argument
import Fleet.Proofs.Template.Pieces
import Fleet.Template.Render
import Mathlib.Data.List.Forall2

namespace Fleet.Template

open Braces

/-! ## Literals and calls as arguments -/

/-- The value of a literal as an argument. -/
def Literal.value : Literal → Json
  | .text inner => .str (String.ofList inner)
  | .bool b => .bool b
  | .number written => (Json.read? written).getD .null

/-- Whether a literal is read back as its value: a number has to be one in JSON. -/
def Literal.IsPlain : Literal → Prop
  | .number written => takeNumber? written = some (written, []) ∧ (Json.read? written).isSome
  | _ => True

/-- The arguments of a helper that stands for a call. -/
def Call.params (c : Call) (p : Param) : List Param := p :: c.args.map fun a => .value a.value

/-- A call of a known filter whose arguments are all read back. -/
structure Call.IsPlain (c : Call) : Prop where
  known : c.filter ∈ Filter.names
  args : ∀ a ∈ c.args, a.IsPlain

/-- A call as an argument of the next one. -/
def nestedText (inner : List Char) (c : Call) : List Char := '(' :: callText c inner ++ [')']

/-- A call as an argument of the next one, as it is read. -/
def nestedParam (p : Param) (c : Call) : Param := .call c.filter (c.params p)

namespace Braces

variable {c : Char} {cs name inner rest more text : List Char} {keys : List (List Char)}
  {texts : List (List Char)} {params : List Param} {fuel : Nat} {p : Param} {l : Literal}
  {call : Call} {calls : List Call}

theorem Stops.skipSpace_eq (stops : Stops rest) : skipSpace rest = rest := by
  rcases stops with _ | ⟨_ | _⟩ <;> rfl

theorem readParams_of_stops (stops : Stops rest) : readParams fuel rest = ([], rest) := by
  cases fuel with
  | zero => rfl
  | succ fuel => rw [readParams, stops.skipSpace_eq, readParam_of_stops stops]

theorem readParams_flatMap (each : List.Forall₂ Reads texts params) (closes : Closes rest)
    (enough : 2 * (texts.flatMap (' ' :: ·)).length ≤ fuel) :
    readParams fuel (texts.flatMap (' ' :: ·) ++ rest) = (params, rest) := by
  induction each generalizing fuel with
  | nil => exact readParams_of_stops (.closes closes)
  | @cons text p texts params first _ ih =>
      rw [List.flatMap_cons, List.length_append, List.length_cons] at enough
      cases fuel with
      | zero => omega
      | succ fuel =>
          have ends : Ends (texts.flatMap (' ' :: ·) ++ rest) := by
            cases texts with
            | nil => exact .closes closes
            | cons text texts => exact .space
          have gap : skipSpace (' ' :: (text ++ (texts.flatMap (' ' :: ·) ++ rest))) =
              text ++ (texts.flatMap (' ' :: ·) ++ rest) := by
            obtain ⟨c, tail, rfl, dark⟩ := first.dark
            exact skipSpace_cons dark
          rw [List.flatMap_cons, List.append_assoc, List.cons_append, readParams, gap,
            first.read (by omega) ends]
          have later : readParams fuel (texts.flatMap (' ' :: ·) ++ rest) = (params, rest) :=
            ih (by omega)
          simp only [later]

theorem callText_eq : callText call inner =
    call.filter.toList ++ (inner :: call.args.map Literal.argument).flatMap (' ' :: ·) := by
  rw [callText, List.flatMap_cons, List.flatMap_map, List.append_assoc]

theorem reads_literal (plain : l.IsPlain) : Reads l.argument (.value l.value) := by
  cases l with
  | text inner => exact reads_text inner
  | bool b => exact reads_bool b
  | number written =>
      obtain ⟨whole, value⟩ := plain
      obtain ⟨v, value⟩ := Option.isSome_iff_exists.1 value
      rw [Literal.value, value]
      exact reads_number whole value

theorem isWord_of_mem_names {f : String} (known : f ∈ Filter.names) :
    IsWord f.toList ∧ f.toList ≠ "else".toList := by
  have each : ∀ f ∈ Filter.names, (f.toList ≠ [] ∧ f.toList.all isSymbol = true) ∧
      f.toList ≠ "else".toList := by
    decide
  obtain ⟨⟨some_, all⟩, other⟩ := each f known
  exact ⟨⟨some_, List.all_eq_true.1 all⟩, other⟩

theorem forall₂_reads (plain : call.IsPlain) (reads : Reads inner p) :
    List.Forall₂ Reads (inner :: call.args.map Literal.argument) (call.params p) := by
  refine .cons reads (List.forall₂_map_left_iff.2 (List.forall₂_map_right_iff.2 ?_))
  exact List.forall₂_same.2 fun a member => reads_literal (plain.args a member)

theorem IsWord.skipSpace_append (word : IsWord name) : skipSpace (name ++ rest) = name ++ rest := by
  cases name with
  | nil => exact absurd rfl word.some_
  | cons c tail => exact skipSpace_cons (isSpace_of_isSymbol (word.all c List.mem_cons_self))

/-- A call between parentheses is read as an argument. -/
theorem reads_nestedText (plain : call.IsPlain) (reads : Reads inner p) :
    Reads (nestedText inner call) (nestedParam p call) := by
  refine ⟨⟨_, _, rfl, rfl⟩, fun {fuel rest} enough ends => ?_⟩
  obtain ⟨word, -⟩ := isWord_of_mem_names plain.known
  rw [nestedText, callText_eq] at enough ⊢
  simp only [List.length_cons, List.length_append] at enough
  cases fuel with
  | zero => omega
  | succ fuel =>
      have open_ (cs : List Char) : isKeyword ('(' :: cs) = false :=
        isKeyword_cons_ne (by decide) (by decide)
      have literal (cs : List Char) : readLiteral ('(' :: cs) = .absent :=
        readLiteral_of_not_isSymbol (by decide) (by decide) rfl
      have closes : Closes (')' :: rest) := .parenthesis
      have read : readParams fuel ((inner :: call.args.map Literal.argument).flatMap (' ' :: ·) ++
          ')' :: rest) = (call.params p, ')' :: rest) :=
        readParams_flatMap (forall₂_reads plain reads) closes (by omega)
      simp only [List.cons_append, List.append_assoc, List.nil_append]
      rw [readParam.eq_def]
      simp only [open_, literal, Bool.false_eq_true, if_false, word.skipSpace_append]
      rw [takeSymbol?_append word rfl]
      simp only [read, (Stops.closes closes).skipSpace_eq, String.ofList_toList]
      rfl

/-- Calls put around one another are read as an argument. -/
theorem reads_foldl_nestedText (plain : ∀ c ∈ calls, c.IsPlain) (reads : Reads inner p) :
    Reads (calls.foldl nestedText inner) (calls.foldl nestedParam p) := by
  induction calls generalizing inner p with
  | nil => exact reads
  | cons c calls ih =>
      obtain ⟨first, later⟩ := List.forall_mem_cons.1 plain
      exact ih later (reads_nestedText first reads)

theorem callsText_concat :
    callsText inner (calls ++ [call]) = callText call (calls.foldl nestedText inner) := by
  induction calls generalizing inner with
  | nil => rfl
  | cons c calls ih =>
      rw [List.cons_append, callsText, ih]
      · rfl
      · simp

/-! ## Bodies -/

theorem readBody_callText (plain : call.IsPlain) (reads : Reads inner p) :
    readBody (callText call inner ++ '\x7d' :: rest) =
      some (.call call.filter (call.params p), '\x7d' :: rest) := by
  obtain ⟨word, -⟩ := isWord_of_mem_names plain.known
  have each := forall₂_reads plain reads
  rw [callText_eq, List.append_assoc, readBody, word.skipSpace_append]
  generalize inner :: call.args.map Literal.argument = texts at each
  have symbol : takeSymbol? (call.filter.toList ++ (texts.flatMap (' ' :: ·) ++ '\x7d' :: rest)) =
      some (call.filter.toList, texts.flatMap (' ' :: ·) ++ '\x7d' :: rest) := by
    refine takeSymbol?_append word ?_
    cases texts <;> rfl
  have read : readParams (2 * (texts.flatMap (' ' :: ·) ++ '\x7d' :: rest).length + 2)
      (texts.flatMap (' ' :: ·) ++ '\x7d' :: rest) = (call.params p, '\x7d' :: rest) :=
    readParams_flatMap each .brace (by rw [List.length_append]; omega)
  simp only [symbol, read, Call.params, String.ofList_toList]

/-- No argument follows the first key of a path. -/
theorem stops_further (keys : List (List Char)) (rest : List Char) :
    Stops (keys.flatMap (fun k => '.' :: keyText k) ++ '\x7d' :: rest) := by
  cases keys with
  | nil => exact .closes .brace
  | cons k keys => exact .point

/-- A path alone between braces is no helper. -/
theorem readBody_pathText (path : IsWrittenPath keys) :
    readBody (pathText keys ++ '\x7d' :: rest) =
      some (.path (String.ofList (pathText keys)) ((keys.map String.ofList).filter (· ≠ "this")),
        '\x7d' :: rest) := by
  cases keys with
  | nil => exact path.elim
  | cons first keys =>
      have taken : takePath? (pathText (first :: keys) ++ '\x7d' :: rest) =
          some (((first :: keys).map String.ofList).filter (· ≠ "this"), '\x7d' :: rest) :=
        path.takePath?_pathText (.closes .brace)
      have written : (pathText (first :: keys) ++ '\x7d' :: rest).take
          ((pathText (first :: keys) ++ '\x7d' :: rest).length - ('\x7d' :: rest).length) =
            pathText (first :: keys) :=
        List.take_left' (by rw [List.length_append, Nat.add_sub_cancel])
      have symbol : takeSymbol? (pathText (first :: keys) ++ '\x7d' :: rest) =
          some (first, keys.flatMap (fun k => '.' :: keyText k) ++ '\x7d' :: rest) := by
        rw [pathText_cons, List.append_assoc]
        exact takeSymbol?_append path.1 (endsSymbol_further (.closes .brace))
      have dark : skipSpace (pathText (first :: keys) ++ '\x7d' :: rest) =
          pathText (first :: keys) ++ '\x7d' :: rest := by
        rw [pathText_cons, List.append_assoc]
        exact path.1.skipSpace_append
      rw [readBody, dark]
      simp only [symbol, readParams_of_stops (stops_further keys rest), taken, written,
        Option.map_some]

/-! ## Expressions -/

theorem expect?_of_isSymbol (symbol : cs.head?.any isSymbol = true) :
    expect? close₂ cs = none := by
  cases cs with
  | nil => cases symbol
  | cons c cs =>
      have other : ('\x7d' == c) = false := by
        refine beq_eq_false_iff_ne.2 ?_
        rintro rfl
        cases symbol
      rw [expect?, skipSpace_cons (isSpace_of_isSymbol symbol), close₂, List.isPrefixOf_cons_cons,
        other]
      rfl

/-- A word that is not the one for the other branch of a block is not taken for it. -/
theorem isElse_word (word : IsWord name) (other : name ≠ "else".toList)
    (ends : endsSymbol rest = true) : isElse (name ++ rest) = false := by
  rw [isElse, word.skipSpace_append]
  split
  · next tail same =>
      cases name with
      | nil => exact absurd rfl word.some_
      | cons c name =>
          have symbol := word.all c List.mem_cons_self
          rw [(List.cons.inj same).1] at symbol
          cases symbol
  · have goes_on : ("else".toList.isPrefixOf (name ++ rest) &&
        endsSymbol ((name ++ rest).drop 4)) = false := by
      have taken : takeWord? "else" (name ++ rest) = none :=
        takeWord?_eq_none word ends (by decide) other
      by_contra both
      rw [takeWord?, if_pos (Bool.not_eq_false _ ▸ both)] at taken
      cases taken
    rcases Bool.and_eq_false_iff.1 goes_on with starts | stops
    · rw [starts, Bool.false_and]
    · rw [expect?_of_isSymbol (by simpa [endsSymbol] using stops)]
      exact Bool.and_false _

/-- What closes right behind its body is read as that body. -/
theorem readExpression_of_readBody {piece : Piece}
    (plain : isElse (text ++ (closing ++ rest)) = false)
    (body : readBody (text ++ (closing ++ rest)) = some (piece, closing ++ rest)) :
    readExpression (text ++ (closing ++ rest)) = some (piece, rest) := by
  rw [readExpression, plain, body]
  rfl

theorem readExpression_callText (plain : call.IsPlain) (reads : Reads inner p) :
    readExpression (callText call inner ++ (closing ++ rest)) =
      some (.call call.filter (call.params p), rest) := by
  obtain ⟨word, other⟩ := isWord_of_mem_names plain.known
  refine readExpression_of_readBody ?_ (readBody_callText plain reads)
  rw [callText_eq, List.append_assoc]
  exact isElse_word word other rfl

/-- Only a path that is the word for the other branch of a block is taken for it. -/
theorem isElse_pathText (path : IsWrittenPath keys) (other : keys ≠ ["else".toList]) :
    isElse (pathText keys ++ (closing ++ rest)) = false := by
  cases keys with
  | nil => exact path.elim
  | cons first keys =>
      rw [pathText_cons, List.append_assoc]
      by_cases same : first = "else".toList
      · cases keys with
        | nil => exact absurd (same ▸ rfl) other
        | cons k keys =>
            rw [same]
            rfl
      · exact isElse_word path.1 same (endsSymbol_further (.closes .brace))

theorem readExpression_writtenPath (path : IsWrittenPath keys) (other : keys ≠ ["else".toList]) :
    readExpression (pathText keys ++ (closing ++ rest)) =
      some (.path (String.ofList (pathText keys)) ((keys.map String.ofList).filter (· ≠ "this")),
        rest) :=
  readExpression_of_readBody (isElse_pathText path other) (readBody_pathText path)

theorem readExpression_pathText (plain : IsPlainPath keys) :
    readExpression (pathText keys ++ (closing ++ rest)) =
      some (.path (String.ofList (pathText keys)) (keys.map String.ofList), rest) := by
  have other : keys ≠ ["else".toList] := by
    rintro rfl
    exact plain.1.free (by decide)
  rw [readExpression_writtenPath plain.isWrittenPath other, plain.filter_keys]

/-! ## Pieces -/

variable {scope : Json} {piece : Piece} {pieces : List Piece}
  {result : Except RenderError (List Char)}

/-- The texts of some parts, one after another; the first part that fails decides. -/
def together {α : Type} (write : α → Except RenderError (List Char)) (parts : List α) :
    Except RenderError (List Char) := do
  return (← parts.mapM write).flatten

theorem together_cons {α : Type} {write : α → Except RenderError (List Char)} {part : α}
    {parts : List α} : together write (part :: parts) = do
      let first ← write part
      let later ← together write parts
      return first ++ later := by
  rw [together, List.mapM_cons]
  cases write part with
  | error e => rfl
  | ok first =>
      rw [together]
      cases parts.mapM write <;> rfl

/-- The text of pieces. -/
def textOf (scope : Json) : List Piece → Except RenderError (List Char) :=
  together (pieceText scope)

theorem textOf_consText :
    textOf scope (consText cs pieces) = (textOf scope pieces).map (cs ++ ·) := by
  have put (pieces : List Piece) :
      textOf scope (.text cs :: pieces) = (textOf scope pieces).map (cs ++ ·) := by
    rw [textOf, together_cons]
    cases textOf scope pieces <;> rfl
  cases pieces with
  | nil => exact put []
  | cons piece pieces =>
      cases piece with
      | text more =>
          rw [consText, textOf, together_cons, together_cons]
          cases together (pieceText scope) pieces with
          | error e => rfl
          | ok later => exact congrArg Except.ok (List.append_assoc cs more later)
      | path written keys => exact put _
      | call name params => exact put _

/-- A text of the language of helpers is read, and its pieces have this text. -/
def Writes (scope : Json) (cs : List Char) (result : Except RenderError (List Char)) : Prop :=
  ∀ fuel : Nat, cs.length ≤ fuel →
    ∃ pieces, readPieces fuel cs = some pieces ∧ textOf scope pieces = result

theorem Writes.render_eq (writes : Writes scope cs result) : render scope cs = result := by
  obtain ⟨pieces, read, text⟩ := writes cs.length (Nat.le_refl _)
  rw [render, read?, read]
  exact text

theorem writes_nil : Writes scope [] (.ok []) := fun fuel _ => ⟨[], by cases fuel <;> rfl, rfl⟩

/-- An expression writes the text of the piece that it is read as. -/
theorem writes_expression (read : readExpression (text ++ (closing ++ rest)) = some (piece, rest))
    (later : Writes scope rest result) :
    Writes scope (opening ++ (text ++ (closing ++ rest))) (do
      let first ← pieceText scope piece
      let more ← result
      return first ++ more) := by
  intro fuel enough
  cases fuel with
  | zero => cases enough
  | succ fuel =>
      have enough_ : rest.length ≤ fuel := by
        simp only [List.length_append, opening, List.length_cons] at enough
        omega
      obtain ⟨pieces, rest_, text_⟩ := later fuel enough_
      refine ⟨piece :: pieces, ?_, ?_⟩
      · show readPieces (fuel + 1) ('\x7b' :: '\x7b' :: (text ++ (closing ++ rest))) = _
        rw [readPieces, if_neg (by decide), if_pos (by rfl), List.drop_one, List.tail_cons, read]
        simp only [rest_, Option.map_some]
      · rw [textOf, together_cons, ← textOf, text_]

/-! ## Text -/

/-- Braces that open later keep their meaning behind an inert text. -/
theorem writes_inert (inert : Inert cs) (later : Writes scope rest result) :
    Writes scope (cs ++ rest) (result.map (cs ++ ·)) := by
  intro fuel enough
  obtain ⟨pieces, read, text⟩ := later fuel ((List.suffix_append cs rest).length_le.trans enough)
  by_cases empty : cs = []
  · subst empty
    refine ⟨pieces, read, ?_⟩
    cases result <;> exact text
  · refine ⟨consText cs pieces, ?_, ?_⟩
    · rw [readPieces_apart (.of_inert inert) empty enough, read]
      rfl
    · rw [textOf_consText, text]

end Braces

end Fleet.Template
