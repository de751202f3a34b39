/-
# A variable that stands alone

The check that a variable has a value and the writing of that value follow the same keys, but they
read them from different texts: the check from the path as it is given, the writing from the path as
conversion writes it for helpers. Both find the same value unless the variable has the name of a
helper, a key is `this`, or the path means something else between braces or is broken there; in
these cases `render_variable` says what is written instead.
-/

import Fleet.Proofs.Template.Path
import Fleet.Proofs.Template.Undefined

namespace Fleet.Template

open Braces

variable {vars : Vars} {scope v w : Json} {keys : List (List Char)} {cs body left : List Char}
  {e : Expression} {s : String}

/-! ## The two ways to a value -/

/-- What the check finds, helpers find. -/
theorem follow_of_lookup?_eq_some (found : lookup? v keys = some w) :
    follow (some v) (keys.map String.ofList) = .ok (some w) := by
  induction keys generalizing v with
  | nil => exact congrArg Except.ok found
  | cons key keys ih =>
      cases v with
      | obj members =>
          obtain ⟨next, member, later⟩ := Option.bind_eq_some_iff.1 found
          rw [List.map_cons, follow, member]
          exact ih later
      | arr items =>
          obtain ⟨index, number, found⟩ := Option.bind_eq_some_iff.1 found
          obtain ⟨next, item, later⟩ := Option.bind_eq_some_iff.1 found
          rw [List.map_cons, follow, String.toList_ofList, number]
          simp only [item]
          exact ih later
      | null | bool | int | float | str => cases found

/-! ## Templates of one variable -/

theorem eq_of_cutClosing? (cut : cutClosing? cs = some (body, left)) :
    cs = body ++ (closing ++ left) := by
  induction cs generalizing body with
  | nil => cases cut
  | cons c cs ih =>
      cases cs with
      | nil => cases cut
      | cons d cs =>
          rw [cutClosing?] at cut
          split at cut
          · next braces =>
              simp only [Bool.and_eq_true, beq_iff_eq] at braces
              obtain ⟨rfl, rfl⟩ := braces
              cases cut
              rfl
          · obtain ⟨⟨more, rest⟩, later, same⟩ := Option.map_eq_some_iff.1 cut
            obtain ⟨rfl, rfl⟩ := Prod.mk.inj same
            rw [ih later, List.cons_append]

/-- An expression ends at the first closing braces. -/
theorem closing_not_infix (cut : cutClosing? cs = some (body, left)) : ¬ closing <:+: body := by
  induction cs generalizing body with
  | nil => cases cut
  | cons c cs ih =>
      cases cs with
      | nil => cases cut
      | cons d cs =>
          rw [cutClosing?] at cut
          split at cut
          · cases cut
            exact fun inside => absurd inside.length_le (by decide)
          · next open_ =>
              obtain ⟨⟨more, rest⟩, later, same⟩ := Option.map_eq_some_iff.1 cut
              obtain ⟨rfl, rfl⟩ := Prod.mk.inj same
              intro inside
              rcases List.infix_cons_iff.1 inside with start | below
              · obtain ⟨behind, same⟩ := start
                obtain ⟨rfl, next⟩ := List.cons.inj same
                have text := eq_of_cutClosing? later
                rw [← next] at text
                obtain ⟨rfl, -⟩ := List.cons.inj text
                exact open_ rfl
              · exact ih later below

theorem closing_not_infix_cons {c : Char} (other : c ≠ '\x7d') (later : ¬ closing <:+: left) :
    ¬ closing <:+: c :: left := by
  intro inside
  rcases List.infix_cons_iff.1 inside with starts | below
  · exact other (List.cons_prefix_cons.1 starts).1.symm
  · exact later below

/-- A character that is no brace keeps apart what stands on its two sides. -/
theorem closing_not_infix_apart {c : Char} (other : c ≠ '\x7d') (open_ : ¬ closing <:+: cs)
    (later : ¬ closing <:+: left) : ¬ closing <:+: cs ++ c :: left := by
  induction cs with
  | nil => exact closing_not_infix_cons other later
  | cons d cs ih =>
      intro inside
      rcases List.infix_cons_iff.1 inside with starts | below
      · obtain ⟨first, starts⟩ := List.cons_prefix_cons.1 starts
        cases cs with
        | nil => exact other (List.cons_prefix_cons.1 starts).1.symm
        | cons e cs =>
            obtain ⟨second, -⟩ := List.cons_prefix_cons.1 starts
            exact open_ ⟨[], cs, by rw [← first, ← second]; rfl⟩
      · exact ih (fun inside => open_ (List.infix_cons_iff.2 (.inr inside))) below

/-- What stands before the first closing braces is an expression. -/
theorem cutClosing?_append (first : ¬ closing <:+: body ++ ['\x7d']) :
    cutClosing? (body ++ (closing ++ left)) = some (body, left) := by
  induction body with
  | nil => rfl
  | cons c body ih =>
      have later := ih fun inside => first (List.infix_cons_iff.2 (.inr inside))
      have other (d : Char) (tail : List Char) (next : ∃ more, body ++ ['\x7d'] = d :: more) :
          (c == '\x7d' && d == '\x7d') = false := by
        by_contra both
        simp only [Bool.not_eq_false, Bool.and_eq_true, beq_iff_eq] at both
        obtain ⟨rfl, rfl⟩ := both
        obtain ⟨more, next⟩ := next
        exact first ⟨[], more, by rw [List.cons_append, next]; rfl⟩
      cases body with
      | nil =>
          show cutClosing? (c :: '\x7d' :: '\x7d' :: left) = _
          rw [cutClosing?, other _ [] ⟨[], rfl⟩, if_neg Bool.false_ne_true]
          exact congrArg (Option.map _) later
      | cons d body =>
          show cutClosing? (c :: d :: (body ++ (closing ++ left))) = _
          rw [cutClosing?, other _ [] ⟨body ++ ['\x7d'], rfl⟩, if_neg Bool.false_ne_true]
          exact congrArg (Option.map _) later

/-- A template is cut into pieces in as many steps as it has characters, or in more. -/
theorem segmentsFrom_eq {fuel : Nat} (enough : cs.length ≤ fuel) :
    segmentsFrom fuel cs = segments cs := by
  unfold segments
  have both (n m : Nat) (cs : List Char) (enough : cs.length ≤ n) (least : cs.length ≤ m) :
      segmentsFrom n cs = segmentsFrom m cs := by
    induction n generalizing m cs with
    | zero =>
        obtain rfl := List.length_eq_zero_iff.1 (Nat.le_zero.1 enough)
        cases m <;> rfl
    | succ n ih =>
        cases cs with
        | nil => cases m <;> rfl
        | cons c cs =>
            cases m with
            | zero => cases least
            | succ m =>
                have enough : cs.length ≤ n := Nat.le_of_succ_le_succ enough
                have least : cs.length ≤ m := Nat.le_of_succ_le_succ least
                rw [segmentsFrom, segmentsFrom, ih m cs enough least]
                cases cut : cutClosing? (cs.drop 1) with
                | none => rfl
                | some found =>
                    obtain ⟨body, left⟩ := found
                    have whole := congrArg List.length (eq_of_cutClosing? cut)
                    simp only [List.length_append, List.length_drop] at whole
                    simp only [ih m left (by omega) (by omega)]
  exact both fuel cs.length cs enough (Nat.le_refl _)

/-- An expression ends at the first closing braces, and the template goes on behind them. -/
theorem segments_body (first : ¬ closing <:+: body ++ ['\x7d']) :
    segments (opening ++ (body ++ (closing ++ left))) = .body body :: segments left := by
  show segmentsFrom (_ + 1) ('\x7b' :: '\x7b' :: (body ++ (closing ++ left))) = _
  rw [segmentsFrom, if_pos (by rfl), List.drop_one, List.tail_cons, cutClosing?_append first]
  have behind : left <:+ '\x7b' :: (body ++ (closing ++ left)) :=
    ⟨'\x7b' :: (body ++ closing), by simp⟩
  exact congrArg (.body body :: ·) (segmentsFrom_eq behind.length_le)

theorem closing_not_infix_of_mem {fuel : Nat} (member : .body body ∈ segmentsFrom fuel cs) :
    ¬ closing <:+: body := by
  induction fuel generalizing cs with
  | zero => cases cs <;> simp [segmentsFrom] at member
  | succ fuel ih =>
      cases cs with
      | nil => simp [segmentsFrom] at member
      | cons c cs =>
          rw [segmentsFrom] at member
          split at member
          · split at member
            · next first left cut =>
                rcases List.mem_cons.1 member with same | later
                · cases same
                  exact closing_not_infix cut
                · exact ih later
            · rcases List.mem_singleton.1 member with ⟨⟩
          · exact ih (body_mem_consText.1 member)

/-- The first part between separators starts the text. -/
theorem headD_splitQuoted_isPrefix (separator : Char) (quote : Option Char) (part cs : List Char) :
    (splitQuoted separator quote part cs).headD [] <+: part.reverse ++ cs := by
  induction cs generalizing quote part with
  | nil =>
      rw [List.append_nil]
      cases quote <;> exact List.prefix_refl _
  | cons c cs ih =>
      have longer (quote : Option Char) :
          (splitQuoted separator quote (c :: part) cs).headD [] <+: part.reverse ++ c :: cs := by
        simpa using ih quote (c :: part)
      cases quote with
      | some q => exact longer _
      | none =>
          rw [splitQuoted]
          split
          · exact longer _
          · split
            · exact List.prefix_append _ _
            · exact longer _

theorem trim_isInfix (cs : List Char) : Text.trim cs <:+: cs :=
  (List.rdropWhile_prefix _ _).isInfix.trans (List.dropWhile_suffix _).isInfix

/-- The path that an expression without filters reads. -/
theorem exists_path_of_read {filters : List String}
    (read : Expression.read filters cs = .ok ⟨.path keys, []⟩) :
    ∃ text, text <:+: cs ∧ isPath text = true ∧ keys = Template.keys text := by
  obtain ⟨base, path, read⟩ := bind_eq_ok_iff.1 read
  obtain ⟨calls, -, same⟩ := bind_eq_ok_iff.1 read
  cases same
  refine ⟨_, (trim_isInfix _).trans (headD_splitQuoted_isPrefix '|' none [] cs).isInfix, ?_⟩
  unfold Expression.readBase at path
  split at path
  · cases path
  · split at path
    · cases path
    · split at path
      · next found =>
          cases path
          exact ⟨found, rfl⟩
      · cases path

/-- The keys of a variable that stands alone between braces. -/
theorem keys_of_alone (alone : segments cs = [.body body])
    (read : Expression.read Filter.names (Text.trim body) = .ok ⟨.path keys, []⟩) :
    ∃ first more, keys = first :: more ∧ IsWord first ∧
      ∀ k ∈ first :: more, '[' ∉ k ∧ ¬ close₂ <:+: k := by
  obtain ⟨text, part, path, rfl⟩ := exists_path_of_read read
  have open_ : ¬ closing <:+: body :=
    closing_not_infix_of_mem (alone.symm ▸ List.mem_singleton_self _ : .body body ∈ segments cs)
  obtain ⟨first, head, word⟩ := exists_head?_keys path
  obtain ⟨more, same⟩ := List.head?_eq_some_iff.1 head
  refine ⟨first, more, same, word, fun k member => ?_⟩
  obtain ⟨inside, plain⟩ := infix_of_mem_keys (same ▸ member)
  exact ⟨plain, fun braces => open_ (((braces.trans inside).trans part).trans (trim_isInfix body))⟩

/-- A variable that has a value is written as helpers write its path. -/
theorem renderChars_of_found (alone : segments cs = [.body body])
    (read : Expression.read Filter.names (Text.trim body) = .ok ⟨.path keys, []⟩)
    (found : (lookup? (.ofDict vars) keys).isSome) :
    renderChars vars cs =
      (Braces.render (.ofDict vars) (opening ++ (pathText keys ++ (closing ++ [])))).mapError
        .renderingFailed := by
  have member : .body body ∈ segments cs := alone.symm ▸ List.mem_singleton_self _
  have converted : convert Filter.names cs =
      .ok ⟨opening ++ (pathText keys ++ (closing ++ [])), [keys]⟩ := by
    rw [convert, alone, convertSegments, read]
    show Except.ok (Conversion.mk (opening ++ pathText keys ++ closing ++ []) _) = _
    simp only [List.append_assoc]
    rfl
  have known : ([keys].find? fun keys => (lookup? (.ofDict vars) keys).isNone) = none := by
    simpa using Option.isSome_iff_ne_none.1 found
  rw [renderChars, if_pos (hasOpening_of_mem member), converted]
  simp only [known]
  cases Braces.render (.ofDict vars) (opening ++ (pathText keys ++ (closing ++ []))) <;> rfl

/-! ## Between braces -/

theorem filter_map_ofList (keys : List (List Char)) :
    (keys.map String.ofList).filter (· ≠ "this") =
      (keys.filter (· ≠ "this".toList)).map String.ofList := by
  rw [List.filter_map]
  congr 1
  refine List.filter_congr fun k _ => ?_
  have same : String.ofList k = "this" ↔ k = "this".toList :=
    ⟨fun same => by rw [← same, String.toList_ofList], fun same => by rw [same]; rfl⟩
  simp only [Function.comp, ne_eq, same]

/-- A path that is read to its end writes the value of its keys but `this`, or calls a helper. -/
theorem render_writtenPath (path : IsWrittenPath keys) (other : keys ≠ ["else".toList]) :
    Braces.render scope (opening ++ (pathText keys ++ (closing ++ []))) =
      pieceText scope (.path (String.ofList (pathText keys))
        ((keys.filter (· ≠ "this".toList)).map String.ofList)) := by
  have writes : Writes scope (opening ++ (pathText keys ++ (closing ++ []))) _ :=
    writes_expression (readExpression_writtenPath path other) writes_nil
  rw [writes.render_eq, filter_map_ofList]
  generalize pieceText scope _ = result
  cases result with
  | error e => rfl
  | ok text => exact congrArg Except.ok (List.append_nil text)

/-- A value that is there is written. -/
theorem write_of_found (found : lookup? scope keys = some v) :
    (Expression.mk (.path keys) []).write scope = .ok (valueText v) := by
  show ((Expression.mk (.path keys) []).value scope).map valueText = _
  rw [Expression.value, Base.value, follow_of_lookup?_eq_some found]
  rfl

/-- A word is not empty and holds no bracket. -/
theorem closed_of_isWord {word : List Char} (symbol : IsWord word) : word ≠ [] ∧ ']' ∉ word :=
  ⟨symbol.some_, fun bracket => Bool.false_ne_true (symbol.all ']' bracket)⟩

theorem not_isClosed {k : List Char} (broken : k = [] ∨ ']' ∈ k) : ¬ IsClosed k := by
  rintro ⟨some_, plain | outside⟩
  · have bracket := broken.resolve_left some_
    have all := List.all_eq_true.1 (Bool.and_eq_true_iff.1 plain).1 ']' bracket
    cases all
  · exact outside (broken.resolve_left some_)

theorem render_of_not_readExpression {text : List Char}
    (none_ : readExpression (text ++ (closing ++ [])) = none) :
    Braces.render scope (opening ++ (text ++ (closing ++ []))) = .error .malformed := by
  have read : Braces.read? (opening ++ (text ++ (closing ++ []))) = none := by
    show readPieces (_ + 1) ('\x7b' :: '\x7b' :: (text ++ (closing ++ []))) = none
    rw [readPieces, if_neg (by decide), if_pos (by rfl), List.drop_one, List.tail_cons, none_]
  rw [Braces.render, read]

theorem isSome_lookup {α : Type} {table : List (String × α)} {name : String}
    (member : name ∈ table.map (·.1)) : (table.lookup name).isSome := by
  obtain ⟨entry, inside, rfl⟩ := List.mem_map.1 member
  exact List.lookup_isSome_iff.2 ⟨entry, inside, beq_self_eq_true _⟩

/-- A helper that stands alone does not look at the variables. -/
theorem evalAlone_of_mem {written : String} {keys : List String} (scope other : Json)
    (known : written ∈ helpers) :
    evalAlone scope written keys = evalAlone other written keys := by
  simp only [helpers, List.mem_append] at known
  unfold evalAlone
  rcases known with (filter | silent_) | demanding_
  · rw [if_pos (isSome_lookup filter), if_pos (isSome_lookup filter)]
  · obtain ⟨value, found⟩ := Option.isSome_iff_exists.1 (isSome_lookup silent_)
    rw [found]
  · rw [if_pos (List.contains_iff_mem.2 demanding_), if_pos (List.contains_iff_mem.2 demanding_)]

/-- A path that calls a helper has one key. -/
theorem exists_of_pathText_mem_helpers (path : IsWrittenPath keys)
    (known : String.ofList (pathText keys) ∈ helpers) :
    ∃ name ∈ helpers, keys = [name.toList] := by
  have single : ∀ name ∈ helpers, '.' ∉ name.toList := by decide
  have points := single _ known
  cases keys with
  | nil => exact path.elim
  | cons first keys =>
      rw [String.toList_ofList, pathText_cons] at points
      cases keys with
      | nil =>
          refine ⟨_, known, ?_⟩
          rw [String.toList_ofList, pathText_cons]
          simp
      | cons k keys => exact absurd (by simp) points

/-! ## What is written -/

section Alone

variable (alone : segments s.toList = [.body body])
  (read : Expression.read Filter.names (Text.trim body) = .ok ⟨.path keys, []⟩)

include alone read

/-- A variable alone that has a value is written as its path is written between braces. -/
theorem render_of_found (found : (lookup? (.ofDict vars) keys).isSome) :
    render vars s =
      ((Braces.render (.ofDict vars) (opening ++ (pathText keys ++ (closing ++ [])))).mapError
        .renderingFailed).map String.ofList :=
  congrArg (Except.map String.ofList) (renderChars_of_found alone read found)

/-- Keys that are not empty and hold no closing bracket are read to the end of their path. -/
theorem isWrittenPath_of_alone (closed : ∀ k ∈ keys, k ≠ [] ∧ ']' ∉ k) : IsWrittenPath keys := by
  obtain ⟨first, more, rfl, word, -⟩ := keys_of_alone alone read
  exact ⟨word, fun k member => ⟨(closed k (List.mem_cons_of_mem _ member)).1,
    .inr (closed k (List.mem_cons_of_mem _ member)).2⟩⟩

/-- A path that is read to its end and names no helper leads where its keys but `this` lead. -/
theorem render_of_closed (found : (lookup? (.ofDict vars) keys).isSome)
    (closed : ∀ k ∈ keys, k ≠ [] ∧ ']' ∉ k) (other : keys ≠ ["else".toList])
    (free : ∀ name ∈ helpers, keys ≠ [name.toList]) :
    render vars s = (((Expression.mk (.path (keys.filter (· ≠ "this".toList))) []).write
      (.ofDict vars)).mapError .renderingFailed).map String.ofList := by
  have path := isWrittenPath_of_alone alone read closed
  have variable_ : String.ofList (pathText keys) ∉ helpers := by
    intro known
    obtain ⟨name, member, same⟩ := exists_of_pathText_mem_helpers path known
    exact free name member same
  rw [render_of_found alone read found, render_writtenPath path other, pieceText_path variable_]

/-- A path with a broken key and the word `else` are not read. -/
theorem render_of_broken (found : (lookup? (.ofDict vars) keys).isSome)
    (broken : (∃ k ∈ keys, k = [] ∨ ']' ∈ k) ∨ keys = ["else".toList]) :
    render vars s = .error (.renderingFailed .malformed) := by
  have unread : readExpression (pathText keys ++ (closing ++ [])) = none := by
    rcases broken with ⟨k, member, broken⟩ | same
    · obtain ⟨first, more, rfl, word, given⟩ := keys_of_alone alone read
      have behind : k ∈ more := by
        rcases List.mem_cons.1 member with rfl | behind
        · exact absurd broken (not_or.2 (closed_of_isWord word))
        · exact behind
      exact readExpression_of_broken word
        (fun k member => given k (List.mem_cons_of_mem _ member)) ⟨k, behind, not_isClosed broken⟩
    · rw [same]
      rfl
  rw [render_of_found alone read found, render_of_not_readExpression unread]
  rfl

/-- A helper writes what it writes whatever value the variable of its name has. -/
theorem render_of_helper {name : String} {other : Vars} (member : name ∈ helpers)
    (same : keys = [name.toList]) (found : (lookup? (.ofDict vars) keys).isSome)
    (defined : (lookup? (.ofDict other) keys).isSome) : render other s = render vars s := by
  obtain ⟨first, more, rfl, word, -⟩ := keys_of_alone alone read
  have path : IsWrittenPath (first :: more) := by
    obtain ⟨rfl, rfl⟩ := List.cons.inj same
    exact ⟨word, nofun⟩
  have written : String.ofList (pathText (first :: more)) = name := by
    rw [same, pathText_cons, List.flatMap_nil, List.append_nil, String.ofList_toList]
  have else_ : first :: more ≠ ["else".toList] := by
    rw [same]
    intro equal
    have other : ∀ name ∈ helpers, name.toList ≠ "else".toList := by decide
    exact other name member (List.cons.inj equal).1
  rw [render_of_found alone read defined, render_of_found alone read found,
    render_writtenPath path else_, render_writtenPath path else_, pieceText, pieceText, written,
    evalAlone_of_mem (.ofDict other) (.ofDict vars) member]

end Alone

/-- Keys that stand between braces for the variable that they name. -/
structure IsOwn (keys : List (List Char)) : Prop where
  closed : ∀ k ∈ keys, k ≠ [] ∧ ']' ∉ k
  free : "this".toList ∉ keys
  other : keys ≠ ["else".toList]
  variable_ : ∀ name ∈ helpers, keys ≠ [name.toList]

/-- A variable alone that has a value is written as that value if its keys stand for it between
braces. A broken key and the word `else` fail the text. The name of a helper calls the helper,
whatever value the variable has. Other keys lead where they lead without `this`. -/
theorem render_variable (alone : segments s.toList = [.body body])
    (read : Expression.read Filter.names (Text.trim body) = .ok ⟨.path keys, []⟩)
    (found : lookup? (.ofDict vars) keys = some v) :
    (IsOwn keys → render vars s = .ok (String.ofList (valueText v))) ∧
      ((∃ k ∈ keys, k = [] ∨ ']' ∈ k) ∨ keys = ["else".toList] →
        render vars s = .error (.renderingFailed .malformed)) ∧
      ((∃ name ∈ helpers, keys = [name.toList]) → ∀ other : Vars,
        (lookup? (.ofDict other) keys).isSome → render other s = render vars s) ∧
      ((∀ k ∈ keys, k ≠ [] ∧ ']' ∉ k) → keys ≠ ["else".toList] →
        (∀ name ∈ helpers, keys ≠ [name.toList]) →
        render vars s = (((Expression.mk (.path (keys.filter (· ≠ "this".toList))) []).write
          (.ofDict vars)).mapError .renderingFailed).map String.ofList) := by
  have isSome : (lookup? (.ofDict vars) keys).isSome := found ▸ rfl
  refine ⟨fun own => ?_, render_of_broken alone read isSome, ?_,
    render_of_closed alone read isSome⟩
  · have kept : keys.filter (· ≠ "this".toList) = keys :=
      List.filter_eq_self.2 fun k member =>
        decide_eq_true fun same => own.free (same ▸ member)
    rw [render_of_closed alone read isSome own.closed own.other own.variable_, kept,
      write_of_found found]
    rfl
  · rintro ⟨name, member, same⟩ other defined
    exact render_of_helper alone read member same isSome defined

namespace Sample

/-- Variables that helpers find and variables that they do not. -/
def known : Vars := Dict.ofList [("upper", .str "x"),
  ("web", .obj [("", .int 1), ("a b", .arr [.int 7, .bool true]), ("this", .int 2)])]

end Sample

/-- A quoted key and an index lead to a value, which is written. An empty key breaks the text, the
name of a filter calls the filter, and `this` leads nowhere else. -/
theorem render_variable_sample :
    render Sample.known "\x7b\x7b web['a b'][0] \x7d\x7d" =
      .ok (String.ofList (valueText (.int 7))) ∧
    render Sample.known "\x7b\x7b web[''] \x7d\x7d" = .error (.renderingFailed .malformed) ∧
    (∀ other : Vars, (lookup? (.ofDict other) ["upper".toList]).isSome →
      render other "\x7b\x7b upper \x7d\x7d" = render Sample.known "\x7b\x7b upper \x7d\x7d") ∧
    render Sample.known "\x7b\x7b web.this \x7d\x7d" = .ok "[object]" := by
  refine ⟨?_, ?_, ?_, ?_⟩
  · have alone : segments "\x7b\x7b web['a b'][0] \x7d\x7d".toList =
        [.body " web['a b'][0] ".toList] := by decide +kernel
    have read : Expression.read Filter.names (Text.trim " web['a b'][0] ".toList) =
        .ok ⟨.path ["web".toList, "a b".toList, "0".toList], []⟩ := by decide +kernel
    have found : lookup? (.ofDict Sample.known) ["web".toList, "a b".toList, "0".toList] =
        some (.int 7) := by decide +kernel
    refine (render_variable alone read found).1 ⟨by decide, by decide, by decide, ?_⟩
    intro name _ same
    cases congrArg List.length same
  · have alone : segments "\x7b\x7b web[''] \x7d\x7d".toList = [.body " web[''] ".toList] := by
      decide +kernel
    have read : Expression.read Filter.names (Text.trim " web[''] ".toList) =
        .ok ⟨.path ["web".toList, []], []⟩ := by decide +kernel
    have found : lookup? (.ofDict Sample.known) ["web".toList, []] = some (.int 1) := by
      decide +kernel
    exact (render_variable alone read found).2.1 (.inl ⟨[], by decide, .inl rfl⟩)
  · have alone : segments "\x7b\x7b upper \x7d\x7d".toList = [.body " upper ".toList] := by
      decide +kernel
    have read : Expression.read Filter.names (Text.trim " upper ".toList) =
        .ok ⟨.path ["upper".toList], []⟩ := by decide +kernel
    have found : lookup? (.ofDict Sample.known) ["upper".toList] = some (.str "x") := by
      decide +kernel
    exact (render_variable alone read found).2.2.1 ⟨"upper", by decide, rfl⟩
  · have alone : segments "\x7b\x7b web.this \x7d\x7d".toList = [.body " web.this ".toList] := by
      decide +kernel
    have read : Expression.read Filter.names (Text.trim " web.this ".toList) =
        .ok ⟨.path ["web".toList, "this".toList], []⟩ := by decide +kernel
    have found : lookup? (.ofDict Sample.known) ["web".toList, "this".toList] = some (.int 2) := by
      decide +kernel
    refine ((render_variable alone read found).2.2.2 (by decide) (by decide) ?_).trans ?_
    · intro name _ same
      cases congrArg List.length same
    · decide +kernel

/-- The variable `upper` has a value, and `upper` alone between braces is the filter, applied to
nothing. -/
theorem variable_shadowed_by_filter :
    segments "\x7b\x7b upper \x7d\x7d".toList = [.body " upper ".toList] ∧
      Expression.read Filter.names (Text.trim " upper ".toList) =
        .ok ⟨.path ["upper".toList], []⟩ ∧
      lookup? (.ofDict Sample.known) ["upper".toList] = some (.str "x") ∧
      render Sample.known "\x7b\x7b upper \x7d\x7d" = .ok "" := by
  decide +kernel

end Fleet.Template
