/-
# The meaning of a template

An expression means the value of its base with its filters applied from left to right, each to the
value so far and its own arguments. Rendering a template writes what its parts mean, one after
another: the detour through helper calls in one another changes nothing, as long as each text keeps
to itself and each name is a variable and nothing else.
-/

import Fleet.Proofs.Template.Braces

namespace Fleet.Template

open Braces

variable {scope v : Json} {keys : List (List Char)} {calls : List Call} {c : Call} {p : Param}
  {e : Expression} {cs : List Char} {vars : Vars}

/-! ## Values -/

/-- A filter applied to a value and its own arguments. -/
def Call.applied (c : Call) (v : Json) : Except RenderError Json :=
  apply c.filter (v :: c.args.map Literal.value)

/-- Filters applied one after another; the first one that fails decides. -/
def applyAll : List Call → Json → Except RenderError Json
  | [], v => .ok v
  | c :: rest, v => c.applied v >>= applyAll rest

/-- The value of a base; a path that leads nowhere has the value null. -/
def Base.value (scope : Json) : Base → Except RenderError Json
  | .literal _ l => .ok l.value
  | .path keys => do return (← follow (some scope) (keys.map String.ofList)).getD .null

/-- The value of an expression. -/
def Expression.value (scope : Json) (e : Expression) : Except RenderError Json :=
  e.base.value scope >>= applyAll e.calls

/-- The text of an expression. A literal alone stands as it is written. -/
def Expression.write (scope : Json) (e : Expression) : Except RenderError (List Char) :=
  match e.base, e.calls with
  | .literal written l, [] => .ok (plainText written l)
  | _, _ => (e.value scope).map valueText

/-- The text of a piece of a template, once all its expressions can be read. -/
def Segment.write (scope : Json) : Segment → Except RenderError (List Char)
  | .text cs => .ok cs
  | .body cs =>
    match Expression.read Filter.names (Text.trim cs) with
    | .ok e => e.write scope
    | .error _ => .ok []

/-! ## Plain templates -/

/-- The names that call a helper where they stand alone. -/
def helpers : List String := Filter.names ++ silent.map (·.1) ++ demanding

/-- A base that is read back as an argument. -/
def Base.IsPlain : Base → Prop
  | .literal _ l => l.IsPlain
  | .path keys => IsPlainPath keys

/-- An expression that is read back as it is meant. -/
inductive Expression.IsPlain : Expression → Prop
  | text {written : List Char} {l : Literal} (inert : Inert (plainText written l)) :
      Expression.IsPlain ⟨.literal written l, []⟩
  | path {keys : List (List Char)} (plain : IsPlainPath keys)
      (free : String.ofList (pathText keys) ∉ helpers) : Expression.IsPlain ⟨.path keys, []⟩
  | calls {base : Base} {calls : List Call} {c : Call} (plain : base.IsPlain)
      (each : ∀ c ∈ calls, c.IsPlain) (last : c.IsPlain) : Expression.IsPlain ⟨base, calls ++ [c]⟩

/-- A piece of a template that keeps to itself. -/
inductive Segment.IsPlain : Segment → Prop
  | text {cs : List Char} (inert : Inert cs) : Segment.IsPlain (.text cs)
  | body {cs : List Char} {e : Expression}
      (read : Expression.read Filter.names (Text.trim cs) = .ok e) (plain : e.IsPlain) :
      Segment.IsPlain (.body cs)

/-! ## Evaluation -/

/-- A base as an argument, as it is read. -/
def Base.param : Base → Param
  | .literal _ l => .value l.value
  | .path keys => .path (keys.map String.ofList)

theorem evalAll_values (values : List Json) :
    evalAll scope (values.map .value) = .ok values := by
  induction values with
  | nil => rfl
  | cons v values ih =>
      rw [List.map_cons, evalAll, ih]
      rfl

theorem evalAll_params :
    evalAll scope (c.params p) = (eval scope p).map (· :: c.args.map Literal.value) := by
  have values : (c.args.map fun a => Param.value a.value) =
      (c.args.map Literal.value).map .value := List.map_map.symm
  rw [Call.params, evalAll, values, evalAll_values]
  cases eval scope p <;> rfl

/-- A call around an argument applies the filter to the value of the argument. -/
theorem eval_nestedParam : eval scope (nestedParam p c) = eval scope p >>= c.applied := by
  rw [nestedParam, eval, evalAll_params]
  cases eval scope p <;> rfl

theorem eval_foldl_nestedParam :
    eval scope (calls.foldl nestedParam p) = eval scope p >>= applyAll calls := by
  induction calls generalizing p with
  | nil =>
      rw [List.foldl_nil]
      cases eval scope p <;> rfl
  | cons c calls ih =>
      rw [List.foldl_cons, ih, eval_nestedParam]
      cases eval scope p <;> rfl

theorem eval_param (base : Base) : eval scope base.param = base.value scope := by
  cases base with
  | literal written l => rw [Base.param, eval]; rfl
  | path keys => rw [Base.param, eval]; rfl

theorem reads_argument {base : Base} (plain : base.IsPlain) : Reads base.argument base.param := by
  cases base with
  | literal written l => exact reads_literal plain
  | path keys => exact reads_path plain

/-! ## What expressions write -/

theorem lookup_eq_none {α : Type} {table : List (String × α)} {name : String}
    (other : name ∉ table.map (·.1)) : table.lookup name = none :=
  List.lookup_eq_none_iff.2 fun _ member =>
    bne_iff_ne.2 fun same => other (List.mem_map.2 ⟨_, member, same.symm⟩)

/-- A name that calls no helper is a variable. -/
theorem evalAlone_of_not_mem {written : String} {keys : List String} (free : written ∉ helpers) :
    evalAlone scope written keys = do return (← follow (some scope) keys).getD .null := by
  simp only [helpers, List.mem_append, not_or] at free
  obtain ⟨⟨filter, noSilent⟩, noDemanding⟩ := free
  have contains : demanding.contains written = false := by simpa using noDemanding
  rw [evalAlone, lookup_eq_none filter, lookup_eq_none noSilent, contains]
  rfl

theorem Expression.text_of_calls (some_ : e.calls ≠ []) :
    e.text = opening ++ callsText e.base.argument e.calls ++ closing := by
  unfold Expression.text
  split
  · contradiction
  · rfl

theorem Expression.write_of_calls (some_ : e.calls ≠ []) :
    e.write scope = (e.value scope).map valueText := by
  unfold Expression.write
  split
  · contradiction
  · rfl

theorem pieceText_call :
    pieceText scope (.call c.filter (c.params p)) =
      (eval scope (nestedParam p c)).map valueText := by
  rw [pieceText, nestedParam, eval, ← bind_pure_eq_map, bind_assoc]

/-- A path that calls no helper writes the value that it leads to. -/
theorem pieceText_path {written : String} (free : written ∉ helpers) :
    pieceText scope (.path written (keys.map String.ofList)) =
      (Expression.mk (.path keys) []).write scope := by
  rw [pieceText, evalAlone_of_not_mem free, bind_pure_eq_map]
  show _ = ((Expression.mk (.path keys) []).value scope).map valueText
  rw [Expression.value, Base.value]
  cases follow (some scope) (keys.map String.ofList) <;> rfl

/-- What conversion makes of an expression writes the text of the expression. -/
theorem writes_text {rest : List Char} {result : Except RenderError (List Char)} (plain : e.IsPlain)
    (later : Writes scope rest result) :
    Writes scope (e.text ++ rest) (do
      let first ← e.write scope
      let more ← result
      return first ++ more) := by
  cases plain with
  | @text written l inert =>
      have writes : Writes scope (plainText written l ++ rest) _ := writes_inert inert later
      cases result <;> exact writes
  | @path keys plain free =>
      have writes : Writes scope (opening ++ (pathText keys ++ (closing ++ rest))) _ :=
        writes_expression (readExpression_pathText plain) later
      rw [pieceText_path free] at writes
      show Writes scope (opening ++ pathText keys ++ closing ++ rest) _
      rw [List.append_assoc, List.append_assoc]
      exact writes
  | @calls base calls c plain each last =>
      have some_ : calls ++ [c] ≠ [] := List.concat_ne_nil c calls
      have reads := reads_foldl_nestedText each (reads_argument plain)
      have writes : Writes scope (opening ++ (callText c (calls.foldl nestedText base.argument) ++
          (closing ++ rest))) _ :=
        writes_expression (readExpression_callText last reads) later
      have value : pieceText scope (.call c.filter
          (c.params (calls.foldl nestedParam base.param))) =
            (Expression.mk base (calls ++ [c])).write scope := by
        rw [pieceText_call, Expression.write_of_calls some_, Expression.value, ← eval_param,
          ← eval_foldl_nestedParam, List.foldl_concat]
      rw [value] at writes
      rw [Expression.text_of_calls some_, callsText_concat, List.append_assoc, List.append_assoc]
      exact writes

/-! ## Templates -/

variable {parts : List Segment}

/-- What a template writes once all its expressions can be read. -/
def writeAll (scope : Json) : List Segment → Except RenderError (List Char) :=
  together (Segment.write scope)

theorem writeAll_text :
    writeAll scope (.text cs :: parts) = (writeAll scope parts).map (cs ++ ·) := by
  rw [writeAll, together_cons, ← bind_pure_eq_map]
  rfl

theorem writeAll_consText {d : Char} :
    writeAll scope (consText d parts) = (writeAll scope parts).map (d :: ·) := by
  cases parts with
  | nil => rfl
  | cons part parts =>
      cases part with
      | text cs =>
          rw [consText, writeAll_text, writeAll_text]
          cases writeAll scope parts <;> rfl
      | body cs => exact writeAll_text

/-- Each variable to which no `default` is applied has a value. -/
def IsSupplied (scope : Json) (parts : List Segment) : Prop :=
  ∀ body e keys, .body body ∈ parts → Expression.read Filter.names (Text.trim body) = .ok e →
    e.required? = some keys → (lookup? scope keys).isSome

theorem IsSupplied.of_cons {part : Segment} (supplied : IsSupplied scope (part :: parts)) :
    IsSupplied scope parts :=
  fun body e keys member => supplied body e keys (List.mem_cons_of_mem _ member)

/-- Plain parts are converted to a text that writes what they mean, and the variables that it needs
are those that have to be supplied. -/
theorem exists_writes (plain : ∀ p ∈ parts, p.IsPlain) (supplied : IsSupplied scope parts) :
    ∃ conversion, convertSegments Filter.names parts = .ok conversion ∧
      Writes scope conversion.text (writeAll scope parts) ∧
      ∀ keys ∈ conversion.required, (lookup? scope keys).isSome := by
  induction parts with
  | nil => exact ⟨⟨[], []⟩, rfl, writes_nil, nofun⟩
  | cons part parts ih =>
      obtain ⟨first, later⟩ := List.forall_mem_cons.1 plain
      obtain ⟨conversion, converted, writes, resolved⟩ := ih later supplied.of_cons
      cases first with
      | @text cs inert =>
          refine ⟨⟨cs ++ conversion.text, conversion.required⟩, ?_, ?_, resolved⟩
          · rw [convertSegments, converted]
            rfl
          · rw [writeAll_text]
            exact writes_inert inert writes
      | @body cs e read readable =>
          refine ⟨⟨e.text ++ conversion.text, e.required?.toList ++ conversion.required⟩, ?_, ?_,
            fun keys member => ?_⟩
          · rw [convertSegments, read, converted]
            rfl
          · have write : (Segment.body cs).write scope = e.write scope := by
              rw [Segment.write, read]
            rw [writeAll, together_cons, write]
            exact writes_text readable writes
          · rcases List.mem_append.1 member with own | later
            · exact supplied cs e keys List.mem_cons_self read (Option.mem_toList.1 own)
            · exact resolved keys later

/-- A text in which no braces open is one piece. -/
theorem writeAll_segmentsFrom {fuel : Nat} (closed : hasOpening cs = false) :
    writeAll scope (segmentsFrom fuel cs) = .ok cs := by
  induction fuel generalizing cs with
  | zero =>
      cases cs with
      | nil => rfl
      | cons d cs => exact writeAll_text.trans (congrArg Except.ok (List.append_nil _))
  | succ fuel ih =>
      cases cs with
      | nil => rfl
      | cons d cs =>
          obtain ⟨here, later⟩ := Bool.or_eq_false_iff.1 closed
          rw [segmentsFrom, here, if_neg Bool.false_ne_true, writeAll_consText, ih later]
          rfl

/-- A plain template whose variables have values writes what its parts mean. -/
theorem renderChars_of_plain (plain : ∀ p ∈ segments cs, p.IsPlain)
    (supplied : IsSupplied (.ofDict vars) (segments cs)) :
    renderChars vars cs = (writeAll (.ofDict vars) (segments cs)).mapError .renderingFailed := by
  rw [renderChars]
  split
  · obtain ⟨conversion, converted, writes, resolved⟩ := exists_writes plain supplied
    have converted : convert Filter.names cs = .ok conversion := converted
    have none_ : (conversion.required.find? fun keys =>
        (lookup? (.ofDict vars) keys).isNone) = none :=
      List.find?_eq_none.2 fun keys member none_ =>
        Option.isSome_iff_ne_none.1 (resolved keys member) (Option.isNone_iff_eq_none.1 none_)
    simp only [converted, none_, writes.render_eq]
    cases writeAll (.ofDict vars) (segments cs) <;> rfl
  · next closed =>
      rw [segments, writeAll_segmentsFrom (Bool.not_eq_true _ ▸ closed)]
      rfl

example : renderChars ∅ "<\x7b\x7b 'a|b' | replace('|', ', ') | upper \x7d\x7d>".toList =
    .ok "<A, B>".toList := by
  decide +kernel

end Fleet.Template
