/-
# Two texts of a value

A value has a text where an expression writes it and a text where a filter looks at it. The two are
the same for strings, null, booleans and numbers and for lists of at most one item, that is again
such a list, a boolean or a number; they differ for every other list and for every mapping
(`render_eq_toText_iff`). A written list has a blank behind each comma and its strings have no
quotes, and the text of a filter is JSON.
-/

import Fleet.Proofs.Json.Reader
import Fleet.Proofs.Template.Chain

namespace Fleet.Template

open Braces

variable {vars : Vars} {v : Json} {s a rest left right : List Char}

/-- A value that is written in a list as JSON writes it. -/
inductive IsUniform : Json → Prop
  | bool {b : Bool} : IsUniform (.bool b)
  | int {n : Int} : IsUniform (.int n)
  | float {bits : UInt64} : IsUniform (.float bits)
  | nil : IsUniform (.arr [])
  | single {v : Json} (uniform : IsUniform v) : IsUniform (.arr [v])

/-- A value with one text. -/
inductive HasOneText : Json → Prop
  | null : HasOneText .null
  | str {s : String} : HasOneText (.str s)
  | uniform {v : Json} (uniform : IsUniform v) : HasOneText v

/-! ## Texts of values -/

theorem IsUniform.valueText_eq (uniform : IsUniform v) : valueText v = v.printChars := by
  induction uniform with
  | bool => rfl
  | int => rfl
  | float => rfl
  | nil => rfl
  | @single v _ ih =>
      show '[' :: (valueText v ++ [']']) = '[' :: (v.printChars ++ [']'])
      rw [ih]

theorem toText_of_isUniform (uniform : IsUniform v) : toText v = v.print := by
  cases uniform <;> rfl

/-- A quote or a backslash. -/
def IsMark (c : Char) : Prop := c = '"' ∨ c = '\\'

theorem escape_of_isMark {c : Char} (mark : IsMark c) : Json.escape c = ['\\', c] := by
  rcases mark with rfl | rfl <;> rfl

/-- A text meets its escaped form behind a mark only if it has been a mark all along, and then what
follows starts with a mark too: each mark puts two in its place. -/
theorem isMark_of_append (some_ : a ≠ []) (marks : ∀ c ∈ a, IsMark c)
    (same : s ++ left = a ++ (s.flatMap Json.escape ++ '"' :: right)) :
    ∃ c tail, left = c :: tail ∧ IsMark c := by
  induction s generalizing a with
  | nil =>
      obtain ⟨c, tail, rfl⟩ := List.exists_cons_of_ne_nil some_
      exact ⟨c, _, same, marks c List.mem_cons_self⟩
  | cons c s ih =>
      obtain ⟨d, tail, rfl⟩ := List.exists_cons_of_ne_nil some_
      obtain ⟨mark, later⟩ := List.forall_mem_cons.1 marks
      rw [List.cons_append, List.cons_append] at same
      obtain ⟨rfl, behind⟩ := List.cons.inj same
      rw [List.flatMap_cons, escape_of_isMark mark, List.append_assoc,
        ← List.append_assoc] at behind
      apply ih (a := tail ++ ['\\', c]) _ _ behind
      · simp
      · rw [List.forall_mem_append]
        exact ⟨later, List.forall_mem_cons.2 ⟨.inr rfl, List.forall_mem_singleton.2 mark⟩⟩

/-- What follows an item of a list. -/
def EndsItem (rest : List Char) : Prop := ∃ c tail, rest = c :: tail ∧ (c = ',' ∨ c = ']')

theorem isUniform_of_append : ∀ {v : Json} {left right : List Char}, EndsItem left →
    valueText v ++ left = v.printChars ++ right → IsUniform v ∧ left = right
  | .null, left, right, ends, same => by
      obtain ⟨c, tail, rfl, mark⟩ := ends
      obtain ⟨rfl, -⟩ := List.cons.inj same
      rcases mark with other | other <;> exact absurd other (by decide)
  | .bool _, _, _, _, same => ⟨.bool, List.append_cancel_left same⟩
  | .int _, _, _, _, same => ⟨.int, List.append_cancel_left same⟩
  | .float _, _, _, _, same => ⟨.float, List.append_cancel_left same⟩
  | .str s, left, right, ends, same => by
      have behind : s.toList ++ left =
          ['"'] ++ (s.toList.flatMap Json.escape ++ '"' :: right) := by
        have text : valueText (.str s) = s.toList := rfl
        have quoted : (Json.str s).printChars =
            '"' :: (s.toList.flatMap Json.escape ++ ['"']) := rfl
        rw [text, quoted] at same
        simpa using same
      obtain ⟨c, tail, rfl, mark⟩ := isMark_of_append (List.cons_ne_nil _ _)
        (List.forall_mem_singleton.2 (.inl rfl)) behind
      obtain ⟨d, tail', equal, closes⟩ := ends
      obtain ⟨rfl, -⟩ := List.cons.inj equal
      rcases mark with rfl | rfl <;> rcases closes with other | other <;>
        exact absurd other (by decide)
  | .obj _, _, _, _, same => absurd (List.cons.inj same).1 (by decide)
  | .arr [], _, _, _, same => ⟨.nil, List.append_cancel_left same⟩
  | .arr [v], left, right, _, same => by
      have inside : valueText v ++ (']' :: left) = v.printChars ++ (']' :: right) := by
        have text : valueText (.arr [v]) = '[' :: (valueText v ++ [']']) := rfl
        have printed : (Json.arr [v]).printChars = '[' :: (v.printChars ++ [']']) := rfl
        rw [text, printed] at same
        simpa using same
      obtain ⟨uniform, same⟩ := isUniform_of_append ⟨_, _, rfl, .inr rfl⟩ inside
      exact ⟨.single uniform, (List.cons.inj same).2⟩
  | .arr (v :: w :: items), left, right, _, same => by
      obtain ⟨c, tail, value, dark, -⟩ := Json.exists_printChars_eq w
      obtain ⟨more, join⟩ := Json.exists_join_eq c tail (Json.printItems items)
      have printed : (Json.arr (v :: w :: items)).printChars =
          '[' :: (v.printChars ++ (',' :: c :: more) ++ [']']) := by
        show '[' :: (Text.join [','] (Json.printItems (v :: w :: items)) ++ [']']) = _
        rw [Json.join_printItems, Json.printItems, value, join]
      have text : valueText (.arr (v :: w :: items)) = '[' :: (valueText v ++ [',', ' '] ++
          Text.join [',', ' '] (valueText w :: valueTexts items) ++ [']']) := by
        show '[' :: (Text.join [',', ' '] (valueText v :: valueText w :: valueTexts items) ++
          [']']) = _
        rw [Text.join_cons_cons]
      have inside : valueText v ++ (',' :: ' ' :: (Text.join [',', ' ']
          (valueText w :: valueTexts items) ++ (']' :: left))) =
          v.printChars ++ (',' :: c :: (more ++ (']' :: right))) := by
        rw [text, printed] at same
        simpa using same
      -- a blank stands behind the comma on one side, and a value on the other
      obtain ⟨-, behind⟩ := isUniform_of_append ⟨_, _, rfl, .inl rfl⟩ inside
      obtain ⟨rfl, -⟩ := List.cons.inj (List.cons.inj behind).2
      cases dark

/-- The two texts of a value are the same exactly if it has one. -/
theorem valueText_eq_toText_iff : valueText v = (toText v).toList ↔ HasOneText v := by
  constructor
  · have uniform (printed : toText v = v.print) (same : valueText v = (toText v).toList) :
        HasOneText v := by
      rw [printed, Json.print, String.toList_ofList] at same
      have ends : EndsItem [','] := ⟨',', [], rfl, .inl rfl⟩
      exact .uniform (isUniform_of_append ends (congrArg (· ++ [',']) same)).1
    intro same
    cases v with
    | null => exact .null
    | str s => exact .str
    | bool b => exact uniform rfl same
    | int n => exact uniform rfl same
    | float bits => exact uniform rfl same
    | arr items => exact uniform rfl same
    | obj members => exact uniform rfl same
  · intro one
    cases one with
    | null => rfl
    | str => rfl
    | uniform uniform =>
        rw [toText_of_isUniform uniform, Json.print, String.toList_ofList, uniform.valueText_eq]

/-! ## Texts in templates -/

/-- Nothing changes where each occurrence of a pattern is replaced by the pattern. -/
theorem replaceFrom_self {pattern : List Char} (some_ : pattern ≠ []) (skip : Nat)
    (cs : List Char) : Text.replaceFrom pattern pattern skip cs = cs.drop skip := by
  induction cs generalizing skip with
  | nil => cases skip <;> rfl
  | cons c cs ih =>
      cases skip with
      | succ skip => exact ih skip
      | zero =>
          rw [Text.replaceFrom, List.drop_zero, ih, ih]
          split
          · next starts =>
              obtain ⟨d, tail, rfl⟩ := List.exists_cons_of_ne_nil some_
              obtain ⟨behind, same⟩ := List.isPrefixOf_iff_prefix.1 starts
              rw [List.cons_append] at same
              obtain ⟨rfl, rfl⟩ := List.cons.inj same
              rw [List.length_cons, Nat.add_sub_cancel, List.drop_left, List.cons_append]
          · rw [List.drop_zero]

theorem stands_x (bound : vars.get? "x" = some v) : Base.Stands vars (.path [['x']]) v := by
  have name : IsIdentifier ['x'] := ⟨rfl, List.all_eq_true.1 rfl⟩
  have found : lookup? (.ofDict vars) [['x']] = some v := by
    show (vars.get? "x" >>= fun next => lookup? next []) = some v
    rw [bound]
    rfl
  have stands : Base.Stands vars (.path (keys (['x'] ++ []))) v :=
    .path name (by decide) .nil found
  rwa [Leads.nil.keys_eq name] at stands

/-- The variable `x` with filters writes what they make of its value. -/
theorem render_x {text : String} {body : List Char} {calls : List Call} {w : Json}
    (whole : text = String.ofList (opening ++ (body ++ closing)))
    (first : ¬ closing <:+: body ++ ['\x7d'])
    (read : Expression.read Filter.names (Text.trim body) = .ok ⟨.path [['x']], calls⟩)
    (each : ∀ c ∈ calls, c.IsPlain) (bound : vars.get? "x" = some v)
    (applied : applyAll calls v = .ok w) :
    render vars text = .ok (String.ofList (valueText w)) := by
  have stands := stands_x bound
  have plain : Expression.IsPlain ⟨.path [['x']], calls⟩ := by
    obtain rfl | ⟨before, c, rfl⟩ := List.eq_nil_or_concat' calls
    · exact .path stands.isPlain (by decide)
    · exact .calls stands.isPlain (fun c member => each c (List.mem_append_left _ member))
        (each c (by simp))
  have write : (Expression.mk (.path [['x']]) calls).write (.ofDict vars) = .ok (valueText w) := by
    show ((Expression.mk (.path [['x']]) calls).value (.ofDict vars)).map valueText = _
    rw [Expression.value, stands.value_eq]
    exact congrArg (Except.map valueText) applied
  rw [whole, render_body first read plain fun keys => stands.isSome_of_required, write]
  rfl

theorem applyAll_replace (v : Json) :
    applyAll [⟨"replace", [.text ['-'], .text ['-']]⟩] v = .ok (.str (toText v)) := by
  have kept : Text.replace ['-'] ['-'] (toText v).toList = (toText v).toList :=
    replaceFrom_self (List.cons_ne_nil _ _) 0 _
  show Except.ok (Json.str (String.ofList (Text.replace ['-'] ['-'] (toText v).toList))) = _
  rw [kept, String.ofList_toList]

theorem applyAll_join (v : Json) : applyAll [⟨"join", []⟩] (.arr [v]) = .ok (.str (toText v)) := by
  show Except.ok (Json.str (String.ofList (toText v).toList)) = _
  rw [String.ofList_toList]

/-- A variable alone is written with the one text, and filters look at the other: one that changes
nothing, and one that joins the only item of a list. The two are the same for the values that have
one text, and for no others. -/
theorem render_eq_toText_iff (bound : vars.get? "x" = some v) :
    render vars "\x7b\x7b x \x7d\x7d" = .ok (String.ofList (valueText v)) ∧
    render vars "\x7b\x7b x | replace('-', '-') \x7d\x7d" = .ok (toText v) ∧
    render (vars.insert "x" (.arr [v])) "\x7b\x7b x | join \x7d\x7d" = .ok (toText v) ∧
    (render vars "\x7b\x7b x \x7d\x7d" = .ok (toText v) ↔ HasOneText v) := by
  have alone : Expression.read Filter.names (Text.trim " x ".toList) =
      .ok ⟨.path [['x']], []⟩ := by decide +kernel
  have written : render vars "\x7b\x7b x \x7d\x7d" = .ok (String.ofList (valueText v)) :=
    render_x (by decide +kernel) (by decide +kernel) alone nofun bound rfl
  refine ⟨written, ?_, ?_, ?_⟩
  · have read : Expression.read Filter.names (Text.trim " x | replace('-', '-') ".toList) =
        .ok ⟨.path [['x']], [⟨"replace", [.text ['-'], .text ['-']]⟩]⟩ := by decide +kernel
    have plain : Call.IsPlain ⟨"replace", [.text ['-'], .text ['-']]⟩ :=
      ⟨by decide, by simp [Literal.IsPlain]⟩
    have rendered : render vars "\x7b\x7b x | replace('-', '-') \x7d\x7d" =
        .ok (String.ofList (toText v).toList) :=
      render_x (by decide +kernel) (by decide +kernel) read (List.forall_mem_singleton.2 plain)
        bound (applyAll_replace v)
    rwa [String.ofList_toList] at rendered
  · have read : Expression.read Filter.names (Text.trim " x | join ".toList) =
        .ok ⟨.path [['x']], [⟨"join", []⟩]⟩ := by decide +kernel
    have plain : Call.IsPlain ⟨"join", []⟩ := ⟨by decide, nofun⟩
    have rendered : render (vars.insert "x" (.arr [v])) "\x7b\x7b x | join \x7d\x7d" =
        .ok (String.ofList (toText v).toList) :=
      render_x (by decide +kernel) (by decide +kernel) read (List.forall_mem_singleton.2 plain)
        (Dict.get?_insert_self vars "x" (.arr [v])) (applyAll_join v)
    rwa [String.ofList_toList] at rendered
  · rw [written, Except.ok.injEq, ← valueText_eq_toText_iff]
    constructor
    · intro same
      rw [← same, String.toList_ofList]
    · intro same
      rw [same, String.ofList_toList]

namespace Sample

/-- A list in a list. -/
def nested : Vars := .ofList [("x", .arr [.arr [.int 1]])]

/-- A list of two numbers. -/
def numbers : Vars := .ofList [("x", .arr [.int 1, .int 2])]

end Sample

theorem render_eq_toText_iff_sample :
    Sample.nested.get? "x" = some (.arr [.arr [.int 1]]) ∧
    render Sample.nested "\x7b\x7b x \x7d\x7d" = .ok (toText (.arr [.arr [.int 1]])) ∧
    render Sample.nested "\x7b\x7b x | replace('-', '-') \x7d\x7d" = .ok "[[1]]" := by
  have bound : Sample.nested.get? "x" = some (.arr [.arr [.int 1]]) := by decide +kernel
  obtain ⟨-, replaced, -, same⟩ := render_eq_toText_iff bound
  refine ⟨bound, same.2 (.uniform (.single (.single .int))), replaced.trans ?_⟩
  decide +kernel

/-- A list of two items is written in one way, and seen by a filter in another. -/
theorem list_has_two_texts :
    Sample.numbers.get? "x" = some (.arr [.int 1, .int 2]) ∧
    render Sample.numbers "\x7b\x7b x \x7d\x7d|\x7b\x7b x | trim \x7d\x7d" =
      .ok "[1, 2]|[1,2]" ∧
    render Sample.numbers "\x7b\x7b x \x7d\x7d" ≠ .ok (toText (.arr [.int 1, .int 2])) := by
  decide +kernel

end Fleet.Template
