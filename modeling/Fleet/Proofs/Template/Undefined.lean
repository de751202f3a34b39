/-
# Variables without a value

A variable that leads nowhere fails the whole text unless `default` is applied to it. Where that is
the first filter and it has an argument, the value of the argument is what the further filters see.
Where it comes later, or has no argument, it does not help: the filters see null, and the variable
is passed over in silence.
-/

import Fleet.Proofs.Template.Meaning

namespace Fleet.Template

open Braces

variable {vars : Vars} {scope v : Json} {keys : List (List Char)} {calls : List Call}
  {e : Expression} {cs body text : List Char} {parts : List Segment} {conversion : Conversion}

/-! ## Keys that lead nowhere -/

theorem follow_none (keys : List String) : follow none keys = .ok none := by
  induction keys with
  | nil => rfl
  | cons key keys ih => exact ih

/-- Where the check finds no value, helpers find none either, or a key that is no index. -/
theorem follow_of_lookup?_eq_none (undefined : lookup? v keys = none) :
    follow (some v) (keys.map String.ofList) = .ok none ∨
      ∃ key, follow (some v) (keys.map String.ofList) = .error (.badIndex key) := by
  induction keys generalizing v with
  | nil => cases undefined
  | cons key keys ih =>
      cases v with
      | obj members =>
          rw [lookup?] at undefined
          rw [List.map_cons, follow]
          cases found : Dict.lookupEntry (String.ofList key) members with
          | none => exact .inl (follow_none _)
          | some next =>
              rw [found] at undefined
              exact ih undefined
      | arr items =>
          rw [lookup?] at undefined
          rw [List.map_cons, follow, String.toList_ofList]
          cases number : Text.readBounded? greatestIndex key with
          | none => exact .inr ⟨_, rfl⟩
          | some index =>
              rw [number] at undefined
              show follow items[index]? _ = _ ∨ ∃ key, follow items[index]? _ = _
              cases found : items[index]? with
              | none => exact .inl (follow_none _)
              | some next =>
                  have undefined : (items[index]? >>= (lookup? · keys)) = none := undefined
                  rw [found] at undefined
                  exact ih undefined
      | null | bool | int | float | str => exact .inl (follow_none _)

/-- The filters of an expression see null in place of a variable that leads nowhere. -/
theorem value_of_undefined (path : e.base = .path keys) (undefined : lookup? scope keys = none) :
    e.value scope = applyAll e.calls .null ∨ ∃ key, e.value scope = .error (.badIndex key) := by
  rw [Expression.value, path, Base.value]
  obtain nowhere | ⟨key, stumbles⟩ := follow_of_lookup?_eq_none undefined
  · rw [nowhere]
    exact .inl rfl
  · rw [stumbles]
    exact .inr ⟨key, rfl⟩

/-- The first argument of `default` takes the place of null. -/
theorem applyAll_default {a : Literal} {args : List Literal} :
    applyAll (⟨"default", a :: args⟩ :: calls) .null = applyAll calls a.value := rfl

/-! ## Variables that are needed -/

theorem mem_required {filters : List String}
    (converted : convertSegments filters parts = .ok conversion) (member : .body body ∈ parts)
    (read : Expression.read filters (Text.trim body) = .ok e) (required : e.required? = some keys) :
    keys ∈ conversion.required := by
  induction parts generalizing conversion with
  | nil => cases member
  | cons part parts ih =>
      cases part with
      | text more =>
          obtain ⟨c, rest, same⟩ := bind_eq_ok_iff.1 converted
          cases same
          rcases List.mem_cons.1 member with ⟨⟨⟩⟩ | member
          have needed : keys ∈ c.required := ih rest member
          exact needed
      | body more =>
          obtain ⟨first, readFirst, converted⟩ := bind_eq_ok_iff.1 converted
          obtain ⟨c, rest, same⟩ := bind_eq_ok_iff.1 converted
          cases same
          rcases List.mem_cons.1 member with same | member
          · cases same
            rw [read] at readFirst
            cases readFirst
            rw [required]
            exact List.mem_cons_self
          · exact List.mem_append_right _ (ih rest member)

theorem body_mem_consText {c : Char} : .body body ∈ consText c parts ↔ .body body ∈ parts := by
  cases parts with
  | nil => simp [consText]
  | cons part parts => cases part <;> simp [consText]

/-- Where there is an expression, braces open. -/
theorem hasOpening_of_mem {fuel : Nat} (member : .body body ∈ segmentsFrom fuel cs) :
    hasOpening cs = true := by
  induction fuel generalizing cs with
  | zero => cases cs <;> simp [segmentsFrom] at member
  | succ fuel ih =>
      cases cs with
      | nil => simp [segmentsFrom] at member
      | cons c cs =>
          rw [hasOpening, Bool.or_eq_true_iff]
          by_cases here : opening.isPrefixOf (c :: cs) = true
          · exact .inl here
          · rw [segmentsFrom, if_neg here] at member
            exact .inr (ih (body_mem_consText.1 member))

/-- A variable that leads nowhere and has no `default` is found missing before anything is
written, unless some expression of the template cannot be read. -/
theorem renderChars_of_undefined (member : .body body ∈ segments cs)
    (read : Expression.read Filter.names (Text.trim body) = .ok e) (path : e.base = .path keys)
    (undefined : lookup? (.ofDict vars) keys = none)
    (unguarded : ∀ c ∈ e.calls, c.filter ≠ "default") :
    (∃ fault, renderChars vars cs = .error (.conversionFailed fault)) ∨
      ∃ missing, lookup? (.ofDict vars) missing = none ∧
        renderChars vars cs =
          .error (.undefinedVariable (String.ofList (Text.join ['.'] missing))) := by
  rw [renderChars, if_pos (hasOpening_of_mem member)]
  cases converted : convert Filter.names cs with
  | error fault => exact .inl ⟨fault, rfl⟩
  | ok conversion =>
      have required : e.required? = some keys := by
        have none_ : e.calls.any (·.filter = "default") = false := by simpa using unguarded
        rw [Expression.required?, path, none_]
        rfl
      have needed : keys ∈ conversion.required := mem_required converted member read required
      have found : (conversion.required.find? fun keys =>
          (lookup? (.ofDict vars) keys).isNone).isSome :=
        List.find?_isSome.2 ⟨keys, needed, Option.isNone_iff_eq_none.2 undefined⟩
      obtain ⟨missing, first⟩ := Option.isSome_iff_exists.1 found
      have nowhere := (List.find?_eq_some_iff_append.1 first).1
      refine .inr ⟨missing, Option.isNone_iff_eq_none.1 nowhere, ?_⟩
      simp only [first]

/-- Behind a `default` with an argument, an expression writes the value that the further filters
make of the argument. -/
theorem write_of_default {a : Literal} {args : List Literal} (path : e.base = .path keys)
    (undefined : lookup? scope keys = none) (guarded : e.calls = ⟨"default", a :: args⟩ :: calls) :
    e.write scope = (applyAll calls a.value).map valueText ∨
      ∃ key, e.write scope = .error (.badIndex key) := by
  have some_ : e.calls ≠ [] := guarded ▸ List.cons_ne_nil _ _
  rw [Expression.write_of_calls some_]
  obtain value | ⟨key, stumbles⟩ := value_of_undefined path undefined
  · rw [value, guarded, applyAll_default]
    exact .inl rfl
  · rw [stumbles]
    exact .inr ⟨key, rfl⟩

/-- A variable that leads nowhere fails the whole text if `default` is not applied to it: the text
is not converted, or a variable without a value is named. Where `default` is applied to it first and
has an argument, the expression writes what the further filters make of the argument, or stumbles
over a key that is no index; a template of plain parts whose other variables have values is the
texts of its parts, one after another. -/
theorem render_of_undefined {s : String} (member : .body body ∈ segments s.toList)
    (read : Expression.read Filter.names (Text.trim body) = .ok e) (path : e.base = .path keys)
    (undefined : lookup? (.ofDict vars) keys = none) :
    ((∀ c ∈ e.calls, c.filter ≠ "default") →
      (∃ fault, render vars s = .error (.conversionFailed fault)) ∨
        ∃ missing, lookup? (.ofDict vars) missing = none ∧
          render vars s =
            .error (.undefinedVariable (String.ofList (Text.join ['.'] missing)))) ∧
      ∀ a args calls, e.calls = ⟨"default", a :: args⟩ :: calls →
        ((Segment.body body).write (.ofDict vars) = (applyAll calls a.value).map valueText ∨
          ∃ key, (Segment.body body).write (.ofDict vars) = .error (.badIndex key)) ∧
        ((∀ p ∈ segments s.toList, p.IsPlain) → IsSupplied (.ofDict vars) (segments s.toList) →
          render vars s = ((writeAll (.ofDict vars) (segments s.toList)).mapError
            .renderingFailed).map String.ofList) := by
  constructor
  · intro unguarded
    rw [render]
    obtain ⟨fault, fails⟩ | ⟨missing, nowhere, fails⟩ :=
      renderChars_of_undefined member read path undefined unguarded
    · exact .inl ⟨fault, by rw [fails]; rfl⟩
    · exact .inr ⟨missing, nowhere, by rw [fails]; rfl⟩
  · intro a args calls guarded
    have write : (Segment.body body).write (.ofDict vars) = e.write (.ofDict vars) := by
      rw [Segment.write, read]
    refine ⟨write ▸ write_of_default path undefined guarded, fun plain supplied => ?_⟩
    rw [render, renderChars_of_plain plain supplied]

/-- Without a value of `x`, the template of `x | upper` fails and names a variable that is missing,
and the one of `x | default('a') | upper` is what `upper` makes of the letter `a`. -/
theorem render_of_undefined_sample :
    (∃ missing, lookup? (.ofDict ∅) missing = none ∧ render ∅ "\x7b\x7bx | upper\x7d\x7d" =
      .error (.undefinedVariable (String.ofList (Text.join ['.'] missing)))) ∧
    (Segment.body "x | default('a') | upper".toList).write (.ofDict ∅) =
      (applyAll [⟨"upper", []⟩] (.str "a")).map valueText ∧
    render ∅ "\x7b\x7bx | default('a') | upper\x7d\x7d" = .ok "A" := by
  have undefined : lookup? (.ofDict ∅) ["x".toList] = none := by decide +kernel
  constructor
  · have member : .body "x | upper".toList ∈
        segments "\x7b\x7bx | upper\x7d\x7d".toList := by decide +kernel
    have read : Expression.read Filter.names (Text.trim "x | upper".toList) =
        .ok ⟨.path ["x".toList], [⟨"upper", []⟩]⟩ := by decide +kernel
    have fails : render ∅ "\x7b\x7bx | upper\x7d\x7d" = .error (.undefinedVariable "x") := by
      decide +kernel
    refine ((render_of_undefined member read rfl undefined).1 (by decide)).resolve_left ?_
    rintro ⟨fault, unread⟩
    rw [fails] at unread
    cases unread
  · have parts : segments "\x7b\x7bx | default('a') | upper\x7d\x7d".toList =
        [.body "x | default('a') | upper".toList] := by decide +kernel
    have read : Expression.read Filter.names (Text.trim "x | default('a') | upper".toList) =
        .ok ⟨.path ["x".toList], [⟨"default", [.text "a".toList]⟩, ⟨"upper", []⟩]⟩ := by
      decide +kernel
    have member : .body "x | default('a') | upper".toList ∈
        segments "\x7b\x7bx | default('a') | upper\x7d\x7d".toList := by
      rw [parts]
      exact List.mem_singleton_self _
    obtain ⟨write, rendered⟩ := (render_of_undefined member read rfl undefined).2 _ _ _ rfl
    have letter : (Segment.body "x | default('a') | upper".toList).write (.ofDict ∅) =
        .ok ['A'] := by
      decide +kernel
    have write := write.resolve_right (by rw [letter]; exact nofun)
    have plain : ∀ p ∈ segments "\x7b\x7bx | default('a') | upper\x7d\x7d".toList,
        p.IsPlain := by
      rw [parts]
      refine List.forall_mem_singleton.2 (.body read ?_)
      have name : IsPlainPath ["x".toList] :=
        ⟨⟨rfl, List.all_eq_true.1 (by decide), by decide⟩, nofun⟩
      have first : Call.IsPlain ⟨"default", [.text "a".toList]⟩ :=
        ⟨by decide, List.forall_mem_singleton.2 trivial⟩
      show Expression.IsPlain ⟨_, [_] ++ [_]⟩
      exact .calls name (List.forall_mem_singleton.2 first) ⟨by decide, nofun⟩
    have supplied : IsSupplied (.ofDict ∅)
        (segments "\x7b\x7bx | default('a') | upper\x7d\x7d".toList) := by
      rw [parts]
      intro body e keys member read' required
      cases List.mem_singleton.1 member
      rw [read] at read'
      cases read'
      cases required
    refine ⟨write, (rendered plain supplied).trans ?_⟩
    rw [parts, writeAll, together_cons, letter]
    rfl

/-- A `default` that is not the first filter silences the failure and supplies nothing: the first
filter has already made an empty text of the missing value. -/
theorem undefined_silenced_by_later_default :
    let s := "\x7b\x7bx | upper | default('y')\x7d\x7d"
    segments s.toList = [.body "x | upper | default('y')".toList] ∧
      Expression.read Filter.names (Text.trim "x | upper | default('y')".toList) =
        .ok ⟨.path ["x".toList], [⟨"upper", []⟩, ⟨"default", [.text "y".toList]⟩]⟩ ∧
      lookup? (.ofDict ∅) ["x".toList] = none ∧ render ∅ s = .ok "" := by
  decide +kernel

end Fleet.Template
