/-
# Chains of filters

A chain starts with a quoted text, or with a variable that has a value, and goes on with filters. It
writes what the filters make of the value one after another, each with the arguments written for it,
and it fails where one of them fails, with the message of the first one (`render_chain`). Nothing
that a value holds is read again. A line feed between parentheses is the exception: there the chain
is refused.
-/

import Fleet.Proofs.Template.Grammar
import Fleet.Proofs.Template.Variable

namespace Fleet.Template

open Braces

variable {vars : Vars} {v : Json} {cs body left name further written : List Char}
  {keys : List (List Char)} {calls : List Call} {e : Expression} {b : Base} {l : Literal}

/-! ## What a chain is made of -/

/-- Names and indices on the way to a value, and the keys that they are. -/
inductive Leads : List Char → List (List Char) → Prop
  | nil : Leads [] []
  | name {name rest : List Char} {keys : List (List Char)} (name_ : IsIdentifier name)
      (free : String.ofList name ∉ reserved) (later : Leads rest keys) :
      Leads ('.' :: (name ++ rest)) (name :: keys)
  | number {digits rest : List Char} {keys : List (List Char)} (digits_ : IsDigits digits)
      (later : Leads rest keys) : Leads ('.' :: (digits ++ rest)) (digits :: keys)
  | index {digits rest : List Char} {keys : List (List Char)} (digits_ : IsDigits digits)
      (later : Leads rest keys) : Leads ('[' :: (digits ++ ']' :: rest)) (digits :: keys)

/-- A base that a chain may start with, and its value: a quoted text, or a path of names and indices
that leads to a value. No name is a reserved word. -/
inductive Base.Stands (vars : Vars) : Base → Json → Prop
  | text {written inner : List Char} :
      Base.Stands vars (.literal written (.text inner)) (.str (String.ofList inner))
  | path {name further : List Char} {keys : List (List Char)} {v : Json}
      (name_ : IsIdentifier name) (free : String.ofList name ∉ reserved)
      (leads : Leads further keys) (found : lookup? (.ofDict vars) (name :: keys) = some v) :
      Base.Stands vars (.path (Template.keys (name ++ further))) v

/-- An argument that a filter of a chain may have: a quoted text, a truth value, or an integer that
has a value in JSON. -/
inductive Literal.Fits : Literal → Prop
  | text {inner : List Char} : Literal.Fits (.text inner)
  | bool {b : Bool} : Literal.Fits (.bool b)
  | integer {sign digits : List Char} (sign_ : sign = [] ∨ sign = ['-']) (some_ : digits ≠ [])
      (all : ∀ c ∈ digits, Text.isAsciiDigit c = true)
      (value : (Json.read? (sign ++ digits)).isSome) : Literal.Fits (.number (sign ++ digits))

theorem Literal.Fits.isPlain (fits : l.Fits) : l.IsPlain := by
  cases fits with
  | text => trivial
  | bool => trivial
  | @integer sign digits sign_ some_ all value =>
      refine ⟨?_, value⟩
      have sign_eq : takeSign (sign ++ digits) = (sign, digits) := by
        obtain ⟨c, tail, rfl⟩ := List.exists_cons_of_ne_nil some_
        have digit := all c List.mem_cons_self
        rcases sign_ with rfl | rfl
        · rw [List.nil_append]
          unfold takeSign
          split
          · next same =>
              obtain ⟨rfl, -⟩ := List.cons.inj same
              cases digit
          · rfl
        · rfl
      have ended : digits.dropWhile Text.isAsciiDigit = [] := List.dropWhile_eq_nil_iff.2 all
      have whole : digits.takeWhile Text.isAsciiDigit = digits := List.takeWhile_eq_self_iff.2 all
      have fraction : takeFraction [] = ([], []) := rfl
      unfold takeNumber?
      simp only [sign_eq, ended, whole, fraction, List.isEmpty_eq_false_iff.2 some_]
      simp [endsSymbol]

/-- Every integer of a JSON value may be an argument, as JSON writes it. -/
theorem Literal.fits_int {i : Int} (least : Json.leastInt ≤ i) (greatest : i ≤ Json.greatestInt) :
    Literal.Fits (.number (toString i).toList) := by
  have read : Json.read? (toString i).toList = some (.int i) := by
    have read : Json.readValue (2 * (toString i).toList.length + 2) Json.depthLimit
        ((toString i).toList ++ []) = some (.int i, []) :=
      Json.readValue_int least greatest Json.endsNumber_nil
    rw [List.append_nil] at read
    rw [Json.read?, read]
    rfl
  have value : (Json.read? (toString i).toList).isSome := by
    rw [read]
    rfl
  rw [Json.toList_toString] at value ⊢
  by_cases positive : 0 ≤ i
  · rw [if_pos positive] at value ⊢
    exact .integer (.inl rfl) Nat.toDigits_ne_nil (Decimal.isAsciiDigit_toDigits _) value
  · rw [if_neg positive] at value ⊢
    exact .integer (.inr rfl) Nat.toDigits_ne_nil (Decimal.isAsciiDigit_toDigits _) value

/-! ## Keys of a path -/

theorem Leads.isKey (leads : Leads cs keys) : ∀ k ∈ keys, IsKey k := by
  have number {digits : List Char} (digits_ : IsDigits digits) : IsKey digits := by
    refine ⟨digits_.some_, ?_, .inr (isClosing_of_test digits_.all (by decide))⟩
    rintro same
    have letter : 't' ∈ digits := by
      rw [← String.toList_ofList (l := digits), same]
      decide
    exact absurd (digits_.all 't' letter) (by decide)
  induction leads with
  | nil => exact nofun
  | @name name rest keys name_ free _ ih =>
      refine List.forall_mem_cons.2 ⟨⟨?_, ?_, .inr (isClosing_of_test name_.all rfl)⟩, ih⟩
      · obtain ⟨c, tail, rfl, -⟩ := name_.exists_cons
        exact List.cons_ne_nil _ _
      · exact fun same => free (same ▸ by decide)
  | number digits_ _ ih => exact List.forall_mem_cons.2 ⟨number digits_, ih⟩
  | index digits_ _ ih => exact List.forall_mem_cons.2 ⟨number digits_, ih⟩

/-- Names and indices add themselves to the keys before them. -/
theorem Leads.keys_append (leads : Leads cs keys) (part : List Char) :
    Template.keys (part ++ cs) = Template.keys part ++ keys := by
  induction leads generalizing part with
  | nil => rw [List.append_nil, List.append_nil]
  | name name_ _ _ ih => rw [keys_separator rfl, ih, name_.keys_eq, List.singleton_append]
  | number digits_ _ ih => rw [keys_separator rfl, ih, digits_.keys_eq.1, List.singleton_append]
  | @index digits rest keys digits_ _ ih =>
      have later := ih (digits ++ [']'])
      rw [List.append_assoc, List.singleton_append] at later
      rw [keys_separator rfl, later, digits_.keys_eq.2, List.singleton_append]

/-- A path of names and indices has these as its keys. -/
theorem Leads.keys_eq (name_ : IsIdentifier name) (leads : Leads further keys) :
    Template.keys (name ++ further) = name :: keys := by
  rw [leads.keys_append, name_.keys_eq, List.singleton_append]

/-! ## What a chain writes -/

/-- Why a known filter fails. -/
theorem applied_eq_error_iff {c : Call} {fault : RenderError} (known : c.filter ∈ Filter.names) :
    c.applied v = .error fault ↔ ∃ filter reason, Filter.table.lookup c.filter = some filter ∧
      filter v (c.args.map Literal.value) = .error reason ∧ fault = .filter c.filter reason := by
  obtain ⟨filter, found⟩ := Option.isSome_iff_exists.1 (isSome_lookup known)
  rw [Call.applied, apply, found]
  cases result : filter v (c.args.map Literal.value) with
  | ok value => simp [result]
  | error reason => simp [result, eq_comm]

/-- Filters one after another fail where one of them fails on what the ones before it made, and the
fault names that filter and gives its reason. -/
theorem applyAll_eq_error_iff {fault : RenderError} (known : ∀ c ∈ calls, c.filter ∈ Filter.names) :
    applyAll calls v = .error fault ↔ ∃ before c after u filter reason,
      calls = before ++ c :: after ∧ applyAll before v = .ok u ∧
      Filter.table.lookup c.filter = some filter ∧
      filter u (c.args.map Literal.value) = .error reason ∧ fault = .filter c.filter reason := by
  induction calls generalizing v with
  | nil =>
      refine ⟨nofun, ?_⟩
      rintro ⟨before, c, after, _, _, _, same, -⟩
      exact absurd same.symm (by simp)
  | cons c calls ih =>
      obtain ⟨first, later⟩ := List.forall_mem_cons.1 known
      rw [applyAll, bind_eq_error_iff, applied_eq_error_iff first]
      constructor
      · rintro (⟨filter, reason, found⟩ | ⟨w, applied, fails⟩)
        · exact ⟨[], c, calls, v, filter, reason, rfl, rfl, found⟩
        · obtain ⟨before, c', after, u, filter, reason, rfl, ran, found⟩ := (ih later).1 fails
          exact ⟨c :: before, c', after, u, filter, reason, rfl,
            bind_eq_ok_iff.2 ⟨w, applied, ran⟩, found⟩
      · rintro ⟨before, c', after, u, filter, reason, same, ran, found⟩
        cases before with
        | nil =>
            obtain ⟨rfl, rfl⟩ := List.cons.inj same
            obtain rfl := Except.ok.inj ran
            exact .inl ⟨filter, reason, found⟩
        | cons c before =>
            obtain ⟨rfl, rfl⟩ := List.cons.inj same
            obtain ⟨w, applied, ran⟩ := bind_eq_ok_iff.1 ran
            exact .inr ⟨w, applied, (ih later).2 ⟨before, c', after, u, filter, reason, rfl, ran,
              found⟩⟩

/-- The value that a chain starts with. -/
theorem Base.Stands.value_eq (stands : b.Stands vars v) : b.value (.ofDict vars) = .ok v := by
  cases stands with
  | text => rfl
  | path name_ _ leads found =>
      rw [leads.keys_eq name_, Base.value, follow_of_lookup?_eq_some found]
      rfl

theorem Base.Stands.isPlain (stands : b.Stands vars v) : b.IsPlain := by
  cases stands with
  | text => trivial
  | path name_ free leads found =>
      rw [leads.keys_eq name_]
      exact ⟨⟨name_.starts, name_.all, free⟩, leads.isKey⟩

/-- The variable that a chain starts with has a value. -/
theorem Base.Stands.isSome_of_required (stands : e.base.Stands vars v)
    (required : e.required? = some keys) : (lookup? (.ofDict vars) keys).isSome := by
  obtain ⟨b, calls⟩ := e
  cases stands with
  | text => cases required
  | path name_ _ leads found =>
      rw [Expression.required?, leads.keys_eq name_] at required
      simp only at required
      split at required
      · cases required
      · obtain rfl := Option.some.inj required
        rw [found]
        rfl

theorem Expression.Written.known {D : Dialect} {filters : List String} {text : List Char}
    (written : e.Written D filters text) : ∀ c ∈ e.calls, c.filter ∈ filters := by
  obtain ⟨-, -, each⟩ := written
  induction each with
  | nil => exact nofun
  | cons first _ ih =>
      refine List.forall_mem_cons.2 ⟨?_, ih⟩
      obtain ⟨w, -, _ | _⟩ := first
      · assumption
      · assumption

/-- A plain expression alone between braces is written, if its variable has a value. -/
theorem render_body (first : ¬ closing <:+: body ++ ['\x7d'])
    (read : Expression.read Filter.names (Text.trim body) = .ok e) (plain : e.IsPlain)
    (found : ∀ keys, e.required? = some keys → (lookup? (.ofDict vars) keys).isSome) :
    render vars (String.ofList (opening ++ (body ++ closing))) =
      ((e.write (.ofDict vars)).map String.ofList).mapError .renderingFailed := by
  have alone : segments (opening ++ (body ++ closing)) = [.body body] := segments_body first
  have supplied : IsSupplied (.ofDict vars) (segments (opening ++ (body ++ closing))) := by
    rw [alone]
    intro body' e' keys member read' required
    obtain rfl := Segment.body.inj (List.mem_singleton.1 member)
    obtain rfl := Except.ok.inj (read.symm.trans read')
    exact found keys required
  have each : ∀ piece ∈ segments (opening ++ (body ++ closing)), piece.IsPlain := by
    rw [alone]
    exact List.forall_mem_singleton.2 (.body read plain)
  have write : (Segment.body body).write (.ofDict vars) = e.write (.ofDict vars) := by
    rw [Segment.write, read]
  rw [render, String.toList_ofList, renderChars_of_plain each supplied, alone, writeAll,
    together_cons, write]
  cases e.write (.ofDict vars) with
  | error fault => rfl
  | ok text => exact congrArg (Except.ok <| String.ofList ·) (List.append_nil text)

/-- A chain that is written by the grammar, with no line feed between parentheses, writes what its
filters make of the value that it starts with, one after another, and fails with the fault of the
first one that fails. -/
theorem render_chain (first : ¬ closing <:+: body ++ ['\x7d'])
    (written : e.Written Dialect.grammar.oneLine Filter.names (Text.trim body))
    (stands : e.base.Stands vars v) (some_ : e.calls ≠ [])
    (fits : ∀ c ∈ e.calls, ∀ a ∈ c.args, a.Fits) :
    render vars (String.ofList (opening ++ (body ++ closing))) =
      ((applyAll e.calls v).map fun w => String.ofList (valueText w)).mapError .renderingFailed ∧
    ∀ fault, applyAll e.calls v = .error fault ↔ ∃ before c after u filter reason,
      e.calls = before ++ c :: after ∧ applyAll before v = .ok u ∧
      Filter.table.lookup c.filter = some filter ∧
      filter u (c.args.map Literal.value) = .error reason ∧ fault = .filter c.filter reason := by
  have accepted := written.within grammar_within_accepted fun _ _ held => held
  have read : Expression.read Filter.names (Text.trim body) = .ok e :=
    read_eq_ok_iff.2 (accepted.within clear_within_accepted fun _ _ held => held)
  have known : ∀ c ∈ e.calls, c.filter ∈ Filter.names := written.known
  refine ⟨?_, fun fault => applyAll_eq_error_iff known⟩
  have plain : e.IsPlain := by
    obtain ⟨b, calls⟩ := e
    have each : ∀ c ∈ calls, c.IsPlain := fun c member =>
      ⟨known c member, fun a inside => (fits c member a inside).isPlain⟩
    obtain rfl | ⟨before, c, rfl⟩ := List.eq_nil_or_concat' calls
    · exact absurd rfl some_
    · exact .calls stands.isPlain (fun c member => each c (List.mem_append_left _ member))
        (each c (by simp))
  have value : e.value (.ofDict vars) = applyAll e.calls v := by
    rw [Expression.value, stands.value_eq]
    rfl
  rw [render_body first read plain fun keys => stands.isSome_of_required,
    Expression.write_of_calls some_, value]
  cases applyAll e.calls v <;> rfl

/-! ## A list of names

Its names hold a bar and braces. A bar stands between quotes, once with blanks around it, and so
does a comma.
-/

namespace Sample

def roster : Vars :=
  .ofList [("web", .obj [("names", .arr [.str "a|b", .str "\x7b\x7b x \x7d\x7d"])])]

/-- What stands between the braces. -/
def listing : List Char :=
  " web.names | default( -12 ) | join(' | ') | replace( '|', '|,' ) ".toList

def supplied : Call := ⟨String.ofList "default".toList, [.number (toString (-12 : Int)).toList]⟩

def joined : Call := ⟨String.ofList "join".toList, [.text " | ".toList]⟩

def replaced : Call := ⟨String.ofList "replace".toList, [.text "|".toList, .text "|,".toList]⟩

/-- The path and the filters. -/
def chain : Expression where
  base := .path (Template.keys ("web".toList ++ ".names".toList))
  calls := [supplied, joined, replaced]

theorem written_chain :
    chain.Written Dialect.grammar.oneLine Filter.names (Text.trim listing) := by
  have quoted (inner : List Char) (closed : '\'' ∉ inner) : Literal.Written
      Dialect.grammar.oneLine ('\'' :: (inner ++ ['\''])) (.text inner) := .text rfl closed
  have base : Base.Written Dialect.grammar.oneLine ("web".toList ++ ".names".toList)
      chain.base := .path (isPath_iff.1 (by decide)) (by decide)
  have first : supplied.Written Dialect.grammar.oneLine Filter.names
      ("default".toList ++ ([] ++ '(' :: (" -12 ".toList ++ [')']))) := by
    have listed : Listed Dialect.grammar.oneLine [" -12 ".toList] supplied.args :=
      .cons (padded_of_trim (by decide +kernel)) (.number (isNumber_iff.1 (by decide))) .nil
    refine .given ⟨rfl, List.all_eq_true.1 rfl⟩ (by decide) nofun (by show _ ∉ _; decide) ?_
    exact .some ⟨List.cons_ne_nil _ _, rfl⟩ listed
  have second : joined.Written Dialect.grammar.oneLine Filter.names
      ("join".toList ++ ([] ++ '(' :: ("' | '".toList ++ [')']))) := by
    have listed : Listed Dialect.grammar.oneLine ["' | '".toList] joined.args :=
      .cons (padded_of_trim (by decide +kernel)) (quoted " | ".toList (by decide)) .nil
    refine .given ⟨rfl, List.all_eq_true.1 rfl⟩ (by decide) nofun (by show _ ∉ _; decide) ?_
    exact .some ⟨List.cons_ne_nil _ _, rfl⟩ listed
  have third : replaced.Written Dialect.grammar.oneLine Filter.names
      ("replace".toList ++ ([] ++ '(' :: (" '|', '|,' ".toList ++ [')']))) := by
    have listed : Listed Dialect.grammar.oneLine [" '|'".toList, " '|,' ".toList]
        replaced.args :=
      .cons (padded_of_trim (by decide +kernel)) (quoted "|".toList (by decide))
        (.cons (padded_of_trim (by decide +kernel)) (quoted "|,".toList (by decide)) .nil)
    refine .given ⟨rfl, List.all_eq_true.1 rfl⟩ (by decide) nofun (by show _ ∉ _; decide) ?_
    exact .some ⟨List.cons_ne_nil _ _, rfl⟩ listed
  have cut : Dialect.grammar.oneLine.cuts '|' (Text.trim listing) ["web.names ".toList,
      " default( -12 ) ".toList, " join(' | ') ".toList, " replace( '|', '|,' )".toList] :=
    ⟨List.cons_ne_nil _ _, by decide +kernel⟩
  refine .intro cut ⟨_, ?padded, base⟩
    (.cons ⟨_, ?first, first⟩ (.cons ⟨_, ?second, second⟩ (.cons ⟨_, ?third, third⟩ .nil)))
  all_goals exact padded_of_trim (by decide +kernel)

end Sample

theorem render_chain_sample :
    ¬ closing <:+: Sample.listing ++ ['\x7d'] ∧
    Sample.chain.Written Dialect.grammar.oneLine Filter.names (Text.trim Sample.listing) ∧
    (∃ v, Sample.chain.base.Stands Sample.roster v) ∧ Sample.chain.calls ≠ [] ∧
    (∀ c ∈ Sample.chain.calls, ∀ a ∈ c.args, a.Fits) ∧
    render Sample.roster (String.ofList (opening ++ (Sample.listing ++ closing))) =
      .ok "a|,b |, \x7b\x7b x \x7d\x7d" := by
  have first : ¬ closing <:+: Sample.listing ++ ['\x7d'] := by decide +kernel
  have web : IsIdentifier "web".toList := ⟨rfl, List.all_eq_true.1 rfl⟩
  have names : IsIdentifier "names".toList := ⟨rfl, List.all_eq_true.1 rfl⟩
  have stands : Sample.chain.base.Stands Sample.roster _ :=
    .path web (by decide) (.name names (by decide) .nil) rfl
  have some_ : Sample.chain.calls ≠ [] := List.cons_ne_nil _ _
  have fits : ∀ c ∈ Sample.chain.calls, ∀ a ∈ c.args, a.Fits := by
    refine List.forall_mem_cons.2 ⟨?_, List.forall_mem_cons.2 ⟨?_, List.forall_mem_singleton.2 ?_⟩⟩
    · exact List.forall_mem_singleton.2 (Literal.fits_int (by decide) (by decide))
    · exact List.forall_mem_singleton.2 .text
    · exact List.forall_mem_cons.2 ⟨.text, List.forall_mem_singleton.2 .text⟩
  have rendered := (render_chain first Sample.written_chain stands some_ fits).1
  exact ⟨first, Sample.written_chain, ⟨_, stands⟩, some_, fits, rendered.trans (by decide +kernel)⟩

namespace Sample

def pair : Vars := .ofList [("x", .arr [.str "a", .str "b"])]

/-- The items on lines of their own. -/
def broken : Expression where
  base := .path (Template.keys ("x".toList ++ []))
  calls := [⟨String.ofList "join".toList, [.text ['\n']]⟩]

end Sample

/-- A chain with a line feed between quotes is written by the grammar and has a value, but it is
refused. -/
theorem line_feed_refused :
    Sample.broken.Written .grammar Filter.names "x | join('\n')".toList ∧
    Sample.broken.base.Stands Sample.pair (.arr [.str "a", .str "b"]) ∧
    applyAll Sample.broken.calls (.arr [.str "a", .str "b"]) = .ok (.str "a\nb") ∧
    render Sample.pair "\x7b\x7bx | join('\n')\x7d\x7d" =
      .error (.conversionFailed (.invalid "x | join('\n')" "malformed filter")) := by
  have base : Base.Written .grammar ("x".toList ++ []) Sample.broken.base :=
    .path (isPath_iff.1 (by decide)) (by decide)
  have call : Call.Written .grammar Filter.names
      ("join".toList ++ ([] ++ '(' :: ("'\n'".toList ++ [')'])))
      ⟨String.ofList "join".toList, [.text ['\n']]⟩ := by
    have closed : '\'' ∉ ['\n'] := by decide
    have listed : Listed .grammar ["'\n'".toList] [.text ['\n']] :=
      .cons (padded_of_trim (by decide +kernel)) (.text (q := '\'') rfl closed) .nil
    refine .given ⟨rfl, List.all_eq_true.1 rfl⟩ (by decide) nofun trivial ?_
    exact .some ⟨List.cons_ne_nil _ _, rfl⟩ listed
  refine ⟨?_, ?_, by decide +kernel, by decide +kernel⟩
  · have cut : Dialect.grammar.cuts '|' "x | join('\n')".toList
        ["x ".toList, " join('\n')".toList] := ⟨List.cons_ne_nil _ _, by decide +kernel⟩
    refine .intro cut ⟨_, ?base, base⟩ (.cons ⟨_, ?call, call⟩ .nil)
    all_goals exact padded_of_trim (by decide +kernel)
  · have x : IsIdentifier "x".toList := ⟨rfl, List.all_eq_true.1 rfl⟩
    exact .path x (by decide) .nil rfl

end Fleet.Template
