/-
# Spellings of a path

A path is spelled by the name it starts with and a step for each further key: a name or a number
behind a point, a number between brackets, or a key between quotes and brackets. Every spelling is
read, and it needs the variable under exactly the keys of its steps unless a quoted key holds a
point or an opening bracket (`needs_spelling_iff`): a path is cut at these between quotes too, and
such a key falls into several.
-/

import Fleet.Proofs.Template.Chain

namespace Fleet.Template

/-- A further key of a path, in a way of writing it. -/
inductive Step where
  /-- Behind a point. -/
  | point (key : List Char)
  /-- Between brackets. -/
  | index (key : List Char)
  /-- Between quotes and brackets. -/
  | quoted (key : List Char)
  deriving DecidableEq

variable {first body rest : List Char} {steps : List Step} {s : Step} {filters : List String}

namespace Step

/-- The key of a step. -/
def key : Step → List Char
  | point k | index k | quoted k => k

/-- The separator that a step begins with. -/
def mark : Step → Char
  | point _ => '.'
  | index _ | quoted _ => '['

/-- What stands behind the separator. -/
def inner : Step → List Char
  | point k => k
  | index k => k ++ [']']
  | quoted k => '\'' :: (k ++ ['\'', ']'])

/-- A step as it is written. -/
def text (s : Step) : List Char := s.mark :: s.inner

/-- A key that may be written in the way of its step. -/
def IsProper : Step → Prop
  | point k => IsIdentifier k ∨ IsDigits k
  | index k => IsDigits k
  | quoted k => k ≠ [] ∧ '\'' ∉ k ∧ ¬ closing <:+: k

/-- A step whose key holds no separator between quotes. -/
def IsKept : Step → Prop
  | point _ | index _ => True
  | quoted k => '.' ∉ k ∧ '[' ∉ k

end Step

/-- The path with a first key and some steps. -/
def spelling (first : List Char) (steps : List Step) : List Char := first ++ steps.flatMap Step.text

/-- A first name that is no truth value, and steps that may be written. -/
structure IsSpelling (first : List Char) (steps : List Step) : Prop where
  name : IsIdentifier first
  free : String.ofList first ∉ ["true", "True", "false", "False"]
  proper : ∀ s ∈ steps, s.IsProper

/-- Between braces stands an expression that needs a value under some keys. -/
def Needs (filters : List String) (body : List Char) (keys : List (List Char)) : Prop :=
  ∃ text, convert filters (opening ++ (body ++ closing)) = .ok ⟨text, [keys]⟩

/-! ## Spellings are paths -/

theorem Step.isFurther (proper : s.IsProper) (later : IsFurther rest) :
    IsFurther (s.text ++ rest) := by
  cases s with
  | point k =>
      rcases proper with name | digits
      · exact .name name later
      · exact .number digits later
  | index k =>
      show IsFurther ('[' :: (k ++ [']'] ++ rest))
      rw [List.append_assoc]
      exact .index proper later
  | quoted k =>
      show IsFurther ('[' :: '\'' :: (k ++ ['\'', ']'] ++ rest))
      rw [List.append_assoc]
      exact .quoted proper.2.1 later

theorem isFurther_steps (proper : ∀ s ∈ steps, s.IsProper) :
    IsFurther (steps.flatMap Step.text) := by
  induction steps with
  | nil => exact .nil
  | cons s steps ih =>
      obtain ⟨here, later⟩ := List.forall_mem_cons.1 proper
      rw [List.flatMap_cons]
      exact Step.isFurther here (ih later)

theorem IsSpelling.isVariable (spelled : IsSpelling first steps) :
    IsVariable (spelling first steps) :=
  .path spelled.name (isFurther_steps spelled.proper)

/-- A mark stands in no name, so a path with steps is no truth value either. -/
theorem IsSpelling.not_truth (spelled : IsSpelling first steps) :
    String.ofList (spelling first steps) ∉ ["true", "True", "false", "False"] := by
  cases steps with
  | nil =>
      rw [spelling, List.flatMap_nil, List.append_nil]
      exact spelled.free
  | cons s steps =>
      intro truth
      have name := isIdentifier_of_truth truth
      rw [String.toList_ofList] at name
      have plain : isNameChar s.mark = true := by
        apply name.all
        simp [spelling, Step.text]
      cases s <;> cases plain

/-! ## Spellings between braces -/

theorem closing_not_infix_plain {cs : List Char} (plain : '\x7d' ∉ cs)
    (later : ¬ closing <:+: rest) : ¬ closing <:+: cs ++ rest := by
  induction cs with
  | nil => exact later
  | cons c cs ih =>
      obtain ⟨other, plain⟩ := List.ne_and_not_mem_of_not_mem_cons plain
      exact closing_not_infix_cons other.symm (ih plain)

theorem brace_not_mem {p : Char → Bool} {cs : List Char} (all : ∀ c ∈ cs, p c = true)
    (brace : p '\x7d' = false) : '\x7d' ∉ cs :=
  fun inside => Bool.false_ne_true (brace.symm.trans (all _ inside))

theorem Step.closing_not_infix (proper : s.IsProper) (later : ¬ closing <:+: rest) :
    ¬ closing <:+: s.text ++ rest := by
  cases s with
  | point k =>
      have plain : '\x7d' ∉ k := by
        rcases proper with name | digits
        · exact brace_not_mem name.all rfl
        · exact brace_not_mem digits.all (by decide)
      apply closing_not_infix_plain
      · simpa [text, mark, inner] using plain
      · exact later
  | index k =>
      have plain : '\x7d' ∉ k := brace_not_mem (IsDigits.all proper) (by decide)
      apply closing_not_infix_plain
      · simpa [text, mark, inner] using plain
      · exact later
  | quoted k =>
      show ¬ closing <:+: ['[', '\''] ++ (k ++ '\'' :: ']' :: [] ++ rest)
      rw [List.append_assoc]
      apply closing_not_infix_plain (by decide)
      apply closing_not_infix_apart (by decide) proper.2.2
      exact closing_not_infix_cons (by decide) later

theorem closing_not_infix_steps (proper : ∀ s ∈ steps, s.IsProper) (later : ¬ closing <:+: rest) :
    ¬ closing <:+: steps.flatMap Step.text ++ rest := by
  induction steps with
  | nil => exact later
  | cons s steps ih =>
      obtain ⟨here, behind⟩ := List.forall_mem_cons.1 proper
      rw [List.flatMap_cons, List.append_assoc]
      exact Step.closing_not_infix here (ih behind)

/-- The braces that close a spelling are the ones behind it. -/
theorem IsSpelling.closing_not_infix (spelled : IsSpelling first steps)
    (padded : Padded (spelling first steps) body) : ¬ closing <:+: body ++ ['\x7d'] := by
  obtain ⟨before_, behind_⟩ := padded
  rw [spelling, List.append_assoc, List.append_assoc, List.append_assoc]
  apply closing_not_infix_plain (brace_not_mem before_ (by decide))
  apply closing_not_infix_plain (brace_not_mem spelled.name.all rfl)
  apply closing_not_infix_steps spelled.proper
  apply closing_not_infix_plain (brace_not_mem behind_ (by decide))
  decide

/-- A spelling is converted to the path that its keys make. -/
theorem IsSpelling.convert_eq (spelled : IsSpelling first steps)
    (padded : Padded (spelling first steps) body) :
    convert filters (opening ++ (body ++ closing)) =
      .ok ⟨opening ++ pathText (keys (spelling first steps)) ++ closing,
        [keys (spelling first steps)]⟩ := by
  have path := spelled.isVariable
  have read : Expression.read filters (Text.trim body) =
      .ok ⟨.path (keys (spelling first steps)), []⟩ :=
    read_of_base (.path path spelled.not_truth) (path.isWhole (.inr rfl)) padded
  have alone : segments (opening ++ (body ++ (closing ++ []))) = [.body body] :=
    segments_body (spelled.closing_not_infix padded)
  rw [List.append_nil] at alone
  rw [convert, alone, convertSegments, read]
  show Except.ok (Conversion.mk (opening ++ pathText (keys (spelling first steps)) ++ closing ++ [])
    [keys (spelling first steps)]) = _
  rw [List.append_nil]

/-! ## Keys of spellings -/

/-- The keys of a path are those of its first part and those of each step. -/
theorem keys_steps (part : List Char) (steps : List Step) :
    keys (part ++ steps.flatMap Step.text) =
      keys part ++ steps.flatMap fun s => keys s.inner := by
  induction steps generalizing part with
  | nil => rw [List.flatMap_nil, List.flatMap_nil, List.append_nil, List.append_nil]
  | cons s steps ih =>
      have cuts : (s.mark == '.' || s.mark == '[') = true := by cases s <;> rfl
      rw [List.flatMap_cons, List.flatMap_cons, Step.text, List.cons_append,
        keys_separator cuts, ih]

/-- The characters of a path but its separators stand in its parts. -/
theorem flatten_splitKeys (cs : List Char) :
    (splitKeys cs).flatten = cs.filter fun c => !(c == '.' || c == '[') := by
  induction cs with
  | nil => rfl
  | cons c cs ih =>
      obtain ⟨first, more, parts, -⟩ := splitKeys_parts cs
      rw [splitKeys, List.filter_cons, ← ih, parts]
      by_cases cuts : (c == '.' || c == '[') = true
      · rw [if_pos cuts, cuts]
        rfl
      · rw [if_neg cuts, Bool.eq_false_iff.2 cuts]
        rfl

/-- A text with a character that is no separator has a key. -/
theorem keys_ne_nil {c : Char} {cs : List Char} (inside : c ∈ cs)
    (plain : (c == '.' || c == '[') = false) : keys cs ≠ [] := by
  have kept : c ∈ (splitKeys cs).flatten := by
    rw [flatten_splitKeys]
    exact List.mem_filter.2 ⟨inside, by rw [plain]; rfl⟩
  obtain ⟨part, member, inPart⟩ := List.mem_flatten.1 kept
  apply List.ne_nil_of_mem
  apply List.mem_map_of_mem
  exact List.mem_filter.2 ⟨member, by simpa using List.ne_nil_of_mem inPart⟩

/-- Quotes and a bracket around a key go. -/
theorem keyOf_quoted {k : List Char} (some_ : k ≠ []) (closed : '\'' ∉ k) :
    keyOf ('\'' :: (k ++ ['\'', ']'])) = k := by
  have other : ∀ c ∈ k, (c == '\'') = false := by
    intro c member
    apply beq_eq_false_iff_ne.2
    rintro rfl
    exact closed member
  have bracket : Text.dropEndWhile (· == ']') ('\'' :: (k ++ ['\'', ']'])) =
      '\'' :: (k ++ ['\'']) := by
    have whole : '\'' :: (k ++ ['\'', ']']) = ('\'' :: k ++ ['\'']) ++ [']'] := by simp
    rw [whole, Text.dropEndWhile, List.reverse_append, List.reverse_append]
    simp
  have opened : ('\'' :: (k ++ ['\''])).dropWhile (· == '\'') = k ++ ['\''] := by
    obtain ⟨c, tail, rfl⟩ := List.exists_cons_of_ne_nil some_
    rw [List.dropWhile_cons, if_pos (by rfl), List.cons_append]
    exact Text.dropWhile_eq_self (other c List.mem_cons_self)
  have ended : Text.dropEndWhile (· == '\'') (k ++ ['\'']) = k := by
    rw [Text.dropEndWhile, List.reverse_append, List.reverse_singleton, List.singleton_append,
      List.dropWhile_cons, if_pos (by rfl), ← Text.dropEndWhile, dropEndWhile_eq_self other]
  rw [keyOf, bracket, opened, ended]

namespace Step

/-- The key of a step that holds no separator is found as it is written. -/
theorem keys_of_isKept (proper : s.IsProper) (kept : s.IsKept) : keys s.inner = [s.key] := by
  cases s with
  | point k =>
      rcases proper with name | digits
      · exact name.keys_eq
      · exact digits.keys_eq.1
  | index k => exact (IsDigits.keys_eq proper).2
  | quoted k =>
      have plain : ∀ c ∈ '\'' :: (k ++ ['\'', ']']), (c == '.' || c == '[') = false := by
        rw [List.forall_mem_cons, List.forall_mem_append]
        refine ⟨rfl, ?_, List.forall_mem_cons.2 ⟨rfl, List.forall_mem_singleton.2 rfl⟩⟩
        intro c member
        rw [Bool.or_eq_false_iff, beq_eq_false_iff_ne, beq_eq_false_iff_ne]
        constructor
        · rintro rfl
          exact kept.1 member
        · rintro rfl
          exact kept.2 member
      show keys ('\'' :: (k ++ ['\'', ']'])) = [k]
      rw [keys_part (List.cons_ne_nil _ _) plain, keyOf_quoted proper.1 proper.2.1]

/-- A separator between quotes cuts its key in two or more. -/
theorem length_keys (cut : ¬ s.IsKept) : 2 ≤ (keys s.inner).length := by
  cases s with
  | point k => exact absurd trivial cut
  | index k => exact absurd trivial cut
  | quoted k =>
      have separator : ∃ c ∈ k, (c == '.' || c == '[') = true := by
        by_cases point : '.' ∈ k
        · exact ⟨'.', point, rfl⟩
        · refine ⟨'[', ?_, rfl⟩
          by_contra bracket
          exact cut ⟨point, bracket⟩
      obtain ⟨c, member, cuts⟩ := separator
      obtain ⟨before, behind, rfl⟩ := List.append_of_mem member
      have two : keys ('\'' :: before ++ c :: (behind ++ ['\'', ']'])) =
          keys ('\'' :: before) ++ keys (behind ++ ['\'', ']']) := keys_separator cuts _ _
      have left : keys ('\'' :: before) ≠ [] := keys_ne_nil List.mem_cons_self (by decide)
      have right : keys (behind ++ ['\'', ']']) ≠ [] :=
        keys_ne_nil (c := '\'') (by simp) (by decide)
      have same : inner (quoted (before ++ c :: behind)) =
          '\'' :: before ++ c :: (behind ++ ['\'', ']']) := by
        simp [inner]
      rw [same, two, List.length_append]
      have := List.length_pos_iff.2 left
      have := List.length_pos_iff.2 right
      omega

theorem length_le_flatMap_keys (proper : ∀ s ∈ steps, s.IsProper) :
    steps.length ≤ (steps.flatMap fun s => keys s.inner).length := by
  induction steps with
  | nil => exact Nat.le_refl 0
  | cons s steps ih =>
      obtain ⟨here, later⟩ := List.forall_mem_cons.1 proper
      have behind := ih later
      rw [List.flatMap_cons, List.length_append, List.length_cons]
      by_cases kept : s.IsKept
      · rw [keys_of_isKept here kept, List.length_singleton]
        omega
      · have cut := length_keys kept
        omega

/-- The keys of some steps are as they are written exactly if no step is cut. -/
theorem flatMap_keys_iff (proper : ∀ s ∈ steps, s.IsProper) :
    (steps.flatMap fun s => keys s.inner) = steps.map key ↔ ∀ s ∈ steps, s.IsKept := by
  induction steps with
  | nil => simp
  | cons s steps ih =>
      obtain ⟨here, later⟩ := List.forall_mem_cons.1 proper
      rw [List.flatMap_cons, List.map_cons, List.forall_mem_cons, ← ih later]
      by_cases kept : s.IsKept
      · rw [keys_of_isKept here kept, List.singleton_append, List.cons_inj_right]
        exact (and_iff_right kept).symm
      · -- the surplus keys of one step are not made up for by another
        have longer := length_le_flatMap_keys later
        have cut := length_keys kept
        constructor
        · intro same
          have lengths := congrArg List.length same
          rw [List.length_append, List.length_cons, List.length_map] at lengths
          omega
        · rintro ⟨whole, -⟩
          exact absurd whole kept

end Step

/-- The keys of a spelling are as they are written exactly if no step is cut. -/
theorem IsSpelling.keys_eq_iff (spelled : IsSpelling first steps) :
    keys (spelling first steps) = first :: steps.map Step.key ↔ ∀ s ∈ steps, s.IsKept := by
  rw [spelling, keys_steps, spelled.name.keys_eq, List.singleton_append, List.cons_inj_right]
  exact Step.flatMap_keys_iff spelled.proper

/-! ## Variables under keys -/

/-- Mappings inside one another that hold null under some keys. -/
def nest : List (List Char) → Json
  | [] => .null
  | k :: keys => .obj [(String.ofList k, nest keys)]

theorem lookup?_nest_iff (keys others : List (List Char)) :
    lookup? (nest keys) others = some .null ↔ others = keys := by
  induction keys generalizing others with
  | nil => cases others <;> simp [nest, lookup?]
  | cons k keys ih =>
      cases others with
      | nil => simp [nest, lookup?]
      | cons other others =>
          rw [nest, lookup?, Dict.lookupEntry]
          by_cases same : other = k
          · rw [same, if_pos rfl]
            exact (ih others).trans (List.cons_inj_right k).symm
          · have differ : String.ofList other ≠ String.ofList k :=
              fun equal => same (String.ofList_injective equal)
            rw [if_neg differ]
            simp [Dict.lookupEntry, same]

/-- Two lists of keys are told apart by variables that have a value under the first alone. -/
theorem exists_vars_of_ne {first : List Char} {keys others : List (List Char)}
    (different : first :: keys ≠ others) : ∃ vars : Vars,
      lookup? (.ofDict vars) (first :: keys) = some .null ∧
        lookup? (.ofDict vars) others ≠ some .null := by
  refine ⟨.ofList [(String.ofList first, nest keys)], ?_, ?_⟩
  · exact (lookup?_nest_iff (first :: keys) _).2 rfl
  · intro found
    exact different ((lookup?_nest_iff (first :: keys) others).1 found).symm

/-! ## What a spelling needs -/

theorem IsSpelling.needs_iff (spelled : IsSpelling first steps)
    (padded : Padded (spelling first steps) body) {found : List (List Char)} :
    Needs filters body found ↔ found = keys (spelling first steps) := by
  rw [Needs, spelled.convert_eq padded]
  simp [eq_comm]

/-- A path is read however it is spelled, and it needs one variable. Its keys are those of the
spelling exactly if no quoted key holds a separator, and where that is so, paths with different keys
need different variables. -/
theorem needs_spelling_iff (spelled : IsSpelling first steps)
    (padded : Padded (spelling first steps) body) :
    (∃ found, Needs filters body found) ∧
    (Needs filters body (first :: steps.map Step.key) ↔ ∀ s ∈ steps, s.IsKept) ∧
    ((∀ s ∈ steps, s.IsKept) → ∀ first' steps' body', IsSpelling first' steps' →
      Padded (spelling first' steps') body' → (∀ s ∈ steps', s.IsKept) →
      first :: steps.map Step.key ≠ first' :: steps'.map Step.key →
      ∃ found found' vars, Needs filters body found ∧ Needs filters body' found' ∧
        lookup? (.ofDict vars) found = some .null ∧
        lookup? (.ofDict vars) found' ≠ some .null) := by
  refine ⟨⟨_, (spelled.needs_iff padded).2 rfl⟩, ?_, ?_⟩
  · rw [spelled.needs_iff padded, ← spelled.keys_eq_iff, eq_comm]
  · intro kept first' steps' body' spelled' padded' kept' different
    obtain ⟨vars, here, there⟩ := exists_vars_of_ne different
    refine ⟨_, _, vars, ?_, ?_, here, there⟩
    · exact (spelled.needs_iff padded).2 (spelled.keys_eq_iff.2 kept).symm
    · exact (spelled'.needs_iff padded').2 (spelled'.keys_eq_iff.2 kept').symm

namespace Sample

/-- A number between brackets, a quoted key with a blank and a closing bracket, and a name. -/
def fields : List Step := [.index ['0'], .quoted "first ]name".toList, .point "id".toList]

theorem isSpelling_fields : IsSpelling "users".toList fields where
  name := ⟨rfl, List.all_eq_true.1 rfl⟩
  free := by decide
  proper := by
    have digits : IsDigits ['0'] := ⟨List.cons_ne_nil _ _, List.forall_mem_singleton.2 (by decide)⟩
    have name : IsIdentifier "id".toList := ⟨rfl, List.all_eq_true.1 rfl⟩
    have quoted : "first ]name".toList ≠ [] ∧ '\'' ∉ "first ]name".toList ∧
        ¬ closing <:+: "first ]name".toList := by decide
    exact List.forall_mem_cons.2 ⟨digits, List.forall_mem_cons.2 ⟨quoted,
      List.forall_mem_singleton.2 (.inl name)⟩⟩

end Sample

theorem needs_spelling_iff_sample :
    IsSpelling "users".toList Sample.fields ∧
    Padded (spelling "users".toList Sample.fields) " users[0]['first ]name'].id ".toList ∧
    Needs Filter.names " users[0]['first ]name'].id ".toList
      ["users".toList, ['0'], "first ]name".toList, "id".toList] := by
  have padded : Padded (spelling "users".toList Sample.fields)
      " users[0]['first ]name'].id ".toList := padded_of_trim (by decide +kernel)
  have kept : ∀ s ∈ Sample.fields, s.IsKept := by
    have quoted : '.' ∉ "first ]name".toList ∧ '[' ∉ "first ]name".toList := by decide
    exact List.forall_mem_cons.2 ⟨trivial, List.forall_mem_cons.2 ⟨quoted,
      List.forall_mem_singleton.2 trivial⟩⟩
  obtain ⟨-, needs, -⟩ := needs_spelling_iff Sample.isSpelling_fields padded
  exact ⟨Sample.isSpelling_fields, padded, needs.2 kept⟩

/-- A quoted key with a point is read as two keys, and its path as another one. -/
theorem quoted_key_cut :
    IsSpelling ['a'] [.quoted "b.c".toList] ∧
    convert Filter.names "\x7b\x7b a['b.c'] \x7d\x7d".toList =
      .ok ⟨"\x7b\x7ba.b.c\x7d\x7d".toList, [[['a'], ['b'], ['c']]]⟩ ∧
    convert Filter.names "\x7b\x7b a['b.c'] \x7d\x7d".toList =
      convert Filter.names "\x7b\x7b a.b.c \x7d\x7d".toList := by
  refine ⟨⟨⟨rfl, List.all_eq_true.1 rfl⟩, by decide, ?_⟩, by decide +kernel, by decide +kernel⟩
  exact List.forall_mem_singleton.2 (show _ ∧ _ ∧ _ by decide)

end Fleet.Template
