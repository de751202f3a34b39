/-
# Spaces in overrides

An override is read from its words, and the empty words between spaces that follow one another
belong to its positional part. That part puts a space between any two of its words, so one empty
word leaves it empty and each further one adds a space. An override of some fields with more spaces
than fields is therefore refused, and with no more of them it is read like the fields with single
spaces between them (`ofList_spaced_iff`).
-/

import Mathlib.Data.List.Count
import Fleet.Proofs.Playbook.Shorthand
import Fleet.Proofs.Tree.Override

namespace Fleet

/-! ## Lines with more spaces -/

namespace Text

/-- A line of some words, with spaces between them, and any number of them before the first word
and behind the last one. -/
inductive Spaced : List (List Char) → List Char → Prop
  | nil (n : Nat) : Spaced [] (List.replicate n ' ')
  | last (n : Nat) (word : List Char) : Spaced [word] (List.replicate n ' ' ++ word)
  | cons (n : Nat) (word : List Char) {words : List (List Char)} {line : List Char}
      (later : Spaced words line) :
      Spaced (word :: words) (List.replicate n ' ' ++ word ++ ' ' :: line)

/-- The words of a line: the parts between its spaces that are not empty. -/
def spacedWords (line : List Char) : List (List Char) :=
  (splitOn ' ' line).filter fun word => !word.isEmpty

/-- The spaces of a line beyond as many as there are words. -/
def surplus (words : List (List Char)) (line : List Char) : String :=
  String.ofList (List.replicate (line.count ' ' - words.length) ' ')

theorem spacedWords_append (before behind : List Char) :
    spacedWords (before ++ ' ' :: behind) = spacedWords before ++ spacedWords behind := by
  rw [spacedWords, splitOn_append, List.filter_append]
  rfl

@[simp] theorem spacedWords_spaces_append (n : Nat) (cs : List Char) :
    spacedWords (List.replicate n ' ' ++ cs) = spacedWords cs := by
  induction n with
  | zero => rfl
  | succ n ih =>
      rw [List.replicate_succ, List.cons_append]
      exact (spacedWords_append [] _).trans ih

theorem spacedWords_of_not_mem {word : List Char} (some_ : word ≠ []) (single : ' ' ∉ word) :
    spacedWords word = [word] := by
  rw [spacedWords, splitOn_of_not_mem single, List.filter_cons_of_pos (by simpa using some_)]
  rfl

/-- The words of a line do not depend on the number of spaces between them. -/
theorem Spaced.spacedWords_eq {list : List (List Char)} {line : List Char}
    (spaced : Spaced list line) (some_ : ∀ word ∈ list, word ≠ [])
    (single : ∀ word ∈ list, ' ' ∉ word) :
    spacedWords line = list := by
  induction spaced with
  | nil n =>
      have all := spacedWords_spaces_append n []
      rwa [List.append_nil] at all
  | last n word =>
      rw [spacedWords_spaces_append]
      exact spacedWords_of_not_mem (some_ word List.mem_cons_self) (single word List.mem_cons_self)
  | @cons n word list line later ih =>
      obtain ⟨some_, more⟩ := List.forall_mem_cons.1 some_
      obtain ⟨single, apart⟩ := List.forall_mem_cons.1 single
      rw [spacedWords_append, spacedWords_spaces_append, spacedWords_of_not_mem some_ single,
        ih more apart]
      rfl

theorem spaced_join (list : List (List Char)) : Spaced list (join [' '] list) := by
  induction list with
  | nil => exact .nil 0
  | cons word list ih =>
      cases list with
      | nil => exact .last 0 word
      | cons next list =>
          have spaced := Spaced.cons 0 word ih
          rw [List.replicate_zero, List.nil_append] at spaced
          rwa [join_cons_cons, List.append_assoc, List.singleton_append]

/-- Single spaces between words are fewer than the words. -/
theorem count_join_le {list : List (List Char)} (single : ∀ word ∈ list, ' ' ∉ word) :
    (join [' '] list).count ' ' ≤ list.length := by
  induction list with
  | nil => exact Nat.le_refl 0
  | cons word list ih =>
      obtain ⟨single, apart⟩ := List.forall_mem_cons.1 single
      have none_ := List.count_eq_zero.2 single
      cases list with
      | nil =>
          change word.count ' ' ≤ 1
          omega
      | cons next list =>
          have later := ih apart
          rw [join_cons_cons, List.count_append, List.count_append, none_,
            List.count_singleton_self, List.length_cons]
          omega

end Text

namespace Shorthand

variable {line : List Char}

/-- Of the parts of a line, the words alone write arguments. -/
theorem filterMap_binding?_splitOn (line : List Char) :
    (Text.splitOn ' ' line).filterMap binding? = (Text.spacedWords line).filterMap binding? := by
  rw [Text.spacedWords, List.filterMap_filter]
  refine List.filterMap_congr fun word _ => ?_
  cases word <;> rfl

/-- Where all words of a line are pairs, its positional part is made of the empty parts. -/
theorem positional_of_pairs (pairs : ∀ word ∈ Text.spacedWords line, (pair? word).isNone = false) :
    (Text.splitOn ' ' line).filter (fun word => (pair? word).isNone) =
      List.replicate (line.count ' ' + 1 - (Text.spacedWords line).length) [] := by
  have same : ∀ word ∈ Text.splitOn ' ' line, (pair? word).isNone = word.isEmpty := by
    intro word member
    cases word with
    | nil => rfl
    | cons c word => exact pairs (c :: word) (List.mem_filter.2 ⟨member, rfl⟩)
  rw [List.filter_congr same, List.eq_replicate_iff]
  constructor
  · have all := List.length_eq_length_filter_add (l := Text.splitOn ' ' line) List.isEmpty
    rw [Text.length_splitOn] at all
    unfold Text.spacedWords
    omega
  · intro word member
    exact List.isEmpty_iff.1 (List.mem_filter.1 member).2

/-- What a line of pairs writes: its spaces show only where there are more of them than pairs. -/
theorem parse_of_pairs (pairs : ∀ word ∈ Text.spacedWords line, (pair? word).isNone = false) :
    parse (String.ofList line) =
      (Dict.ofList ((Text.spacedWords line).filterMap binding?)).insert positionalArg
        (.str (Text.surplus (Text.spacedWords line) line)) := by
  rw [parse_eq, String.toList_ofList, ofWords, filterMap_binding?_splitOn,
    positional_of_pairs pairs, Text.join_replicate_nil, Nat.sub_right_comm, Nat.add_sub_cancel]
  rfl

end Shorthand

/-! ## Overrides with more spaces -/

namespace Tree

variable {accounts : Accounts} {arg : String} {word line : List Char} {list : List (List Char)}

namespace Meta

/-- A field of an override as a word: one of its keys and a value without spaces. -/
def IsField (word : List Char) : Prop :=
  ∃ key ∈ keys, ∃ value, ' ' ∉ value ∧ word = key.toList ++ '=' :: value

theorem IsField.ne_nil (field : IsField word) : word ≠ [] := by
  obtain ⟨key, -, value, -, rfl⟩ := field
  exact List.append_ne_nil_of_right_ne_nil _ (List.cons_ne_nil _ _)

/-- No key of an override is empty or holds a space or an equals sign. -/
theorem plain_of_mem_keys {key : String} (among : key ∈ keys) :
    key ≠ "" ∧ ' ' ∉ key.toList ∧ '=' ∉ key.toList := by
  have all : ∀ key ∈ keys, key ≠ "" ∧ ' ' ∉ key.toList ∧ '=' ∉ key.toList := by decide
  exact all key among

theorem IsField.single (field : IsField word) : ' ' ∉ word := by
  obtain ⟨key, among, value, single, rfl⟩ := field
  obtain ⟨-, spaceless, -⟩ := plain_of_mem_keys among
  simp [spaceless, single]

/-- A field writes an argument under its key. -/
theorem IsField.exists_binding (field : IsField word) :
    ∃ key ∈ keys, ∃ j, Shorthand.binding? word = some (key, j) := by
  obtain ⟨key, among, value, -, rfl⟩ := field
  obtain ⟨some_, -, outside⟩ := plain_of_mem_keys among
  exact ⟨key, among, _, Shorthand.binding?_eq_some_iff.2 ⟨some_, outside, value, rfl, rfl⟩⟩

theorem IsField.isNone_pair? (field : IsField word) : (Shorthand.pair? word).isNone = false := by
  obtain ⟨key, -, j, binds⟩ := field.exists_binding
  rw [← Shorthand.isNone_binding?, binds]
  rfl

/-- A line of fields has no key but those of an override. -/
theorem unknownKey?_of_fields (fields : ∀ word ∈ Text.spacedWords line, IsField word) :
    unknownKey? (Shorthand.parse (String.ofList line)) = none := by
  rw [unknownKey?, List.find?_eq_none]
  intro k member
  by_cases same : k = positionalArg
  · simp [same]
  · obtain ⟨j, bound⟩ := Option.isSome_iff_exists.1 (Dict.contains_iff_mem_keys.2 member)
    rw [Shorthand.parse_eq, String.toList_ofList] at bound
    obtain ⟨word, part, binds⟩ := Shorthand.exists_of_get?_ofWords same bound
    have some_ : word.isEmpty = false := by
      cases word with
      | nil => cases binds
      | cons c word => rfl
    obtain ⟨key, among, j', binds'⟩ :=
      (fields word (List.mem_filter.2 ⟨part, by rw [some_]; rfl⟩)).exists_binding
    obtain rfl : k = key := (Prod.mk.inj (Option.some.inj (binds.symm.trans binds'))).1
    simp [among]

/-- Words behind the fields are refused before the fields are looked at. -/
theorem ofText_of_positional {spec extra : String}
    (known : unknownKey? (Shorthand.parse spec) = none)
    (given : given? (Shorthand.parse spec) positionalArg = some extra) :
    ofText accounts arg spec = .error (.invalidArgument arg s!"unexpected '{extra}'") := by
  unfold ofText
  dsimp only
  rw [known, given]
  rfl

/-- Fields with no more spaces than there are of them are read as if single spaces stood between
them. With more spaces they are refused, and what is said to be unexpected is the surplus. -/
theorem ofText_spaced (fields : ∀ word ∈ list, IsField word) (spaced : Text.Spaced list line) :
    ofText accounts arg (String.ofList line) =
      if line.count ' ' ≤ list.length then
        ofText accounts arg (String.ofList (Text.join [' '] list))
      else
        .error (.invalidArgument arg s!"unexpected '{Text.surplus list line}'") := by
  have words {line : List Char} (spaced : Text.Spaced list line) : Text.spacedWords line = list :=
    spaced.spacedWords_eq (fun word member => (fields word member).ne_nil)
      (fun word member => (fields word member).single)
  have parsed {line : List Char} (spaced : Text.Spaced list line) :
      Shorthand.parse (String.ofList line) =
        (Dict.ofList (list.filterMap Shorthand.binding?)).insert positionalArg
          (.str (Text.surplus list line)) := by
    have pairs : ∀ word ∈ Text.spacedWords line, (Shorthand.pair? word).isNone = false :=
      fun word member => (fields word (words spaced ▸ member)).isNone_pair?
    rw [Shorthand.parse_of_pairs pairs, words spaced]
  split
  · next few =>
      -- no space is left for the positional part of either line
      have fewer := Text.count_join_le fun word member => (fields word member).single
      have same : Shorthand.parse (String.ofList line) =
          Shorthand.parse (String.ofList (Text.join [' '] list)) := by
        rw [parsed spaced, parsed (Text.spaced_join list), Text.surplus, Text.surplus,
          Nat.sub_eq_zero_of_le few, Nat.sub_eq_zero_of_le fewer]
      unfold ofText
      rw [same]
  · next many =>
      refine ofText_of_positional (unknownKey?_of_fields (words spaced ▸ fields)) ?_
      have some_ : List.replicate (line.count ' ' - list.length) ' ' ≠ [] := by
        rw [ne_eq, List.replicate_eq_nil_iff]
        omega
      rw [given?, parsed spaced, Dict.get?_insert_self]
      simp [Json.asString?, Text.surplus, some_]

end Meta

namespace Overrides

variable {before behind : List (String × Json)} {o : Overrides}

/-- What an argument writes may be replaced by another text that writes the same. -/
theorem ofList_congr {value value' : Json}
    (same : ofArg accounts arg value = ofArg accounts arg value') :
    ofList accounts (before ++ (arg, value) :: behind) =
      ofList accounts (before ++ (arg, value') :: behind) := by
  unfold ofList
  simp only [List.filter_append, List.filter_cons]
  split
  · simp only [List.mapM_append, List.mapM_cons, same]
  · rfl

theorem isReadable_of_ofList (read : ofList accounts before = .ok o) :
    IsReadable accounts before := by
  obtain ⟨found, each, -⟩ := ofList_eq_ok_iff.1 read
  intro a member override
  obtain ⟨b, written⟩ := exists_mapM_iff.1 ⟨found, each⟩ a (List.mem_filter.2 ⟨member, override⟩)
  obtain ⟨spec, set, text, read, -⟩ := ofArg_eq_ok_iff.1 written
  exact ⟨spec, set, text, read⟩

/-- Among whatever other arguments, an override of some fields is accepted exactly if it has no more
spaces than fields and is accepted with single spaces between them, and it then comes to the
same. -/
theorem ofList_spaced_iff (override : isOverride arg = true)
    (fields : ∀ word ∈ list, Meta.IsField word) (spaced : Text.Spaced list line) :
    ofList accounts (before ++ (arg, .str (String.ofList line)) :: behind) = .ok o ↔
      line.count ' ' ≤ list.length ∧
        ofList accounts (before ++ (arg, .str (String.ofList (Text.join [' '] list))) :: behind) =
          .ok o := by
  have read : Meta.ofText accounts arg (String.ofList line) = _ := Meta.ofText_spaced fields spaced
  by_cases few : line.count ' ' ≤ list.length
  · rw [if_pos few] at read
    have same : ofArg accounts arg (.str (String.ofList line)) =
        ofArg accounts arg (.str (String.ofList (Text.join [' '] list))) := by
      unfold ofArg
      dsimp only
      rw [read]
    rw [ofList_congr same, and_iff_right few]
  · rw [if_neg few] at read
    refine ⟨fun accepted => ?_, fun spaces => absurd spaces.1 few⟩
    obtain ⟨spec, set, text, accepted⟩ :=
      isReadable_of_ofList accepted _ (List.mem_append_right _ List.mem_cons_self) override
    rw [← Json.str.inj text, read] at accepted
    cases accepted

namespace Sample

/-- A mask and an owner. -/
def fields : List (List Char) := ["umask=022".toList, "owner=7".toList]

theorem isField_fields : ∀ word ∈ fields, Meta.IsField word := by
  refine List.forall_mem_cons.2 ⟨⟨"umask", by decide, "022".toList, by decide, rfl⟩, ?_⟩
  exact List.forall_mem_singleton.2 ⟨"owner", by decide, "7".toList, by decide, rfl⟩

theorem ofList_spaced_sample : isOverride "/a" = true ∧ (∀ word ∈ fields, Meta.IsField word) ∧
    Text.Spaced fields " umask=022 owner=7".toList ∧
    ofList {} ([("src", .str "site")] ++ ("/a", .str " umask=022 owner=7") :: []) =
      .ok ⟨[("/a", ⟨some 7, none, some 0o022, []⟩)]⟩ := by
  have spaced : Text.Spaced fields " umask=022 owner=7".toList := .cons 1 _ (.last 0 _)
  exact ⟨rfl, isField_fields, spaced,
    (ofList_spaced_iff rfl isField_fields spaced).2 ⟨by decide, by decide +kernel⟩⟩

/-- With two spaces to spare, what single spaces make an override is refused. -/
theorem surplus_refused : (∀ word ∈ fields, Meta.IsField word) ∧
    Text.Spaced fields "umask=022   owner=7".toList ∧
    ofList {} [("/a", .str (String.ofList (Text.join [' '] fields)))] =
      .ok ⟨[("/a", ⟨some 7, none, some 0o022, []⟩)]⟩ ∧
    ofList {} [("/a", .str "umask=022   owner=7")] =
      .error (.invalidArgument "/a" "unexpected ' '") := by
  refine ⟨isField_fields, .cons 0 _ (.last 2 _), ?_, ?_⟩
  · decide +kernel
  · decide +kernel

end Sample

end Overrides

end Tree

end Fleet
